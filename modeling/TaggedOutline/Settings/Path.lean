import TaggedOutline.Document.Value
import TaggedOutline.Text.Number

/-!
# Paths of settings

A path leads to one place in a document: a name, then names behind points and positions in brackets,
as in `layout.freeform_tags[0]`.  `Path.assign` puts a value there and makes maps and lists on the
way where there are none.  A map that is put where a map stands is merged into it key by key.
-/

namespace TaggedOutline

namespace Settings

open Document (Value)

/-- A step of a path. -/
inductive Step where
  | key (name : Text)
  /-- A position in a list, counted from its end if it is negative. -/
  | index (i : Int)
deriving DecidableEq, Repr

/-- A path from the outermost map. -/
abbrev Path := List Step

namespace Path

/-! ## Reading -/

/-- Whether a character may stand in a name. -/
def isNameChar (c : Char) : Bool := c.isAlphanum || c == ' ' || c == '_' || c == '-'

/-- Whether a character may stand around a position. -/
def isBlank (c : Char) : Bool := c == ' ' || c == '\t'

/-- A name at the front of a text, and what follows it. -/
def name? (t : Text) : Option (Text × Text) :=
  match t.span isNameChar with
  | ([], _) => none
  | (name, rest) => some (name, rest)

/-- A position at the front of a text, and what follows its closing bracket. -/
def position? (t : Text) : Option (Int × Text) := do
  let t := t.dropWhile isBlank
  let (sign, t) := t.span (· == '-')
  let (digits, t) := t.span Char.isDigit
  let i ← Text.int? 64 (sign ++ digits)
  match t.dropWhile isBlank with
  | ']' :: rest => some (i, rest)
  | _ => none

/-- At most a number of steps, up to the end of a text. -/
def stepsWithin : Nat → Text → Option Path
  | _, [] => some []
  | 0, _ => none
  | n + 1, '.' :: t => do
    let (name, rest) ← name? t
    return .key name :: (← stepsWithin n rest)
  | n + 1, '[' :: t => do
    let (i, rest) ← position? t
    return .index i :: (← stepsWithin n rest)
  | _, _ => none

/-- The path that a text writes. -/
def ofText? (t : Text) : Option Path := do
  let (name, rest) ← name? t
  return .key name :: (← stepsWithin rest.length rest)

/-! ## Putting values -/

/-- The entries of a map; anything else has none. -/
def entriesOf : Value → List (Value × Value)
  | .map entries => entries
  | _ => []

/-- Changes what a key of a map stands for.  A new key stands for nothing before. -/
def changeEntry (name : Text) (change : Value → Value) :
    List (Value × Value) → List (Value × Value)
  | [] => [(.text name, change .null)]
  | (key, v) :: entries =>
    if key.isText name then (key, change v) :: entries
    else (key, v) :: changeEntry name change entries

/-- Changes what stands under a key, in a map that is made if there is none. -/
def changeKey (name : Text) (change : Value → Value) (target : Value) : Value :=
  .map (changeEntry name change (entriesOf target))

/-- Changes what stands at a position, in a list that is made if there is none and filled up to the
position with nothing. -/
def changeIndex (i : Int) (change : Value → Value) (target : Value) : Value :=
  let items := match target with
    | .list items => items
    | _ => []
  let position := if 0 ≤ i then i.toNat else items.length - i.natAbs
  let filled := items ++ List.replicate (position + 1 - items.length) .null
  .list (filled.modify position change)

/-- A letter of a key that is put, as a small letter. -/
def smallLetter (c : Char) : Char := if c = '\u212a' then 'k' else c.toLower

/-- The value, or a map without entries in place of nothing. -/
def orEmptyMap : Value → Value
  | .null => .map []
  | v => v

mutual

/-- Puts a value under a key, in small letters.  A map is merged into the map that stands there. -/
def put (name : Text) : Value → Value → Value
  | .map incoming, target =>
    target |> changeKey (name.map smallLetter) fun existing =>
      putAll incoming (orEmptyMap existing)
  | v, target => changeKey (name.map smallLetter) (fun _ => v) target

/-- Puts the entries of a map one after the other. -/
def putAll : List (Value × Value) → Value → Value
  | [], target => target
  | (.text name, v) :: entries, target => putAll entries (put name v target)
  | _ :: entries, target => putAll entries target

end

/-- Puts a value at the end of a path. -/
def assign (v : Value) : Path → Value → Value
  | [], _ => v
  | [.key name], target => put name v target
  | .key name :: path, target => changeKey name (assign v path) target
  | .index i :: path, target => changeIndex i (assign v path) target

end Path

end Settings

end TaggedOutline
