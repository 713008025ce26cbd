import TaggedOutline.Document.Json.Lexeme
import TaggedOutline.Document.Shape

/-!
# Reading JSON

A document is read from its lexemes from left to right, and the first thing that is wrong is its
fault.  `Json.read` looks for a record: what has a place in the record has to be of the right kind,
and what has none is passed over.  Lists and maps nest at most `maxLevels` deep where they are
looked at.
-/

namespace TaggedOutline

namespace Document

namespace Json

/-- Something that takes lexemes from the front. -/
abbrev Reader := StateT (List Lexeme) (Except Fault)

/-- How deep lists and maps nest. -/
def maxLevels : Nat := 127

namespace Lexeme

/-- Whether a lexeme is a mark. -/
def isMark (c : Char) : Lexeme → Bool
  | .mark d => c == d
  | _ => false

/-- The fault of a lexeme that stands where another kind of value is looked for. -/
def otherKind : Lexeme → Fault
  | .mark '[' => .mismatch
  | .mark '\x7b' => .mismatch
  | .mark _ => .malformed
  | .string (.error f) => f
  | .number _ false => .malformed
  | .broken _ f _ => f
  | _ => .mismatch

end Lexeme

namespace Reader

/-- Fails. -/
def fail {α : Type} (f : Fault) : Reader α := fun _ => .error f

/-- The next lexeme, which stays. -/
def peek? : Reader (Option Lexeme) := do return (← get).head?

/-- Takes the next lexeme away. -/
def drop : Reader Unit := modify List.tail

/-- Takes the next lexeme; a document that ends here is cut off. -/
def take : Reader Lexeme := do
  match ← get with
  | [] => fail .truncated
  | l :: rest => set rest; return l

/-- Takes a mark that has to be there. -/
def mark (c : Char) : Reader Unit := do
  if (← take).isMark c then return () else fail .malformed

/-! ## Lists and maps -/

/-- Whether another item of a list follows.  The comma in front of it is taken away. -/
def moreItems (first : Bool) : Reader Bool := do
  match ← peek? with
  | none => fail .truncated
  | some l =>
    if l.isMark ']' then return false
    else if first then return true
    else if l.isMark ',' then
      drop
      match ← peek? with
      | none => fail .truncated
      | some l => if l.isMark ']' then fail .malformed else return true
    else fail .malformed

/-- The key of the next entry of a map, if another one follows. -/
def nextKey? (first : Bool) : Reader (Option Text) := do
  let key : Reader (Option Text) := do
    match ← take with
    | .string (.ok t) => return some t
    | .string (.error f) => fail f
    | .broken '"' f _ => fail f
    | _ => fail .malformed
  match ← peek? with
  | none => fail .truncated
  | some l =>
    if l.isMark '\x7d' then return none
    else if first then key
    else if l.isMark ',' then drop; key
    else fail .malformed

/-- The items of a list behind its opening bracket, at most a number of them. -/
def items {α : Type} (item : Reader α) : Nat → Bool → Reader (List α)
  | 0, _ => fail .truncated
  | n + 1, first => do
    if ← moreItems first then
      let a ← item
      return a :: (← items item n false)
    else
      drop
      return []

/-- The entries of a map behind its opening brace, at most a number of them. -/
def entries {α : Type} (entry : Text → Reader α) : Nat → Bool → Reader (List α)
  | 0, _ => fail .truncated
  | n + 1, first => do
    match ← nextKey? first with
    | some key =>
      let a ← entry key
      return a :: (← entries entry n false)
    | none =>
      drop
      return []

/-- A bound for the number of items: no more than there are lexemes. -/
def bound : Reader Nat := do return (← get).length + 1

/-! ## Values of any kind -/

/-- A value of any kind, given how to read what is inside a list or a map, if they may nest. -/
def valueWith (inside : Option (Reader Value)) : Reader Value := do
  match ← take with
  | .null => return .null
  | .bool b => return .bool b
  | .number v true => return v
  | .string (.ok t) => return .text t
  | .mark '[' =>
    match inside with
    | none => fail .malformed
    | some value => return .list (← items value (← bound) true)
  | .mark '\x7b' =>
    match inside with
    | none => fail .malformed
    | some value =>
      let entry (key : Text) : Reader (Value × Value) := do
        mark ':'
        return (.text key, ← value)
      return .map (← entries entry (← bound) true)
  | l => fail l.otherKind

/-- A value of any kind, with lists and maps at most a number of levels deep. -/
def anyValue : Nat → Reader Value
  | 0 => valueWith none
  | levels + 1 => valueWith (some (anyValue levels))

/-! ## Passing over -/

/-- What has to follow inside the lists and maps that are open. -/
inductive Expecting where
  | value
  /-- A value, or the end of a list that has no items. -/
  | firstItem
  /-- A key. -/
  | key
  /-- A key, or the end of a map that has no entries. -/
  | firstKey
  | colon
  /-- A comma or the end of what is open. -/
  | next

/-- Passes over a value of any kind, with the lists (`true`) and maps (`false`) that are open. -/
def pass : List Lexeme → Expecting → List Bool → Except Fault (List Lexeme)
  | rest, .next, [] => .ok rest
  | [], _, _ => .error .truncated
  | l :: rest, .colon, stack =>
    if l.isMark ':' then pass rest .value stack else .error .malformed
  | l :: rest, .next, true :: stack =>
    if l.isMark ',' then pass rest .value (true :: stack)
    else if l.isMark ']' then pass rest .next stack
    else .error .malformed
  | l :: rest, .next, false :: stack =>
    if l.isMark ',' then pass rest .key (false :: stack)
    else if l.isMark '\x7d' then pass rest .next stack
    else .error .malformed
  | l :: rest, expecting, stack =>
    let asKey : Except Fault (List Lexeme) :=
      match l with
      | .string _ => pass rest .colon stack
      | .broken '"' _ f => .error f
      | _ => .error .malformed
    let asValue : Except Fault (List Lexeme) :=
      match l with
      | .mark '[' => pass rest .firstItem (true :: stack)
      | .mark '\x7b' => pass rest .firstKey (false :: stack)
      | .mark _ => .error .malformed
      | .broken _ _ f => .error f
      | _ => pass rest .next stack
    match expecting with
    | .key => asKey
    | .firstKey => if l.isMark '\x7d' then pass rest .next stack.tail else asKey
    | .firstItem => if l.isMark ']' then pass rest .next stack.tail else asValue
    | _ => asValue

/-- Passes over a value of any kind. -/
def passValue : Reader Unit := fun ls => (pass ls .value []).map ((), ·)

/-! ## Values that are looked for -/

/-- A text. -/
def text : Reader Text := do
  match ← take with
  | .string (.ok t) => return t
  | l => fail l.otherKind

/-- A truth value. -/
def flag : Reader Bool := do
  match ← take with
  | .bool b => return b
  | l => fail l.otherKind

/-- A text, or nothing.  Whatever begins like the word for nothing has to be that word. -/
def optionalText : Reader Value := do
  match ← peek? with
  | some .null => drop; return .null
  | _ => return .text (← text)

/-- Opens a list, given what to do with its items one level deeper. -/
def openList {α : Type} (levels : Nat) (inside : Nat → Reader α) : Reader α := do
  let l ← take
  if l.isMark '[' then
    match levels with
    | 0 => fail .malformed
    | levels + 1 => inside levels
  else fail l.otherKind

/-- A list of two texts. -/
def pair (levels : Nat) : Reader Value :=
  openList levels fun _ => do
    unless ← moreItems true do fail .mismatch
    let a ← text
    unless ← moreItems false do fail .mismatch
    let b ← text
    mark ']'
    return .list [.text a, .text b]

/-- A value of a shape, with `record` for the record that the shape is part of. -/
def shaped (record : Nat → Reader Value) : Nat → Shape → Reader Value
  | _, .text => do return .text (← text)
  | _, .flag => do return .bool (← flag)
  | _, .optionalText => optionalText
  | levels, .pair => pair levels
  | levels, .value accept => do
    let v ← anyValue levels
    if accept v then return v else fail .mismatch
  | levels, .self => record levels
  | levels, .list item =>
    openList levels fun levels => do
      return .list (← items (shaped record levels item) (← bound) true)

/-- The fields of a record that is a list, behind its opening bracket. -/
def listedFields (field : Shape → Reader Value) :
    List (Text × Shape) → Bool → Reader (List (Value × Value))
  | [], _ => do
    mark ']'
    return []
  | (name, shape) :: fields, first => do
    if ← moreItems first then
      let v ← field shape
      return (.text name, v) :: (← listedFields field fields false)
    else
      drop
      return []

/-- The fields of a record that is a map, behind its opening brace and the fields that have been
seen, at most a number of them. -/
def namedFields (r : Record) (field : Shape → Reader Value) :
    Nat → Bool → List Text → Reader (List (Value × Value))
  | 0, _, _ => fail .truncated
  | n + 1, first, seen => do
    match ← nextKey? first with
    | none =>
      drop
      return []
    | some key =>
      match r.shape? key with
      | none =>
        mark ':'
        passValue
        namedFields r field n false seen
      | some shape =>
        if seen.contains key then fail .mismatch
        mark ':'
        let v ← field shape
        return (.text key, v) :: (← namedFields r field n false (key :: seen))

/-- A record, with records inside it at most a number deep. -/
def recordWithin (r : Record) : Nat → Nat → Reader Value
  | 0, _ => fail .malformed
  | depth + 1, levels => do
    let l ← take
    let inside (fields : (Shape → Reader Value) → Reader (List (Value × Value))) : Reader Value :=
      match levels with
      | 0 => fail .malformed
      | levels + 1 => do
        let found ← fields (shaped (recordWithin r depth) levels)
        if found.any (·.1.isText r.needed) then return .map found else fail .mismatch
    if l.isMark '[' then inside (listedFields · r.fields true)
    else if l.isMark '\x7b' then
      let n ← bound
      inside (namedFields r · n true [])
    else fail l.otherKind

end Reader

/-- The fields of the record that a text holds. -/
def read (r : Record) (t : Text) : Except Fault Value := do
  let (v, rest) ← Reader.recordWithin r (maxLevels + 1) maxLevels (lexemes t)
  if rest.isEmpty then return v else throw .malformed

end Json

end Document

end TaggedOutline
