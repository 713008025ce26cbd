import TaggedOutline.Pattern.Ends
import TaggedOutline.Text.Number

/-!
# The written form of patterns

`Pattern.ofText?` reads a pattern: literals, `.`, sets in brackets with ranges and set operations,
groups, choices, repetitions with their lazy forms and counted bounds, `^`, `$`, `\b`, the classes
`\d`, `\s`, `\w`, characters by code point, and the flags `i`, `s`, `m`, `U` and `x`.  Looking
around and referring back are not part of the form, and neither are Unicode classes by name (`\pL`),
named word edges, the flag `u` and a bound on the size of what is read.  No result about lexers or
locators depends on this choice; they are about any `Matcher.Reader`.

Reading goes from left to right over a stack of open groups (`Draft`); each step takes at least one
character, which is why it ends.
-/

namespace TaggedOutline

namespace Pattern

/-- The flags that govern how the next piece of a pattern is read. -/
structure Flags where
  ignoreCase : Bool := false
  dotAll : Bool := false
  everyLine : Bool := false
  swapGreed : Bool := false
  spaced : Bool := false
deriving DecidableEq, Repr

/-! ## Escapes -/

/-- What a backslash and the characters after it stand for. -/
inductive Escape where
  | literal (c : Char)
  | class (s : CharSet)
  | place (p : Pattern)

/-- A character by code point: `width` digits, or any number of them in braces. -/
def hexEscape? (width : Nat) (t : Text) : Option (Char × Text) :=
  match t with
  | '\x7b' :: rest =>
    let digits := rest.takeWhile (· != '\x7d')
    match rest.dropWhile (· != '\x7d') with
    | _ :: after => do
      let n ← Text.digitsIn? 16 digits
      if digits.length > 8 then none else return (← Text.codePoint? n, after)
    | [] => none
  | _ =>
    let digits := t.take width
    if digits.length < width then none
    else do return (← Text.codePoint? (← Text.digitsIn? 16 digits), t.drop width)

/-- The characters that stand for themselves after a backslash. -/
def isEscapable (c : Char) : Bool :=
  c.toNat < 0x80 && !c.isAlphanum && c != '<' && c != '>'

/-- Reads what follows a backslash. -/
def escape? : Text → Option (Escape × Text)
  | [] => none
  | 'x' :: rest => (hexEscape? 2 rest).map fun (c, r) => (.literal c, r)
  | 'u' :: rest => (hexEscape? 4 rest).map fun (c, r) => (.literal c, r)
  | 'U' :: rest => (hexEscape? 8 rest).map fun (c, r) => (.literal c, r)
  | 'd' :: rest => some (.class (.named .digit), rest)
  | 'D' :: rest => some (.class (.compl (.named .digit)), rest)
  | 's' :: rest => some (.class (.named .blank), rest)
  | 'S' :: rest => some (.class (.compl (.named .blank)), rest)
  | 'w' :: rest => some (.class (.named .word), rest)
  | 'W' :: rest => some (.class (.compl (.named .word)), rest)
  | 'a' :: rest => some (.literal '\x07', rest)
  | 'f' :: rest => some (.literal '\x0c', rest)
  | 't' :: rest => some (.literal '\t', rest)
  | 'n' :: rest => some (.literal '\n', rest)
  | 'r' :: rest => some (.literal '\r', rest)
  | 'v' :: rest => some (.literal '\x0b', rest)
  | 'A' :: rest => some (.place (.start false), rest)
  | 'z' :: rest => some (.place (.finish false), rest)
  | 'b' :: rest => some (.place (.wordEdge true), rest)
  | 'B' :: rest => some (.place (.wordEdge false), rest)
  | c :: rest => if isEscapable c then some (.literal c, rest) else none

/-! ## Sets in brackets -/

/-- The operations that join two sets inside brackets. -/
inductive SetOp where
  | inter
  | diff
  | symmDiff

/-- The set that an operation makes of its two sides. -/
def SetOp.apply : SetOp → CharSet → CharSet → CharSet
  | inter, s, t => .inter s t
  | diff, s, t => .diff s t
  | symmDiff, s, t => .union (.diff s t) (.diff t s)

/-- A bracket that is still open: whether it is negated, the left side of an operation that waits
for its right side, and the union of the items read since. -/
structure OpenSet where
  negated : Bool
  waiting : Option (SetOp × CharSet) := none
  items : CharSet := .none

namespace OpenSet

/-- The bracket with one more item. -/
def add (o : OpenSet) (s : CharSet) : OpenSet := { o with items := .union o.items s }

/-- The value of what stands in the bracket so far. -/
def settle (o : OpenSet) : CharSet :=
  match o.waiting with
  | none => o.items
  | some (op, left) => op.apply left o.items

/-- The bracket after an operator. -/
def operator (o : OpenSet) (op : SetOp) : OpenSet :=
  { o with waiting := some (op, o.settle), items := .none }

/-- The set of the closed bracket. -/
def close (o : OpenSet) : CharSet := if o.negated then .compl o.settle else o.settle

end OpenSet

/-- The set of characters with a name in `[:name:]`. -/
def asciiClass? (name : String) : Option CharSet :=
  let r := CharSet.range
  let letters := CharSet.union (r 'a' 'z') (r 'A' 'Z')
  let alnum := CharSet.union letters (r '0' '9')
  match name with
  | "alnum" => some alnum
  | "alpha" => some letters
  | "ascii" => some (r '\x00' '\x7f')
  | "blank" => some (.ofList [' ', '\t'])
  | "cntrl" => some (.union (r '\x00' '\x1f') (.single '\x7f'))
  | "digit" => some (r '0' '9')
  | "graph" => some (r '!' '~')
  | "lower" => some (r 'a' 'z')
  | "print" => some (r ' ' '~')
  | "punct" => some (.diff (r '!' '~') alnum)
  | "space" => some (.union (r '\t' '\r') (.single ' '))
  | "upper" => some (r 'A' 'Z')
  | "word" => some (.union alnum (.single '_'))
  | "xdigit" => some (.union (r '0' '9') (.union (r 'a' 'f') (r 'A' 'F')))
  | _ => none

/-- Reads `:name:]` or `:^name:]`, the part of a named class after its opening bracket. -/
def namedClass? : Text → Option (CharSet × Text)
  | ':' :: rest =>
    let (negated, rest) := match rest with
      | '^' :: r => (true, r)
      | r => (false, r)
    let name := rest.takeWhile Char.isAlpha
    match rest.dropWhile Char.isAlpha with
    | ':' :: ']' :: after =>
      (asciiClass? (String.ofList name)).map fun s => (if negated then .compl s else s, after)
    | _ => none
  | _ => none

/-- Reads what follows an opening bracket up to the first item: the negation, leading hyphens, and a
closing bracket in first place, which stands for itself. -/
def openSet (rest : Text) : OpenSet × Text :=
  let (negated, rest) := match rest with
    | '^' :: r => (true, r)
    | r => (false, r)
  let hyphens := rest.takeWhile (· == '-')
  let rest := rest.dropWhile (· == '-')
  let o : OpenSet := { negated }
  if hyphens.isEmpty then
    match rest with
    | ']' :: r => (o.add (.single ']'), r)
    | r => (o, r)
  else (o.add (.single '-'), rest)

/-- Reads one item of a bracket, a character or a class. -/
def setItem? : Text → Option (Escape × Text)
  | [] => none
  | '\\' :: rest => escape? rest
  | c :: rest => some (.literal c, rest)

/-- Reads one item or a range of two characters. -/
def setRange? (foldCase : Bool) (t : Text) : Option (CharSet × Text) :=
  let cased (s : CharSet) : CharSet := if foldCase then .anyCase s else s
  match setItem? t with
  | none => none
  | some (.place _, _) => none
  | some (.class s, rest) =>
    match rest with
    | '-' :: ']' :: _ | '-' :: '-' :: _ => some (s, rest)
    | '-' :: _ => none
    | _ => some (s, rest)
  | some (.literal c, rest) =>
    match rest with
    | '-' :: ']' :: _ | '-' :: '-' :: _ => some (cased (.single c), rest)
    | '-' :: rest =>
      match setItem? rest with
      | some (.literal d, rest) => if c ≤ d then some (cased (.range c d), rest) else none
      | _ => none
    | _ => some (cased (.single c), rest)

/-- Where reading inside brackets stands after one item. -/
inductive SetProgress where
  | closed (s : CharSet) (rest : Text)
  | within (outer : List OpenSet) (o : OpenSet) (rest : Text)

/-- Reads the next item inside brackets; `outer` are the brackets around the innermost one. -/
def setStep? (foldCase : Bool) (outer : List OpenSet) (o : OpenSet) : Text → Option SetProgress
  | [] => none
  | ']' :: rest =>
    match outer with
    | [] => some (.closed o.close rest)
    | up :: outer => some (.within outer (up.add o.close) rest)
  | '&' :: '&' :: rest => some (.within outer (o.operator .inter) rest)
  | '-' :: '-' :: rest => some (.within outer (o.operator .diff) rest)
  | '~' :: '~' :: rest => some (.within outer (o.operator .symmDiff) rest)
  | '[' :: rest =>
    match namedClass? rest with
    | some (s, rest) => some (.within outer (o.add (if foldCase then .anyCase s else s)) rest)
    | none =>
      let (inner, rest) := openSet rest
      some (.within (o :: outer) inner rest)
  | t => (setRange? foldCase t).map fun (s, rest) => .within outer (o.add s) rest

/-- Reads on inside brackets up to the one that closes the outermost of them. -/
def setRest? (foldCase : Bool) (outer : List OpenSet) (o : OpenSet) (t : Text) :
    Option (CharSet × Text) :=
  match setStep? foldCase outer o t with
  | none => none
  | some (.closed s rest) => some (s, rest)
  | some (.within outer o rest) =>
    if _ : rest.length < t.length then setRest? foldCase outer o rest else none
termination_by t.length

/-! ## Groups and repetitions -/

/-- A piece of a branch: a pattern, or a change of flags, which cannot be repeated. -/
inductive Piece where
  | pattern (p : Pattern)
  | flags

/-- A group that is still open, with its finished branches and the pieces of the current one, latest
first, and the flags that hold again after it. -/
structure OpenGroup where
  branches : List Pattern := []
  pieces : List Piece := []
  flagsAfter : Flags := {}

namespace OpenGroup

/-- The pattern of the current branch. -/
def branch (g : OpenGroup) : Pattern :=
  inOrder <| g.pieces.reverse.filterMap fun
    | .pattern p => some p
    | .flags => none

/-- The pattern of the whole group. -/
def close (g : OpenGroup) : Pattern := g.branches.foldl (fun later b => alt b later) g.branch

/-- The group with one more piece. -/
def add (g : OpenGroup) (p : Pattern) : OpenGroup := { g with pieces := .pattern p :: g.pieces }

/-- The group with its last piece changed, if that is a pattern. -/
def mapLast (g : OpenGroup) (f : Pattern → Pattern) : Option OpenGroup :=
  match g.pieces with
  | .pattern p :: before => some { g with pieces := .pattern (f p) :: before }
  | _ => none

end OpenGroup

/-- A pattern that is being read: the innermost open group, the groups around it, the flags in force
and the names of groups so far. -/
structure Draft where
  group : OpenGroup := {}
  outer : List OpenGroup := []
  flags : Flags := {}
  names : List Text := []

namespace Draft

/-- The draft with one more pattern in the innermost group. -/
def add (d : Draft) (p : Pattern) : Draft := { d with group := d.group.add p }

/-- The draft inside a new group with its own flags. -/
def enter (d : Draft) (flags : Flags) : Draft :=
  { d with group := { flagsAfter := d.flags }, outer := d.group :: d.outer, flags }

/-- The draft after the innermost group. -/
def leave (d : Draft) : Option Draft :=
  match d.outer with
  | [] => none
  | up :: outer =>
    some { d with group := up.add d.group.close, outer, flags := d.group.flagsAfter }

/-- The draft with the last pattern repeated; a question mark right after makes it lazy. -/
def repeated (d : Draft) (f : Bool → Pattern → Pattern) (rest : Text) : Option (Draft × Text) :=
  let (lazily, rest) := match rest with
    | '?' :: r => (true, r)
    | r => (false, r)
  (d.group.mapLast (f (lazily == d.flags.swapGreed))).map fun g => ({ d with group := g }, rest)

/-- The pattern of one character under the flags in force. -/
def charPattern (d : Draft) (c : Char) : Pattern :=
  one (if d.flags.ignoreCase then .anyCase (.single c) else .single c)

end Draft

/-- Reads a decimal number with blank characters around it. -/
def decimal? (t : Text) : Option (Nat × Text) :=
  let t := Text.trimStart t
  let digits := t.takeWhile Char.isDigit
  if digits.isEmpty then none
  else
    let n := digits.foldl (fun n c => n * 10 + (c.toNat - '0'.toNat)) 0
    if n < Nat.pow 2 32 then some (n, Text.trimStart (t.dropWhile Char.isDigit)) else none

/-- Reads the bounds of a counted repetition after its brace: the least count, the largest count if
there is one, and the text after the closing brace. -/
def bounds? (t : Text) : Option (Nat × Option Nat × Text) := do
  let (least, rest) ← decimal? t
  match rest with
  | '\x7d' :: after => return (least, some least, after)
  | ',' :: '\x7d' :: after => return (least, none, after)
  | ',' :: rest =>
    let (most, rest) ← decimal? rest
    match rest with
    | '\x7d' :: after => if least ≤ most then return (least, some most, after) else none
    | _ => none
  | _ => none

/-- The repetition with the given bounds. -/
def between (least : Nat) (most : Option Nat) (greedy : Bool) (p : Pattern) : Pattern :=
  match most with
  | none => seq (times least p) (star greedy p)
  | some most => seq (times least p) (atMost greedy p (most - least))

/-- Reads flags up to the colon or the closing parenthesis, which is given back with the rest. -/
def flags? (fl : Flags) (seen : List Char) (negated : Bool) : Text → Option (Flags × Char × Text)
  | [] => none
  | c :: rest =>
    if c = ':' ∨ c = ')' then
      if seen.head? = some '-' ∨ (c = ')' ∧ seen.isEmpty) then none else some (fl, c, rest)
    else if seen.contains c then none
    else
      let on := !negated
      match c with
      | '-' => flags? fl ('-' :: seen) true rest
      | 'i' => flags? { fl with ignoreCase := on } ('i' :: seen) negated rest
      | 's' => flags? { fl with dotAll := on } ('s' :: seen) negated rest
      | 'm' => flags? { fl with everyLine := on } ('m' :: seen) negated rest
      | 'U' => flags? { fl with swapGreed := on } ('U' :: seen) negated rest
      | 'x' => flags? { fl with spaced := on } ('x' :: seen) negated rest
      | 'u' => flags? fl ('u' :: seen) negated rest
      | 'R' => flags? fl ('R' :: seen) negated rest
      | _ => none

/-- Reads the name of a group and the angle bracket after it. -/
def groupName? (names : List Text) (t : Text) : Option (Text × Text) :=
  let name := t.takeWhile (· != '>')
  match name, t.dropWhile (· != '>') with
  | c :: more, _ :: after =>
    let inName (d : Char) : Bool := Text.isWordChar d || d == '.' || d == '[' || d == ']'
    if (c == '_' || (Text.isWordChar c && !Text.isDigitChar c)) && more.all inName &&
      !names.contains name then some (name, after) else none
  | _, _ => none

/-- Reads on after an opening parenthesis. -/
def group? (d : Draft) : Text → Option (Draft × Text)
  | '?' :: '=' :: _ | '?' :: '!' :: _ | '?' :: '<' :: '=' :: _ | '?' :: '<' :: '!' :: _ => none
  | '?' :: 'P' :: '<' :: rest | '?' :: '<' :: rest => do
    let (name, rest) ← groupName? d.names rest
    return ({ d with names := name :: d.names }.enter d.flags, rest)
  | '?' :: rest => do
    let (fl, stop, rest) ← flags? d.flags [] false rest
    if stop = ':' then return (d.enter fl, rest)
    else
      let group := { d.group with pieces := .flags :: d.group.pieces }
      return ({ d with flags := fl, group }, rest)
  | rest => some (d.enter d.flags, rest)

/-- Reads the piece of a pattern that begins with the character `c`. -/
def step? (d : Draft) (c : Char) (rest : Text) : Option (Draft × Text) :=
  if d.flags.spaced && Text.isBlank c then some (d, rest)
  else if d.flags.spaced && c == '#' then some (d, rest.dropWhile (· != '\n'))
  else match c with
    | '(' => group? d rest
    | ')' => d.leave.map fun d => (d, rest)
    | '|' =>
      some ({ d with group := { d.group with
        branches := d.group.branch :: d.group.branches, pieces := [] } }, rest)
    | '[' => do
      let (o, after) := openSet rest
      let (s, after) ← setRest? d.flags.ignoreCase [] o after
      return (d.add (one s), after)
    | '*' => d.repeated star rest
    | '+' => d.repeated plus rest
    | '?' => d.repeated optional rest
    | '\x7b' => do
      let (least, most, after) ← bounds? rest
      d.repeated (between least most) after
    | '\\' => do
      let (e, after) ← escape? rest
      match e with
      | .literal c => return (d.add (d.charPattern c), after)
      | .class s => return (d.add (one s), after)
      | .place p => return (d.add p, after)
    | '.' => some (d.add (one (if d.flags.dotAll then .all else .compl (.single '\n'))), rest)
    | '^' => some (d.add (start d.flags.everyLine), rest)
    | '$' => some (d.add (finish d.flags.everyLine), rest)
    | c => some (d.add (d.charPattern c), rest)

/-- Reads the rest of a pattern. -/
def readFrom (d : Draft) (t : Text) : Option Pattern :=
  match t with
  | [] => if d.outer.isEmpty then some d.group.close else none
  | c :: rest =>
    match step? d c rest with
    | none => none
    | some (d, after) => if _ : after.length ≤ rest.length then readFrom d after else none
termination_by t.length
decreasing_by simp; omega

/-- The pattern with a written form, if the form is one. -/
def ofText? (t : Text) : Option Pattern := readFrom {} t

/-- The reader of the written forms described here. -/
def reader : Matcher.Reader := fun t => (ofText? t).map matcher

end Pattern

end TaggedOutline
