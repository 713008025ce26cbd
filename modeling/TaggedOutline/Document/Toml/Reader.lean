import TaggedOutline.Document.Toml.Moment
import TaggedOutline.Document.Toml.Number
import TaggedOutline.Document.Toml.Quoted
import TaggedOutline.Document.Toml.Table
import TaggedOutline.Text.Lines

/-!
# Reading TOML

A document is a run of lines: headers of tables and keys with their values, with blank lines and
comments between them.  `Toml.read?` reads it from left to right into one table.  Lists and tables
in braces nest at most `maxLevels` deep, and a key has at most as many parts.
-/

namespace TaggedOutline

namespace Document

namespace Toml

/-- Something that takes characters from the front. -/
abbrev Reader := StateT Text Option

/-- How deep values nest, and how many parts a key has. -/
def maxLevels : Nat := 79

namespace Reader

/-- Fails. -/
def fail {α : Type} : Reader α := fun _ => none

/-- The next character, which stays. -/
def peek? : Reader (Option Char) := do return (← get).head?

/-- Takes the next character away if it is a given one. -/
def markIf (c : Char) : Reader Bool := do
  if (← peek?) == some c then modify List.tail; return true else return false

/-- Takes a character that has to be there. -/
def mark (c : Char) : Reader Unit := do
  if ← markIf c then return () else fail

/-- Takes something from the front that may not be there. -/
def part {α : Type} (cut : Text → Option (α × Text)) : Reader α := cut

/-- Takes away the blanks at the front. -/
def skipBlanks : Reader Unit := modify (List.dropWhile isBlank)

/-! ## Between values -/

/-- What follows a comment behind its mark: nothing, or its line feed. -/
def behindComment? (t : Text) : Option Text :=
  match t.dropWhile isPlain with
  | [] => some []
  | '\n' :: rest => some ('\n' :: rest)
  | _ => none

/-- Takes the rest of a line, where only a comment may stand. -/
def endLine : Reader Unit := do
  skipBlanks
  if ← markIf '#' then set (← behindComment? (← get))
  if (← get).isEmpty then return () else mark '\n'

/-- What follows blanks, line feeds and comments; `comment` says whether one is open. -/
def behindGap? : Bool → Text → Option Text
  | _, [] => some []
  | true, c :: rest =>
    if c = '\n' then behindGap? false rest else if isPlain c then behindGap? true rest else none
  | false, c :: rest =>
    if c = '#' then behindGap? true rest
    else if c = '\n' ∨ isBlank c then behindGap? false rest
    else some (c :: rest)

/-- Takes away blanks, line feeds and comments. -/
def skipGap : Reader Unit := do set (← behindGap? false (← get))

/-! ## Keys -/

/-- Whether a character may stand in a key without quotes. -/
def isKeyChar (c : Char) : Bool := c.isAlphanum || c == '_' || c == '-'

/-- A name without quotes at the front of a text, and what follows it. -/
def bareName? (t : Text) : Option (Text × Text) :=
  match t.span isKeyChar with
  | ([], _) => none
  | (name, rest) => some (name, rest)

/-- A part of a key. -/
def keyPart : Reader Text := do
  skipBlanks
  let t ← part fun t => shortQuoted? t <|> bareName? t
  skipBlanks
  return t

/-- A key with at most a number of parts. -/
def keyWithin : Nat → Reader (List Text)
  | 0 => fail
  | n + 1 => do
    let first ← keyPart
    if ← markIf '.' then return first :: (← keyWithin n) else return [first]

/-- A key. -/
def key : Reader (List Text) := keyWithin maxLevels

/-! ## Values -/

/-- Whether a character may stand in a number or a word. -/
def isWordChar (c : Char) : Bool := c.isAlphanum || ['_', '+', '-', '.'].contains c

/-- A truth value, a number, a date or a time. -/
def word : Reader Value := do
  match moment? (← get) with
  | some (t, rest) => set rest; return .text t
  | none =>
    let (t, rest) := (← get).span isWordChar
    set rest
    if t = "true".toList then return .bool true
    else if t = "false".toList then return .bool false
    else number? t

/-- The items of a list behind its opening bracket, at most a number of them. -/
def items (value : Reader Value) : Nat → Reader (List Value)
  | 0 => fail
  | n + 1 => do
    skipGap
    if ← markIf ']' then return []
    let v ← value
    skipGap
    if ← markIf ',' then return v :: (← items value n)
    mark ']'
    return [v]

/-- An entry of a table: a key, an equals sign and a value. -/
def entry (value : Reader Value) : Reader (List Text × Value) := do
  let path ← key
  mark '='
  skipBlanks
  return (path, ← value)

/-- The entries of a table behind its opening brace, at most a number of them. -/
def entries (value : Reader Value) : Nat → Reader (List (List Text × Value))
  | 0 => fail
  | n + 1 => do
    let e ← entry value
    skipBlanks
    if ← markIf ',' then return e :: (← entries value n)
    mark '\x7d'
    return [e]

/-- A table behind its opening brace. -/
def bracedTable (value : Reader Value) : Reader Value := do
  skipBlanks
  if ← markIf '\x7d' then return .map []
  let es ← entries value ((← get).length + 1)
  let table ← es.foldlM (fun (table : Entries) e => table.addValue e.2 e.1) []
  return .map (entriesToValues table)

/-- A value, given how to read what is inside a list or a table, if they may nest. -/
def valueWith (inside : Option (Reader Value)) : Reader Value := do
  if [some '"', some '\''].contains (← peek?) then return .text (← part quoted?)
  else if ← markIf '[' then
    let value ← inside
    return .list (← items value ((← get).length + 1))
  else if ← markIf '\x7b' then bracedTable (← inside)
  else word

/-- A value with lists and tables at most a number of levels deep. -/
def valueWithin : Nat → Reader Value
  | 0 => valueWith none
  | levels + 1 => valueWith (some (valueWithin levels))

/-! ## Documents -/

/-- A document as far as it is read: its tables, and the path of the last header. -/
structure Draft where
  root : Entries := []
  path : List Text := []

/-- Reads a header behind its first bracket. -/
def header (d : Draft) : Reader Draft := do
  if ← markIf '[' then
    let path ← key
    mark ']'
    mark ']'
    return { root := ← d.root.openElement path, path }
  else
    let path ← key
    mark ']'
    return { root := ← d.root.openTable path, path }

/-- Reads a header or an entry. -/
def statement (d : Draft) : Reader Draft := do
  if ← markIf '[' then header d
  else
    let (path, v) ← entry (valueWithin maxLevels)
    return { d with root := ← d.root.within (Entries.addValue v path) d.path }

/-- Reads at most a number of statements, up to the end of the text. -/
def statements (d : Draft) : Nat → Reader Draft
  | 0 => return d
  | n + 1 => do
    skipGap
    if (← get).isEmpty then return d
    let d ← statement d
    endLine
    statements d n

end Reader

/-- A text without the mark of its encoding at its front. -/
def dropMark : Text → Text
  | '\ufeff' :: t => t
  | t => t

/-- The map that a text is.  A line may end with a carriage return and a line feed. -/
def read? (t : Text) : Option Value :=
  let t := Text.dropReturns (dropMark t)
  ((Reader.statements {} (t.length + 1)).run t).map fun (d, _) => .map (entriesToValues d.root)

end Toml

end Document

end TaggedOutline
