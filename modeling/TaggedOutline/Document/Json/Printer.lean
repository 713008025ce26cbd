import TaggedOutline.Document.Value
import TaggedOutline.Text.Number
import TaggedOutline.Text.Shown

/-!
# Writing JSON

A value is written over several lines, two spaces deeper for each level; an empty list or map stays
on its line.  In strings a quote, a backslash and control characters are escaped and nothing else.
-/

namespace TaggedOutline

namespace Document

namespace Json

/-- A character as it is written in a string. -/
def escapeChar (c : Char) : Text :=
  match c with
  | '"' => ['\\', '"']
  | '\\' => ['\\', '\\']
  | '\x08' => ['\\', 'b']
  | '\x0c' => ['\\', 'f']
  | '\n' => ['\\', 'n']
  | '\r' => ['\\', 'r']
  | '\t' => ['\\', 't']
  | c =>
    if c.toNat < 0x10 then "\\u000".toList ++ Text.hex c.toNat
    else if c.toNat < 0x20 then "\\u00".toList ++ Text.hex c.toNat
    else [c]

/-- A text as a string. -/
def string (t : Text) : Text := '"' :: t.flatMap escapeChar ++ ['"']

/-- A line feed and the indentation of a level. -/
def newLine (level : Nat) : Text := '\n' :: List.replicate (2 * level) ' '

mutual

/-- A value as it is written at a level. -/
def write (level : Nat) : Value → Text
  | .null => "null".toList
  | .bool b => (toString b).toList
  | .whole n => Text.ofInt n
  | .real x => x.render
  | .text t => string t
  | .list [] => "[]".toList
  | .list (item :: items) =>
    '[' :: newLine (level + 1) ++ write (level + 1) item ++ writeItems (level + 1) items ++
      newLine level ++ [']']
  | .map [] => "\x7b\x7d".toList
  | .map (entry :: entries) =>
    '\x7b' :: newLine (level + 1) ++ writeEntry (level + 1) entry ++
      writeEntries (level + 1) entries ++ newLine level ++ ['\x7d']

/-- The items of a list after the first. -/
def writeItems (level : Nat) : List Value → Text
  | [] => []
  | item :: items => ',' :: newLine level ++ write level item ++ writeItems level items

/-- An entry of a map. -/
def writeEntry (level : Nat) : Value × Value → Text
  | (key, value) => write level key ++ ':' :: ' ' :: write level value

/-- The entries of a map after the first. -/
def writeEntries (level : Nat) : List (Value × Value) → Text
  | [] => []
  | entry :: entries => ',' :: newLine level ++ writeEntry level entry ++ writeEntries level entries

end

/-- A value as a document. -/
def print (v : Value) : Text := write 0 v

end Json

end Document

end TaggedOutline
