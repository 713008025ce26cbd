import TaggedOutline.Document.Yaml.Character
import TaggedOutline.Document.Yaml.Scalar
import TaggedOutline.Text.Shown

/-!
# Writing YAML

Lists and maps are written as blocks, two spaces deeper for each level; a list under a key is not
indented.  A text stands without quotes where it reads back as itself.  A text with line feeds is a
literal block, other texts stand in single quotes, and a text with characters that are not printed,
or with blanks around line breaks, stands in double quotes with escapes.
-/

namespace TaggedOutline

namespace Document

namespace Yaml

/-! ## What is known about a text -/

/-- Whether a text begins like something else than plain text. -/
def hasIndicator (t : Text) : Bool :=
  match t with
  | '-' :: '-' :: '-' :: _ => true
  | '.' :: '.' :: '.' :: _ => true
  | c :: rest =>
    indicators.contains c || ((c == '?' || c == ':' || c == '-') && isGap rest.head?)
  | [] => false

/-- Whether a text has the end of a key or the beginning of a comment in it. -/
def hasMark : Text → Bool
  | c :: d :: rest =>
    (d == ':' && isGap rest.head?) || (d == '#' && isGap (some c)) || hasMark (d :: rest)
  | _ => false

/-- Whether two characters of given kinds follow each other somewhere. -/
def hasPair (first second : Char → Bool) : Text → Bool
  | c :: d :: rest => (first c && second d) || hasPair first second (d :: rest)
  | _ => false

/-- Whether a text has characters or blanks that only double quotes keep. -/
def needsEscapes (t : Text) : Bool := !t.all isPrinted || hasPair isSpace isBreak t

/-- Whether a text may stand in single quotes. -/
def fitsQuotes (t : Text) : Bool := !needsEscapes t && !hasPair isBreak isSpace t

/-- Whether a text may be a literal block. -/
def fitsBlock (t : Text) : Bool := !needsEscapes t && !(t.getLast?.map isSpace).getD true

/-- Whether a text may stand without quotes. -/
def fitsPlain (t : Text) : Bool :=
  !(t.head?.map isSpace).getD true && !(t.getLast?.map isSpace).getD true && !t.any isBreak &&
    !needsEscapes t && !hasIndicator t && !hasMark t

/-- Whether a plain scalar would be read as something else than its text. -/
def isAmbiguous (t : Text) : Bool := isPadded t || !(plain t).isText t

/-! ## Texts -/

/-- A text with spaces in front of what follows a line break. -/
def indentAfterBreaks (indent : Nat) : Bool → Text → Text
  | broken, [] => if broken then List.replicate indent ' ' else []
  | broken, c :: rest =>
    if isBreak c then c :: indentAfterBreaks indent true rest
    else
      (if broken then List.replicate indent ' ' else []) ++ c :: indentAfterBreaks indent false rest

/-- A text in single quotes. -/
def singleQuoted (indent : Nat) (t : Text) : Text :=
  let doubled := t.flatMap fun c => if c == '\'' then ['\'', '\''] else [c]
  '\'' :: indentAfterBreaks indent false doubled ++ ['\'']

/-- A number in base sixteen with leading zeros, in capitals. -/
def paddedHex (width n : Nat) : Text :=
  let digits := (Text.hex n).map Char.toUpper
  List.replicate (width - digits.length) '0' ++ digits

/-- A character as it stands in double quotes. -/
def escapeChar (c : Char) : Text :=
  match c with
  | '\x00' => ['\\', '0']
  | '\x07' => ['\\', 'a']
  | '\x08' => ['\\', 'b']
  | '\t' => ['\\', 't']
  | '\n' => ['\\', 'n']
  | '\x0b' => ['\\', 'v']
  | '\x0c' => ['\\', 'f']
  | '\r' => ['\\', 'r']
  | '\x1b' => ['\\', 'e']
  | '"' => ['\\', '"']
  | '\\' => ['\\', '\\']
  | '\x85' => ['\\', 'N']
  | '\u2028' => ['\\', 'L']
  | '\u2029' => ['\\', 'P']
  | c =>
    if isPrinted c then [c]
    else if c.toNat ≤ 0xFF then '\\' :: 'x' :: paddedHex 2 c.toNat
    else if c.toNat ≤ 0xFFFF then '\\' :: 'u' :: paddedHex 4 c.toNat
    else '\\' :: 'U' :: paddedHex 8 c.toNat

/-- A text in double quotes. -/
def doubleQuoted (t : Text) : Text := '"' :: t.flatMap escapeChar ++ ['"']

/-- What is said about the line breaks at the end of a block. -/
def chomping (t : Text) : Text :=
  match t.reverse with
  | [] => ['-']
  | c :: rest =>
    if !isBreak c then ['-']
    else if (rest.head?.map isBreak).getD true then ['+']
    else []

/-- A literal block whose lines have an indentation.  A number says how deep the block is indented
if its first line begins with a blank. -/
def literal (indent : Nat) (t : Text) : Text :=
  let hint := if (t.head?.map fun c => isSpace c || isBreak c).getD false then ['2'] else []
  let rec lines : Bool → Text → Text
    | _, [] => []
    | fresh, c :: rest =>
      if isBreak c then c :: lines true rest
      else (if fresh then List.replicate indent ' ' else []) ++ c :: lines false rest
  '|' :: hint ++ chomping t ++ '\n' :: lines true t

/-- A text as it is written where blocks have an indentation. -/
def writeText (indent : Nat) (t : Text) : Text :=
  if t.contains '\n' then if fitsBlock t then literal indent t else doubleQuoted t
  else if !isAmbiguous t && fitsPlain t then t
  else if fitsQuotes t then singleQuoted indent t
  else doubleQuoted t

/-- A text with a line feed at its end, unless it ends with a line break. -/
def endLine (t : Text) : Text := if (t.getLast?.map isBreak).getD false then t else t ++ ['\n']

/-- An indentation. -/
def spaces (n : Nat) : Text := List.replicate n ' '

/-! ## Documents -/

mutual

/-- A value as a block whose first line is already indented. -/
def block (indent : Nat) : Value → Text
  | .null => "null\n".toList
  | .bool b => (toString b).toList ++ ['\n']
  | .whole n => Text.ofInt n ++ ['\n']
  | .real x => x.render ++ ['\n']
  | .text t => endLine (writeText indent t)
  | .list [] => "[]\n".toList
  | .list (item :: items) =>
    '-' :: ' ' :: block (indent + 2) item ++ blockItems indent items
  | .map [] => "\x7b\x7d\n".toList
  | .map (entry :: entries) => blockEntry indent entry ++ blockEntries indent entries

/-- The items of a list after the first. -/
def blockItems (indent : Nat) : List Value → Text
  | [] => []
  | item :: items =>
    spaces indent ++ '-' :: ' ' :: block (indent + 2) item ++ blockItems indent items

/-- The entries of a map after the first. -/
def blockEntries (indent : Nat) : List (Value × Value) → Text
  | [] => []
  | entry :: entries => spaces indent ++ blockEntry indent entry ++ blockEntries indent entries

/-- An entry of a map.  Keys are short texts. -/
def blockEntry (indent : Nat) : Value × Value → Text
  | (key, v) => writeText indent (key.text?.getD []) ++ ':' :: underKey indent v

/-- A value behind a key. -/
def underKey (indent : Nat) : Value → Text
  | .list (item :: items) =>
    '\n' :: spaces indent ++ '-' :: ' ' :: block (indent + 2) item ++ blockItems indent items
  | .map (entry :: entries) =>
    '\n' :: spaces (indent + 2) ++ blockEntry (indent + 2) entry ++
      blockEntries (indent + 2) entries
  | .text t => ' ' :: endLine (writeText (indent + 2) t)
  | v => ' ' :: block indent v

end

/-- A value as a document. -/
def print (v : Value) : Text := block 0 v

end Yaml

end Document

end TaggedOutline
