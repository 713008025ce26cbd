import TaggedOutline.Document.Yaml.Character

/-!
# Places in a YAML text

Where lines and columns matter, a text is read from a `Place`: what is left of it, and how far it
has been read.  A line ends with a line feed, a carriage return or both, or with one of three rarer
characters; the first four count as a line feed where they are kept.
-/

namespace TaggedOutline

namespace Document

namespace Yaml

/-- A place in a text. -/
structure Place where
  rest : Text
  /-- The characters before the place. -/
  index : Nat := 0
  /-- The lines before the place. -/
  line : Nat := 0
  /-- The characters before the place on its line. -/
  column : Nat := 0

namespace Place

/-- The next character. -/
def peek? (p : Place) : Option Char := p.rest.head?

/-- The character after the next one. -/
def second? (p : Place) : Option Char := p.rest[1]?

/-- Whether a character comes next. -/
def sees (p : Place) (c : Char) : Bool := p.peek? == some c

/-- Whether one of some characters comes next. -/
def seesAny (p : Place) (cs : Text) : Bool := (p.peek?.map cs.contains).getD false

/-- Whether a space or a tab comes next. -/
def seesBlank (p : Place) : Bool := p.sees ' ' || p.sees '\t'

/-- Whether a line break comes next. -/
def seesBreak (p : Place) : Bool := (p.peek?.map isBreak).getD false

/-- Whether a blank, a line break or the end comes next. -/
def seesGap (p : Place) : Bool := isGap p.peek?

/-- Whether a line break or the end comes next. -/
def seesLineEnd (p : Place) : Bool := p.rest.isEmpty || p.seesBreak

/-- The place after the next character of the line. -/
def skip (p : Place) : Place :=
  { p with rest := p.rest.tail, index := p.index + 1, column := p.column + 1 }

/-- The place after some characters of the line. -/
def skipN (p : Place) (n : Nat) : Place :=
  { p with rest := p.rest.drop n, index := p.index + n, column := p.column + n }

/-- The place after the characters of the line of some kind. -/
def skipWhile (p : Place) (f : Char → Bool) : Place := p.skipN (p.rest.takeWhile f).length

/-- The place after the next line break. -/
def skipLine (p : Place) : Place :=
  let n := if p.rest.take 2 == ['\r', '\n'] then 2 else 1
  { rest := p.rest.drop n, index := p.index + n, line := p.line + 1, column := 0 }

/-- The next line break as it is kept. -/
def breakText (p : Place) : Text :=
  match p.peek? with
  | some '\u2028' => ['\u2028']
  | some '\u2029' => ['\u2029']
  | some _ => ['\n']
  | none => []

/-- Whether a line that begins or ends a document comes next. -/
def seesDocumentMark (p : Place) : Bool :=
  p.column == 0 && (p.rest.take 3 == ['-', '-', '-'] || p.rest.take 3 == ['.', '.', '.']) &&
    isGap p.rest[3]?

/-- The place after a comment, if one comes next. -/
def skipComment (p : Place) : Place :=
  if p.sees '#' then p.skipWhile fun c => !isBreak c else p

end Place

/-! ## Gaps -/

/-- Blanks and line breaks inside a scalar. -/
structure Gap where
  /-- The blanks in front of the first line break. -/
  blanks : Text := []
  /-- The first line break. -/
  first : Text := []
  /-- The line breaks after it. -/
  more : Text := []
  /-- Whether a line has ended. -/
  broken : Bool := false

/-- What a gap stands for: its blanks on one line; over lines, a space for a single line feed and
otherwise the line breaks after the first. -/
def Gap.folded (g : Gap) : Text :=
  if !g.broken then g.blanks
  else if g.first == ['\n'] then if g.more.isEmpty then [' '] else g.more
  else g.first ++ g.more

/-- Reads a gap of at most a number of characters.  A tab in front of column `indent` of a later
line is an error. -/
def gapWithin (indent : Int) : Nat → Gap → Place → Option (Gap × Place)
  | 0, g, p => some (g, p)
  | n + 1, g, p =>
    if p.seesBlank then
      if g.broken && p.sees '\t' && (p.column : Int) < indent then none
      else if g.broken then gapWithin indent n g p.skip
      else gapWithin indent n { g with blanks := g.blanks ++ p.rest.take 1 } p.skip
    else if p.seesBreak then
      if g.broken then gapWithin indent n { g with more := g.more ++ p.breakText } p.skipLine
      else
        gapWithin indent n { g with blanks := [], first := p.breakText, broken := true } p.skipLine
    else some (g, p)

/-- Reads the rest of a gap. -/
def gap (indent : Int) (g : Gap) (p : Place) : Option (Gap × Place) :=
  gapWithin indent p.rest.length g p

end Yaml

end Document

end TaggedOutline
