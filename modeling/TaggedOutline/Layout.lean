import TaggedOutline.Text.Blank

/-!
# Layout

An outline is read line by line.  The spaces and tabs at the head of a line are its indentation,
measured in columns: a tab goes on to the next multiple of the tab width, anything else takes one
column.  What follows, without trailing white space, is the content.  A line without content is
blank and has no indentation.

Columns are natural numbers and have no bound here.  Counted in machine words they overflow where a
tab goes on beyond the largest word (`Layout.nextColumn`), which takes a tab width of about that
size or an indentation of as many characters.  Such settings and texts are left out of the model,
and with them what a program does there.
-/

namespace TaggedOutline

namespace Layout

/-- A line of an outline. -/
structure Line where
  /-- The indentation in columns. -/
  indent : Nat
  content : Text
  /-- The place among the lines of the block, from zero. -/
  number : Nat
deriving DecidableEq, Repr

namespace Line

/-- Whether the line has no content. -/
def isBlank (l : Line) : Bool := l.content.isEmpty

/-- The content behind `columns` spaces. -/
def indented (l : Line) (columns : Nat) : Text := List.replicate columns ' ' ++ l.content

end Line

/-- The column after a character that stands at column `col`. -/
def nextColumn (tabWidth col : Nat) (c : Char) : Nat :=
  let width := max tabWidth 1
  if c = '\t' then (col / width + 1) * width else col + 1

/-- The width of a text in columns. -/
def columns (tabWidth : Nat) (t : Text) : Nat := t.foldl (nextColumn tabWidth) 0

/-- Whether a character belongs to the indentation of a line. -/
def isIndent (c : Char) : Bool := c = ' ' || c = '\t'

/-- What has been read of a block: the finished lines, latest first, and of the current line whether
it has a character at all, the column that its indentation has reached, and its content so far,
latest character first. -/
structure Reading where
  finished : List Line := []
  begun : Bool := false
  column : Nat := 0
  content : Text := []
deriving DecidableEq, Repr

namespace Reading

/-- The reading after the end of the current line. -/
def endLine (r : Reading) : Reading :=
  let content := (r.content.dropWhile Text.isBlank).reverse
  let indent := if content.isEmpty then 0 else r.column
  { finished := ⟨indent, content, r.finished.length⟩ :: r.finished }

/-- The reading after one more character. -/
def take (tabWidth : Nat) (r : Reading) (c : Char) : Reading :=
  if c = '\n' then r.endLine
  else if r.content.isEmpty && isIndent c then
    { r with begun := true, column := nextColumn tabWidth r.column c }
  else { r with begun := true, content := c :: r.content }

/-- The lines, the current one among them if it has a character. -/
def close (r : Reading) : List Line :=
  (if r.begun then r.endLine.finished else r.finished).reverse

end Reading

/-- The lines of a block. -/
def lines (tabWidth : Nat) (source : Text) : List Line :=
  (source.foldl (Reading.take tabWidth) {}).close

end Layout

end TaggedOutline
