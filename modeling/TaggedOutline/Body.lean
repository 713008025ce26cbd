import TaggedOutline.Header.Comment
import TaggedOutline.Layout
import TaggedOutline.Settings
import TaggedOutline.Text.Lines

/-!
# Bodies

A body is cut into items one level deep: elements, each a header line with the lines it owns, and
text between them.  At most one element is open at a time.

* A line of content while nothing is open is a header and opens an element.
* A deeper line belongs to the open element.  The first one fixes the body's column; it is taken off
  every line of the body, and a line between the header's column and the body's column stands at the
  body's column.
* A line of content that is not deeper closes the element.
* Blank lines and comments are held until it is known where they go.  A deeper line takes them into
  the body.  When the element is closed, those up to the last comment at or beyond the body's column
  stay in it and the rest become text after it.

A header that ends with the opening bracket owns every line up to a line with the closing bracket
alone, at or before the body's column; brackets in between are counted.

`Body.parse` is a fold of `Body.State.line` over the lines.
-/

namespace TaggedOutline

/-- One item of a body. -/
inductive BodyItem where
  /-- A header and the body it owns, with the body's column taken off. -/
  | tag (header body : Text) (bracket : Bool)
  /-- Lines that belong to no element, each with its line feed. -/
  | text (t : Text)
deriving DecidableEq, Repr

namespace Body

open Layout (Line)

/-- Whether a line is a comment. -/
def isComment (s : LayoutSettings) (l : Line) : Bool :=
  !s.commentPrefix.isEmpty && s.commentPrefix.isPrefixOf l.content

/-- The header of a line that opens a bracket, without the bracket.  The bracket has to be the last
thing before the comment of the line, and something has to stand before it. -/
def bracketHeader? (s : LayoutSettings) (l : Line) : Option Text :=
  if s.openBracket.isEmpty || isComment s l then none
  else
    let (code, comment) := Header.cutComment l.content
    let code := Text.trimEnd code
    if code.length ≤ s.openBracket.length || !s.openBracket.isSuffixOf code then none
    else
      let header := Text.trimEnd (code.take (code.length - s.openBracket.length))
      if comment.isEmpty then some header else some (header ++ ' ' :: comment)

/-- An element whose end has not been seen. -/
structure OpenTag where
  header : Text
  /-- The column of the header. -/
  column : Nat
  /-- The column of the body, once a line has fixed it. -/
  bodyColumn : Option Nat := none
  /-- The lines of the body, latest first. -/
  lines : List Text := []
  /-- The lines that may still go elsewhere, latest first. -/
  held : List Line := []
  bracket : Bool
  /-- The brackets that are open inside the body. -/
  depth : Nat := 0
deriving DecidableEq, Repr

namespace OpenTag

/-- A line as it stands in a body at a column. -/
def bodyLine (bodyColumn : Nat) (l : Line) : Text :=
  if l.isBlank then [] else l.indented (l.indent - bodyColumn)

/-- The element with one more line, which fixes the column if none has. -/
def push (o : OpenTag) (l : Line) : OpenTag :=
  if l.isBlank then { o with lines := [] :: o.lines }
  else
    let column := o.bodyColumn.getD l.indent
    { o with bodyColumn := some column, lines := bodyLine column l :: o.lines }

/-- The element with the held lines in its body. -/
def takeHeld (o : OpenTag) : OpenTag :=
  let taken := o.held.map fun l => bodyLine (o.bodyColumn.getD l.indent) l
  { o with lines := taken ++ o.lines, held := [] }

/-- The item of a closed element, and the held lines that do not belong to it, in order. -/
def close (s : LayoutSettings) (o : OpenTag) : BodyItem × List Line :=
  let (rest, kept) :=
    match o.bodyColumn with
    | none => (o.held, [])
    | some column => o.held.span fun l => !(isComment s l && column ≤ l.indent)
  let o := { o with held := kept }.takeHeld
  (.tag o.header (Text.unlines o.lines.reverse) o.bracket, rest.reverse)

end OpenTag

/-- What has been read of a body: the finished items, latest first, the lines of the text after
them, latest first, and the open element. -/
structure State where
  items : List BodyItem := []
  fragment : List Text := []
  current : Option OpenTag := none
deriving DecidableEq, Repr

namespace State

/-- The state after the text between elements is finished. -/
def endFragment (st : State) : State :=
  if st.fragment.isEmpty then st
  else { st with items := .text (Text.unlines st.fragment.reverse) :: st.items, fragment := [] }

/-- The state after the open element is closed. -/
def closeTag (s : LayoutSettings) (st : State) : State :=
  match st.current with
  | none => st
  | some o =>
    let (item, rest) := o.close s
    { items := item :: st.items
      fragment := (rest.map Line.content).reverse ++ st.fragment
      current := none }

/-- The state after a line while no element is open. -/
def topLevel (s : LayoutSettings) (st : State) (l : Line) : State :=
  if l.isBlank then { st with fragment := [] :: st.fragment }
  else if isComment s l || l.content == s.closeBracket then
    { st with fragment := l.content :: st.fragment }
  else
    let header? := bracketHeader? s l
    { st.endFragment with
      current := some { header := header?.getD l.content, column := l.indent
                        bracket := header?.isSome } }

/-- The state after a line inside the brackets of an element. -/
def bracketLine (s : LayoutSettings) (st : State) (o : OpenTag) (l : Line) : State :=
  if l.content == s.closeBracket then
    if o.depth == 0 && o.bodyColumn.all fun column => l.indent ≤ column then
      { st with current := some o.takeHeld }.closeTag s
    else { st with current := some ({ o with depth := o.depth - 1 }.takeHeld.push l) }
  else
    let o := if (bracketHeader? s l).isSome then { o with depth := o.depth + 1 } else o
    { st with current := some (o.takeHeld.push l) }

/-- The state after one more line. -/
def line (s : LayoutSettings) (st : State) (l : Line) : State :=
  match st.current with
  | none => st.topLevel s l
  | some o =>
    if o.bracket then st.bracketLine s o l
    else if l.isBlank || isComment s l then
      { st with current := some { o with held := l :: o.held } }
    else if o.column < l.indent then
      let o := { o with bodyColumn := some (o.bodyColumn.getD l.indent) }
      { st with current := some (o.takeHeld.push l) }
    else (st.closeTag s).topLevel s l

/-- The items after the last line. -/
def finish (s : LayoutSettings) (st : State) : List BodyItem :=
  ((st.closeTag s).endFragment).items.reverse

end State

/-- The items of a body. -/
def parse (s : LayoutSettings) (source : Text) : List BodyItem :=
  ((Layout.lines s.tabWidth source).foldl (State.line s) {}).finish s

end Body

end TaggedOutline
