import TaggedOutline.Header.Comment
import TaggedOutline.Header.Quoted
import TaggedOutline.Params
import TaggedOutline.Settings
import TaggedOutline.Spec
import TaggedOutline.Text.Blank
import TaggedOutline.Text.Lines

/-!
# The written form of a description

A description is written as an outline with its header in one fixed form,

    tag name aliases (k=v, flag) [k=v] "label" :parser {code} # comment

and its body one level deeper.  An element with a bracket has the opening bracket before its comment
and a line with the closing bracket after its body.  A header that could not be read is written as
it was found.
-/

namespace TaggedOutline

namespace Spec

/-- The characters that cannot stand in a bare value. -/
def valueStops : Text := "\"(){}[],=:#".toList

/-- Whether a value reads back as one bare word. -/
def isBareValue (t : Text) : Bool :=
  !t.isEmpty && t.all fun c => !Text.isBlank c && !valueStops.contains c

/-- An entry of a parameter or option list. -/
def writeEntry : Text × Text → Text
  | (key, value) =>
    if value == Params.flagValue then key
    else if isBareValue value then key ++ '=' :: value
    else key ++ '=' :: Header.quote value

/-- The entries of a parameter or option list. -/
def writeEntries (entries : List (Text × Text)) : Text :=
  Text.join [',', ' '] (entries.map writeEntry)

/-- The parts of a header line, from left to right. -/
def headerParts (st : Settings) (s : Spec) : List Text :=
  [if s.suppressed then st.layout.suppressMarker ++ s.tag else s.tag] ++
    s.name.toList ++ s.aliases ++
    (if s.params.isEmpty then [] else ['(' :: writeEntries s.params ++ [')']]) ++
    (if s.options.isEmpty then [] else ['[' :: writeEntries s.options ++ [']']]) ++
    (s.label.map Header.quote).toList ++
    (s.parser.map fun p => ':' :: p).toList ++
    (s.inlineCode.map fun c => '\x7b' :: c ++ ['\x7d']).toList ++
    (s.comment.map fun c => '#' :: ' ' :: c).toList

/-- The header line of a description, without indentation and bracket. -/
def headerLine (st : Settings) (s : Spec) : Text :=
  s.header.getD (Text.join [' '] (s.headerParts st))

/-- The indentation of a level. -/
def indentation (st : Settings) (level : Nat) : Text := (List.replicate level st.indent).flatten

/-- A text, line by line, at a level. -/
def writeLines (st : Settings) (level : Nat) (t : Text) : Text :=
  (Text.writtenLines t).flatMap fun line =>
    (if line.isEmpty then [] else indentation st level ++ line) ++ ['\n']

/-- Whether a description is written with a bracket. -/
def hasBracket (s : Spec) : Bool := s.bracket && s.inlineCode.isNone

/-- The header line of a description with its bracket, if it has one. -/
def openingLine (st : Settings) (s : Spec) : Text :=
  let header := s.headerLine st
  if s.hasBracket then
    let (code, comment) := Header.cutComment header
    Text.trimEnd code ++ ' ' :: st.layout.openBracket ++
      (if comment.isEmpty then [] else ' ' :: comment)
  else header

/-- The line that closes the bracket of a description, if it has one. -/
def closingLine (st : Settings) (level : Nat) (s : Spec) : Text :=
  if s.hasBracket then indentation st level ++ st.layout.closeBracket ++ ['\n'] else []

/-- What stands around the body of a description at a level. -/
def wrap (st : Settings) (level : Nat) (s : Spec) (body : Text) : Text :=
  indentation st level ++ s.openingLine st ++ '\n' :: body ++ s.closingLine st level

mutual

/-- A description at a level. -/
def write (st : Settings) (level : Nat) : Spec → Text
  | ⟨tag, suppressed, header, name, aliases, params, options, label, parser, inlineCode, bracket,
      comment, body, children⟩ =>
    wrap st level
      ⟨tag, suppressed, header, name, aliases, params, options, label, parser, inlineCode, bracket,
        comment, none, []⟩
      (match children with
        | [] => (body.map (writeLines st (level + 1))).getD []
        | child :: children =>
          writeChild st (level + 1) child ++ writeChildren st (level + 1) children)

/-- Children at a level. -/
def writeChildren (st : Settings) (level : Nat) : List (Child Spec) → Text
  | [] => []
  | child :: children => writeChild st level child ++ writeChildren st level children

/-- A child at a level. -/
def writeChild (st : Settings) (level : Nat) : Child Spec → Text
  | .text t => writeLines st level t
  | .node s => write st level s

end

/-- The body of a description at a level: its children, or the body text where there are none. -/
def writeBody (st : Settings) (level : Nat) (s : Spec) : Text :=
  match s.children with
  | [] => (s.body.map (writeLines st level)).getD []
  | children => writeChildren st level children

/-- A description is its header, its body one level deeper and the bracket that closes it. -/
theorem write_eq (st : Settings) (level : Nat) (s : Spec) :
    write st level s = wrap st level s (writeBody st (level + 1) s) := by
  cases s with
  | mk tag suppressed header name aliases params options label parser inlineCode bracket comment
      body children =>
    cases children with
    | nil => rfl
    | cons child children => rfl

/-- A description as it stands at the top of an outline. -/
def serialize (st : Settings) (s : Spec) : Text := write st 0 s

end Spec

end TaggedOutline
