import TaggedOutline.Document.Yaml.Place
import TaggedOutline.Text.Number

/-!
# Tokens of YAML

The parts of a YAML text that have a form of their own: scalars in their five styles, tags, the
names of anchors, and directives.  Each reader begins at its first character and gives the place
behind it, or nothing if the form is broken.
-/

namespace TaggedOutline

namespace Document

namespace Yaml

/-- How a scalar is written. -/
inductive Style where
  | plain
  | singleQuoted
  | doubleQuoted
  | literal
  | folded
deriving DecidableEq, Repr, Inhabited

/-- A part of a document. -/
inductive Token where
  /-- The version of YAML that a document is in. -/
  | version (major minor : Nat)
  /-- What a handle of tags stands for. -/
  | tagHandle (handle lead : Text)
  | documentStart
  | documentEnd
  | streamEnd
  | blockListStart
  | blockMapStart
  | blockEnd
  | flowListStart
  | flowListEnd
  | flowMapStart
  | flowMapEnd
  | blockEntry
  | flowEntry
  | key
  | value
  | alias (name : Text)
  | anchor (name : Text)
  | tag (handle suffix : Text)
  | scalar (style : Style) (t : Text)
deriving DecidableEq, Repr, Inhabited

/-! ## Quoted scalars -/

/-- The character that a short escape stands for. -/
def shortEscape? : Char → Option Char
  | '0' => some '\x00'
  | 'a' => some '\x07'
  | 'b' => some '\x08'
  | 't' => some '\t'
  | '\t' => some '\t'
  | 'n' => some '\n'
  | 'v' => some '\x0b'
  | 'f' => some '\x0c'
  | 'r' => some '\r'
  | 'e' => some '\x1b'
  | ' ' => some ' '
  | '"' => some '"'
  | '/' => some '/'
  | '\\' => some '\\'
  | 'N' => some '\x85'
  | '_' => some '\xa0'
  | 'L' => some '\u2028'
  | 'P' => some '\u2029'
  | _ => none

/-- The number of digits of a long escape. -/
def escapeDigits? : Char → Option Nat
  | 'x' => some 2
  | 'u' => some 4
  | 'U' => some 8
  | _ => none

/-- Reads an escape at its backslash. -/
def escape? (p : Place) : Option (Char × Place) := do
  let c ← p.second?
  match shortEscape? c with
  | some e => return (e, p.skipN 2)
  | none =>
    let width ← escapeDigits? c
    let digits := (p.skipN 2).rest.take width
    if digits.length < width then none
    else return (← Text.codePoint? (← Text.digitsIn? 16 digits), p.skipN (2 + width))

/-- Reads a quoted scalar behind its opening quote, in at most a number of steps. -/
def quotedWithin (quote : Char) : Nat → Text → Place → Option (Text × Place)
  | 0, _, _ => none
  | n + 1, acc, p =>
    if p.seesDocumentMark then none
    else
      match p.peek? with
      | none => none
      | some c =>
        if c == quote then
          if quote == '\'' && p.second? == some '\'' then
            quotedWithin quote n ('\'' :: acc) (p.skipN 2)
          else some (acc.reverse, p.skip)
        else if c == '\\' && quote == '"' then
          if isBreak (p.second?.getD ' ') then do
            let (g, p) ← gap 0 { broken := true } p.skip.skipLine
            quotedWithin quote n (g.folded.reverse ++ acc) p
          else do
            let (e, p) ← escape? p
            quotedWithin quote n (e :: acc) p
        else if p.seesGap then do
          let (g, p) ← gap 0 {} p
          quotedWithin quote n (g.folded.reverse ++ acc) p
        else quotedWithin quote n (c :: acc) p.skip

/-- Reads a quoted scalar. -/
def quoted? (quote : Char) (p : Place) : Option (Text × Place) :=
  quotedWithin quote (p.rest.length + 1) [] p.skip

/-! ## Plain scalars -/

/-- Whether a character ends a plain scalar inside brackets. -/
def isFlowMark (c : Char) : Bool := [',', '[', ']', '\x7b', '\x7d'].contains c

/-- Reads a plain scalar from its middle, in at most a number of steps.  `waiting` is the gap before
the place, which belongs to the scalar only if something follows.  The flag that is given with the
result says whether a line has ended behind the scalar. -/
def plainWithin (inFlow : Bool) (indent : Int) :
    Nat → Text → Option Gap → Place → Option (Text × Bool × Place)
  | 0, _, _, _ => none
  | n + 1, acc, waiting, p =>
    let ended := some (acc.reverse, (waiting.map (·.broken)).getD false, p)
    match p.peek? with
    | none => ended
    | some c =>
      if waiting.isSome && (p.seesDocumentMark || c == '#') then ended
      else if p.seesGap then do
        let (g, p) ← gap indent {} p
        if !inFlow && (p.column : Int) < indent then some (acc.reverse, g.broken, p)
        else plainWithin inFlow indent n acc (some g) p
      else if inFlow && c == ':' && (p.second?.any fun d => isFlowMark d || d == '?') then none
      else if (c == ':' && isGap p.second?) || (inFlow && isFlowMark c) then ended
      else
        plainWithin inFlow indent n (c :: ((waiting.map Gap.folded).getD []).reverse ++ acc) none
          p.skip

/-- Reads a plain scalar inside something with an indentation. -/
def plain? (inFlow : Bool) (indent : Int) (p : Place) : Option (Text × Bool × Place) :=
  plainWithin inFlow (indent + 1) (2 * p.rest.length + 2) [] none p

/-! ## Block scalars -/

/-- What is kept of the line breaks at the end of a block scalar. -/
inductive Chomping where
  | strip
  | clip
  | keep
deriving DecidableEq

/-- Reads what is said about the end of a block scalar. -/
def chomping? (p : Place) : Option (Chomping × Place) :=
  if p.sees '+' then some (.keep, p.skip)
  else if p.sees '-' then some (.strip, p.skip)
  else none

/-- Reads what is said about the indentation of a block scalar.  Nought is not allowed. -/
def indentHint? (p : Place) : Option (Nat × Place) :=
  match p.peek? with
  | some c => if '1' ≤ c ∧ c ≤ '9' then some (c.toNat - '0'.toNat, p.skip) else none
  | none => none

/-- Reads what is said about the end and the indentation of a block scalar, in either order. -/
def blockHints (p : Place) : Chomping × Nat × Place :=
  match chomping? p with
  | some (chomping, p) =>
    match indentHint? p with
    | some (n, p) => (chomping, n, p)
    | none => (chomping, 0, p)
  | none =>
    match indentHint? p with
    | some (n, p) =>
      match chomping? p with
      | some (chomping, p) => (chomping, n, p)
      | none => (.clip, n, p)
    | none => (.clip, 0, p)

/-- Reads empty lines and the indentation of the next line, in at most a number of steps.  The
indentation is nought while it is not known; `deepest` is the deepest one that has been seen. -/
def blockBreaksWithin (indent : Nat) : Nat → Nat → Text → Place → Option (Nat × Text × Place)
  | 0, deepest, breaks, p => some (deepest, breaks, p)
  | n + 1, deepest, breaks, p =>
    let spaces := (p.rest.takeWhile isSpace).length
    let p := p.skipN (if indent == 0 then spaces else min spaces (indent - p.column))
    let deepest := max deepest p.column
    if (indent == 0 || p.column < indent) && p.sees '\t' then none
    else if p.seesBreak then
      blockBreaksWithin indent n deepest (breaks ++ p.breakText) p.skipLine
    else some (deepest, breaks, p)

/-- Reads empty lines and the indentation of the next line, and finds the indentation of the block
if it is not known. -/
def blockBreaks? (outer : Int) (indent : Nat) (p : Place) : Option (Nat × Text × Place) := do
  let (deepest, breaks, p) ← blockBreaksWithin indent (p.rest.length + 1) 0 [] p
  if indent == 0 then return (max deepest (max (outer + 1).toNat 1), breaks, p)
  else return (indent, breaks, p)

/-- What has been read of a block scalar. -/
structure Block where
  /-- The text, reversed. -/
  text : Text := []
  /-- The line break of the last line. -/
  last : Text := []
  /-- The empty lines after it. -/
  more : Text := []
  /-- Whether the last line begins with a blank. -/
  indented : Bool := false

/-- Reads the lines of a block scalar, in at most a number of steps. -/
def blockLines (folds : Bool) (outer : Int) (indent : Nat) :
    Nat → Block → Place → Option (Block × Place)
  | 0, b, p => some (b, p)
  | n + 1, b, p =>
    if p.column == indent && !p.rest.isEmpty then do
      let joins := folds && b.last == ['\n'] && !b.indented && !p.seesBlank
      let between := if joins then if b.more.isEmpty then [' '] else b.more else b.last ++ b.more
      let line := p.rest.takeWhile fun c => !isBreak c
      let behind := p.skipN line.length
      let after := if behind.seesBreak then behind.skipLine else behind
      let (_, more, next) ← blockBreaks? outer indent after
      blockLines folds outer indent n
        { text := line.reverse ++ between.reverse ++ b.text
          last := if behind.seesBreak then behind.breakText else []
          more, indented := p.seesBlank } next
    else some (b, p)

/-- Reads a block scalar inside something with an indentation. -/
def block? (folds : Bool) (outer : Int) (p : Place) : Option (Text × Place) := do
  let (chomping, hint, p) := blockHints p.skip
  let p := (p.skipWhile fun c => c == ' ' || c == '\t').skipComment
  if !p.seesLineEnd then none
  else
    let p := if p.seesBreak then p.skipLine else p
    let known := if hint == 0 then 0 else (max outer 0).toNat + hint
    let (indent, breaks, p) ← blockBreaks? outer known p
    let (b, p) ← blockLines folds outer indent (p.rest.length + 1) { more := breaks } p
    let ending := match chomping with
      | .strip => []
      | .clip => b.last
      | .keep => b.last ++ b.more
    return (b.text.reverse ++ ending, p)

/-! ## Anchors, tags and directives -/

/-- Whether a character may stand in a name. -/
def isNameChar (c : Char) : Bool := c.isAlphanum || c == '_' || c == '-'

/-- Reads the name of an anchor behind its mark. -/
def anchorName? (p : Place) : Option (Text × Place) :=
  let name := p.rest.takeWhile isNameChar
  let p := p.skipN name.length
  if name.isEmpty then none
  else if p.seesGap || p.seesAny ("?:,]%@".toList ++ ['\x7d', '\x60']) then some (name, p)
  else none

/-- The octet that two digits stand for. -/
def octet? : Text → Option (Nat × Text)
  | '%' :: a :: b :: rest => (Text.digitsIn? 16 [a, b]).map (·, rest)
  | _ => none

/-- Reads a number of further octets of a character. -/
def octets? : Nat → Nat → Text → Option (Nat × Text)
  | 0, n, t => some (n, t)
  | k + 1, n, t => do
    let (o, t) ← octet? t
    if 0x80 ≤ o ∧ o < 0xC0 then octets? k (n * 64 + (o - 0x80)) t else none

/-- Reads a character of a tag that is written as octets. -/
def octetChar? (t : Text) : Option (Char × Text) := do
  let (o, t) ← octet? t
  let (k, n) ←
    if o < 0x80 then some (0, o)
    else if 0xC0 ≤ o ∧ o < 0xE0 then some (1, o - 0xC0)
    else if 0xE0 ≤ o ∧ o < 0xF0 then some (2, o - 0xE0)
    else if 0xF0 ≤ o ∧ o < 0xF8 then some (3, o - 0xF0)
    else none
  let (n, t) ← octets? k n t
  return (Char.ofNat n, t)

/-- Whether a character may stand in a tag. -/
def isTagChar (verbatim : Bool) (c : Char) : Bool :=
  isNameChar c || ";/?:@&=+$.%!~*'()".toList.contains c ||
    (verbatim && [',', '[', ']'].contains c)

/-- Reads the characters of a tag, in at most a number of steps. -/
def tagTextWithin (verbatim : Bool) : Nat → Text → Place → Option (Text × Place)
  | 0, acc, p => some (acc.reverse, p)
  | n + 1, acc, p =>
    match p.peek? with
    | none => some (acc.reverse, p)
    | some c =>
      if c == '%' then do
        let (d, rest) ← octetChar? p.rest
        tagTextWithin verbatim n (d :: acc) (p.skipN (p.rest.length - rest.length))
      else if isTagChar verbatim c then tagTextWithin verbatim n (c :: acc) p.skip
      else some (acc.reverse, p)

/-- Reads the characters of a tag. -/
def tagText? (verbatim : Bool) (p : Place) : Option (Text × Place) :=
  tagTextWithin verbatim (p.rest.length + 1) [] p

/-- Reads what can be the handle of a tag: an exclamation mark, and a name with another one or
not. -/
def tagHandle? (p : Place) : Option (Text × Place) :=
  if !p.sees '!' then none
  else
    let name := p.skip.rest.takeWhile isNameChar
    let behind := p.skip.skipN name.length
    if behind.sees '!' then some ('!' :: name ++ ['!'], behind.skip) else some ('!' :: name, behind)

/-- Whether a handle is one that stands for something else. -/
def isFullHandle (handle : Text) : Bool := 2 ≤ handle.length && handle.getLast? == some '!'

/-- Reads a tag, as its handle and its suffix. -/
def tag? (inFlow : Bool) (p : Place) : Option (Token × Place) := do
  let (t, p) ←
    if p.second? == some '<' then do
      let (suffix, p) ← tagText? true (p.skipN 2)
      if suffix.isEmpty || !p.sees '>' then none else some (Token.tag [] suffix, p.skip)
    else do
      let (handle, p) ← tagHandle? p
      let (suffix, p) ← tagText? false p
      if isFullHandle handle then
        if suffix.isEmpty then none else some (.tag handle suffix, p)
      else
        let suffix := handle.drop 1 ++ suffix
        if suffix.isEmpty then some (.tag [] ['!'], p) else some (.tag ['!'] suffix, p)
  if p.seesGap || (inFlow && p.sees ',') then return (t, p) else none

/-- Reads a part of a version. -/
def versionPart? (p : Place) : Option (Nat × Place) :=
  let digits := p.rest.takeWhile Char.isDigit
  if digits.isEmpty || 9 < digits.length then none
  else (Text.digits? digits).map (·, p.skipN digits.length)

/-- Reads a directive at its percent sign, with the line break behind it. -/
def directive? (p : Place) : Option (Token × Place) := do
  let blank (c : Char) : Bool := c == ' ' || c == '\t'
  let name := p.skip.rest.takeWhile isNameChar
  let p := p.skip.skipN name.length
  if name.isEmpty || !p.seesGap then none
  else
    let p := p.skipWhile blank
    let (t, p) ←
      if name == "YAML".toList then do
        let (major, p) ← versionPart? p
        if !p.sees '.' then none
        else
          let (minor, p) ← versionPart? p.skip
          some (Token.version major minor, p)
      else if name == "TAG".toList then do
        let (handle, p) ← tagHandle? p
        if !(isFullHandle handle || handle == ['!']) || !p.seesBlank then none
        else
          let (lead, p) ← tagText? true (p.skipWhile blank)
          if lead.isEmpty || !p.seesGap then none else some (.tagHandle handle lead, p)
      else none
    let p := (p.skipWhile blank).skipComment
    if !p.seesLineEnd then none
    else return (t, if p.seesBreak then p.skipLine else p)

end Yaml

end Document

end TaggedOutline
