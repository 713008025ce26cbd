import TaggedOutline.Document.Yaml.Token

/-!
# The tokens of a YAML text

A text is cut into tokens from left to right.  Outside brackets the indentation opens and closes
blocks, and each of these has a token as well.  A scalar turns out to be a key only at the colon
behind it, so the places where a key may begin are kept, one for each level of brackets, and the
token for the key is put in there later.  Such a key stays on one line and is short.
-/

namespace TaggedOutline

namespace Document

namespace Yaml

/-- A place where a key may begin. -/
structure KeyPlace where
  /-- The place has to become a key, because it stands at the indentation of its block. -/
  required : Bool
  /-- The number of tokens before it. -/
  token : Nat
  index : Nat
  line : Nat
  column : Nat

/-- How far a text has been cut into tokens. -/
structure Scanner where
  place : Place
  /-- The indentation of the innermost block; below nought outside all blocks. -/
  indent : Int := -1
  /-- The indentations of the blocks around it. -/
  outer : List Int := []
  /-- The places where a key may begin, the innermost brackets first. -/
  keys : List (Option KeyPlace) := [none]
  /-- Whether a key may begin at the next token. -/
  keyAllowed : Bool := true
  tokens : Array Token := #[]

namespace Scanner

/-- The longest key that needs no mark of its own. -/
def maxKeyLength : Nat := 1024

/-- Whether the place is inside brackets. -/
def inFlow (s : Scanner) : Bool := 1 < s.keys.length

/-- The scanner with one more token. -/
def push (s : Scanner) (t : Token) : Scanner := { s with tokens := s.tokens.push t }

/-- The scanner with a token put in after a number of tokens. -/
def insert (s : Scanner) (n : Nat) (t : Token) : Scanner :=
  { s with tokens := (s.tokens.extract 0 n).push t ++ s.tokens.extract n s.tokens.size }

/-! ## Keys -/

/-- Gives up the places for keys that are too far back. -/
def dropStaleKeys (s : Scanner) : Option Scanner := do
  let fresh (k : KeyPlace) : Bool :=
    s.place.line ≤ k.line && s.place.index ≤ k.index + maxKeyLength
  let keys ← s.keys.mapM fun
    | none => some none
    | some k => if fresh k then some (some k) else if k.required then none else some none
  return { s with keys }

/-- Gives up the place for a key in the innermost brackets. -/
def dropKey (s : Scanner) : Option Scanner :=
  match s.keys with
  | some k :: outer => if k.required then none else some { s with keys := none :: outer }
  | _ => some s

/-- Keeps the place as one where a key may begin. -/
def saveKey (s : Scanner) : Option Scanner :=
  if !s.keyAllowed then some s
  else do
    let s ← s.dropKey
    let p := s.place
    let required := !s.inFlow && s.indent == (p.column : Int)
    let key : KeyPlace :=
      { required, token := s.tokens.size, index := p.index, line := p.line, column := p.column }
    return { s with keys := some key :: s.keys.tail }

/-! ## Blocks -/

/-- Opens a block at a column after a number of tokens, if the column is deeper. -/
def openBlock (s : Scanner) (column : Nat) (n : Nat) (t : Token) : Scanner :=
  if s.inFlow || (column : Int) ≤ s.indent then s
  else { s.insert n t with indent := column, outer := s.indent :: s.outer }

/-- Closes the blocks that are deeper than a column, given the blocks around. -/
def closeBlocksFrom (column : Int) (s : Scanner) : List Int → Scanner
  | [] => s
  | indent :: outer =>
    if column < s.indent then
      closeBlocksFrom column { s.push .blockEnd with indent, outer } outer
    else s

/-- Closes the blocks that are deeper than a column. -/
def closeBlocks (s : Scanner) (column : Int) : Scanner :=
  if s.inFlow then s else closeBlocksFrom column s s.outer

/-! ## Tokens -/

/-- Goes to the next token, in at most a number of steps.  Outside brackets a new line may begin
with a key, and where a key may begin no tab is passed over. -/
def skipToTokenWithin : Nat → Scanner → Scanner
  | 0, s => s
  | n + 1, s =>
    let tabs := s.inFlow || !s.keyAllowed
    let p := (s.place.skipWhile fun c => c == ' ' || (tabs && c == '\t')).skipComment
    if p.seesBreak then
      skipToTokenWithin n { s with place := p.skipLine, keyAllowed := s.keyAllowed || !s.inFlow }
    else { s with place := p }

/-- Goes to the next token. -/
def skipToToken (s : Scanner) : Scanner := skipToTokenWithin (s.place.rest.length + 1) s

/-- Takes a token of some characters. -/
def takeMark (s : Scanner) (n : Nat) (t : Token) : Scanner :=
  { s with place := s.place.skipN n }.push t

/-- Closes all blocks before something that stands outside the document. -/
def leaveDocument (s : Scanner) : Option Scanner := do
  let s ← (s.closeBlocks (-1)).dropKey
  return { s with keyAllowed := false }

/-- Takes an opening bracket. -/
def openFlow (s : Scanner) (t : Token) : Option Scanner := do
  let s ← s.saveKey
  return { s with keys := none :: s.keys, keyAllowed := true }.takeMark 1 t

/-- Takes a closing bracket. -/
def closeFlow (s : Scanner) (t : Token) : Option Scanner := do
  let s ← s.dropKey
  let keys := if s.inFlow then s.keys.tail else s.keys
  return { s with keys, keyAllowed := false }.takeMark 1 t

/-- Takes a comma between brackets. -/
def flowEntry (s : Scanner) : Option Scanner := do
  let s ← s.dropKey
  return { s with keyAllowed := true }.takeMark 1 .flowEntry

/-- Takes the mark of an item or of a key. -/
def blockMark (s : Scanner) (start mark : Token) (keyNext : Bool) : Option Scanner :=
  if !s.inFlow && !s.keyAllowed then none
  else do
    let s ← (s.openBlock s.place.column s.tokens.size start).dropKey
    return { s with keyAllowed := keyNext }.takeMark 1 mark

/-- Takes the colon behind a key. -/
def value (s : Scanner) : Option Scanner :=
  match s.keys with
  | some k :: outer =>
    let s := (s.insert k.token .key).openBlock k.column k.token .blockMapStart
    some ({ s with keys := none :: outer, keyAllowed := false }.takeMark 1 .value)
  | _ =>
    if !s.inFlow && !s.keyAllowed then none
    else
      let s := s.openBlock s.place.column s.tokens.size .blockMapStart
      some ({ s with keyAllowed := !s.inFlow }.takeMark 1 .value)

/-- Takes a token that may be a key or stand in front of one. -/
def keyed (s : Scanner) (read : Place → Option (Token × Place)) : Option Scanner := do
  let s ← s.saveKey
  let (t, place) ← read s.place
  return { s with place, keyAllowed := false }.push t

/-- Takes a block scalar. -/
def blockScalar (s : Scanner) (style : Style) : Option Scanner := do
  let s ← s.dropKey
  let (t, place) ← block? (style == .folded) s.indent s.place
  return { s with place, keyAllowed := true }.push (.scalar style t)

/-- Takes a plain scalar.  When its last line has ended, a key may follow. -/
def plainScalar (s : Scanner) : Option Scanner := do
  let s ← s.saveKey
  let (t, broken, place) ← plain? s.inFlow s.indent s.place
  return { s with place, keyAllowed := broken }.push (.scalar .plain t)

/-- Whether a plain scalar begins with a character. -/
def beginsPlain (s : Scanner) (c : Char) : Bool :=
  let gapNext := isGap s.place.second?
  (!isGap (some c) && !indicators.contains c && c != '-' && c != '?' && c != ':') ||
    (c == '-' && s.place.second? != some ' ' && s.place.second? != some '\t') ||
    (!s.inFlow && (c == '?' || c == ':') && !gapNext)

/-- Takes the token that begins with a character. -/
def takeToken (s : Scanner) (c : Char) : Option Scanner :=
  let p := s.place
  let gapNext := isGap p.second?
  if p.column == 0 && c == '%' then do
    let s ← s.leaveDocument
    let (t, place) ← directive? s.place
    return { s with place }.push t
  else if p.seesDocumentMark then do
    let s ← s.leaveDocument
    return s.takeMark 3 (if c == '-' then .documentStart else .documentEnd)
  else if c == '[' then s.openFlow .flowListStart
  else if c == '\x7b' then s.openFlow .flowMapStart
  else if c == ']' then s.closeFlow .flowListEnd
  else if c == '\x7d' then s.closeFlow .flowMapEnd
  else if c == ',' then s.flowEntry
  else if c == '-' && gapNext then s.blockMark .blockListStart .blockEntry true
  else if c == '?' && (s.inFlow || gapNext) then s.blockMark .blockMapStart .key (!s.inFlow)
  else if c == ':' && (s.inFlow || gapNext) then s.value
  else if c == '*' then
    s.keyed fun p => (anchorName? p.skip).map fun (name, p) => (.alias name, p)
  else if c == '&' then
    s.keyed fun p => (anchorName? p.skip).map fun (name, p) => (.anchor name, p)
  else if c == '!' then s.keyed (tag? s.inFlow)
  else if c == '|' && !s.inFlow then s.blockScalar .literal
  else if c == '>' && !s.inFlow then s.blockScalar .folded
  else if c == '\'' then
    s.keyed fun p => (quoted? '\'' p).map fun (t, p) => (.scalar .singleQuoted t, p)
  else if c == '"' then
    s.keyed fun p => (quoted? '"' p).map fun (t, p) => (.scalar .doubleQuoted t, p)
  else if s.beginsPlain c then s.plainScalar
  else none

/-- Takes the end of the text. -/
def finish (s : Scanner) : Option Scanner := do
  let s ← (s.closeBlocks (-1)).dropKey
  return s.push .streamEnd

/-- Takes all tokens, in at most a number of steps. -/
def run : Nat → Scanner → Option Scanner
  | 0, _ => none
  | n + 1, s => do
    let s ← s.skipToToken.dropStaleKeys
    let s := s.closeBlocks s.place.column
    match s.place.peek? with
    | none => s.finish
    | some c => run n (← s.takeToken c)

end Scanner

/-- Whether a character may stand in a document. -/
def isAllowed (c : Char) : Bool :=
  c == '\t' || c == '\n' || c == '\r' || c == '\x85' || (0x20 ≤ c.toNat && c.toNat ≤ 0x7E) ||
    (0xA0 ≤ c.toNat && c.toNat ≤ 0xFFFD) || 0x10000 ≤ c.toNat

/-- The tokens of a text. -/
def tokens? (t : Text) : Option (List Token) := do
  let t := if t.head? == some '\ufeff' then t.tail else t
  if !t.all isAllowed then none
  else
    let s ← Scanner.run (t.length + 1) { place := { rest := t } }
    return s.tokens.toList

end Yaml

end Document

end TaggedOutline
