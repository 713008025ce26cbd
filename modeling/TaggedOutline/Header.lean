import TaggedOutline.Grammar.Sublanguage
import TaggedOutline.Lexer.Pieces
import TaggedOutline.Params

/-!
# Header lines

The first line of an element is its header:

    tag names* (params)? [options]? "label"? :parser? {code} | {  #comment?

Only the tag is needed, and the whole line has to be read.  Parameters and options are entries with
commas or spaces between them; an entry is a bare key or a key with a value, which is a word or a
quoted string.

`Header.line` is the sublanguage of header lines.  Its lexer is a list of patterns and its grammar a
list of rules, so both can be read off the definitions.
-/

namespace TaggedOutline

/-- What a header line says. -/
structure Header where
  tag : Text
  /-- The name and the further names. -/
  names : List Text := []
  params : Params := .empty
  options : Params := .empty
  label : Option Text := none
  /-- The name of the sublanguage that the body is written in. -/
  parser : Option Text := none
  inlineCode : Option Text := none
  /-- The header ends with an opening bracket. -/
  bracket : Bool := false
  comment : Option Text := none
deriving DecidableEq

namespace Header

/-- The characters that end a bare word. -/
def stops : Text := "\"(){}[],=:#".toList

/-! ## The lexer -/

/-- Anything but braces. -/
def bracelessPattern : Pattern := .one (.compl (.ofList ['\x7b', '\x7d']))

/-- Code in braces, in which braces nest once. -/
def codePattern : Pattern :=
  .inOrder [
    .char '\x7b',
    .star true (.alt
      bracelessPattern
      (.inOrder [.char '\x7b', .star true bracelessPattern, .char '\x7d'])),
    .char '\x7d']

/-- A number sign and the rest of the line. -/
def commentPattern : Pattern :=
  .seq (.char '#') (.star true (.one (.compl (.single '\n'))))

/-- The lexer of header lines. -/
def lexer : Lexer where
  rules := [
    .spaces,
    .quoted,
    { name := "code", pattern := codePattern.atHead
      transform := fun t => Text.trim (dropEnds t) },
    .mark "open_brace" ['\x7b'],
    { name := "comment", pattern := commentPattern.atHead
      transform := fun t => Text.trim t.tail },
    .mark "lparen" ['('],
    .mark "rparen" [')'],
    .mark "lbracket" ['['],
    .mark "rbracket" [']'],
    .mark "comma" [','],
    .mark "equals" ['='],
    .mark "colon" [':']]
  stops := stops

/-! ## The grammar -/

/-- The rules of header lines. -/
def rules : List NamedRule := [
  ("header", .seq [
    .ref "tag",
    .ref "names",
    .optional (.ref "params"),
    .optional (.ref "options"),
    .optional (.ref "label"),
    .optional (.ref "parser"),
    .optional (.choice [.ref "code", .ref "open"]),
    .optional (.ref "comment"),
    .finish]),
  ("tag", .token "word"),
  ("names", .many (.token "word")),
  ("params", .seq [.token "lparen", .optional (.ref "entries"), .token "rparen"]),
  ("options", .seq [.token "lbracket", .optional (.ref "entries"), .token "rbracket"]),
  ("entries", .seq [.ref "entry", .many (.seq [.optional (.token "comma"), .ref "entry"])]),
  ("entry", .seq [.ref "key", .optional (.seq [.token "equals", .ref "value"])]),
  ("key", .token "word"),
  ("value", .choice [.token "word", .token "string"]),
  ("label", .token "string"),
  ("parser", .seq [.token "colon", .ref "parser_name"]),
  ("parser_name", .token "word"),
  ("code", .token "code"),
  ("open", .token "open_brace"),
  ("comment", .token "comment")]

/-- The grammar of header lines. -/
def grammar : Grammar where
  rules := rules
  start := "header"
  sound := by decide

/-! ## The meaning -/

/-- The entries of a parameter or option list; a bare key is a flag. -/
def decodeEntries (t : ParseTree) : Params :=
  (t.findAll "entry").foldl (fun p entry =>
    match entry.textOf? "key" with
    | none => p
    | some key =>
      match entry.textOf? "value" with
      | some value => p.insert key value
      | none => p.insertFlag key) .empty

/-- The header that a tree of the grammar stands for. -/
def decode (t : ParseTree) : Option Header :=
  (t.textOf? "tag").map fun tag =>
    { tag
      names := ((t.find? "names").map ParseTree.texts).getD []
      params := ((t.find? "params").map decodeEntries).getD .empty
      options := ((t.find? "options").map decodeEntries).getD .empty
      label := t.textOf? "label"
      parser := t.textOf? "parser_name"
      inlineCode := t.textOf? "code"
      bracket := (t.find? "open").isSome
      comment := t.textOf? "comment" }

/-- The sublanguage of header lines. -/
def line : Sublanguage Header where
  lexer := lexer
  grammar := grammar
  decode := decode

/-- The header that a line stands for. -/
def parse (t : Text) : Option Header := line.parse t

end Header

end TaggedOutline
