import TaggedOutline.Grammar.Sublanguage
import TaggedOutline.Lexer.Pieces
import TaggedOutline.Text.Number

/-!
# Locators

A locator is a path to an element: steps with `.` or `/` between them, each the name of a tag, or
`*` for any tag, with at most one selector:

    tag[name]            the name or a further name is `name`
    tag[attr=value]      the attribute is `value`
    tag[attr=~pattern]   the pattern occurs in the attribute
    tag(n)               the element is the `n`th of its tag, from one

`Locator.compile` reads a path, for whatever reads its patterns.  The steps are checked from left to
right, so the error of the first step that is wrong is the error of the path.
-/

namespace TaggedOutline

/-- How a step narrows the elements with its tag. -/
inductive Selector where
  | any
  | name (name : Text)
  | attrEq (key value : Text)
  /-- The pattern with its written form. -/
  | attrMatch (key source : Text) (pattern : Matcher)
  /-- The place among the siblings with the tag, from one. -/
  | nth (place : Nat)

/-- One step of a path. -/
structure Step where
  tag : Text
  selector : Selector

/-- The tag of a step that accepts every tag. -/
def Step.anyTag : Text := ['*']

/-- Whether a step accepts elements with a tag. -/
def Step.acceptsTag (s : Step) (tag : Text) : Bool := s.tag == anyTag || s.tag == tag

/-- A path that has been read. -/
structure Locator where
  source : Text
  steps : List Step

/-- Why a path is no locator. -/
inductive LocatorError where
  | syntaxError (path : Text)
  | lexError (e : LexError)
  | badPattern (pattern : Text)
  | zeroIndex (path : Text)
deriving DecidableEq, Repr

namespace Locator

/-- The characters that end a bare word of a path. -/
def stops : Text := "./[]()=\"".toList

/-- The lexer of paths. -/
def lexer : Lexer where
  rules := [
    .spaces,
    .quoted,
    .mark "match_op" ['=', '~'],
    .mark "equals" ['='],
    .mark "lbracket" ['['],
    .mark "rbracket" [']'],
    .mark "lparen" ['('],
    .mark "rparen" [')'],
    .mark "dot" ['.'],
    .mark "slash" ['/']]
  stops := stops

/-- The rules of paths. -/
def rules : List NamedRule := [
  ("path", .seq [
    .ref "step",
    .many (.seq [.choice [.token "dot", .token "slash"], .ref "step"]),
    .finish]),
  ("step", .seq [
    .ref "tag",
    .optional (.choice [.ref "filter", .ref "position"])]),
  ("tag", .token "word"),
  ("filter", .seq [
    .token "lbracket",
    .choice [.ref "attr_match", .ref "attr_eq", .ref "name"],
    .token "rbracket"]),
  ("attr_match", .seq [.ref "key", .token "match_op", .ref "value"]),
  ("attr_eq", .seq [.ref "key", .token "equals", .ref "value"]),
  ("key", .token "word"),
  ("value", .choice [.token "word", .token "string"]),
  ("name", .choice [.token "word", .token "string"]),
  ("position", .seq [.token "lparen", .ref "index", .token "rparen"]),
  ("index", .token "word")]

/-- The grammar of paths. -/
def grammar : Grammar where
  rules := rules
  start := "path"
  sound := by decide

/-- A step as it is written, before patterns and places are checked. -/
inductive WrittenStep where
  | plain (tag : Text)
  | name (tag name : Text)
  | attrEq (tag key value : Text)
  | attrMatch (tag key pattern : Text)
  | nth (tag index : Text)
deriving DecidableEq, Repr

/-- The written step that a tree of the rule `step` stands for. -/
def decodeStep (t : ParseTree) : Option WrittenStep := do
  let tag ← t.textOf? "tag"
  match t.find? "attr_match" with
  | some found => return .attrMatch tag (← found.textOf? "key") (← found.textOf? "value")
  | none =>
    match t.find? "attr_eq" with
    | some found => return .attrEq tag (← found.textOf? "key") (← found.textOf? "value")
    | none =>
      match t.textOf? "name", t.textOf? "index" with
      | some name, _ => return .name tag name
      | none, some index => return .nth tag index
      | none, none => return .plain tag

/-- The sublanguage of paths. -/
def path : Sublanguage (List WrittenStep) where
  lexer := lexer
  grammar := grammar
  decode t := (t.findAll "step").mapM decodeStep

/-- The step that a written step of a path stands for. -/
def WrittenStep.compile (read : Matcher.Reader) (path : Text) :
    WrittenStep → Except LocatorError Step
  | .plain tag => .ok ⟨tag, .any⟩
  | .name tag wanted => .ok ⟨tag, .name wanted⟩
  | .attrEq tag key value => .ok ⟨tag, .attrEq key value⟩
  | .attrMatch tag key source =>
    match read source with
    | some pattern => .ok ⟨tag, .attrMatch key source pattern⟩
    | none => .error (.badPattern source)
  | .nth tag index =>
    match Text.nat? 64 index with
    | some 0 => .error (.zeroIndex path)
    | some place => .ok ⟨tag, .nth place⟩
    | none => .error (.syntaxError path)

/-- Reads a path. -/
def compile (read : Matcher.Reader) (source : Text) : Except LocatorError Locator := do
  let tokens ← (lexer.visible source).mapError .lexError
  match (grammar.parse { tokens }).bind path.decode with
  | none => throw (.syntaxError source)
  | some written => return { source, steps := ← written.mapM (WrittenStep.compile read source) }

end Locator

/-- The wording of the error, where it has one of its own. -/
def LocatorError.message? : LocatorError → Option Text
  | .syntaxError path => some ("invalid locator path: ".toList ++ Text.shown path)
  | .lexError e => some e.message
  | .badPattern _ => none
  | .zeroIndex path =>
    some ("positional index must be 1 or greater in ".toList ++ Text.shown path)

end TaggedOutline
