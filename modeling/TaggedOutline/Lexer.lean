import TaggedOutline.Matcher
import TaggedOutline.Text.Blank
import TaggedOutline.Text.Shown
import TaggedOutline.Token

/-!
# The lexer

A lexer cuts a text into tokens from left to right.  Its rules are tried in order and the first one
with a non-empty match wins, so order is priority.  Where no rule matches, the fallback takes the
longest run of characters that are neither blank nor stops as a `word`.  A place where the fallback
takes nothing ends the cutting with a `LexError`.

`Lexer.scan` gives every token, `Lexer.visible` those that are not silent.
-/

namespace TaggedOutline

/-- A rule of a lexer. -/
structure LexRule where
  name : String
  pattern : Matcher
  /-- What becomes of the text of a token. -/
  transform : Text → Text := id
  silent : Bool := false
  structural : Bool := false

namespace LexRule

/-- What is left of a text after a non-empty match of the rule. -/
def rest? (r : LexRule) (t : Text) : Option { rest : Text // rest.length < t.length } :=
  match r.pattern.find t with
  | none => none
  | some c => if h : c.after.length < t.length then some ⟨c.after, h⟩ else none

/-- The pattern of a rule, given in its written form: the form is put in a group behind the sign for
the head of the text, and only then read. -/
def patternOf? (read : Matcher.Reader) (source : Text) : Option Matcher :=
  read ("^(?:".toList ++ source ++ [')'])

end LexRule

/-- No rule, not even the fallback, takes anything at this offset. -/
structure LexError where
  offset : Nat
  /-- The text at that place, sixteen characters at most. -/
  snippet : Text
deriving DecidableEq, Repr

/-- The wording of the error. -/
def LexError.message (e : LexError) : Text :=
  "no lexer rule matches at byte ".toList ++ Nat.toDigits 10 e.offset ++ ": ".toList ++
    Text.shown e.snippet

/-- An ordered list of rules and the characters at which a fallback word ends. -/
structure Lexer where
  rules : List LexRule
  stops : Text

namespace Lexer

/-- The stops of a lexer that names none. -/
def defaultStops : Text := "\"'()[]{},;=:#".toList

/-- Whether the fallback takes a character. -/
def inWord (lx : Lexer) (c : Char) : Bool := !Text.isBlank c && !lx.stops.contains c

/-- The token at the head of a text that begins at byte `offset`, and the text after it. -/
def next? (lx : Lexer) (offset : Nat) (t : Text) :
    Option (Token × { rest : Text // rest.length < t.length }) :=
  let lexeme (rest : Text) : Text := t.take (t.length - rest.length)
  match lx.rules.findSome? fun r => (r.rest? t).map fun rest => (r, rest) with
  | some (r, rest) =>
    let cut := lexeme rest.val
    some ({ kind := r.name, text := r.transform cut, start := offset
            stop := offset + Text.byteSize cut
            silent := r.silent, structural := r.structural }, rest)
  | none =>
    let rest := t.dropWhile lx.inWord
    if h : rest.length < t.length then
      let cut := lexeme rest
      some ({ kind := "word", text := cut, start := offset
              stop := offset + Text.byteSize cut }, ⟨rest, h⟩)
    else none

/-- The tokens of a text that begins at byte `offset`, and the error that ends the cutting early. -/
def scanFrom (lx : Lexer) (offset : Nat) (t : Text) : List Token × Option LexError :=
  if t.isEmpty then ([], none)
  else
    match lx.next? offset t with
    | none => ([], some ⟨offset, t.take 16⟩)
    | some (token, rest) =>
      let (tokens, error) := lx.scanFrom token.stop rest.val
      (token :: tokens, error)
termination_by t.length
decreasing_by exact rest.property

/-- The tokens of a text, silent ones among them, and the error that ends the cutting early. -/
def scan (lx : Lexer) (t : Text) : List Token × Option LexError := lx.scanFrom 0 t

/-- The tokens of a text that a grammar sees. -/
def visible (lx : Lexer) (t : Text) : Except LexError (List Token) :=
  match lx.scan t with
  | (tokens, none) => .ok (tokens.filter fun token => !token.silent)
  | (_, some e) => .error e

end Lexer

end TaggedOutline
