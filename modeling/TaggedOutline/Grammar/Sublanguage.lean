import TaggedOutline.Grammar.Recognize
import TaggedOutline.Lexer

/-!
# Sublanguages

A sublanguage is everything that is needed to read one kind of text: how the text is normalized, the
lexer, the grammar, and what a parse tree of the grammar means.  Header lines, locator paths and the
bodies of special tags are sublanguages.
-/

namespace TaggedOutline

/-- A kind of text whose meaning is a value of `α`. -/
structure Sublanguage (α : Type) where
  lexer : Lexer
  grammar : Grammar
  normalize : Text → Text := id
  decode : ParseTree → Option α

namespace Sublanguage

/-- The tree of a text, after normalization. -/
def parseTree {α : Type} (l : Sublanguage α) (t : Text) : Option ParseTree :=
  match l.lexer.visible (l.normalize t) with
  | .ok tokens => l.grammar.parse { tokens }
  | .error _ => none

/-- The meaning of a text. -/
def parse {α : Type} (l : Sublanguage α) (t : Text) : Option α := (l.parseTree t).bind l.decode

end Sublanguage

end TaggedOutline
