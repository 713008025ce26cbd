import TaggedOutline.Text

/-!
# Tokens

A token is one piece of a text that a lexer has cut off.  It carries the kind of the rule that made
it, its text as the rule gives it, and the bytes it was cut from.
-/

namespace TaggedOutline

/-- One token. -/
structure Token where
  /-- The name of the lexer rule, or `word` for the fallback. -/
  kind : String
  text : Text
  /-- The byte offset of the first byte. -/
  start : Nat
  /-- The byte offset after the last byte. -/
  stop : Nat
  /-- Silent tokens take part in the cutting only; no grammar sees them. -/
  silent : Bool := false
  /-- Structural tokens are punctuation, which the word rule never takes. -/
  structural : Bool := false
deriving DecidableEq, Repr

end TaggedOutline
