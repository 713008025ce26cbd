import TaggedOutline.Token

/-!
# Token streams

A stream is a place in a list of tokens.  Moving on gives another stream over the same list, so what
reads ahead and fails has nothing to undo.
-/

namespace TaggedOutline

/-- A place in a list of tokens. -/
structure Stream where
  tokens : List Token
  position : Nat := 0
deriving DecidableEq, Repr

namespace Stream

/-- The next token. -/
def head? (s : Stream) : Option Token := s.tokens[s.position]?

/-- The stream after the next token; at the end it stays where it is. -/
def advance (s : Stream) : Stream := { s with position := min (s.position + 1) s.tokens.length }

/-- The next token and the stream after it. -/
def uncons? (s : Stream) : Option (Token × Stream) := s.head?.map fun t => (t, s.advance)

/-- Whether no token is left. -/
def isEmpty (s : Stream) : Bool := s.tokens.length ≤ s.position

/-- The number of tokens left. -/
def size (s : Stream) : Nat := s.tokens.length - s.position

/-- The tokens left. -/
def remaining (s : Stream) : List Token := s.tokens.drop s.position

@[simp] theorem tokens_advance (s : Stream) : s.advance.tokens = s.tokens := rfl

end Stream

end TaggedOutline
