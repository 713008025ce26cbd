import TaggedOutline.Binary64

/-!
# Document values

What a document of any format holds, once its notation is read: nothing, a truth value, a number, a
text, a list or a map.  Maps keep their entries in order, repeated keys among them, because what is
made of a document decides what a repetition means.
-/

namespace TaggedOutline

namespace Document

/-- A value of a document. -/
inductive Value where
  | null
  | bool (b : Bool)
  | whole (n : Int)
  | real (x : Binary64)
  | text (t : Text)
  | list (items : List Value)
  | map (entries : List (Value × Value))
deriving BEq, Repr, Inhabited

namespace Value

/-- A list of texts. -/
def ofTexts (ts : List Text) : Value := .list (ts.map .text)

/-- A list of pairs of texts. -/
def ofPairs (ps : List (Text × Text)) : Value :=
  .list (ps.map fun p => .list [.text p.1, .text p.2])

/-- The value as a text, if it is one. -/
def text? : Value → Option Text
  | .text t => some t
  | _ => none

/-- Whether the value is this text. -/
def isText (t : Text) : Value → Bool
  | .text u => u == t
  | _ => false

/-- The value as a truth value, if it is one. -/
def bool? : Value → Option Bool
  | .bool b => some b
  | _ => none

/-- The value as a text that may be absent. -/
def optionalText? : Value → Option (Option Text)
  | .null => some none
  | .text t => some (some t)
  | _ => none

/-- The value as a list of texts, if it is one. -/
def texts? : Value → Option (List Text)
  | .list items => items.mapM text?
  | _ => none

/-- The value as a pair of texts, if it is one. -/
def pair? : Value → Option (Text × Text)
  | .list [a, b] => do return (← a.text?, ← b.text?)
  | _ => none

/-- The value as a list of pairs of texts, if it is one. -/
def pairs? : Value → Option (List (Text × Text))
  | .list items => items.mapM pair?
  | _ => none

end Value

end Document

end TaggedOutline
