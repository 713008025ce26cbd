import TaggedOutline.Text

/-!
# Sketches

A sketch is the shape of an element and everything in it: tags, names, parameters and children.
Trees with equal sketches have the same structure, whatever texts and results their elements hold.
-/

namespace TaggedOutline

/-- The shape of an element. -/
structure Sketch where
  tag : Text
  names : List Text := []
  params : List (Text × Text) := []
  children : List Sketch := []
deriving BEq, Repr, Inhabited

namespace Sketch

mutual

/-- The number of elements in a sketch. -/
def size : Sketch → Nat
  | ⟨_, _, _, children⟩ => 1 + sizes children

/-- The number of elements in a list of sketches. -/
def sizes : List Sketch → Nat
  | [] => 0
  | s :: rest => s.size + sizes rest

end

end Sketch

end TaggedOutline
