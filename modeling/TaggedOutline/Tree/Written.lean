import TaggedOutline.Spec.Written
import TaggedOutline.Tree.Subtree

/-!
# The written form of a tree

A node is written as its description is.  Of the root only the body is written, because the root
stands for the document and has no line in it.
-/

namespace TaggedOutline

namespace Tree

variable {H : Type}

/-- The written form of a node and everything beneath it. -/
def serialize (t : Tree H) (settings : Settings) (id : NodeId) : Text :=
  match t.toSpec? id with
  | none => []
  | some s => if id = root then s.writeBody settings 0 else s.serialize settings

end Tree

end TaggedOutline
