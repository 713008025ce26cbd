import TaggedOutline.Text.Number
import TaggedOutline.Tree.Subtree

/-!
# Overviews

An overview shows a node and everything beneath it, one line for each, two spaces deeper for each
level:

    tag names "label" [markers] (n diagnostics)

The markers are `!` for a suppressed node, `+` for one that is no part of the document and `*` for
one that can be called.
-/

namespace TaggedOutline

namespace Subtree

variable {H : Type}

/-- The most characters of a label that are shown. -/
def labelWidth : Nat := 30

/-- A label as it is shown. -/
def cutLabel (label : Text) : Text :=
  if label.length > labelWidth then label.take labelWidth ++ "...".toList else label

/-- The markers of a node. -/
def markers (n : Node H) : Text :=
  (if n.suppressed then ['!'] else []) ++ (if n.runtimeOnly then ['+'] else []) ++
    (if n.isCallable then ['*'] else [])

/-- The line of a node at a level. -/
def overviewLine (level : Nat) (n : Node H) : Text :=
  List.replicate (2 * level) ' ' ++ n.tag ++ n.names.flatMap (' ' :: ·) ++
    (match n.label with
      | some label => " \"".toList ++ cutLabel label ++ ['"']
      | none => []) ++
    (if (markers n).isEmpty then [] else " [".toList ++ markers n ++ [']']) ++
    (if n.diagnostics.isEmpty then []
      else " (".toList ++ Text.ofNat n.diagnostics.length ++ " diagnostics)".toList)

mutual

/-- The overview of a subtree at a level. -/
def overviewAt (level : Nat) : Subtree H → Text
  | ⟨_, node, children⟩ => overviewLine level node ++ '\n' :: childOverviews (level + 1) children

/-- The overviews of children. -/
def childOverviews (level : Nat) : List (Child (Subtree H)) → Text
  | [] => []
  | child :: children => childOverview level child ++ childOverviews level children

/-- The overview of a child; texts are not shown. -/
def childOverview (level : Nat) : Child (Subtree H) → Text
  | .text _ => []
  | .node s => s.overviewAt level

end

end Subtree

/-- The overview of a node and everything beneath it. -/
def Tree.overview {H : Type} (t : Tree H) (id : NodeId) : Text :=
  ((t.subtree? id).map (Subtree.overviewAt 0)).getD []

end TaggedOutline
