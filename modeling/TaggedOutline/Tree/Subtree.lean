import TaggedOutline.Sketch
import TaggedOutline.Tree

/-!
# Subtrees

A node with everything beneath it as a value: what is said of a whole part of a tree is a recursion
over its `Subtree`.  The sketch and the description leave out nodes that are no part of the
document; the description keeps an unread header and a body that was not made into children as they
were found.
-/

namespace TaggedOutline

/-- A node with everything beneath it. -/
structure Subtree (H : Type) where
  id : NodeId
  node : Node H
  children : List (Child (Subtree H)) := []

namespace Tree

variable {H : Type}

/-- The part of a tree that is beneath a node, down to a depth. -/
def subtreeWithin (t : Tree H) : Nat → NodeId → Option (Subtree H)
  | 0, _ => none
  | depth + 1, id =>
    (t.node? id).map fun node =>
      { id, node
        children := node.children.filterMap fun
          | .text s => some (.text s)
          | .node child => (t.subtreeWithin depth child).map .node }

/-- The part of a tree that is beneath a node.  It is no deeper than the tree has nodes. -/
def subtree? (t : Tree H) (id : NodeId) : Option (Subtree H) := t.subtreeWithin t.size id

end Tree

namespace Subtree

variable {H : Type}

mutual

/-- The sketch of a subtree. -/
def sketch : Subtree H → Sketch
  | ⟨_, node, children⟩ => ⟨node.tag, node.names, node.params.entries, childSketches children⟩

/-- The sketches of the children that are part of the document. -/
def childSketches : List (Child (Subtree H)) → List Sketch
  | [] => []
  | child :: children => childSketch child ++ childSketches children

/-- The sketch of a child, if it is part of the document. -/
def childSketch : Child (Subtree H) → List Sketch
  | .text _ => []
  | .node s => if s.node.runtimeOnly then [] else [s.sketch]

end

/-- The description of a node with given children. -/
def describe (n : Node H) (body : Option Text) (children : List (Child Spec)) : Spec where
  tag := n.tag
  suppressed := n.suppressed
  header := if n.headerFailed then n.header else none
  name := n.name
  aliases := n.aliases
  params := n.params.entries
  options := n.options.entries
  label := n.label
  parser := n.parser
  inlineCode := n.inlineCode
  bracket := n.bracket
  comment := n.comment
  body := body
  children := children

mutual

/-- The description of a subtree. -/
def toSpec : Subtree H → Spec
  | ⟨_, node, children⟩ =>
    if node.expanded then describe node none (childSpecs children)
    else
      match node.body with
      | .text [] => describe node none []
      | .text body => describe node (some body) []
      | .children items => describe node none items

/-- The descriptions of the children that are part of the document. -/
def childSpecs : List (Child (Subtree H)) → List (Child Spec)
  | [] => []
  | child :: children => childSpec child ++ childSpecs children

/-- The description of a child, if it is part of the document. -/
def childSpec : Child (Subtree H) → List (Child Spec)
  | .text t => [.text t]
  | .node s => if s.node.runtimeOnly then [] else [.node s.toSpec]

end

mutual

/-- What the node gives when it is called. -/
def invoke : Subtree H → Option Payload
  | s@⟨_, node, children⟩ =>
    match node.action with
    | some .total => some (.whole (childTotal children))
    | some (.constant p) => some p
    | some .size => some (.whole s.sketch.size)
    | some .nothing => none
    | none => none

/-- The sum of the numbers of children. -/
def childTotal : List (Child (Subtree H)) → Int
  | [] => 0
  | child :: children => childNumber child + childTotal children

/-- The number of a child: its payload, else what it gives when it is called. -/
def childNumber : Child (Subtree H) → Int
  | .text _ => 0
  | .node s =>
    match s.node.payload.bind Payload.whole? with
    | some n => n
    | none => (s.invoke.bind Payload.whole?).getD 0

end

mutual

/-- The node and everything beneath it, each node before what is beneath it. -/
def preorder : Subtree H → List NodeId
  | ⟨id, _, children⟩ => id :: childPreorders children

/-- The nodes of a list of children, from left to right. -/
def childPreorders : List (Child (Subtree H)) → List NodeId
  | [] => []
  | child :: children => childPreorder child ++ childPreorders children

/-- The nodes of a child. -/
def childPreorder : Child (Subtree H) → List NodeId
  | .text _ => []
  | .node s => s.preorder

end

end Subtree

namespace Tree

variable {H : Type}

/-- The sketch of a node. -/
def sketch? (t : Tree H) (id : NodeId) : Option Sketch := (t.subtree? id).map Subtree.sketch

/-- The description of a node. -/
def toSpec? (t : Tree H) (id : NodeId) : Option Spec := (t.subtree? id).map Subtree.toSpec

/-- What a node gives when it is called. -/
def invoke (t : Tree H) (id : NodeId) : Option Payload := (t.subtree? id).bind Subtree.invoke

end Tree

end TaggedOutline
