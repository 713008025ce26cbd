import TaggedOutline.Locator
import TaggedOutline.Tree

/-!
# Search

`Tree.find` follows a path strictly downwards: each step takes the first child that it accepts, or
the child at its place, and never comes back to try another one.  `Tree.first` tries every node
beneath the start as the place where the path begins, and `Tree.searchAll` collects the nodes with a
tag.
-/

namespace TaggedOutline

/-- Whether a step accepts a node, its place among its siblings apart. -/
def Step.accepts {H : Type} (s : Step) (n : Node H) : Bool :=
  s.acceptsTag n.tag &&
    match s.selector with
    | .any => true
    | .nth _ => true
    | .name name => n.hasName name
    | .attrEq key value => n.attribute? key == some value
    | .attrMatch key _ pattern =>
      match n.attribute? key with
      | some value => pattern.occursIn value
      | none => false

/-- Whether a step asks for a place among siblings. -/
def Step.isPositional (s : Step) : Bool :=
  match s.selector with
  | .nth _ => true
  | _ => false

namespace Tree

variable {H : Type}

/-- Whether a step accepts a node of a tree, its place among its siblings apart. -/
def accepts (t : Tree H) (s : Step) (id : NodeId) : Bool := ((t.node? id).map s.accepts).getD false

/-- The child of a node that a step selects. -/
def select? (t : Tree H) (parent : NodeId) (s : Step) : Option NodeId :=
  let candidates := (t.childNodes parent).filter (t.accepts s)
  match s.selector with
  | .nth place => candidates[place - 1]?
  | _ => candidates.head?

/-- The node that steps lead to, child by child. -/
def descend? (t : Tree H) : NodeId → List Step → Option NodeId
  | id, [] => some id
  | id, step :: steps =>
    match t.select? id step with
    | some child => t.descend? child steps
    | none => none

/-- Whether a step stands for the node itself: it does not ask for a place and it accepts it. -/
def anchors (t : Tree H) (s : Step) (id : NodeId) : Bool := !s.isPositional && t.accepts s id

/-- The node that a path leads to.  A first step that stands for the start is already done. -/
def follow? (t : Tree H) (start : NodeId) (l : Locator) : Option NodeId :=
  match l.steps with
  | [] => none
  | step :: steps => t.descend? start (if t.anchors step start then steps else step :: steps)

/-- Whether a step selects a node from the node it stands under. -/
def isSelected (t : Tree H) (s : Step) (id : NodeId) : Bool :=
  if s.isPositional then
    match t.parent? id with
    | some parent => t.select? parent s == some id
    | none => false
  else t.accepts s id

/-- The first node beneath a start from which the whole path leads somewhere. -/
def firstFrom? (t : Tree H) (start : NodeId) (l : Locator) : Option NodeId :=
  match l.steps with
  | [] => none
  | step :: steps =>
    ((t.descendants start).filter (t.isSelected step)).findSome? fun id => t.descend? id steps

/-- The node that a written path leads to; none if the path is no locator. -/
def find? (t : Tree H) (read : Matcher.Reader) (start : NodeId) (path : Text) : Option NodeId :=
  (Locator.compile read path).toOption.bind (t.follow? start)

/-- The first node beneath a start from which a written path leads somewhere. -/
def first? (t : Tree H) (read : Matcher.Reader) (start : NodeId) (path : Text) : Option NodeId :=
  (Locator.compile read path).toOption.bind (t.firstFrom? start)

/-- The nodes beneath a start with a tag, or all of them. -/
def searchAll (t : Tree H) (start : NodeId) (tag : Text) : List NodeId :=
  (t.descendants start).filter fun id =>
    tag == Step.anyTag || ((t.node? id).map (·.tag == tag)).getD false

end Tree

end TaggedOutline
