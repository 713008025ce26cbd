import TaggedOutline.Tree.Node

/-!
# Trees

A tree keeps its nodes in the order in which they were made and knows them by number.  The root has
number 0 and stands under itself; every other node stands under one that was made before it, and in
the list of children of that one.  Nodes are never removed, so a number stays good.

The tree also keeps a journal: every call of a hook, and every line that a hook has noted.
-/

namespace TaggedOutline

/-- The times at which a handler is called for a node. -/
inductive Occasion where
  /-- After the body of the node is read. -/
  | payload
  /-- After the children of the node are built. -/
  | register
  /-- At the end of the build. -/
  | post
deriving DecidableEq, Repr, Inhabited

/-- The word for an occasion. -/
def Occasion.word : Occasion → Text
  | .payload => "payload".toList
  | .register => "register".toList
  | .post => "post".toList

/-- An entry of the journal. -/
inductive JournalEntry where
  /-- A hook was called for a node. -/
  | call (occasion : Occasion) (id : NodeId)
  /-- A hook noted a line. -/
  | note (line : Text)
deriving DecidableEq, Repr, Inhabited

/-- A tree whose handlers are known as `H`. -/
structure Tree (H : Type) where
  nodes : Array (Node H) := #[]
  journal : Array JournalEntry := #[]

namespace Tree

variable {H K : Type}

instance : Inhabited (Tree H) := ⟨{}⟩

/-- The root of every tree. -/
def root : NodeId := 0

/-- The number of nodes. -/
def size (t : Tree H) : Nat := t.nodes.size

/-- The node with a number. -/
def node? (t : Tree H) (id : NodeId) : Option (Node H) := t.nodes[id]?

/-- The tree with its handlers known in another way. -/
def mapHandler (f : H → K) (t : Tree H) : Tree K := { t with nodes := t.nodes.map (.mapHandler f) }

/-! ## Places -/

/-- The node that a node stands under; the root has none. -/
def parent? (t : Tree H) (id : NodeId) : Option NodeId :=
  match t.node? id with
  | some node => if node.parent = id then none else some node.parent
  | none => none

/-- The way up from a node, at most a number of steps long. -/
def climb (t : Tree H) : Nat → NodeId → List NodeId
  | 0, _ => []
  | steps + 1, id =>
    match t.parent? id with
    | some parent => parent :: climb t steps parent
    | none => []

/-- The nodes above a node, the nearest first.  A parent has a smaller number, so there are no more
of them than the number says. -/
def ancestors (t : Tree H) (id : NodeId) : List NodeId := t.climb id id

/-- The number of nodes above a node. -/
def depth (t : Tree H) (id : NodeId) : Nat := (t.ancestors id).length

/-- The children of a node that are nodes. -/
def childNodes (t : Tree H) (id : NodeId) : List NodeId :=
  ((t.node? id).map Node.childNodes).getD []

/-- A walk over waiting nodes and everything beneath them, at most a number of nodes long. -/
def walk (t : Tree H) : Nat → List NodeId → List NodeId
  | 0, _ => []
  | _, [] => []
  | steps + 1, id :: waiting => id :: walk t steps (t.childNodes id ++ waiting)

/-- The nodes beneath a node, each before what is beneath it. -/
def descendants (t : Tree H) (id : NodeId) : List NodeId := t.walk t.size (t.childNodes id)

/-! ## Changes -/

/-- The tree with one node changed. -/
def update (t : Tree H) (id : NodeId) (change : Node H → Node H) : Tree H :=
  { t with nodes := t.nodes.modify id change }

/-- The tree with the fields of one node changed. -/
def edit (t : Tree H) (id : NodeId) (change : Fields → Fields) : Tree H :=
  t.update id (·.edit change)

/-- The tree with a diagnostic on a node. -/
def annotate (t : Tree H) (id : NodeId) (d : Diagnostic) : Tree H := t.edit id (·.annotate d)

/-- The tree with a node moved forward to a state. -/
def advance (t : Tree H) (id : NodeId) (state : BuildState) : Tree H :=
  t.update id fun n => { n with state := n.state.later state }

/-- The tree with one more child in the list of a node. -/
def adopt (t : Tree H) (id : NodeId) (child : Child NodeId) : Tree H :=
  t.update id fun n => { n with children := n.children ++ [child] }

/-- The tree with a new node under its parent.  The new node has the number `t.size`. -/
def add (t : Tree H) (n : Node H) : Tree H :=
  { t with nodes := t.nodes.push n }.adopt n.parent (.node t.size)

/-- The tree with a handler for a tag beneath a node. -/
def override (t : Tree H) (id : NodeId) (tag : Text) (handler : H) : Tree H :=
  t.update id fun n => { n with overrides := (tag, handler) :: n.overrides }

/-- The tree with an action on a node. -/
def setAction (t : Tree H) (id : NodeId) (action : Action) : Tree H :=
  t.update id fun n => { n with action := some action }

/-- The tree with one more entry in its journal. -/
def log (t : Tree H) (e : JournalEntry) : Tree H := { t with journal := t.journal.push e }

/-! ## Views -/

/-- The payload of a node. -/
def payload? (t : Tree H) (id : NodeId) : Option Payload := (t.node? id).bind Node.payload

/-- All diagnostics with their nodes, in the order of the nodes. -/
def diagnostics (t : Tree H) : List (NodeId × Diagnostic) :=
  t.nodes.toList.zipIdx.flatMap fun (node, id) => node.diagnostics.map (id, ·)

/-- The lines that hooks have noted. -/
def notes (t : Tree H) : List Text :=
  t.journal.toList.filterMap fun
    | .note line => some line
    | .call _ _ => none

end Tree

end TaggedOutline
