import TaggedOutline.Diagnostic
import TaggedOutline.Header
import TaggedOutline.Header.Comment
import TaggedOutline.Params
import TaggedOutline.Settings
import TaggedOutline.Spec
import TaggedOutline.Text.Number

/-!
# Nodes

A node is one element of a tree.  It begins as a header line and a body that nobody has looked at;
the build decodes the header, makes children of the body and asks the handler of the tag for a
payload.

`Fields` is what a handler or a caller may change at will.  The rest of `Node` belongs to the tree:
its tag and its place never change, and its state only moves forward.  The type parameter `H` is
what the tree knows about handlers: the handlers themselves while it is built, their names alone
where a handler looks at the tree.
-/

namespace TaggedOutline

/-- The number of a node in its tree. -/
abbrev NodeId := Nat

/-- How a node is named in messages. -/
def NodeId.shown (id : NodeId) : Text := '#' :: Text.ofNat id

/-- How far the build of a node has come. -/
inductive BuildState where
  | unparsed
  | headerDecoded
  | bodyParsed
  | payloadBuilt
  | childrenBuilt
  | registered
  | built
deriving DecidableEq, Repr, Inhabited

namespace BuildState

/-- The place of a state in the order of the build. -/
def rank : BuildState → Nat
  | .unparsed => 0
  | .headerDecoded => 1
  | .bodyParsed => 2
  | .payloadBuilt => 3
  | .childrenBuilt => 4
  | .registered => 5
  | .built => 6

instance : LE BuildState := ⟨fun a b => a.rank ≤ b.rank⟩

instance (a b : BuildState) : Decidable (a ≤ b) := inferInstanceAs (Decidable (a.rank ≤ b.rank))

/-- The later of two states. -/
def later (a b : BuildState) : BuildState := if a ≤ b then b else a

/-- The display form of a state. -/
def shown : BuildState → Text
  | .unparsed => "Unparsed".toList
  | .headerDecoded => "HeaderDecoded".toList
  | .bodyParsed => "BodyParsed".toList
  | .payloadBuilt => "PayloadBuilt".toList
  | .childrenBuilt => "ChildrenBuilt".toList
  | .registered => "Registered".toList
  | .built => "Built".toList

end BuildState

/-- What a handler makes of a node. -/
inductive Payload where
  | whole (n : Int)
  | text (t : Text)
deriving DecidableEq, Repr, Inhabited

/-- The payload as a whole number, if it is one. -/
def Payload.whole? : Payload → Option Int
  | .whole n => some n
  | .text _ => none

/-- The payload as a text, if it is one. -/
def Payload.text? : Payload → Option Text
  | .whole _ => none
  | .text t => some t

/-- What a node does when it is called. -/
inductive Action where
  /-- Adds up the numbers of the children. -/
  | total
  /-- Gives one payload. -/
  | constant (p : Payload)
  /-- Counts the elements of the node's sketch. -/
  | size
  | nothing
deriving DecidableEq, Repr, Inhabited

/-- A body before it is made into children. -/
inductive RawBody where
  | text (t : Text)
  | children (items : List (Child Spec))
deriving BEq, Repr, Inhabited

/-- The body as a text, if it is one. -/
def RawBody.text? : RawBody → Option Text
  | .text t => some t
  | .children _ => none

/-- What may be changed about a node from outside. -/
structure Fields where
  /-- The header line as it was found. -/
  header : Option Text := none
  name : Option Text := none
  aliases : List Text := []
  params : Params := .empty
  options : Params := .empty
  label : Option Text := none
  parser : Option Text := none
  inlineCode : Option Text := none
  bracket : Bool := false
  comment : Option Text := none
  suppressed : Bool := false
  body : RawBody := .text []
  /-- The children come from the body. -/
  expanded : Bool := false
  /-- The node was added to a finished tree and is no part of the document. -/
  runtimeOnly : Bool := false
  /-- What handlers count on the node. -/
  counts : List (Text × Nat) := []
  diagnostics : List Diagnostic := []

namespace Fields

instance : Inhabited Fields := ⟨{}⟩

/-- All names, the first one in front. -/
def names (f : Fields) : List Text := f.name.toList ++ f.aliases

/-- Whether the node has a name, as its first or as a further one. -/
def hasName (f : Fields) (name : Text) : Bool := f.names.contains name

/-- Whether the header could not be read. -/
def headerFailed (f : Fields) : Bool := f.diagnostics.any (·.hasCode Diagnostic.unreadHeader)

/-- The fields with one more diagnostic. -/
def annotate (f : Fields) (d : Diagnostic) : Fields :=
  { f with diagnostics := f.diagnostics ++ [d] }

/-- The fields with everything a header says.  A bracket that was seen before stays. -/
def applyHeader (f : Fields) (h : Header) : Fields :=
  { f with
    name := h.names.head?
    aliases := h.names.tail
    params := h.params
    options := h.options
    label := h.label
    parser := h.parser
    inlineCode := h.inlineCode
    bracket := f.bracket || h.bracket
    comment := h.comment }

/-- The fields with the count of a key one higher. -/
def count (f : Fields) (key : Text) : Fields :=
  let rec bump : List (Text × Nat) → List (Text × Nat)
    | [] => [(key, 1)]
    | (k, n) :: rest => if k = key then (k, n + 1) :: rest else (k, n) :: bump rest
  { f with counts := bump f.counts }

end Fields

/-- An element of a tree whose handlers are known as `H`. -/
structure Node (H : Type) extends Fields where
  tag : Text
  /-- The node it stands under; the root stands under itself. -/
  parent : NodeId
  children : List (Child NodeId) := []
  state : BuildState := .unparsed
  payload : Option Payload := none
  action : Option Action := none
  /-- The handlers that apply to tags beneath the node, the latest first. -/
  overrides : List (Text × H) := []
  /-- The handler of the node, once it has been looked for. -/
  handler : Option H := none

namespace Node

variable {H K : Type}

/-- Whether the build of the node has ended. -/
def isBuilt (n : Node H) : Bool := n.state == .built

/-- Whether the node can be called. -/
def isCallable (n : Node H) : Bool := n.action.isSome

/-- The value of an attribute: a parameter, else an option, else the name, the label or the tag. -/
def attribute? (n : Node H) (key : Text) : Option Text :=
  match n.params.get? key with
  | some value => some value
  | none =>
    match n.options.get? key with
    | some value => some value
    | none =>
      if key = "name".toList then n.name
      else if key = "label".toList then n.label
      else if key = "tag".toList then some n.tag
      else none

/-- The children that are nodes. -/
def childNodes (n : Node H) : List NodeId :=
  n.children.filterMap fun
    | .node id => some id
    | .text _ => none

/-- The texts between the children. -/
def fragments (n : Node H) : List Text :=
  n.children.filterMap fun
    | .node _ => none
    | .text t => some t

/-- The node with changed fields. -/
def edit (n : Node H) (change : Fields → Fields) : Node H :=
  { n with toFields := change n.toFields }

/-- The node with its handlers known in another way. -/
def mapHandler (f : H → K) (n : Node H) : Node K where
  toFields := n.toFields
  tag := n.tag
  parent := n.parent
  children := n.children
  state := n.state
  payload := n.payload
  action := n.action
  overrides := n.overrides.map fun o => (o.1, f o.2)
  handler := n.handler.map f

/-- The characters of a header line that are its tag, a marker included. -/
def rawTag (header : Text) : Text :=
  header.takeWhile fun c => !Text.isBlank c && !Header.stops.contains c

/-- The node that a header line and its body stand for. -/
def ofTag (settings : LayoutSettings) (parent : NodeId) (runtimeOnly : Bool) (header body : Text)
    (bracket : Bool) : Node H :=
  let (tag, suppressed) := Header.splitMarker settings.suppressMarker (rawTag header)
  { tag, parent, runtimeOnly, suppressed, bracket, header := some header, body := .text body }

/-- The node that a description stands for. -/
def ofSpec (parent : NodeId) (runtimeOnly : Bool) (s : Spec) : Node H where
  tag := s.tag
  parent := parent
  runtimeOnly := runtimeOnly
  suppressed := s.suppressed
  header := s.header
  name := s.name
  aliases := s.aliases
  params := .ofList s.params
  options := .ofList s.options
  label := s.label
  parser := s.parser
  inlineCode := s.inlineCode
  bracket := s.bracket
  comment := s.comment
  body := if s.children.isEmpty then .text (s.body.getD []) else .children s.children

end Node

end TaggedOutline
