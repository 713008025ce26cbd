import TaggedOutline.Body
import TaggedOutline.Grammar.Sublanguage
import TaggedOutline.Header
import TaggedOutline.Settings
import TaggedOutline.Tree

/-!
# Handlers

A handler gives a tag its meaning: how its header line and its body are read, which handlers apply
to tags beneath it, and what happens on the occasions of its build.  On each occasion the handler
answers with a `Hook`, a program that looks at the tree, changes it and ends with a result or an
error.  A hook may build other nodes and add new ones, so a build can be entered again from inside.
It sets handlers by keys; what these stand for is up to the setup (`Setup.known`), so a handler can
set itself.

The `Registry` holds the handlers that apply from outside the tree.
-/

namespace TaggedOutline

/-- A program that works on a tree and ends with a value of `α`. -/
inductive Hook (α : Type) where
  /-- Ends. -/
  | done (result : Except BuildError α)
  /-- Looks at the tree; of the handlers it sees the names. -/
  | look (next : Tree Text → Hook α)
  /-- Changes the fields of a node. -/
  | edit (id : NodeId) (change : Fields → Fields) (next : Hook α)
  /-- Notes a line in the journal. -/
  | note (line : Text) (next : Hook α)
  /-- Builds a node and goes on with its payload. -/
  | build (id : NodeId) (next : Option Payload → Hook α)
  /-- Adds the elements of a text under a node, builds them and goes on with their numbers. -/
  | insertText (parent : NodeId) (t : Text) (next : List NodeId → Hook α)
  /-- Adds a described element under a node, builds it and goes on with its number. -/
  | insertSpec (parent : NodeId) (s : Spec) (next : NodeId → Hook α)
  /-- Sets the handler of a tag beneath a node, by its key. -/
  | override (id : NodeId) (tag key : Text) (next : Hook α)
  /-- Sets the action of a node. -/
  | setAction (id : NodeId) (action : Action) (next : Hook α)

namespace Hook

variable {α β : Type}

/-- A program and then another one that is made from its value.  An error ends both. -/
def bind : Hook α → (α → Hook β) → Hook β
  | .done (.ok a), f => f a
  | .done (.error e), _ => .done (.error e)
  | .look next, f => .look fun t => (next t).bind f
  | .edit id change next, f => .edit id change (next.bind f)
  | .note line next, f => .note line (next.bind f)
  | .build id next, f => .build id fun p => (next p).bind f
  | .insertText parent t next, f => .insertText parent t fun ids => (next ids).bind f
  | .insertSpec parent s next, f => .insertSpec parent s fun id => (next id).bind f
  | .override id tag key next, f => .override id tag key (next.bind f)
  | .setAction id action next, f => .setAction id action (next.bind f)

instance : Monad Hook where
  pure a := .done (.ok a)
  bind := bind

instance : Inhabited (Hook α) := ⟨.done (.error { message := [] })⟩

end Hook

/-- How the header lines of a tag are read. -/
abbrev LineGrammar := Sublanguage Header

/-- How a body is read in a way of its own. -/
abbrev BodyGrammar := Sublanguage (List BodyItem)

/-- What becomes of a body. -/
inductive BodyPolicy where
  /-- Its lines make children by their indentation. -/
  | structural
  /-- It stays as it is. -/
  | freeform
  /-- A grammar of its own makes children of it. -/
  | grammar (g : BodyGrammar)

/-- The meaning of a tag. -/
structure Handler where
  name : Text := "generic".toList
  /-- How header lines are read, if not in the way of the registry. -/
  line : Option LineGrammar := none
  body : BodyPolicy := .structural
  /-- The handlers of tags anywhere beneath a node with this handler, the latest first. -/
  beneath : List (Text × Handler) := []
  payload : NodeId → Hook (Option Payload) := fun _ => pure none
  /-- What is done for a node and the node it stands under. -/
  register : NodeId → NodeId → Hook Unit := fun _ _ => pure ()
  post : NodeId → Hook Unit := fun _ => pure ()

namespace Handler

/-- The handler of tags that nobody registered: it does nothing. -/
def generic : Handler := {}

instance : Inhabited Handler := ⟨generic⟩

/-- The handler that gives every node the same payload. -/
def constant (name : Text) (p : Payload) : Handler :=
  { name, payload := fun _ => pure (some p) }

end Handler

/-- The handlers and grammars that apply to whole trees.  In each table the latest entry counts. -/
structure Registry where
  handlers : List (Text × Handler) := []
  /-- The handlers of a tag anywhere beneath another tag. -/
  beneath : List ((Text × Text) × Handler) := []
  /-- The grammars that a header can name for its body. -/
  bodies : List (Text × BodyGrammar) := []
  line : LineGrammar := Header.line

namespace Registry

instance : Inhabited Registry := ⟨{}⟩

/-- The handler of a tag wherever it stands. -/
def handler? (r : Registry) (tag : Text) : Option Handler := r.handlers.lookup tag

/-- The handler of a tag beneath another tag. -/
def handlerBeneath? (r : Registry) (ancestor tag : Text) : Option Handler :=
  r.beneath.lookup (ancestor, tag)

/-- The grammar that a header names for its body. -/
def body? (r : Registry) (name : Text) : Option BodyGrammar := r.bodies.lookup name

/-- The registry with a handler for a tag. -/
def register (r : Registry) (tag : Text) (h : Handler) : Registry :=
  { r with handlers := (tag, h) :: r.handlers }

/-- The registry with a handler for a tag beneath another tag. -/
def registerBeneath (r : Registry) (ancestor tag : Text) (h : Handler) : Registry :=
  { r with beneath := ((ancestor, tag), h) :: r.beneath }

/-- The registry with a grammar for bodies. -/
def registerBody (r : Registry) (name : Text) (g : BodyGrammar) : Registry :=
  { r with bodies := (name, g) :: r.bodies }

end Registry

/-- What trees are built with. -/
structure Setup where
  settings : Settings := {}
  registry : Registry := {}
  /-- The handlers that hooks can set, by their keys. -/
  known : Text → Handler := fun _ => .generic

instance : Inhabited Setup := ⟨{}⟩

end TaggedOutline
