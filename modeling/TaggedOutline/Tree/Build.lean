import TaggedOutline.Tree.Dispatch

/-!
# Builds

The build of a node decodes its header, makes children of its body, lets its handler make a payload,
builds the children, and calls the handler twice more.  Each step is done once: a node whose build
has begun is left alone.  Nothing that goes wrong ends a build; it is kept on the node as a
diagnostic.

Handlers can build and add nodes themselves, and a handler that adds a node of its own kind never
comes to an end.  So a build is given the depth to which builds may stand in each other, and
`Setup.build` has no value when that is not enough.  `Setup.buildOnce` is a single build with the
builds inside it left open.
-/

namespace TaggedOutline

namespace Tree

variable {H : Type}

/-- The tree with a child for each item. -/
def addItems (settings : LayoutSettings) (parent : NodeId) (runtimeOnly : Bool) :
    List BodyItem → Tree H → Tree H
  | [], t => t
  | .text s :: items, t =>
    addItems settings parent runtimeOnly items (t.adopt parent (.text s))
  | .tag header body bracket :: items, t =>
    addItems settings parent runtimeOnly items
      (t.add (.ofTag settings parent runtimeOnly header body bracket))

/-- The tree with a child for each description. -/
def addSpecs (parent : NodeId) (runtimeOnly : Bool) : List (Child Spec) → Tree H → Tree H
  | [], t => t
  | .text s :: items, t => addSpecs parent runtimeOnly items (t.adopt parent (.text s))
  | .node s :: items, t => addSpecs parent runtimeOnly items (t.add (.ofSpec parent runtimeOnly s))

/-- The tree with an error of a handler kept on a node. -/
def record (t : Tree H) (id : NodeId) (e : BuildError) : Tree H := t.annotate id e.diagnostic

end Tree

/-- The diagnostic for a header that could not be read. -/
def Diagnostic.ofUnreadHeader (header : Text) : Diagnostic :=
  { severity := .warning, message := "cannot decode header ".toList ++ Text.shown header
    code := some unreadHeader }

/-- The diagnostic for a body that its grammar rejects. -/
def Diagnostic.ofRejectedBody : Diagnostic :=
  { severity := .warning, message := "body rejected by its grammar".toList
    code := some rejectedBody }

/-- The diagnostic for a grammar that nobody registered. -/
def Diagnostic.ofUnknownGrammar (name : Text) : Diagnostic :=
  { severity := .warning, message := "no body grammar named ".toList ++ Text.shown name
    code := some unknownGrammar }

namespace Setup

/-- Decodes the header of a node in the way of its handler, or else of the registry. -/
def decodeHeader (s : Setup) (t : Tree Handler) (id : NodeId) : Tree Handler :=
  match (t.node? id).bind (·.header) with
  | none => t.advance id .headerDecoded
  | some header =>
    let (handler, t) := s.registry.resolve t id
    let t :=
      match (handler.line.getD s.registry.line).parse header with
      | some h => t.edit id (·.applyHeader h)
      | none => t.annotate id (.ofUnreadHeader header)
    t.advance id .headerDecoded

/-- What is to be done with the body of a node, and the tree with a diagnostic if its header names
a grammar that nobody registered. -/
def bodyPolicy (s : Setup) (t : Tree Handler) (id : NodeId) : BodyPolicy × Tree Handler :=
  let (handler, t) := s.registry.resolve t id
  match (t.node? id).bind (·.parser) with
  | none => (handler.body, t)
  | some name =>
    match s.registry.body? name with
    | some g => (.grammar g, t)
    | none => (handler.body, t.annotate id (.ofUnknownGrammar name))

/-- The items of the body of a node with a tag; nothing if the body stays as it is. -/
def bodyItems (s : Setup) (t : Tree Handler) (id : NodeId) (tag body : Text) :
    Option (List BodyItem) × Tree Handler :=
  match s.bodyPolicy t id with
  | (.freeform, t) => (none, t)
  | (.grammar g, t) =>
    match g.parse body with
    | some items => (some items, t)
    | none => (none, t.annotate id .ofRejectedBody)
  | (.structural, t) =>
    if s.settings.layout.isFreeform tag then (none, t)
    else (some (Body.parse s.settings.layout body), t)

/-- Makes children of the body of a node.  A suppressed node and one with code keep their body. -/
def expandBody (s : Setup) (t : Tree Handler) (id : NodeId) : Tree Handler :=
  match t.node? id with
  | none => t
  | some node =>
    let expanded (t : Tree Handler) := t.edit id fun f => { f with expanded := true }
    let t :=
      if node.suppressed || node.inlineCode.isSome then t
      else
        match node.body with
        | .children items => expanded (t.addSpecs id node.runtimeOnly items)
        | .text body =>
          match s.bodyItems t id node.tag body with
          | (some items, t) => expanded (t.addItems s.settings.layout id node.runtimeOnly items)
          | (none, t) => t
    t.advance id .bodyParsed

/-! ## Steps with builds inside them -/

/-- A way to build a node of a tree, where it comes to an end. -/
abbrev Builder := Tree Handler → NodeId → Option (Tree Handler)

/-- Builds nodes one after the other. -/
def buildAll (build : Builder) : List NodeId → Tree Handler → Option (Tree Handler)
  | [], t => some t
  | id :: ids, t => do buildAll build ids (← build t id)

/-- Adds the elements of a text under a node and builds them; texts between them are dropped.  The
new nodes are no part of the document. -/
def insertTextBy (s : Setup) (build : Builder) (t : Tree Handler) (parent : NodeId) (text : Text) :
    Option (List NodeId × Tree Handler) := do
  let tags := (Body.parse s.settings.layout text).filter fun
    | .tag _ _ _ => true
    | .text _ => false
  let ids := (List.range tags.length).map (t.size + ·)
  return (ids, ← buildAll build ids (t.addItems s.settings.layout parent true tags))

/-- Adds a described element under a node and builds it.  The new node is no part of the
document. -/
def insertSpecBy (build : Builder) (t : Tree Handler) (parent : NodeId) (spec : Spec) :
    Option (NodeId × Tree Handler) := do
  return (t.size, ← build (t.add (.ofSpec parent true spec)) t.size)

/-- Runs a hook. -/
def run (s : Setup) (build : Builder) {α : Type} :
    Hook α → Tree Handler → Option (Except BuildError α × Tree Handler)
  | .done result, t => some (result, t)
  | .look next, t => s.run build (next (t.mapHandler Handler.name)) t
  | .edit id change next, t => s.run build next (t.edit id change)
  | .note line next, t => s.run build next (t.log (.note line))
  | .build id next, t => do
    let t ← build t id
    s.run build (next (t.payload? id)) t
  | .insertText parent text next, t => do
    let (ids, t) ← s.insertTextBy build t parent text
    s.run build (next ids) t
  | .insertSpec parent spec next, t => do
    let (id, t) ← insertSpecBy build t parent spec
    s.run build (next id) t
  | .override id tag key next, t => s.run build next (t.override id tag (s.known key))
  | .setAction id action next, t => s.run build next (t.setAction id action)

/-- Lets the handler of a node make its payload. -/
def makePayload (s : Setup) (build : Builder) (t : Tree Handler) (id : NodeId) :
    Option (Tree Handler) := do
  let (handler, t) := s.registry.resolve t id
  let (result, t) ← s.run build (handler.payload id) (t.log (.call .payload id))
  let t :=
    match result with
    | .ok (some p) => t.update id fun n => { n with payload := some p }
    | .ok none => t
    | .error e => t.record id e
  return t.advance id .payloadBuilt

/-- Lets the handler of a node work on the node it stands under.  The root stands under none. -/
def registerNode (s : Setup) (build : Builder) (t : Tree Handler) (id : NodeId) :
    Option (Tree Handler) := do
  match t.parent? id with
  | none => return t.advance id .registered
  | some parent =>
    let (handler, t) := s.registry.resolve t id
    let (result, t) ← s.run build (handler.register id parent) (t.log (.call .register id))
    let t :=
      match result with
      | .ok () => t
      | .error e => t.record id e
    return t.advance id .registered

/-- Lets the handler of a node finish it. -/
def finishNode (s : Setup) (build : Builder) (t : Tree Handler) (id : NodeId) :
    Option (Tree Handler) := do
  let (handler, t) := s.registry.resolve t id
  let (result, t) ← s.run build (handler.post id) (t.log (.call .post id))
  let t :=
    match result with
    | .ok () => t
    | .error e => t.record id e
  return t.advance id .built

/-- The steps of a build, for a node whose build has not begun. -/
def buildSteps (s : Setup) (build : Builder) (t : Tree Handler) (id : NodeId) :
    Option (Tree Handler) := do
  let t := s.expandBody (s.decodeHeader t id) id
  let t ← s.makePayload build t id
  let t ← buildAll build (t.childNodes id) t
  let t ← s.registerNode build (t.advance id .childrenBuilt) id
  s.finishNode build t id

/-- One build.  A node whose build has begun is left alone. -/
def buildOnce (s : Setup) (build : Builder) (t : Tree Handler) (id : NodeId) :
    Option (Tree Handler) :=
  match t.node? id with
  | none => some t
  | some node => if node.state = .unparsed then s.buildSteps build t id else some t

/-! ## Whole builds -/

/-- Builds a node, with builds in it at most `depth` deep. -/
def build (s : Setup) : Nat → Tree Handler → NodeId → Option (Tree Handler)
  | 0, _, _ => none
  | depth + 1, t, id => s.buildOnce (s.build depth) t id

/-- Adds the elements of a text under a node and builds them. -/
def insertText (s : Setup) (depth : Nat) (t : Tree Handler) (parent : NodeId) (text : Text) :
    Option (List NodeId × Tree Handler) :=
  s.insertTextBy (s.build depth) t parent text

/-- Adds a described element under a node and builds it. -/
def insertSpec (s : Setup) (depth : Nat) (t : Tree Handler) (parent : NodeId) (spec : Spec) :
    Option (NodeId × Tree Handler) :=
  insertSpecBy (s.build depth) t parent spec

/-- The tree whose root has a text as its body, before it is built. -/
def ofText (s : Setup) (text : Text) : Tree Handler where
  nodes := #[{ tag := s.settings.rootTag, parent := Tree.root, body := .text text }]

/-- The tree whose root has a description, before it is built. -/
def ofSpec (spec : Spec) : Tree Handler where
  nodes := #[.ofSpec Tree.root false spec]

/-- The tree of a text. -/
def buildText (s : Setup) (depth : Nat) (text : Text) : Option (Tree Handler) :=
  s.build depth (s.ofText text) Tree.root

/-- The tree of a description. -/
def buildSpec (s : Setup) (depth : Nat) (spec : Spec) : Option (Tree Handler) :=
  s.build depth (ofSpec spec) Tree.root

end Setup

end TaggedOutline
