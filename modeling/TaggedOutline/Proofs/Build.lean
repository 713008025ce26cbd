import TaggedOutline.Proofs.Children
import TaggedOutline.Proofs.Outline
import TaggedOutline.Proofs.Subtree

/-!
# Builds of plain documents

Without registered handlers a build only reads headers and bodies.  `Setup.builds_document` says
that it comes to an end at any depth greater than the length of the source, and that the tree it
leaves has the description and the sketch of `Spec.document`.

A build of a node changes that node and adds nodes behind the others; everything else stays as it is
(`Tree.Grows`).  So what is beneath a node that has been built stays there as long as its own nodes
are left alone.  It is what is read of the body of the node (`Subtree.Reads`): a child for each
item, with the header of the item, and beneath it what is read of the body of the item.
-/

namespace TaggedOutline

namespace Tree

variable {H : Type}

/-- The tree `t'` is the tree `t` with the node `n` at `id`, whatever their journals say. -/
structure Becomes (t t' : Tree H) (id : NodeId) (n : Node H) : Prop where
  size_eq : t'.size = t.size
  here : t'.node? id = some n
  others : ∀ j, j ≠ id → t'.node? j = t.node? j

namespace Becomes

variable {t t' t'' : Tree H} {id : NodeId} {n m : Node H}

lemma refl (h : t.node? id = some n) : Becomes t t id n := ⟨rfl, h, fun _ _ => rfl⟩

lemma trans (h : Becomes t t' id n) (h' : Becomes t' t'' id m) : Becomes t t'' id m where
  size_eq := h'.size_eq.trans h.size_eq
  here := h'.here
  others j hj := (h'.others j hj).trans (h.others j hj)

lemma update (h : Becomes t t' id n) (f : Node H → Node H) :
    Becomes t (t'.update id f) id (f n) where
  size_eq := (size_update t' id f).trans h.size_eq
  here := node?_update_self h.here f
  others j hj := (node?_update_of_ne hj f).trans (h.others j hj)

lemma log (h : Becomes t t' id n) (e : JournalEntry) : Becomes t (t'.log e) id n :=
  ⟨h.size_eq, h.here, h.others⟩

end Becomes

/-- The tree `t'` is the tree `t` with changes at `id` and with more nodes behind the others. -/
structure Grows (t t' : Tree H) (id : NodeId) : Prop where
  size_le : t.size ≤ t'.size
  others : ∀ j < t.size, j ≠ id → t'.node? j = t.node? j

namespace Grows

variable {t t' t'' : Tree H} {id : NodeId}

lemma of_becomes {n : Node H} (h : Becomes t t' id n) : Grows t t' id where
  size_le := h.size_eq.ge
  others j _ hj := h.others j hj

lemma trans (h : Grows t t' id) (h' : Grows t' t'' id) : Grows t t'' id where
  size_le := h.size_le.trans h'.size_le
  others j hj hne :=
    (h'.others j (Nat.lt_of_lt_of_le hj h.size_le) hne).trans (h.others j hj hne)

end Grows

/-! ## Looking for a handler -/

/-- The node and the nodes above it have been found to have the generic handler. -/
inductive Calm (t : Tree Handler) : NodeId → Prop
  | root {id : NodeId} {n : Node Handler} (hn : t.node? id = some n) (hp : n.parent = id)
      (ho : n.overrides = []) (hh : n.handler = some .generic) : Calm t id
  | beneath {id : NodeId} {n : Node Handler} (hn : t.node? id = some n) (hp : n.parent < id)
      (ho : n.overrides = []) (hh : n.handler = some .generic) (h : Calm t n.parent) : Calm t id

namespace Calm

variable {t t' : Tree Handler} {id : NodeId}

lemma exists_node (h : Calm t id) :
    ∃ n, t.node? id = some n ∧ n.overrides = [] ∧ n.handler = some .generic := by
  cases h with
  | root hn _ ho hh => exact ⟨_, hn, ho, hh⟩
  | beneath hn _ ho hh _ => exact ⟨_, hn, ho, hh⟩

lemma climb (h : Calm t id) (steps : Nat) : ∀ a ∈ t.climb steps id, Calm t a := by
  induction steps generalizing id with
  | zero => simp [Tree.climb]
  | succ steps ih =>
    cases h with
    | root hn hp =>
      have hparent : t.parent? id = none := by simp [parent?, hn, hp]
      simp [Tree.climb, hparent]
    | @beneath _ n hn hp _ _ h =>
      have hparent : t.parent? id = some n.parent := by simp [parent?, hn, hp.ne]
      simp only [Tree.climb, hparent, List.mem_cons]
      rintro a (rfl | ha)
      · exact h
      · exact ih h a ha

/-- Nothing behind a node has to do with the nodes above it. -/
lemma congr (h : Calm t id) (hsame : ∀ j : Nat, j ≤ id → t'.node? j = t.node? j) :
    Calm t' id := by
  induction h with
  | root hn hp ho hh => exact .root ((hsame _ le_rfl).trans hn) hp ho hh
  | beneath hn hp ho hh _ ih =>
    exact .beneath ((hsame _ le_rfl).trans hn) hp ho hh
      (ih fun j hj => hsame j (hj.trans hp.le))

end Calm

/-- A node that is not built yet, beneath nodes that have the generic handler. -/
structure Waits (t : Tree Handler) (id : NodeId) (n : Node Handler) : Prop where
  here : t.node? id = some n
  above : n.parent = id ∨ n.parent < id ∧ Calm t n.parent
  overrides : n.overrides = []
  handler : n.handler = none ∨ n.handler = some .generic

lemma Waits.calm {t : Tree Handler} {id : NodeId} {n : Node Handler} (h : Waits t id n)
    (hh : n.handler = some .generic) : Calm t id := by
  rcases h.above with hp | ⟨hlt, hcalm⟩
  · exact .root h.here hp h.overrides hh
  · exact .beneath h.here hlt h.overrides hh hcalm

/-- Waiting does not depend on what is behind a node. -/
lemma Waits.congr {t t' : Tree Handler} {id : NodeId} {n m : Node Handler} (h : Waits t id n)
    (hhere : t'.node? id = some m) (hsame : ∀ j < id, t'.node? j = t.node? j)
    (hparent : m.parent = n.parent) (hoverrides : m.overrides = n.overrides)
    (hhandler : m.handler = n.handler ∨ m.handler = some .generic) : Waits t' id m where
  here := hhere
  above := by
    rw [hparent]
    refine h.above.imp_right fun hup => ⟨hup.1, hup.2.congr fun j hj => ?_⟩
    exact hsame j (Nat.lt_of_le_of_lt hj hup.1)
  overrides := hoverrides.trans h.overrides
  handler := hhandler.elim (fun e => e ▸ h.handler) Or.inr

lemma Waits.ancestors {t : Tree Handler} {id : NodeId} {n : Node Handler} (h : Waits t id n) :
    ∀ a ∈ t.ancestors id, Calm t a := by
  unfold Tree.ancestors
  cases id with
  | zero => simp [climb]
  | succ id =>
    rcases h.above with hp | ⟨hlt, hcalm⟩
    · have hparent : t.parent? (id + 1) = none := by simp [parent?, h.here, hp]
      simp [climb, hparent]
    · have hparent : t.parent? (id + 1) = some n.parent := by simp [parent?, h.here, hlt.ne]
      simp only [climb, hparent, List.mem_cons]
      rintro a (rfl | ha)
      · exact hcalm
      · exact hcalm.climb id a ha

end Tree

/-! ## Steps of a build -/

namespace Registry

open TaggedOutline.Tree

lemma resolveWithin_calm (height : Nat) {t : Tree Handler} {id : NodeId} (h : Calm t id) :
    ({} : Registry).resolveWithin height t id = (.generic, t) := by
  cases height with
  | zero => rfl
  | succ height =>
    obtain ⟨n, hn, -, hh⟩ := h.exists_node
    simp [resolveWithin, hn, hh]

lemma inherit_calm (height : Nat) {t : Tree Handler} (tag : Text) {ids : List NodeId}
    (h : ∀ a ∈ ids, Calm t a) :
    ({} : Registry).inherit (({} : Registry).resolveWithin height) tag ids t = (none, t) := by
  induction ids with
  | nil => rfl
  | cons id ids ih =>
    have hcalm := h id List.mem_cons_self
    obtain ⟨n, hn, ho, -⟩ := hcalm.exists_node
    have hgeneric : Handler.generic.beneath = [] := rfl
    simp [inherit, hn, ho, resolveWithin_calm height hcalm, hgeneric, handlerBeneath?,
      ih fun a ha => h a (List.mem_cons_of_mem _ ha)]

/-- Without registered handlers a node gets the generic one and remembers it. -/
lemma resolve_waits {t : Tree Handler} {id : NodeId} {n : Node Handler} (h : Waits t id n) :
    ∃ t', ({} : Registry).resolve t id = (.generic, t') ∧
      Becomes t t' id { n with handler := some .generic } := by
  rcases h.handler with hh | hh
  · refine ⟨t.update id fun n => { n with handler := some .generic }, ?_,
      (Becomes.refl h.here).update _⟩
    simp [resolve, resolveWithin, h.here, hh, inherit_calm id n.tag h.ancestors, handler?]
  · refine ⟨t, by simp [resolve, resolveWithin, h.here, hh], ?_⟩
    have hsame : ({ n with handler := some .generic } : Node Handler) = n := by rw [← hh]
    rw [hsame]
    exact Becomes.refl h.here

end Registry

/-- The description of a node without what is beneath it. -/
def Node.spec {H : Type} (n : Node H) : Spec := Subtree.describe n none []

/-- A node whose build has not begun, with what its body says. -/
structure Node.IsNew (n : Node Handler) (source : Text) : Prop where
  state : n.state = .unparsed
  body : n.body = .text source
  children : n.children = []
  expanded : n.expanded = false
  runtimeOnly : n.runtimeOnly = false
  diagnostics : n.diagnostics = []

/-- What a build leaves of a node: all but the fields of its header, its handler and its state. -/
structure Node.Keeps (n m : Node Handler) : Prop where
  tag : m.tag = n.tag
  header : m.header = n.header
  parent : m.parent = n.parent
  overrides : m.overrides = n.overrides
  handler : m.handler = n.handler ∨ m.handler = some .generic
  body : m.body = n.body
  children : m.children = n.children
  expanded : m.expanded = n.expanded
  runtimeOnly : m.runtimeOnly = n.runtimeOnly

namespace Node.Keeps

variable {n m k : Node Handler}

lemma refl (n : Node Handler) : n.Keeps n := ⟨rfl, rfl, rfl, rfl, .inl rfl, rfl, rfl, rfl, rfl⟩

lemma inState (n : Node Handler) (state : BuildState) : n.Keeps { n with state } :=
  ⟨rfl, rfl, rfl, rfl, .inl rfl, rfl, rfl, rfl, rfl⟩

lemma generic (n : Node Handler) : n.Keeps { n with handler := some .generic } :=
  ⟨rfl, rfl, rfl, rfl, .inr rfl, rfl, rfl, rfl, rfl⟩

lemma edit (n : Node Handler) {change : Fields → Fields}
    (hheader : (change n.toFields).header = n.header) (hbody : (change n.toFields).body = n.body)
    (hexpanded : (change n.toFields).expanded = n.expanded)
    (hruntimeOnly : (change n.toFields).runtimeOnly = n.runtimeOnly) : n.Keeps (n.edit change) :=
  ⟨rfl, hheader, rfl, rfl, .inl rfl, hbody, rfl, hexpanded, hruntimeOnly⟩

lemma trans (h : n.Keeps m) (h' : m.Keeps k) : n.Keeps k where
  tag := h'.tag.trans h.tag
  header := h'.header.trans h.header
  parent := h'.parent.trans h.parent
  overrides := h'.overrides.trans h.overrides
  handler := h'.handler.elim (fun e => e ▸ h.handler) Or.inr
  body := h'.body.trans h.body
  children := h'.children.trans h.children
  expanded := h'.expanded.trans h.expanded
  runtimeOnly := h'.runtimeOnly.trans h.runtimeOnly

end Node.Keeps

lemma Tree.Waits.becomes {t t' : Tree Handler} {id : NodeId} {n m : Node Handler}
    (h : Tree.Waits t id n) (hbecomes : Tree.Becomes t t' id m) (hkeeps : n.Keeps m) :
    Tree.Waits t' id m :=
  h.congr hbecomes.here (fun j hj => hbecomes.others j hj.ne) hkeeps.parent hkeeps.overrides
    hkeeps.handler

namespace Setup

open TaggedOutline.Tree

/-- A step of a build that changes only one node, and in it nothing that is described. -/
structure Passes (t t' : Tree Handler) (id : NodeId) (n m : Node Handler) : Prop where
  becomes : Becomes t t' id m
  keeps : n.Keeps m
  spec : m.spec = n.spec

namespace Passes

variable {t t' t'' : Tree Handler} {id : NodeId} {n m k : Node Handler}

lemma refl (h : t.node? id = some n) : Passes t t id n n := ⟨.refl h, .refl n, rfl⟩

lemma trans (h : Passes t t' id n m) (h' : Passes t' t'' id m k) : Passes t t'' id n k where
  becomes := h.becomes.trans h'.becomes
  keeps := h.keeps.trans h'.keeps
  spec := h'.spec.trans h.spec

lemma waits (h : Passes t t' id n m) (hw : Waits t id n) : Waits t' id m :=
  hw.becomes h.becomes h.keeps

lemma log (h : Passes t t' id n m) (e : JournalEntry) : Passes t (t'.log e) id n m :=
  ⟨h.becomes.log e, h.keeps, h.spec⟩

lemma advance (h : Passes t t' id n m) (state : BuildState) :
    Passes t (t'.advance id state) id n { m with state := m.state.later state } :=
  ⟨h.becomes.update _, h.keeps.trans (.inState m _), h.spec⟩

end Passes

lemma resolve_passes {t : Tree Handler} {id : NodeId} {n : Node Handler} (hw : Waits t id n) :
    ∃ t', ({} : Registry).resolve t id = (.generic, t') ∧
      Passes t t' id n { n with handler := some .generic } := by
  obtain ⟨t', hresolve, hbecomes⟩ := Registry.resolve_waits hw
  exact ⟨t', hresolve, hbecomes, .generic n, rfl⟩

/-- The description of a node after its header is decoded. -/
def headed (n : Node Handler) : Spec :=
  match n.header with
  | none => n.spec
  | some header => n.spec.withHeader header

lemma decodeHeader_becomes (st : Settings) {t : Tree Handler} {id : NodeId} {n : Node Handler}
    {source : Text} (hw : Waits t id n) (hn : n.IsNew source) :
    ∃ m, Becomes t (decodeHeader { settings := st } t id) id m ∧ n.Keeps m ∧
      m.spec = headed n := by
  unfold decodeHeader headed
  simp only [hw.here, Option.bind_some]
  cases hheader : n.header with
  | none =>
    obtain ⟨hbecomes, hkeeps, hspec⟩ := (Passes.refl hw.here).advance .headerDecoded
    exact ⟨_, hbecomes, hkeeps, hspec⟩
  | some header =>
    obtain ⟨t', hresolve, hbecomes, hkeeps, -⟩ := resolve_passes hw
    simp only [hresolve]
    have hline : (Handler.generic.line.getD ({} : Registry).line).parse header =
        Header.parse header := rfl
    rw [hline]
    cases hparse : Header.parse header with
    | some h =>
      refine ⟨_, (hbecomes.update _).update _,
        (hkeeps.trans (.edit _ rfl rfl rfl rfl)).trans (.inState _ _), ?_⟩
      simp [Spec.withHeader, hparse, Node.spec, Subtree.describe, Fields.headerFailed, Node.edit,
        Fields.applyHeader, hn.diagnostics]
    | none =>
      refine ⟨_, (hbecomes.update _).update _,
        (hkeeps.trans (.edit _ rfl rfl rfl rfl)).trans (.inState _ _), ?_⟩
      simp [Spec.withHeader, hparse, Node.spec, Subtree.describe, Fields.headerFailed, Node.edit,
        Fields.annotate, Diagnostic.ofUnreadHeader, Diagnostic.hasCode, hheader, hn.diagnostics]

/-- Without registered grammars a body is read by its indentation. -/
lemma bodyPolicy_passes (st : Settings) {t : Tree Handler} {id : NodeId} {n : Node Handler}
    (hw : Waits t id n) :
    ∃ t' m, bodyPolicy { settings := st } t id = (.structural, t') ∧ Passes t t' id n m := by
  obtain ⟨t', hresolve, hpasses⟩ := resolve_passes hw
  unfold bodyPolicy
  simp only [hresolve, hpasses.becomes.here, Option.bind_some]
  cases hparser : n.parser with
  | none => exact ⟨t', _, by simp [Handler.generic], hpasses⟩
  | some name =>
    refine ⟨_, _, rfl, hpasses.becomes.update _, hpasses.keeps.trans (.edit _ rfl rfl rfl rfl), ?_⟩
    have hcode : Diagnostic.unknownGrammar ≠ Diagnostic.unreadHeader := by decide
    simp [Node.spec, Subtree.describe, Fields.headerFailed, Node.edit, Fields.annotate,
      Diagnostic.ofUnknownGrammar, Diagnostic.hasCode, hcode]

end Setup

/-! ## Items become nodes -/

namespace Tree

/-- The children for the items of a body, when the next new node has the number `next`. -/
def itemChildren (next : NodeId) : List BodyItem → List (Child NodeId)
  | [] => []
  | .text s :: items => .text s :: itemChildren next items
  | .tag _ _ _ :: items => .node next :: itemChildren (next + 1) items

/-- The new nodes for the items of a body. -/
def itemNodes (settings : LayoutSettings) (parent : NodeId) : List BodyItem → List (Node Handler)
  | [] => []
  | .text _ :: items => itemNodes settings parent items
  | .tag header body bracket :: items =>
    .ofTag settings parent false header body bracket :: itemNodes settings parent items

lemma itemChildren_eq_numbered (settings : LayoutSettings) (parent next : NodeId)
    (items : List BodyItem) :
    itemChildren next items = numbered next (items.map (BodyItem.seed settings parent false)) := by
  induction items generalizing next with
  | nil => rfl
  | cons item items ih =>
    cases item with
    | text s => exact congrArg (Child.text s :: ·) (ih next)
    | tag header body bracket => exact congrArg (Child.node next :: ·) (ih (next + 1))

lemma itemNodes_eq_newNodes (settings : LayoutSettings) (parent : NodeId)
    (items : List BodyItem) : itemNodes settings parent items =
      newNodes (items.map (BodyItem.seed settings parent false)) := by
  induction items with
  | nil => rfl
  | cons item items ih =>
    cases item with
    | text s => exact ih
    | tag header body bracket => exact congrArg (_ :: ·) ih

/-- The items are added behind the nodes of a tree and at the end of the list of their parent. -/
lemma addItems_spec (settings : LayoutSettings) (items : List BodyItem) {t : Tree Handler}
    {id : NodeId} {n : Node Handler} (hn : t.node? id = some n) :
    (t.addItems settings id false items).size =
        t.size + (itemNodes settings id items).length ∧
      (t.addItems settings id false items).node? id =
        some { n with children := n.children ++ itemChildren t.size items } ∧
      (∀ j < t.size, j ≠ id → (t.addItems settings id false items).node? j = t.node? j) ∧
      ∀ k, (t.addItems settings id false items).node? (t.size + k) =
        (itemNodes settings id items)[k]? := by
  rw [addItems_eq, itemNodes_eq_newNodes, itemChildren_eq_numbered settings id]
  exact addSeeds_spec hn fun m hm => (BodyItem.isSeed_of_mem (mem_newNodes hm)).parent

end Tree

namespace Setup

open TaggedOutline.Tree

/-- A node that keeps its body gets no children. -/
lemma expandBody_passes (st : Settings) {t : Tree Handler} {id : NodeId} {n : Node Handler}
    {source : Text} (hw : Waits t id n) (hbody : n.body = .text source)
    (hkeeps : n.spec.keepsBody st = true) :
    ∃ m, Passes t (expandBody { settings := st } t id) id n m := by
  unfold expandBody
  simp only [hw.here]
  cases hself : n.suppressed || n.inlineCode.isSome with
  | true =>
    simp only [if_true]
    exact ⟨_, (Passes.refl hw.here).advance _⟩
  | false =>
    have hfree : st.layout.isFreeform n.tag = true := by
      have : (n.suppressed || n.inlineCode.isSome || st.layout.isFreeform n.tag) = true := hkeeps
      simpa [hself] using this
    obtain ⟨t', m, hpolicy, hpasses⟩ := bodyPolicy_passes st hw
    simp only [Bool.false_eq_true, if_false, hbody, bodyItems, hpolicy, hfree, if_true]
    exact ⟨_, hpasses.advance _⟩

/-- The body of a node has been expanded: the node has a child for each item, and the nodes for the
items are behind the others. -/
structure Expands (st : Settings) (t t' : Tree Handler) (id : NodeId) (n m : Node Handler)
    (source : Text) : Prop where
  waits : Waits t' id m
  header : m.header = n.header
  parent : m.parent = n.parent
  body : m.body = .text source
  spec : m.spec = n.spec
  expanded : m.expanded = true
  runtimeOnly : m.runtimeOnly = false
  children : m.children = itemChildren t.size (Body.parse st.layout source)
  grows : Grows t t' id
  size_eq : t'.size = t.size + (itemNodes st.layout id (Body.parse st.layout source)).length
  added : ∀ k, t'.node? (t.size + k) = (itemNodes st.layout id (Body.parse st.layout source))[k]?

/-- Any other node gets a child for each item of its body. -/
lemma expandBody_expands (st : Settings) {t : Tree Handler} {id : NodeId} {n : Node Handler}
    {source : Text} (hw : Waits t id n) (hbody : n.body = .text source)
    (hchildren : n.children = []) (hdocument : n.runtimeOnly = false)
    (hkeeps : n.spec.keepsBody st = false) :
    ∃ m, Expands st t (expandBody { settings := st } t id) id n m source := by
  obtain ⟨hself, hfree⟩ : (n.suppressed || n.inlineCode.isSome) = false ∧
      st.layout.isFreeform n.tag = false := Bool.or_eq_false_iff.mp hkeeps
  obtain ⟨t', m, hpolicy, hbecomes, hkept, hspec⟩ := bodyPolicy_passes st hw
  obtain ⟨hgrown, hhere, hothers, hnew⟩ :=
    addItems_spec st.layout (Body.parse st.layout source) hbecomes.here
  rw [hbecomes.size_eq] at hgrown hhere hothers hnew
  have hlt := lt_size_of_node? hw.here
  unfold expandBody
  simp only [hw.here, hself, hbody, bodyItems, hpolicy, hfree, hdocument, Bool.false_eq_true,
    if_false]
  have hlast := ((Becomes.refl hhere).update (·.edit fun f => { f with expanded := true })).update
    fun n => { n with state := n.state.later .bodyParsed }
  have hgrows : Grows t (t'.addItems st.layout id false (Body.parse st.layout source)) id := by
    refine ⟨hgrown ▸ Nat.le_add_right _ _, fun j hj hne => ?_⟩
    rw [hothers j hj hne, hbecomes.others j hne]
  have hbefore : ∀ j < id, _ := fun j hj =>
    (hlast.others j hj.ne).trans (hgrows.others j (hj.trans hlt) hj.ne)
  have hnil : m.children = [] := hkept.children.trans hchildren
  refine ⟨_, hw.congr hlast.here hbefore hkept.parent hkept.overrides hkept.handler, hkept.header,
    hkept.parent, hkept.body.trans hbody, hspec, rfl, hkept.runtimeOnly.trans hdocument,
    congrArg (· ++ _) hnil, hgrows.trans (.of_becomes hlast), hlast.size_eq.trans hgrown,
    fun k => ?_⟩
  rw [← hnew k]
  exact hlast.others _ (Nat.ne_of_gt (Nat.lt_of_lt_of_le hlt (Nat.le_add_right _ _)))

end Setup

/-! ## What is read of a body -/

namespace Spec

/-- A description with what is read of a body, or with the body itself if it keeps that. -/
def filled (st : Settings) (s : Spec) (source : Text) : Spec :=
  if s.keepsBody st then { s with body := if source.isEmpty then none else some source }
  else { s with children := outline st (Text.rows st.layout.tabWidth source) }

lemma filled_unlines (st : Settings) (s : Spec) {body : List Row} (h : ∀ r ∈ body, r.Clean) :
    s.filled st (Text.unlines (body.map Row.text)) = s.fill st body (outline st body) := by
  have hempty : (Text.unlines (body.map Row.text)).isEmpty = body.isEmpty := by
    cases body <;> simp
  simp only [filled, fill, bodyText, Text.rows_unlines st.layout.tabWidth h, hempty]

end Spec

namespace Subtree

variable {H : Type}

mutual

/-- The node of a subtree has a body, and the subtree is what is read of it. -/
def Reads (st : Settings) : Subtree H → Text → Prop
  | ⟨_, node, children⟩, source =>
    (node.body = .text source ∧ node.runtimeOnly = false) ∧
      if node.spec.keepsBody st then node.expanded = false ∧ children = []
      else node.expanded = true ∧ AreRead st children (Body.parse st.layout source)

/-- Children are what is read of items. -/
def AreRead (st : Settings) : List (Child (Subtree H)) → List BodyItem → Prop
  | [], [] => True
  | child :: children, item :: items => IsRead st child item ∧ AreRead st children items
  | _, _ => False

/-- A child is what is read of an item. -/
def IsRead (st : Settings) : Child (Subtree H) → BodyItem → Prop
  | .text t, .text t' => t = t'
  | .node s, .tag header body bracket =>
    (s.node.header = some header ∧ s.node.spec = Spec.ofHeader st header bracket) ∧ s.Reads st body
  | _, _ => False

end

lemma Reads.areRead {st : Settings} {s : Subtree H} {source : Text} (h : s.Reads st source)
    (hkeeps : s.node.spec.keepsBody st = false) :
    AreRead st s.children (Body.parse st.layout source) := by
  cases s
  obtain ⟨-, h⟩ := h
  rw [hkeeps, if_neg Bool.false_ne_true] at h
  exact h.2

lemma Reads.runtimeOnly {st : Settings} {s : Subtree H} {source : Text} (h : s.Reads st source) :
    s.node.runtimeOnly = false := by
  cases s
  exact h.1.2

mutual

/-- The description of what is read of a body. -/
lemma Reads.toSpec_eq {st : Settings} : ∀ {s : Subtree H} {source : Text},
    s.Reads st source → s.toSpec = s.node.spec.filled st source
  | ⟨id, node, children⟩, source, ⟨⟨hbody, _⟩, hread⟩ => by
    rw [Spec.filled]
    split at hread
    · rename_i hkeeps
      obtain ⟨hexpanded, rfl⟩ := hread
      rw [if_pos hkeeps, toSpec, hexpanded, if_neg Bool.false_ne_true, hbody]
      cases source <;> rfl
    · rename_i hkeeps
      obtain ⟨hexpanded, hchildren⟩ := hread
      rw [Body.parse_eq_cut] at hchildren
      have hspecs := AreRead.childSpecs_eq hchildren fun header body bracket hm =>
        Body.clean_of_mem_cut hm fun r hr => Text.clean_of_mem_rows hr
      rw [if_neg hkeeps, toSpec, if_pos hexpanded, hspecs, ← outline_eq]
      rfl

lemma AreRead.childSpecs_eq {st : Settings} : ∀ {children : List (Child (Subtree H))}
    {items : List Body.Item}, AreRead st children (items.map Body.Item.written) →
      (∀ header body bracket, Body.Item.tag header body bracket ∈ items → ∀ r ∈ body, r.Clean) →
        childSpecs children = items.map (Body.Item.child st)
  | [], [], _, _ => rfl
  | .text _ :: _, .text _ :: _, ⟨ht, hchildren⟩, hclean => by
    have hrest := AreRead.childSpecs_eq hchildren fun header body bracket hm =>
      hclean header body bracket (List.mem_cons_of_mem _ hm)
    obtain rfl := ht
    rw [childSpecs, hrest]
    rfl
  | .node s :: _, .tag header body bracket :: _, ⟨⟨⟨_, hspec⟩, hread⟩, hchildren⟩, hclean => by
    have hrest := AreRead.childSpecs_eq hchildren fun header body bracket hm =>
      hclean header body bracket (List.mem_cons_of_mem _ hm)
    have hs := Reads.toSpec_eq hread
    rw [hspec, Spec.filled_unlines st _ (hclean header body bracket List.mem_cons_self)] at hs
    rw [childSpecs, childSpec, hread.runtimeOnly, if_neg Bool.false_ne_true, hs, hrest]
    rfl

end

mutual

/-- The sketch of what is read of a body is that of its description. -/
lemma Reads.sketch_eq {st : Settings} : ∀ {s : Subtree H} {source : Text},
    s.Reads st source → s.sketch = s.toSpec.sketch
  | ⟨id, node, children⟩, source, ⟨⟨hbody, _⟩, hread⟩ => by
    split at hread
    · obtain ⟨hexpanded, rfl⟩ := hread
      rw [toSpec, hexpanded, if_neg Bool.false_ne_true, hbody]
      cases source <;> rfl
    · obtain ⟨hexpanded, hchildren⟩ := hread
      rw [toSpec, if_pos hexpanded, sketch, AreRead.childSketches_eq hchildren]
      rfl

lemma AreRead.childSketches_eq {st : Settings} : ∀ {children : List (Child (Subtree H))}
    {items : List BodyItem}, AreRead st children items →
      childSketches children = Spec.childSketches (childSpecs children)
  | [], [], _ => rfl
  | .text _ :: _, .text _ :: _, ⟨_, hchildren⟩ => by
    rw [childSketches, AreRead.childSketches_eq hchildren]
    rfl
  | .node s :: _, .tag _ _ _ :: _, ⟨⟨_, hread⟩, hchildren⟩ => by
    rw [childSketches, childSketch, childSpecs, childSpec, hread.runtimeOnly,
      if_neg Bool.false_ne_true, if_neg Bool.false_ne_true, Reads.sketch_eq hread,
      AreRead.childSketches_eq hchildren]
    rfl

end

end Subtree

/-! ## Whole builds -/

namespace Setup

open TaggedOutline.Tree

variable (st : Settings) {t : Tree Handler} {id : NodeId} {n : Node Handler}

/-- The generic handler makes no payload. -/
lemma makePayload_passes (hw : Waits t id n) :
    ∃ t' m, (∀ build, makePayload { settings := st } build t id = some t') ∧
      Passes t t' id n m ∧ m.handler = some .generic := by
  obtain ⟨t', hresolve, hpasses⟩ := resolve_passes hw
  have hrun : ∀ build, Setup.run { settings := st } build (Handler.generic.payload id)
      (t'.log (.call .payload id)) = some (.ok none, t'.log (.call .payload id)) := fun _ => rfl
  refine ⟨_, _, fun build => ?_, (hpasses.log (.call .payload id)).advance .payloadBuilt, rfl⟩
  simp only [makePayload, hresolve, hrun]
  rfl

/-- The generic handler does nothing for the node above. -/
lemma registerNode_passes (hw : Waits t id n) :
    ∃ t' m, (∀ build, registerNode { settings := st } build t id = some t') ∧
      Passes t t' id n m := by
  cases hparent : t.parent? id with
  | none =>
    refine ⟨_, _, fun build => ?_, (Passes.refl hw.here).advance .registered⟩
    simp only [registerNode, hparent]
    rfl
  | some parent =>
    obtain ⟨t', hresolve, hpasses⟩ := resolve_passes hw
    have hrun : ∀ build, Setup.run { settings := st } build (Handler.generic.register id parent)
        (t'.log (.call .register id)) = some (.ok (), t'.log (.call .register id)) := fun _ => rfl
    refine ⟨_, _, fun build => ?_, (hpasses.log (.call .register id)).advance .registered⟩
    simp only [registerNode, hparent, hresolve, hrun]
    rfl

/-- The generic handler does nothing at the end. -/
lemma finishNode_passes (hw : Waits t id n) :
    ∃ t' m, (∀ build, finishNode { settings := st } build t id = some t') ∧
      Passes t t' id n m := by
  obtain ⟨t', hresolve, hpasses⟩ := resolve_passes hw
  have hrun : ∀ build, Setup.run { settings := st } build (Handler.generic.post id)
      (t'.log (.call .post id)) = some (.ok (), t'.log (.call .post id)) := fun _ => rfl
  refine ⟨_, _, fun build => ?_, (hpasses.log (.call .post id)).advance .built⟩
  simp only [finishNode, hresolve, hrun]
  rfl

/-- A subtree has been built in a tree from a node with a body: its nodes beneath that are those
from `lo` to `hi`. -/
structure Stands (st : Settings) (t : Tree Handler) (lo hi : Nat) (n : Node Handler) (source : Text)
    (s : Subtree Handler) : Prop where
  isIn : s.IsIn t
  header : s.node.header = n.header
  parent : s.node.parent = n.parent
  spec : s.node.spec = headed n
  reads : s.Reads st source
  within : ∀ j : Nat, j ∈ Subtree.childPreorders s.children → lo ≤ j ∧ j < hi
  length : (Subtree.childPreorders s.children).length = hi - lo

/-- What a build of a new node comes to, at any depth from `bound` on. -/
def Comes (bound : Nat) (t : Tree Handler) (id : NodeId) (n : Node Handler) (source : Text) :
    Prop :=
  ∃ t', (∀ depth, bound ≤ depth → Setup.build { settings := st } depth t id = some t') ∧
    Grows t t' id ∧ ∃ s : Subtree Handler, s.id = id ∧ Stands st t' t.size t'.size n source s

/-- The items of a body, whose nodes stand from `next` on in `t`, have been built from `t` to
`t'`. -/
structure ItemsStand (st : Settings) (t t' : Tree Handler) (parent next : Nat)
    (items : List BodyItem) (subs : List (Child (Subtree Handler))) : Prop where
  ids : itemChildren next items = subs.map Subtree.childId
  areIn : Subtree.AreIn t' parent subs
  areRead : Subtree.AreRead st subs items
  within : ∀ j : Nat, j ∈ Subtree.childPreorders subs → next ≤ j ∧ j < t'.size
  length : (Subtree.childPreorders subs).length =
    (itemNodes st.layout parent items).length + (t'.size - t.size)
  size_le : t.size ≤ t'.size
  others : ∀ j < t.size, (j < next ∨ next + (itemNodes st.layout parent items).length ≤ j) →
    t'.node? j = t.node? j

/-- The elements among some items can be built wherever they are. -/
def ItemsCome (st : Settings) (bound : Nat) (items : List BodyItem) : Prop :=
  ∀ header body bracket, BodyItem.tag header body bracket ∈ items →
    ∀ (t : Tree Handler) (id parent : Nat),
      Waits t id (.ofTag st.layout parent false header body bracket) →
        Comes st bound t id (.ofTag st.layout parent false header body bracket) body

variable {st}

section Items

variable {bound : Nat} {items : List BodyItem} {parent next : Nat} {header body : Text}
  {bracket : Bool}

/-- The first element has been built from `t` to `t₁`, and what is behind it from there. -/
lemma ItemsStand.cons {t t₁ t' : Tree Handler} {s : Subtree Handler}
    {subs : List (Child (Subtree Handler))} (hparent : parent < next)
    (hsize : next + (itemNodes st.layout parent items).length < t.size)
    (hgrows : Grows t t₁ next) (hid : s.id = next)
    (hstands :
      Stands st t₁ t.size t₁.size (.ofTag st.layout parent false header body bracket) body s)
    (h : ItemsStand st t₁ t' parent (next + 1) items subs) :
    ItemsStand st t t' parent next (.tag header body bracket :: items) (.node s :: subs) := by
  have hle := hgrows.size_le
  have hours : ∀ j : Nat, j ∈ s.preorder → j = next ∨ t.size ≤ j ∧ j < t₁.size := by
    rw [Subtree.preorder_eq, hid]
    exact fun j hj => (List.mem_cons.mp hj).imp_right (hstands.within j)
  have hlength : (itemNodes st.layout parent (.tag header body bracket :: items)).length =
      (itemNodes st.layout parent items).length + 1 := rfl
  have hisIn : s.IsIn t' := by
    refine hstands.isIn.congr fun j hj => ?_
    have := hours j hj
    apply h.others <;> omega
  refine ⟨?_, ⟨⟨⟨hid ▸ hparent, hstands.parent⟩, hisIn⟩, h.areIn⟩,
    ⟨⟨⟨hstands.header, hstands.spec⟩, hstands.reads⟩, h.areRead⟩, fun j hj => ?_, ?_,
    hle.trans h.size_le, fun j hj hout => ?_⟩
  · rw [itemChildren, h.ids, ← hid]
    rfl
  · rcases List.mem_append.mp hj with hj | hj
    · have := hours j hj
      have := h.size_le
      omega
    · have := h.within j hj
      omega
  · have hfirst : s.preorder.length = 1 + (t₁.size - t.size) := by
      rw [Subtree.preorder_eq, List.length_cons, hstands.length, Nat.add_comm]
    have hrest := h.length
    have hle' := h.size_le
    rw [Subtree.childPreorders_cons, List.length_append, hlength]
    change s.preorder.length + _ = _
    omega
  · rw [hlength] at hout
    have hne : j ≠ next := by omega
    rw [h.others j (by omega) (by omega)]
    exact hgrows.others j hj hne

/-- The nodes of the items of a body are built one after the other. -/
lemma buildAll_items (hbuild : ItemsCome st bound items) {t : Tree Handler}
    (hcalm : Calm t parent) (hparent : parent < next)
    (hsize : next + (itemNodes st.layout parent items).length ≤ t.size)
    (hnodes : ∀ k n, (itemNodes st.layout parent items)[k]? = some n →
      t.node? (next + k) = some n) :
    ∃ t' subs, (∀ depth, bound ≤ depth →
        buildAll (Setup.build { settings := st } depth) (Subtree.childIds subs) t = some t') ∧
      ItemsStand st t t' parent next items subs := by
  induction items generalizing t next with
  | nil =>
    exact ⟨t, [], fun _ _ => rfl, rfl, trivial, trivial, by simp, by simp [itemNodes], le_rfl,
      fun _ _ _ => rfl⟩
  | cons item items ih =>
    have hbuild' : ItemsCome st bound items := fun header body bracket hm =>
      hbuild header body bracket (List.mem_cons_of_mem _ hm)
    cases item with
    | text s =>
      obtain ⟨t', subs, hall, h⟩ := ih hbuild' hcalm hparent hsize hnodes
      exact ⟨t', .text s :: subs, hall, congrArg (Child.text s :: ·) h.ids, ⟨trivial, h.areIn⟩,
        ⟨rfl, h.areRead⟩, h.within, h.length, h.size_le, h.others⟩
    | tag header body bracket =>
      have hlength : (itemNodes st.layout parent (.tag header body bracket :: items)).length =
          (itemNodes st.layout parent items).length + 1 := rfl
      rw [hlength] at hsize
      obtain ⟨t₁, hbuilt, hgrows, s, hid, hstands⟩ := hbuild header body bracket
        List.mem_cons_self t next parent ⟨hnodes 0 _ rfl, .inr ⟨hparent, hcalm⟩, rfl, .inl rfl⟩
      have hle := hgrows.size_le
      have hothers : ∀ j : Nat, j < t.size → j ≠ next → t₁.node? j = t.node? j := hgrows.others
      have hcalm₁ : Calm t₁ parent := hcalm.congr fun j hj => hothers j (by omega) (by omega)
      have hnodes₁ : ∀ k n, (itemNodes st.layout parent items)[k]? = some n →
          t₁.node? (next + 1 + k) = some n := by
        intro k n hk
        have hlt := (List.getElem?_eq_some_iff.mp hk).1
        have hindex : next + 1 + k = next + (k + 1) := by omega
        rw [hindex, hothers (next + (k + 1)) (by omega) (by omega)]
        exact hnodes (k + 1) n hk
      obtain ⟨t', subs, hall, h⟩ :=
        ih hbuild' hcalm₁ (Nat.lt_succ_of_lt hparent) (by omega) hnodes₁
      refine ⟨t', .node s :: subs, fun depth hdepth => ?_,
        .cons hparent hsize hgrows hid hstands h⟩
      rw [← hall depth hdepth]
      simp [Subtree.childIds, hid, buildAll, hbuilt depth hdepth]

end Items

/-- The last two steps of a build change nothing that is described. -/
lemma lastSteps_passes (st : Settings) {t : Tree Handler} {id : NodeId} {n : Node Handler}
    (hw : Waits t id n) :
    ∃ t' m, (∀ build, (do
        let t ← registerNode { settings := st } build (t.advance id .childrenBuilt) id
        finishNode { settings := st } build t id) = some t') ∧
      Passes t t' id n m := by
  have hadvance := (Passes.refl hw.here).advance .childrenBuilt
  obtain ⟨t₁, n₁, hregister, hpasses₁⟩ := registerNode_passes st (hadvance.waits hw)
  have hpasses := hadvance.trans hpasses₁
  obtain ⟨t₂, n₂, hfinish, hpasses₂⟩ := finishNode_passes st (hpasses.waits hw)
  refine ⟨t₂, n₂, fun build => ?_, hpasses.trans hpasses₂⟩
  rw [hregister build]
  exact hfinish build

/-- The build of a node, when the children are built from `t₁` to `t₂`. -/
lemma build_of_steps (st : Settings) {depth : Nat} {t t₁ t₂ t₃ : Tree Handler} {id : NodeId}
    {n : Node Handler} (hn : t.node? id = some n) (hstate : n.state = .unparsed)
    (hpayload : ∀ build, makePayload { settings := st } build
      (expandBody { settings := st } (decodeHeader { settings := st } t id) id) id = some t₁)
    (hchildren : buildAll (Setup.build { settings := st } depth) (t₁.childNodes id) t₁ = some t₂)
    (hlast : ∀ build, (do
      let t ← registerNode { settings := st } build (t₂.advance id .childrenBuilt) id
      finishNode { settings := st } build t id) = some t₃) :
    Setup.build { settings := st } (depth + 1) t id = some t₃ := by
  rw [Setup.build, buildOnce]
  simp only [hn, hstate, if_true]
  rw [buildSteps]
  simp only [hpayload, Option.bind_eq_bind, Option.bind_some, hchildren]
  exact hlast _

/-- A new node that keeps its body is built without children. -/
lemma comes_of_keeps (bound : Nat) {t : Tree Handler} {id : NodeId} {n : Node Handler}
    {source : Text} (hw : Waits t id n) (hn : n.IsNew source)
    (hkeepsBody : (headed n).keepsBody st = true) : Comes st (bound + 1) t id n source := by
  obtain ⟨n₁, hdecoded, hkeeps₁, hspec₁⟩ := decodeHeader_becomes st hw hn
  have hw₁ := hw.becomes hdecoded hkeeps₁
  rw [← hspec₁] at hkeepsBody
  obtain ⟨n₂, hpasses₂⟩ := expandBody_passes st hw₁ (hkeeps₁.body.trans hn.body) hkeepsBody
  have hw₂ := hpasses₂.waits hw₁
  obtain ⟨t₃, n₃, hpayload, hpasses₃, -⟩ := makePayload_passes st hw₂
  have hw₃ := hpasses₃.waits hw₂
  obtain ⟨t₄, n₄, hlast, hpasses₄⟩ := lastSteps_passes st hw₃
  obtain ⟨hbecomes', hkeeps', hspec⟩ := (hpasses₂.trans hpasses₃).trans hpasses₄
  have hbecomes := hdecoded.trans hbecomes'
  have hkeeps := hkeeps₁.trans hkeeps'
  refine ⟨t₄, fun depth hdepth => ?_, .of_becomes hbecomes, ⟨id, n₄, []⟩, rfl, ?_⟩
  · obtain ⟨depth, rfl⟩ :=
      Nat.exists_eq_succ_of_ne_zero (Nat.ne_of_gt (Nat.zero_lt_of_lt hdepth))
    refine build_of_steps st hw.here hn.state hpayload ?_ hlast
    have hnone : n₃.children = [] :=
      ((hkeeps₁.trans hpasses₂.keeps).trans hpasses₃.keeps).children.trans hn.children
    simp [childNodes, hw₃.here, Node.childNodes, hnone, buildAll]
  · have hread : (⟨id, n₄, []⟩ : Subtree Handler).Reads st source := by
      refine ⟨⟨hkeeps.body.trans hn.body, hkeeps.runtimeOnly.trans hn.runtimeOnly⟩, ?_⟩
      rw [hspec, if_pos hkeepsBody]
      exact ⟨hkeeps.expanded.trans hn.expanded, rfl⟩
    have hlength : (Subtree.childPreorders (H := Handler) []).length = t₄.size - t.size := by
      rw [hbecomes.size_eq, Nat.sub_self]
      rfl
    exact ⟨⟨hbecomes.here, hkeeps.children.trans hn.children, trivial⟩, hkeeps.header,
      hkeeps.parent, hspec.trans hspec₁, hread, by simp, hlength⟩

/-- Any other new node is built with a child for each item of its body, if these can be built. -/
lemma comes_of_items {bound : Nat} {t : Tree Handler} {id : NodeId} {n : Node Handler}
    {source : Text} (hw : Waits t id n) (hn : n.IsNew source)
    (hkeepsBody : (headed n).keepsBody st = false)
    (hbuild : ItemsCome st bound (Body.parse st.layout source)) :
    Comes st (bound + 1) t id n source := by
  have hid : id < t.size := lt_size_of_node? hw.here
  -- the steps before the children: the header, the body and the payload
  obtain ⟨n₁, hdecoded, hkeeps₁, hspec₁⟩ := decodeHeader_becomes st hw hn
  have hw₁ := hw.becomes hdecoded hkeeps₁
  rw [← hspec₁] at hkeepsBody
  obtain ⟨n₂, hexpands⟩ := expandBody_expands st hw₁ (hkeeps₁.body.trans hn.body)
    (hkeeps₁.children.trans hn.children) (hkeeps₁.runtimeOnly.trans hn.runtimeOnly) hkeepsBody
  have hchildren₂ := hexpands.children
  have hsize₂ := hexpands.size_eq
  have hadded := hexpands.added
  rw [hdecoded.size_eq] at hchildren₂ hsize₂ hadded
  obtain ⟨t₃, n₃, hpayload, hpasses₃, hhandler₃⟩ := makePayload_passes st hexpands.waits
  have hw₃ := hpasses₃.waits hexpands.waits
  have hsize₃ := hpasses₃.becomes.size_eq.trans hsize₂
  -- the children are built above the old nodes, so the node itself still waits behind them
  obtain ⟨t₄, subs, hall, hstand⟩ :=
    buildAll_items hbuild (hw₃.calm hhandler₃) hid hsize₃.ge fun k m hk => by
      rw [← hk, ← hadded k]
      exact hpasses₃.becomes.others _ (Nat.ne_of_gt (Nat.lt_of_lt_of_le hid (Nat.le_add_right _ _)))
  have hbefore : ∀ j : Nat, j < t.size → t₄.node? j = t₃.node? j := fun j hj =>
    hstand.others j (by omega) (.inl hj)
  have hw₄ : Waits t₄ id n₃ := hw₃.congr ((hbefore id hid).trans hw₃.here)
    (fun j hj => hbefore j (hj.trans hid)) rfl rfl (.inl rfl)
  obtain ⟨t₅, n₅, hlast, hpasses₅⟩ := lastSteps_passes st hw₄
  have hkeeps := hpasses₃.keeps.trans hpasses₅.keeps
  have hspec : n₅.spec = n₁.spec := (hpasses₅.spec.trans hpasses₃.spec).trans hexpands.spec
  have hids : n₅.children = subs.map Subtree.childId :=
    (hkeeps.children.trans hchildren₂).trans hstand.ids
  have hsize₅ := hpasses₅.becomes.size_eq
  refine ⟨t₅, fun depth hdepth => ?_, ?_, ⟨id, n₅, subs⟩, rfl, ?_⟩
  · obtain ⟨depth, rfl⟩ :=
      Nat.exists_eq_succ_of_ne_zero (Nat.ne_of_gt (Nat.zero_lt_of_lt hdepth))
    refine build_of_steps st hw.here hn.state hpayload ?_ hlast
    rw [childNodes, hw₃.here, Option.map_some, Option.getD_some,
      Subtree.childNodes_eq_childIds (hpasses₅.keeps.children.symm.trans hids)]
    exact hall depth (Nat.le_of_succ_le_succ hdepth)
  · refine ⟨?_, fun j hj hne => ?_⟩
    · have hle := hstand.size_le
      omega
    · rw [hpasses₅.becomes.others j hne, hbefore j hj, hpasses₃.becomes.others j hne,
        hexpands.grows.others j (hdecoded.size_eq ▸ hj) hne, hdecoded.others j hne]
  · have hreads : (⟨id, n₅, subs⟩ : Subtree Handler).Reads st source := by
      refine ⟨⟨hkeeps.body.trans hexpands.body, hkeeps.runtimeOnly.trans hexpands.runtimeOnly⟩, ?_⟩
      rw [hspec, hkeepsBody, if_neg Bool.false_ne_true]
      exact ⟨hkeeps.expanded.trans hexpands.expanded, hstand.areRead⟩
    have hisIn : (⟨id, n₅, subs⟩ : Subtree Handler).IsIn t₅ := by
      refine ⟨hpasses₅.becomes.here, hids,
        hstand.areIn.congr fun j hj => hpasses₅.becomes.others j ?_⟩
      exact Nat.ne_of_gt (Nat.lt_of_lt_of_le hid (hstand.within j hj).1)
    refine ⟨hisIn, (hkeeps.header.trans hexpands.header).trans hkeeps₁.header,
      (hkeeps.parent.trans hexpands.parent).trans hkeeps₁.parent, hspec.trans hspec₁, hreads, ?_,
      ?_⟩
    · rw [hsize₅]
      exact hstand.within
    · have hlength := hstand.length
      have hle := hstand.size_le
      change (Subtree.childPreorders subs).length = _
      omega

/-- A new node is built, and beneath it is what is read of its body. -/
lemma comes_of_isNew {bound : Nat} {t : Tree Handler} {id : NodeId} {n : Node Handler}
    {source : Text} (hw : Waits t id n) (hn : n.IsNew source)
    (hbound : (Text.rows st.layout.tabWidth source).length < bound) :
    Comes st bound t id n source := by
  induction bound generalizing t id n source with
  | zero => exact absurd hbound (Nat.not_lt_zero _)
  | succ bound ih =>
    cases hkeepsBody : (headed n).keepsBody st with
    | true => exact comes_of_keeps bound hw hn hkeepsBody
    | false =>
      apply comes_of_items hw hn hkeepsBody
      intro header body bracket hm t id parent hwaits
      refine ih hwaits ⟨rfl, rfl, rfl, rfl, rfl, rfl⟩ ?_
      have hlt := Body.length_lt_of_mem_parse hm
      omega

/-- The build of a source comes to an end with a tree, at any depth greater than its length. -/
def Builds (s : Setup) (source : Text) (t : Tree Handler) : Prop :=
  ∀ depth, source.length < depth → s.buildText depth source = some t

lemma Builds.unique {s : Setup} {source : Text} {t t' : Tree Handler} (h : s.Builds source t)
    (h' : s.Builds source t') : t = t' :=
  Option.some.inj ((h _ (Nat.lt_succ_self _)).symm.trans (h' _ (Nat.lt_succ_self _)))

/-- Without registered handlers every source is built, and the tree is what is read of it. -/
lemma builds_subtree (st : Settings) (source : Text) :
    ∃ (t : Tree Handler) (s : Subtree Handler), Builds { settings := st } source t ∧
      s.id = Tree.root ∧ s.IsIn t ∧ s.Reads st source ∧ s.preorder.length = t.size ∧
      s.node.spec = { tag := st.rootTag } := by
  let n : Node Handler := { tag := st.rootTag, parent := Tree.root, body := .text source }
  have hhere : (ofText { settings := st } source).node? Tree.root = some n := rfl
  have hw : Waits (ofText { settings := st } source) Tree.root n :=
    ⟨hhere, .inl rfl, rfl, .inl rfl⟩
  have hlength := Text.length_rows_le st.layout.tabWidth source
  have hcomes : Comes st (source.length + 1) _ Tree.root n source :=
    comes_of_isNew hw ⟨rfl, rfl, rfl, rfl, rfl, rfl⟩ (Nat.lt_succ_of_le hlength)
  obtain ⟨t, hbuilt, hgrows, s, hid, hstands⟩ := hcomes
  have hsize : 1 ≤ t.size := hgrows.size_le
  have hone : (ofText { settings := st } source).size = 1 := rfl
  refine ⟨t, s, fun depth hdepth => hbuilt depth hdepth, hid, hstands.isIn, hstands.reads, ?_,
    hstands.spec⟩
  have hbelow := hstands.length
  rw [Subtree.preorder_eq, List.length_cons]
  omega

/-- Without registered handlers every source is built, and the tree is what the source describes. -/
theorem builds_document (st : Settings) (hroot : st.layout.isFreeform st.rootTag = false)
    (source : Text) :
    ∃ t, Builds { settings := st } source t ∧
      t.toSpec? Tree.root = some (Spec.document st source) ∧
      t.sketch? Tree.root = some (Spec.document st source).sketch := by
  obtain ⟨t, s, hbuilds, hid, hin, hread, hsize, hspec⟩ := builds_subtree st source
  have hkeeps : s.node.spec.keepsBody st = false := by
    rw [hspec]
    exact hroot
  have hdocument : s.toSpec = Spec.document st source := by
    rw [hread.toSpec_eq, Spec.filled, hkeeps, hspec]
    rfl
  have hsub : t.subtree? Tree.root = some s := by
    rw [← hid]
    exact hin.subtreeWithin t.size hsize.le
  refine ⟨t, hbuilds, ?_, ?_⟩
  · rw [toSpec?, hsub, Option.map_some, hdocument]
  · rw [sketch?, hsub, Option.map_some, hread.sketch_eq, hdocument]

end Setup

end TaggedOutline
