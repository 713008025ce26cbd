import TaggedOutline.Proofs.Stages

/-!
# Builds without hooks

Hooks that change nothing in a tree leave three traces of their own: payloads, errors among the
diagnostics, and notes in the journal.  `Tree.bare` is a tree without them, and `Setup.bare` are
the same handlers without hooks.  A build with quiet hooks and the build without hooks go side by
side: after each step the one tree is the other one without the traces (`Setup.bare_build`).  So
what hooks give back, a payload or an error, has no influence on the course of a build.
-/

namespace TaggedOutline

/-! ## Handlers without hooks -/

namespace Handler

mutual

/-- The handler without its hooks. -/
def bare : Handler → Handler
  | ⟨name, line, body, beneath, _, _, _⟩ => { name, line, body, beneath := bareTable beneath }

/-- The handlers of a table without their hooks. -/
def bareTable : List (Text × Handler) → List (Text × Handler)
  | [] => []
  | entry :: entries => bareEntry entry :: bareTable entries

/-- The handler of an entry without its hooks. -/
def bareEntry : Text × Handler → Text × Handler
  | (tag, h) => (tag, h.bare)

end

lemma bareTable_eq (table : List (Text × Handler)) :
    bareTable table = table.map fun entry => (entry.1, entry.2.bare) := by
  induction table with
  | nil => rfl
  | cons entry table ih =>
    obtain ⟨tag, h⟩ := entry
    rw [bareTable, ih]
    rfl

lemma bare_eq (h : Handler) : h.bare =
    { name := h.name, line := h.line, body := h.body
      beneath := h.beneath.map fun entry => (entry.1, entry.2.bare) } := by
  rw [← bareTable_eq]
  cases h
  rfl

@[simp] lemma line_bare (h : Handler) : h.bare.line = h.line := by rw [bare_eq]

@[simp] lemma body_bare (h : Handler) : h.bare.body = h.body := by rw [bare_eq]

@[simp] lemma beneath_bare (h : Handler) :
    h.bare.beneath = h.beneath.map fun entry => (entry.1, entry.2.bare) := by rw [bare_eq]

@[simp] lemma bare_generic : Handler.generic.bare = .generic := rfl

lemma isIdle_bare (h : Handler) : h.bare.IsIdle := by
  rw [bare_eq]
  exact ⟨fun _ => rfl, fun _ _ => rfl, fun _ => rfl⟩

end Handler

lemma lookup_map {α β γ : Type} [BEq α] (f : β → γ) (table : List (α × β)) (a : α) :
    (table.map fun entry => (entry.1, f entry.2)).lookup a = (table.lookup a).map f := by
  induction table with
  | nil => rfl
  | cons entry table ih =>
    rw [List.map_cons, List.lookup_cons, List.lookup_cons]
    cases a == entry.1
    · exact ih
    · rfl

/-- The registry without hooks. -/
def Registry.bare (r : Registry) : Registry where
  handlers := r.handlers.map fun entry => (entry.1, entry.2.bare)
  beneath := r.beneath.map fun entry => (entry.1, entry.2.bare)
  bodies := r.bodies
  line := r.line

/-- The setup without hooks. -/
def Setup.bare (s : Setup) : Setup where
  settings := s.settings
  registry := s.registry.bare

/-- What can come up without hooks can come up with them. -/
lemma Setup.exists_offers_of_bare {s : Setup} {h : Handler} (hoffers : s.bare.Offers h) :
    ∃ k, s.Offers k ∧ h = k.bare := by
  induction hoffers with
  | generic => exact ⟨.generic, .generic, rfl⟩
  | handlers hmem =>
    obtain ⟨entry, hentry, heq⟩ := List.mem_map.mp hmem
    exact ⟨entry.2, .handlers hentry, (Prod.mk.inj heq).2.symm⟩
  | beneath hmem =>
    obtain ⟨entry, hentry, heq⟩ := List.mem_map.mp hmem
    exact ⟨entry.2, .beneath hentry, (Prod.mk.inj heq).2.symm⟩
  | inner _ hmem ih =>
    obtain ⟨k, hk, rfl⟩ := ih
    rw [k.beneath_bare] at hmem
    obtain ⟨entry, hentry, heq⟩ := List.mem_map.mp hmem
    exact ⟨entry.2, .inner hk hentry, (Prod.mk.inj heq).2.symm⟩
  | installed _ hinstalls ih =>
    obtain ⟨k, -, rfl⟩ := ih
    exact absurd hinstalls k.isIdle_bare.isQuiet.not_installs

lemma Setup.isIdle_bare (s : Setup) : s.bare.IsIdle := by
  intro h hoffers
  obtain ⟨k, -, rfl⟩ := exists_offers_of_bare hoffers
  exact k.isIdle_bare

/-! ## Trees without the traces of hooks -/

/-- The fields without the errors that hooks have given back. -/
def Fields.bare (f : Fields) : Fields :=
  { f with diagnostics := f.diagnostics.filter fun d => d.severity == .warning }

/-- The node without what hooks have given back. -/
def Node.bare (n : Node Handler) : Node Handler :=
  { n.mapHandler Handler.bare with toFields := n.toFields.bare, payload := none }

/-- Whether an entry of the journal is the call of a hook. -/
def JournalEntry.isCall : JournalEntry → Bool
  | .call _ _ => true
  | .note _ => false

namespace Tree

/-- The tree without what hooks have given back or noted. -/
def bare (t : Tree Handler) : Tree Handler where
  nodes := t.nodes.map Node.bare
  journal := t.journal.filter JournalEntry.isCall

variable (t : Tree Handler)

@[simp] lemma node?_bare (id : NodeId) : t.bare.node? id = (t.node? id).map Node.bare := by
  simp [bare, node?]

@[simp] lemma size_bare : t.bare.size = t.size := by simp [bare, size]

@[simp] lemma parent?_bare (id : NodeId) : t.bare.parent? id = t.parent? id := by
  rw [parent?, parent?, node?_bare]
  cases t.node? id <;> rfl

@[simp] lemma climb_bare (steps : Nat) (id : NodeId) :
    t.bare.climb steps id = t.climb steps id := by
  induction steps generalizing id with
  | zero => rfl
  | succ steps ih => simp only [climb, parent?_bare, ih]

@[simp] lemma ancestors_bare (id : NodeId) : t.bare.ancestors id = t.ancestors id :=
  t.climb_bare id id

@[simp] lemma childNodes_bare (id : NodeId) : t.bare.childNodes id = t.childNodes id := by
  rw [childNodes, childNodes, node?_bare]
  cases t.node? id <;> rfl

@[simp] lemma calls_bare : t.bare.calls = t.calls := by
  simp only [calls, bare, Array.toList_filter, List.filterMap_filter]
  congr 1
  funext entry
  cases entry <;> rfl

variable {t} {id : NodeId}

lemma map_modify {α β : Type} {f : α → α} {f' : β → β} {g : α → β}
    (h : ∀ a, g (f a) = f' (g a)) (xs : Array α) (i : Nat) :
    (xs.modify i f).map g = (xs.map g).modify i f' := by
  refine Array.ext_getElem? fun j => ?_
  simp only [Array.getElem?_map, Array.getElem?_modify]
  split
  · simp only [Option.map_map]
    exact congrArg (Option.map · xs[j]?) (funext h)
  · rfl

/-- A change of a node and the change without what hooks have given back. -/
lemma bare_update {f g : Node Handler → Node Handler} (h : ∀ n, (f n).bare = g n.bare) :
    (t.update id f).bare = t.bare.update id g := by
  rw [bare, update, map_modify h]
  rfl

/-- A change that is only what a hook has given back. -/
lemma bare_update_of_bare {f : Node Handler → Node Handler} (h : ∀ n, (f n).bare = n.bare) :
    (t.update id f).bare = t.bare := by
  have hsame : ∀ xs : Array (Node Handler), xs.modify id (fun n => n) = xs := fun xs =>
    Array.ext_getElem? fun i => by simp [Array.getElem?_modify]
  rw [bare_update (g := fun n => n) h, update, hsame]

lemma bare_advance (state : BuildState) :
    (t.advance id state).bare = t.bare.advance id state := bare_update fun _ => by rfl

lemma bare_adopt (child : Child NodeId) :
    (t.adopt id child).bare = t.bare.adopt id child := bare_update fun _ => by rfl

lemma bare_remember (h : Handler) :
    (t.update id fun n => { n with handler := some h }).bare =
      t.bare.update id fun n => { n with handler := some h.bare } := bare_update fun _ => by rfl

lemma bare_edit {change : Fields → Fields} (h : ∀ f, (change f).bare = change f.bare) :
    (t.edit id change).bare = t.bare.edit id change :=
  bare_update fun n => congrArg (fun f => { n.bare with toFields := f }) (h n.toFields)

lemma bare_annotate {d : Diagnostic} (h : d.severity = .warning) :
    (t.annotate id d).bare = t.bare.annotate id d :=
  bare_update fun n => by
    simp [Node.bare, Node.edit, Fields.bare, Fields.annotate, h, Node.mapHandler]

lemma bare_record (e : BuildError) : (t.record id e).bare = t.bare :=
  bare_update_of_bare fun n => by
    simp [Node.bare, Node.edit, Fields.bare, Fields.annotate, BuildError.diagnostic,
      Node.mapHandler]

lemma bare_log_call (occasion : Occasion) (j : NodeId) :
    (t.log (.call occasion j)).bare = t.bare.log (.call occasion j) :=
  congrArg (Tree.mk _) (Array.filter_push_of_pos rfl (Array.size_push _))

lemma bare_log_note (line : Text) : (t.log (.note line)).bare = t.bare :=
  congrArg (Tree.mk _) (Array.filter_push_of_neg Bool.false_ne_true (Array.size_push _))

lemma bare_of_isSeed {n : Node Handler} {parent : NodeId} {runtimeOnly : Bool}
    (h : n.IsSeed parent runtimeOnly) : n.bare = n := by
  obtain ⟨-, -, -, -, hpayload, -, hoverrides, hhandler, -, hdiagnostics⟩ := h
  rcases n with ⟨⟨⟩⟩
  simp_all [Node.bare, Node.mapHandler, Fields.bare]

lemma bare_add {n : Node Handler} (h : n.bare = n) : (t.add n).bare = t.bare.add n := by
  have hpush : bare { t with nodes := t.nodes.push n } =
      { t.bare with nodes := t.bare.nodes.push n } := by
    simp only [bare, Array.map_push, h]
  rw [add, add, size_bare, ← hpush]
  exact bare_adopt _

lemma bare_addSeeds {seeds : List (Child (Node Handler))} (h : ∀ n ∈ newNodes seeds, n.bare = n) :
    (t.addSeeds id seeds).bare = t.bare.addSeeds id seeds := by
  induction seeds generalizing t with
  | nil => rfl
  | cons seed seeds ih =>
    cases seed with
    | text s =>
      rw [addSeeds, ih h, bare_adopt]
      rfl
    | node n =>
      obtain ⟨hn, hseeds⟩ := List.forall_mem_cons.mp h
      rw [addSeeds, ih hseeds, bare_add hn]
      rfl

end Tree

/-! ## Subtrees without the traces of hooks -/

namespace Subtree

mutual

/-- The subtree without what hooks have given back. -/
def bare : Subtree Handler → Subtree Handler
  | ⟨id, node, children⟩ => ⟨id, node.bare, bareChildren children⟩

/-- The children without what hooks have given back. -/
def bareChildren : List (Child (Subtree Handler)) → List (Child (Subtree Handler))
  | [] => []
  | child :: children => bareChild child :: bareChildren children

/-- The child without what hooks have given back. -/
def bareChild : Child (Subtree Handler) → Child (Subtree Handler)
  | .text s => .text s
  | .node s => .node s.bare

end

mutual

lemma sketch_bare : ∀ s : Subtree Handler, s.bare.sketch = s.sketch
  | ⟨_, node, children⟩ =>
    congrArg (Sketch.mk node.tag node.names node.params.entries) (childSketches_bare children)

lemma childSketches_bare : ∀ children : List (Child (Subtree Handler)),
    childSketches (bareChildren children) = childSketches children
  | [] => rfl
  | child :: children => by
    rw [bareChildren, childSketches, childSketches, childSketch_bare child,
      childSketches_bare children]

lemma childSketch_bare : ∀ child : Child (Subtree Handler),
    childSketch (bareChild child) = childSketch child
  | .text _ => rfl
  | .node s => by
    have hflag : s.bare.node.runtimeOnly = s.node.runtimeOnly := by
      cases s
      rfl
    rw [bareChild, childSketch, childSketch, hflag, sketch_bare s]

end

end Subtree

namespace Tree

lemma subtreeWithin_bare (t : Tree Handler) (depth : Nat) (id : NodeId) :
    t.bare.subtreeWithin depth id = (t.subtreeWithin depth id).map Subtree.bare := by
  induction depth generalizing id with
  | zero => rfl
  | succ depth ih =>
    rw [subtreeWithin, subtreeWithin, node?_bare]
    rcases t.node? id with - | n
    · rfl
    · have hchildren : n.bare.children = n.children := rfl
      simp only [Option.map_some, hchildren, ih, Option.some.injEq, Subtree.bare, Subtree.mk.injEq,
        true_and]
      generalize n.children = children
      induction children with
      | nil => rfl
      | cons child children ihc =>
        cases child with
        | text s => exact congrArg (Child.text s :: ·) ihc
        | node c =>
          simp only [List.filterMap_cons]
          rcases t.subtreeWithin depth c with - | s
          · exact ihc
          · exact congrArg (Child.node s.bare :: ·) ihc

lemma subtree?_bare (t : Tree Handler) (id : NodeId) :
    t.bare.subtree? id = (t.subtree? id).map Subtree.bare := by
  rw [subtree?, size_bare, subtreeWithin_bare, subtree?]

/-- What hooks give back is not in a sketch. -/
lemma sketch?_bare (t : Tree Handler) (id : NodeId) : t.bare.sketch? id = t.sketch? id := by
  rw [sketch?, subtree?_bare, Option.map_map, sketch?]
  exact congrArg (Option.map · _) (funext Subtree.sketch_bare)

end Tree

/-! ## Steps without hooks -/

namespace Registry

variable (r : Registry)

lemma bare_inherit {resolve resolve' : Tree Handler → NodeId → Handler × Tree Handler}
    (hresolve : ∀ t id, resolve' t.bare id = Prod.map Handler.bare Tree.bare (resolve t id))
    (tag : Text) (above : List NodeId) (t : Tree Handler) :
    r.bare.inherit resolve' tag above t.bare =
      Prod.map (Option.map Handler.bare) Tree.bare (r.inherit resolve tag above t) := by
  induction above generalizing t with
  | nil => rfl
  | cons id above ih =>
    rw [inherit, inherit, Tree.node?_bare]
    rcases t.node? id with - | n
    · rfl
    · have hoverrides : n.bare.overrides.lookup tag = (n.overrides.lookup tag).map Handler.bare :=
        lookup_map Handler.bare n.overrides tag
      simp only [Option.map_some, hoverrides]
      rcases n.overrides.lookup tag with - | h
      · rcases hown : resolve t id with ⟨own, t₁⟩
        have hbeneath : own.bare.beneath.lookup tag =
            (own.beneath.lookup tag).map Handler.bare := by
          rw [own.beneath_bare, lookup_map]
        have hregistry : r.bare.handlerBeneath? n.bare.tag tag =
            (r.handlerBeneath? n.tag tag).map Handler.bare := lookup_map _ _ _
        simp only [hresolve, hown, Prod.map_apply, Option.map_none, hbeneath, hregistry]
        rcases own.beneath.lookup tag with - | h
        · rcases r.handlerBeneath? n.tag tag with - | h
          · exact ih t₁
          · rfl
        · rfl
      · rfl

lemma bare_resolveWithin (height : Nat) (t : Tree Handler) (id : NodeId) :
    r.bare.resolveWithin height t.bare id =
      Prod.map Handler.bare Tree.bare (r.resolveWithin height t id) := by
  induction height generalizing t id with
  | zero => rfl
  | succ height ih =>
    rw [resolveWithin, resolveWithin, Tree.node?_bare]
    rcases t.node? id with - | n
    · rfl
    · have hhandler : n.bare.handler = n.handler.map Handler.bare := rfl
      simp only [Option.map_some, hhandler]
      rcases n.handler with - | h
      · have htag : n.bare.tag = n.tag := rfl
        have hdefault : r.bare.handler? n.tag = (r.handler? n.tag).map Handler.bare :=
          lookup_map _ _ _
        simp only [Option.map_none, htag, Tree.ancestors_bare, hdefault, r.bare_inherit ih]
        rcases r.inherit (r.resolveWithin height) n.tag (t.ancestors id) t with ⟨found, t₁⟩
        have hfound : (found.map Handler.bare).getD
            (((r.handler? n.tag).map Handler.bare).getD .generic) =
              (found.getD ((r.handler? n.tag).getD .generic)).bare := by
          rcases found with - | h
          · rcases r.handler? n.tag with - | h <;> rfl
          · rfl
        simp only [Prod.map_apply, hfound]
        exact congrArg (Prod.mk _) (Tree.bare_remember _).symm
      · rfl

/-- To look for a handler without hooks. -/
lemma bare_resolve (t : Tree Handler) (id : NodeId) :
    r.bare.resolve t.bare id = Prod.map Handler.bare Tree.bare (r.resolve t id) :=
  r.bare_resolveWithin (id + 1) t id

end Registry

namespace Setup

open TaggedOutline.Tree

variable (s : Setup)

lemma bare_decodeHeader (t : Tree Handler) (id : NodeId) :
    s.bare.decodeHeader t.bare id = (s.decodeHeader t id).bare := by
  have hheader : (t.bare.node? id).bind (·.header) = (t.node? id).bind (·.header) := by
    rw [node?_bare]
    cases t.node? id <;> rfl
  rw [decodeHeader, decodeHeader, hheader]
  rcases (t.node? id).bind (·.header) with - | header
  · exact (bare_advance _).symm
  · have hresolve : s.bare.registry.resolve t.bare id = _ := s.registry.bare_resolve t id
    rcases hfound : s.registry.resolve t id with ⟨h, t₁⟩
    rw [hfound] at hresolve
    have hline : s.bare.registry.line = s.registry.line := rfl
    simp only [hresolve, Prod.map_apply, h.line_bare, hline, bare_advance]
    refine congrArg (Tree.advance · id _) ?_
    rcases (h.line.getD s.registry.line).parse header with - | decoded
    · exact (bare_annotate (by rfl)).symm
    · exact (bare_edit fun _ => by rfl).symm

lemma bare_bodyPolicy (t : Tree Handler) (id : NodeId) :
    s.bare.bodyPolicy t.bare id = Prod.map (fun p => p) Tree.bare (s.bodyPolicy t id) := by
  have hresolve : s.bare.registry.resolve t.bare id = _ := s.registry.bare_resolve t id
  rcases hfound : s.registry.resolve t id with ⟨h, t₁⟩
  rw [hfound] at hresolve
  have hparser : (t₁.bare.node? id).bind (·.parser) = (t₁.node? id).bind (·.parser) := by
    rw [node?_bare]
    cases t₁.node? id <;> rfl
  simp only [bodyPolicy, hresolve, hfound, Prod.map_apply, hparser]
  rcases (t₁.node? id).bind (·.parser) with - | name
  · simp
  · have hbody : s.bare.registry.body? name = s.registry.body? name := rfl
    simp only [hbody]
    rcases s.registry.body? name with - | g
    · exact Prod.ext h.body_bare (bare_annotate (by rfl)).symm
    · rfl

lemma bare_bodyItems (t : Tree Handler) (id : NodeId) (tag body : Text) :
    s.bare.bodyItems t.bare id tag body =
      Prod.map (fun items => items) Tree.bare (s.bodyItems t id tag body) := by
  rw [bodyItems, bodyItems, s.bare_bodyPolicy]
  rcases s.bodyPolicy t id with ⟨_ | _ | g, t₁⟩
  · have hsettings : s.bare.settings = s.settings := rfl
    simp only [Prod.map_apply, hsettings]
    split <;> rfl
  · rfl
  · simp only [Prod.map_apply]
    rcases g.parse body with - | items
    · exact congrArg (Prod.mk _) (bare_annotate rfl).symm
    · rfl

lemma bare_expandBody (t : Tree Handler) (id : NodeId) :
    s.bare.expandBody t.bare id = (s.expandBody t id).bare := by
  rw [expandBody, expandBody, node?_bare]
  rcases t.node? id with - | n
  · rfl
  · have hseeds : ∀ {seeds : List (Child (Node Handler))} (t : Tree Handler),
        (∀ n ∈ newNodes seeds, n.bare = n) →
        (t.bare.addSeeds id seeds).edit id (fun f => { f with expanded := true }) =
          ((t.addSeeds id seeds).edit id fun f => { f with expanded := true }).bare := by
      intro seeds t hseeds
      rw [← bare_addSeeds hseeds]
      exact (bare_edit fun _ => by rfl).symm
    simp only [Option.map_some]
    refine Eq.trans (congrArg (Tree.advance · id _) ?_) (bare_advance _).symm
    have hkeeps : (n.bare.suppressed || n.bare.inlineCode.isSome) =
        (n.suppressed || n.inlineCode.isSome) := rfl
    have hbody : n.bare.body = n.body := rfl
    have htag : n.bare.tag = n.tag := rfl
    have hflag : n.bare.runtimeOnly = n.runtimeOnly := rfl
    simp only [hkeeps, hbody, htag, hflag]
    split
    · rfl
    · rcases n.body with body | items
      · simp only [s.bare_bodyItems]
        rcases s.bodyItems t id n.tag body with ⟨_ | items, t₁⟩
        · rfl
        · simp only [Prod.map_apply, addItems_eq]
          refine hseeds t₁ fun m hm => ?_
          exact bare_of_isSeed (BodyItem.isSeed_of_mem (mem_newNodes hm))
      · simp only [addSpecs_eq]
        refine hseeds t fun m hm => ?_
        exact bare_of_isSeed (Spec.isSeed_of_mem (mem_newNodes hm))

end Setup

/-! ## Quiet builds -/

/-- An arena whose nodes know only handlers that can come up. -/
structure Tree.IsSound (s : Setup) (t : Tree Handler) : Prop where
  isArena : t.IsArena
  isOffered : t.IsOffered s

namespace Tree.IsSound

variable {s : Setup} {t t' : Tree Handler} {id : NodeId}

lemma congr (h : t.IsSound s) (hnodes : t'.nodes = t.nodes) : t'.IsSound s := by
  obtain ⟨nodes, journal⟩ := t'
  obtain rfl : nodes = t.nodes := hnodes
  exact ⟨h.isArena.congr fun _ => rfl, h.isOffered⟩

lemma log (h : t.IsSound s) (e : JournalEntry) : (t.log e).IsSound s := h.congr rfl

/-- A change of a node that leaves its place and its handlers alone. -/
lemma update (h : t.IsSound s) {f : Node Handler → Node Handler}
    (hplace : ∀ n, (f n).place = n.place) (hhandler : ∀ n, (f n).handler = n.handler)
    (hoverrides : ∀ n, (f n).overrides = n.overrides) : (t.update id f).IsSound s :=
  ⟨h.isArena.congr (place?_update_of_keeps fun n _ => hplace n),
    h.isOffered.update_of_same hhandler hoverrides⟩

lemma advance (h : t.IsSound s) (state : BuildState) : (t.advance id state).IsSound s :=
  h.update (fun _ => rfl) (fun _ => rfl) fun _ => rfl

lemma record (h : t.IsSound s) (e : BuildError) : (t.record id e).IsSound s :=
  h.update (fun _ => rfl) (fun _ => rfl) fun _ => rfl

lemma resolve (h : t.IsSound s) (id : NodeId) :
    s.Offers (s.registry.resolve t id).1 ∧ (s.registry.resolve t id).2.IsSound s := by
  obtain ⟨hoffers, hoffered⟩ := h.isOffered.offers_resolve id
  exact ⟨hoffers, h.isArena.congr (s.registry.place?_resolve t id), hoffered⟩

end Tree.IsSound

namespace Setup

open TaggedOutline.Tree

/-- The tree in which a node has been opened. -/
lemma isSound_of_opens {s : Setup} {t t' : Tree Handler} {id : NodeId} {n m : Node Handler}
    {h : Handler} {seeds : List (Child (Node Handler))} (hsound : t.IsSound s)
    (hresolve : s.registry.resolve (s.expandBody (s.decodeHeader t id) id) id = (h, t'))
    (hopens : Opens s t t' id n m seeds) : t'.IsSound s := by
  have harena := (s.extends_expandBody (s.decodeHeader t id) id).isArena
    (hsound.isArena.congr (s.place?_decodeHeader t id))
  have hplace := s.registry.place?_resolve (s.expandBody (s.decodeHeader t id) id) id
  rw [hresolve] at hplace
  exact ⟨harena.congr hplace, hopens.offered hsound.isOffered⟩

/-- A quiet program comes to an end, whatever it gives back, and leaves only notes in the tree. -/
lemma exists_run_of_isQuiet (s : Setup) (build : Builder) {α : Type} {hook : Hook α}
    (h : hook.IsQuiet) (t : Tree Handler) : ∃ result t', s.run build hook t = some (result, t') ∧
      t'.nodes = t.nodes ∧ t'.bare = t.bare := by
  induction hook generalizing t with
  | done result => exact ⟨result, t, rfl, rfl, rfl⟩
  | look next ih => exact ih _ (h _) t
  | note line next ih =>
    obtain ⟨result, t', hrun, hnodes, hbare⟩ := ih h (t.log (.note line))
    exact ⟨result, t', hrun, hnodes, hbare.trans (bare_log_note line)⟩
  | edit | build | insertText | insertSpec | override | setAction => exact False.elim h

/-- Of two builds that may come to an end the second one gives what the first one gives, without the
traces of hooks. -/
structure Follows (s : Setup) (o o' : Option (Tree Handler)) : Prop where
  eq_map : o' = o.map Tree.bare
  isSound : ∀ t ∈ o, t.IsSound s

namespace Follows

variable {s : Setup} {t : Tree Handler}

lemma some (h : t.IsSound s) {t' : Tree Handler} (hbare : t' = t.bare) :
    s.Follows (some t) (some t') :=
  ⟨congrArg _ hbare, fun _ ht => Option.some.inj ht ▸ h⟩

lemma bind {o o' : Option (Tree Handler)} {f f' : Tree Handler → Option (Tree Handler)}
    (h : s.Follows o o')
    (hf : ∀ t : Tree Handler, t.IsSound s → s.Follows (f t) (f' t.bare)) :
    s.Follows (o.bind f) (o'.bind f') := by
  obtain ⟨rfl, hsound⟩ := h
  rcases o with - | t
  · exact ⟨rfl, fun _ h => absurd h (Option.not_mem_none _)⟩
  · exact hf t (hsound t rfl)

end Follows

section

variable {s : Setup} {build build' : Builder} {t : Tree Handler} {id : NodeId}

lemma bare_resolve {h : Handler} {t₁ : Tree Handler}
    (hresolve : s.registry.resolve t id = (h, t₁)) :
    s.bare.registry.resolve t.bare id = (h.bare, t₁.bare) := by
  rw [← Prod.map_apply, ← hresolve]
  exact s.registry.bare_resolve t id

/-- The call of a quiet hook, and what is done with its result, next to the call of a hook that does
nothing. -/
lemma follows_call (occasion : Occasion) {α : Type} {hook hook' : Hook α} {a : α}
    (hquiet : hook.IsQuiet) (hidle : hook' = pure a) (hsound : t.IsSound s)
    {close close' : Except BuildError α × Tree Handler → Option (Tree Handler)}
    (hclose : ∀ result (t : Tree Handler), t.IsSound s →
      s.Follows (close (result, t)) (close' (.ok a, t.bare))) :
    s.Follows ((s.run build hook (t.log (.call occasion id))).bind close)
      ((s.bare.run build' hook' (t.bare.log (.call occasion id))).bind close') := by
  obtain ⟨result, t', hrun, hnodes, hbare⟩ :=
    s.exists_run_of_isQuiet build hquiet (t.log (.call occasion id))
  rw [hrun, hidle, ← bare_log_call, ← hbare]
  exact hclose result t' (hsound.congr hnodes)

variable (hquiet : s.IsQuiet)

include hquiet

lemma follows_makePayload {h : Handler} {t₁ : Tree Handler}
    (hresolve : s.registry.resolve t id = (h, t₁)) (hoffers : s.Offers h)
    (hsound : t₁.IsSound s) :
    s.Follows (s.makePayload build t id) (s.bare.makePayload build' t.bare id) := by
  rw [makePayload, makePayload, hresolve, bare_resolve hresolve]
  refine follows_call .payload ((hquiet h hoffers).payload id) (h.isIdle_bare.payload id) hsound
    fun result t hsound => ?_
  rcases result with e | - | p
  · refine .some ((hsound.record e).advance _) ?_
    rw [bare_advance, bare_record]
  · exact .some (hsound.advance _) (bare_advance _).symm
  · have hset : (t.update id fun n => { n with payload := some p }).IsSound s :=
      hsound.update (fun _ => rfl) (fun _ => rfl) fun _ => rfl
    refine .some (hset.advance _) ?_
    rw [bare_advance, bare_update_of_bare fun _ => by rfl]

lemma follows_registerNode (hsound : t.IsSound s) :
    s.Follows (s.registerNode build t id) (s.bare.registerNode build' t.bare id) := by
  rw [registerNode, registerNode, parent?_bare]
  rcases t.parent? id with - | parent
  · exact .some (hsound.advance _) (bare_advance _).symm
  · obtain ⟨hoffers, hsound₁⟩ := hsound.resolve id
    rcases hresolve : s.registry.resolve t id with ⟨h, t₁⟩
    rw [hresolve] at hoffers hsound₁
    rw [bare_resolve hresolve]
    refine follows_call .register ((hquiet h hoffers).register id parent)
      (h.isIdle_bare.register id parent) hsound₁ fun result t hsound => ?_
    rcases result with e | -
    · refine .some ((hsound.record e).advance _) ?_
      rw [bare_advance, bare_record]
    · exact .some (hsound.advance _) (bare_advance _).symm

lemma follows_finishNode (hsound : t.IsSound s) :
    s.Follows (s.finishNode build t id) (s.bare.finishNode build' t.bare id) := by
  obtain ⟨hoffers, hsound₁⟩ := hsound.resolve id
  rw [finishNode, finishNode]
  rcases hresolve : s.registry.resolve t id with ⟨h, t₁⟩
  rw [hresolve] at hoffers hsound₁
  rw [bare_resolve hresolve]
  refine follows_call .post ((hquiet h hoffers).post id) (h.isIdle_bare.post id) hsound₁
    fun result t hsound => ?_
  rcases result with e | -
  · refine .some ((hsound.record e).advance _) ?_
    rw [bare_advance, bare_record]
  · exact .some (hsound.advance _) (bare_advance _).symm

end

lemma follows_buildAll {s : Setup} {build build' : Builder}
    (hbuild : ∀ t id, t.IsSound s → s.Follows (build t id) (build' t.bare id))
    (ids : List NodeId) {t : Tree Handler} (hsound : t.IsSound s) :
    s.Follows (buildAll build ids t) (buildAll build' ids t.bare) := by
  induction ids generalizing t with
  | nil => exact .some hsound rfl
  | cons id ids ih => exact (hbuild t id hsound).bind fun t hsound => ih hsound

/-- A build with quiet hooks and the build without hooks go side by side. -/
lemma follows_build {s : Setup} (hquiet : s.IsQuiet) (depth : Nat) {t : Tree Handler}
    (hsound : t.IsSound s) (id : NodeId) :
    s.Follows (s.build depth t id) (s.bare.build depth t.bare id) := by
  induction depth generalizing t id with
  | zero => exact ⟨rfl, fun _ h => absurd h (Option.not_mem_none _)⟩
  | succ depth ih =>
    rw [build, build, buildOnce, buildOnce, node?_bare]
    rcases hn : t.node? id with - | n
    · exact .some hsound rfl
    · have hstate : n.bare.state = n.state := rfl
      simp only [Option.map_some, hstate]
      split
      · next hbefore =>
        obtain ⟨h, t₁, hresolve, hopens⟩ := s.opens_of_unparsed hsound.isArena hn hbefore
        have hsound₁ : t₁.IsSound s := isSound_of_opens hsound hresolve hopens
        have hoffers := (hsound₁.isOffered id _ hopens.here).1 h rfl
        rw [buildSteps, buildSteps, s.bare_decodeHeader, s.bare_expandBody]
        refine (follows_makePayload hquiet hresolve hoffers hsound₁).bind fun t hsound => ?_
        rw [childNodes_bare]
        refine (follows_buildAll (fun _ id h => ih h id) _ hsound).bind fun t hsound => ?_
        rw [← bare_advance]
        refine (follows_registerNode hquiet (hsound.advance _)).bind fun t hsound => ?_
        exact follows_finishNode hquiet hsound
      · exact .some hsound rfl

/-- The build without hooks comes to an end where a build with quiet hooks does, with the same tree
but for what the hooks have given back. -/
theorem bare_build {s : Setup} (hquiet : s.IsQuiet) (depth : Nat) {t : Tree Handler}
    (hsound : t.IsSound s) (id : NodeId) :
    s.bare.build depth t.bare id = (s.build depth t id).map Tree.bare :=
  (follows_build hquiet depth hsound id).eq_map

end Setup

end TaggedOutline
