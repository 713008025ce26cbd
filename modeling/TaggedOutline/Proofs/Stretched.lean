import TaggedOutline.Proofs.Discreet
import TaggedOutline.Proofs.Stages

/-!
# Stretched trees

New nodes come at the end: their numbers are higher than all others, and they stand behind all other
children of their parent.  When all handlers are discreet, a build of a new node leaves it at that
(`Setup.stretches_build`): the lists of children of earlier nodes become longer, and no step of a
path sees anything else change in them.
-/

namespace TaggedOutline

/-! ## Trees -/

/-- The handlers that a node remembers or that are set on it are discreet. -/
structure Node.IsDiscreet (s : Setup) (n : Node Handler) : Prop where
  handler : ∀ h, n.handler = some h → h.IsDiscreet s
  overrides : ∀ x ∈ n.overrides, x.2.IsDiscreet s

/-- A node is as it was to the steps of a path, with more children from some number on behind the
others. -/
structure Node.Lengthens (first : NodeId) (n m : Node Handler) : Prop where
  looksLike : m.LooksLike n
  children : ∃ more, m.childNodes = n.childNodes ++ more ∧ ∀ c ∈ more, first ≤ c

namespace Tree

variable {s : Setup} {first id : NodeId} {t t' t'' : Tree Handler} {n : Node Handler}

/-- Beneath the nodes from some number on there are only such nodes, and all handlers on the nodes
of the tree are discreet. -/
structure IsSplit (s : Setup) (first : NodeId) (t : Tree Handler) : Prop where
  le_size : first ≤ t.size
  children : ∀ {id n}, t.node? id = some n →
    ∀ c ∈ n.childNodes, c < t.size ∧ (first ≤ id → first ≤ c)
  isDiscreet : ∀ {id n}, t.node? id = some n → n.IsDiscreet s

/-- The nodes before some number are as they were, with more children behind the others. -/
structure Stretches (s : Setup) (first : NodeId) (t t' : Tree Handler) : Prop where
  isSplit : t'.IsSplit s first
  exists_node? : ∀ {id n}, id < first → t.node? id = some n →
    ∃ m, t'.node? id = some m ∧ n.Lengthens first m

lemma IsSplit.isParted (h : t.IsSplit s first) : t.IsParted first := by
  intro id hid c hc
  obtain ⟨n, hn, hc⟩ := mem_childNodes.mp hc
  exact (h.children hn c hc).2 hid

lemma IsSplit.isParted_mapHandler {K : Type} (h : t.IsSplit s first) (f : Handler → K) :
    (t.mapHandler f).IsParted first := by
  intro id hid c hc
  obtain ⟨m, hm, hc⟩ := mem_childNodes.mp hc
  rw [node?, mapHandler, Array.getElem?_map] at hm
  obtain ⟨n, hn, rfl⟩ := Option.map_eq_some_iff.mp hm
  exact (h.children hn c hc).2 hid

lemma Stretches.trans (h : t.Stretches s first t') (h' : t'.Stretches s first t'') :
    t.Stretches s first t'' where
  isSplit := h'.isSplit
  exists_node? hid hn := by
    obtain ⟨n', hn', hlooks, more, hmore, hnew⟩ := h.exists_node? hid hn
    obtain ⟨n'', hn'', hlooks', more', hmore', hnew'⟩ := h'.exists_node? hid hn'
    refine ⟨n'', hn'', fun step => (hlooks' step).trans (hlooks step), more ++ more', ?_, ?_⟩
    · rw [hmore', hmore, List.append_assoc]
    · exact fun c hc => (List.mem_append.mp hc).elim (hnew c) (hnew' c)

namespace IsSplit

lemma refl (h : t.IsSplit s first) : t.Stretches s first t :=
  ⟨h, fun _ hn => ⟨_, hn, fun _ => rfl, [], (List.append_nil _).symm,
    fun _ hc => absurd hc List.not_mem_nil⟩⟩

lemma log (h : t.IsSplit s first) (e : JournalEntry) : t.Stretches s first (t.log e) :=
  ⟨⟨h.le_size, h.children, h.isDiscreet⟩, h.refl.exists_node?⟩

/-- A change of a node stretches the tree if it only adds later children, and discreet handlers. -/
lemma update (h : t.IsSplit s first) {f : Node Handler → Node Handler}
    (hlooks : first ≤ id ∨ ∀ n, (f n).LooksLike n)
    (hchildren : ∀ n, ∃ more, (f n).childNodes = n.childNodes ++ more ∧
      ∀ c ∈ more, first ≤ c ∧ c < t.size)
    (hhandlers : ∀ n, n.IsDiscreet s → (f n).IsDiscreet s) :
    t.Stretches s first (t.update id f) where
  isSplit := by
    refine ⟨(size_update t id f).symm ▸ h.le_size, fun hm c hc => ?_, fun hm => ?_⟩
    · obtain ⟨n, hn, ⟨rfl, rfl⟩ | ⟨-, rfl⟩⟩ := exists_of_node?_update hm
      · obtain ⟨more, hmore, hnew⟩ := hchildren n
        rw [hmore] at hc
        rw [size_update]
        rcases List.mem_append.mp hc with hc | hc
        · exact h.children hn c hc
        · exact ⟨(hnew c hc).2, fun _ => (hnew c hc).1⟩
      · rw [size_update]
        exact h.children hn c hc
    · obtain ⟨n, hn, ⟨rfl, rfl⟩ | ⟨-, rfl⟩⟩ := exists_of_node?_update hm
      · exact hhandlers n (h.isDiscreet hn)
      · exact h.isDiscreet hn
  exists_node? {j n} hj hn := by
    by_cases hne : j = id
    · subst hne
      obtain ⟨more, hmore, hnew⟩ := hchildren n
      exact ⟨f n, node?_update_self hn f, hlooks.resolve_left hj.not_ge n, more, hmore,
        fun c hc => (hnew c hc).1⟩
    · obtain ⟨m, hm, hlengthens⟩ := h.refl.exists_node? hj hn
      exact ⟨m, (node?_update_of_ne hne f).trans hm, hlengthens⟩

/-- A change of a node that is not seen by the steps of a path, or not before the line. -/
lemma update_of_same (h : t.IsSplit s first) {f : Node Handler → Node Handler}
    (hlooks : first ≤ id ∨ ∀ n, (f n).LooksLike n)
    (hchildren : ∀ n, (f n).childNodes = n.childNodes)
    (hhandlers : ∀ n, n.IsDiscreet s → (f n).IsDiscreet s) :
    t.Stretches s first (t.update id f) :=
  h.update hlooks (fun n => ⟨[], by rw [hchildren, List.append_nil],
    fun _ hc => absurd hc List.not_mem_nil⟩) hhandlers

lemma edit (h : t.IsSplit s first) {change : Fields → Fields}
    (hlooks : first ≤ id ∨ ∀ n : Node Handler, (n.edit change).LooksLike n) :
    t.Stretches s first (t.edit id change) :=
  h.update_of_same hlooks (fun _ => rfl) fun _ hn => ⟨hn.handler, hn.overrides⟩

lemma annotate (h : t.IsSplit s first) (id : NodeId) (d : Diagnostic) :
    t.Stretches s first (t.annotate id d) := h.edit (.inr fun _ _ => rfl)

lemma advance (h : t.IsSplit s first) (id : NodeId) (state : BuildState) :
    t.Stretches s first (t.advance id state) :=
  h.update_of_same (.inr fun _ _ => rfl) (fun _ => rfl) fun _ hn => ⟨hn.handler, hn.overrides⟩

lemma setAction (h : t.IsSplit s first) (id : NodeId) (action : Action) :
    t.Stretches s first (t.setAction id action) :=
  h.update_of_same (.inr fun _ _ => rfl) (fun _ => rfl) fun _ hn => ⟨hn.handler, hn.overrides⟩

lemma override (h : t.IsSplit s first) (id : NodeId) (tag : Text) {k : Handler}
    (hk : k.IsDiscreet s) : t.Stretches s first (t.override id tag k) :=
  h.update_of_same (.inr fun _ _ => rfl) (fun _ => rfl) fun _ hn =>
    ⟨hn.handler, List.forall_mem_cons.mpr ⟨hk, hn.overrides⟩⟩

lemma remember (h : t.IsSplit s first) (id : NodeId) {k : Handler} (hk : k.IsDiscreet s) :
    t.Stretches s first (t.update id fun n => { n with handler := some k }) :=
  h.update_of_same (.inr fun _ _ => rfl) (fun _ => rfl) fun _ hn =>
    ⟨fun _ heq => Option.some.inj heq ▸ hk, hn.overrides⟩

lemma adopt_text (h : t.IsSplit s first) (id : NodeId) (text : Text) :
    t.Stretches s first (t.adopt id (.text text)) :=
  h.update_of_same (.inr fun _ _ => rfl) (fun n => by simp [Node.childNodes])
    fun _ hn => ⟨hn.handler, hn.overrides⟩

/-- A new node without children stretches the tree, whatever it stands under. -/
lemma add (h : t.IsSplit s first) (hnone : n.childNodes = []) (hn : n.IsDiscreet s) :
    t.Stretches s first (t.add n) := by
  have hpushed : t.Stretches s first (t.push n) := by
    refine ⟨⟨size_push t n ▸ Nat.le_succ_of_le h.le_size, fun hm c hc => ?_, fun hm => ?_⟩, ?_⟩
    · rw [size_push]
      rcases exists_of_node?_push hm with hm | ⟨-, rfl⟩
      · obtain ⟨hlt, hparted⟩ := h.children hm c hc
        exact ⟨Nat.lt_succ_of_lt hlt, hparted⟩
      · exact absurd (hnone ▸ hc) List.not_mem_nil
    · rcases exists_of_node?_push hm with hm | ⟨-, rfl⟩
      · exact h.isDiscreet hm
      · exact hn
    · intro j m hj hm
      obtain ⟨m', hm', hlengthens⟩ := h.refl.exists_node? hj hm
      exact ⟨m', node?_push_of_node? hm' n, hlengthens⟩
  refine hpushed.trans (hpushed.isSplit.update (.inr fun _ _ => rfl) (fun m => ?_)
    fun _ hm => ⟨hm.handler, hm.overrides⟩)
  refine ⟨[t.size], by simp [Node.childNodes], fun c hc => ?_⟩
  obtain rfl := List.mem_singleton.mp hc
  exact ⟨h.le_size, size_push t n ▸ Nat.lt_succ_self _⟩

lemma addSeeds (h : t.IsSplit s first) (parent : NodeId) {seeds : List (Child (Node Handler))}
    (hseeds : ∀ m, .node m ∈ seeds → ∃ runtimeOnly, m.IsSeed parent runtimeOnly) :
    t.Stretches s first (t.addSeeds parent seeds) := by
  induction seeds generalizing t with
  | nil => exact h.refl
  | cons seed seeds ih =>
    have hmore : ∀ m, .node m ∈ seeds → ∃ runtimeOnly, m.IsSeed parent runtimeOnly := fun m hm =>
      hseeds m (List.mem_cons_of_mem _ hm)
    cases seed with
    | text text =>
      have hadopt := h.adopt_text parent text
      exact hadopt.trans (ih hadopt.isSplit hmore)
    | node m =>
      obtain ⟨_, hm⟩ := hseeds m List.mem_cons_self
      have hadd : t.Stretches s first (t.add m) := by
        refine h.add (by simp [Node.childNodes, hm.children]) ⟨fun k hk => ?_, fun x hx => ?_⟩
        · cases hm.handler.symm.trans hk
        · exact absurd (hm.overrides ▸ hx) List.not_mem_nil
      exact hadd.trans (ih hadd.isSplit hmore)

lemma addItems (h : t.IsSplit s first) (settings : LayoutSettings) (parent : NodeId)
    (runtimeOnly : Bool) (items : List BodyItem) :
    t.Stretches s first (t.addItems settings parent runtimeOnly items) := by
  rw [addItems_eq]
  exact h.addSeeds parent fun m hm => ⟨_, BodyItem.isSeed_of_mem hm⟩

lemma addSpecs (h : t.IsSplit s first) (parent : NodeId) (runtimeOnly : Bool)
    (items : List (Child Spec)) : t.Stretches s first (t.addSpecs parent runtimeOnly items) := by
  rw [addSpecs_eq]
  exact h.addSeeds parent fun m hm => ⟨_, Spec.isSeed_of_mem hm⟩

end IsSplit

end Tree

/-! ## Steps of a build -/

namespace Registry

open TaggedOutline.Tree

variable {s : Setup} {first : NodeId} {t : Tree Handler}

lemma stretches_inherit (hr : s.IsDiscreet)
    {resolve : Tree Handler → NodeId → Handler × Tree Handler}
    (hresolve : ∀ {t : Tree Handler} (id), t.IsSplit s first →
      (resolve t id).1.IsDiscreet s ∧ t.Stretches s first (resolve t id).2)
    (h : t.IsSplit s first) (tag : Text) (above : List NodeId) :
    (∀ k, (s.registry.inherit resolve tag above t).1 = some k → k.IsDiscreet s) ∧
      t.Stretches s first (s.registry.inherit resolve tag above t).2 := by
  induction above generalizing t with
  | nil => exact ⟨fun _ h => (by cases h), h.refl⟩
  | cons id above ih =>
    rw [inherit]
    split
    · exact ⟨fun _ h => (by cases h), h.refl⟩
    · next n hn =>
      split
      · next k hk =>
        refine ⟨fun _ heq => ?_, h.refl⟩
        exact Option.some.inj heq ▸ (h.isDiscreet hn).overrides _ (mem_of_lookup hk)
      · obtain ⟨hown, hresolved⟩ := hresolve id h
        dsimp only
        split
        · next k hk =>
          refine ⟨fun _ heq => ?_, hresolved⟩
          exact Option.some.inj heq ▸ hown.among.beneath _ (mem_of_lookup hk)
        · split
          · next k hk =>
            exact ⟨fun _ heq => Option.some.inj heq ▸ hr.beneath _ (mem_of_lookup hk), hresolved⟩
          · obtain ⟨hfound, hway⟩ := ih hresolved.isSplit
            exact ⟨hfound, hresolved.trans hway⟩

lemma stretches_resolveWithin (hr : s.IsDiscreet) (height : Nat) (id : NodeId)
    (h : t.IsSplit s first) : (s.registry.resolveWithin height t id).1.IsDiscreet s ∧
      t.Stretches s first (s.registry.resolveWithin height t id).2 := by
  induction height generalizing t id with
  | zero => exact ⟨Handler.isDiscreet_generic, h.refl⟩
  | succ height ih =>
    rw [resolveWithin]
    split
    · exact ⟨Handler.isDiscreet_generic, h.refl⟩
    · next n hn =>
      split
      · next k hk => exact ⟨(h.isDiscreet hn).handler k hk, h.refl⟩
      · obtain ⟨hfound, hway⟩ := stretches_inherit hr ih h n.tag (t.ancestors id)
        have hdefault : ((s.registry.handler? n.tag).getD .generic).IsDiscreet s := by
          rcases hk : s.registry.handler? n.tag with - | k
          · exact Handler.isDiscreet_generic
          · exact hr.handlers _ (mem_of_lookup hk)
        have hdiscreet : ((s.registry.inherit (s.registry.resolveWithin height) n.tag
            (t.ancestors id) t).1.getD
              ((s.registry.handler? n.tag).getD .generic)).IsDiscreet s := by
          rcases hin : (s.registry.inherit (s.registry.resolveWithin height) n.tag
            (t.ancestors id) t).1 with - | k
          · exact hdefault
          · exact hfound k hin
        exact ⟨hdiscreet, hway.trans (hway.isSplit.remember id hdiscreet)⟩

/-- What is found for a node is discreet, and to remember it changes nothing else. -/
lemma stretches_resolve (hr : s.IsDiscreet) (h : t.IsSplit s first) (id : NodeId) :
    (s.registry.resolve t id).1.IsDiscreet s ∧ t.Stretches s first (s.registry.resolve t id).2 :=
  stretches_resolveWithin hr (id + 1) id h

end Registry

namespace Setup

open TaggedOutline.Tree

variable {s : Setup} {first id : NodeId} {t t' : Tree Handler}

lemma stretches_decodeHeader (hr : s.IsDiscreet) (h : t.IsSplit s first)
    (hid : first ≤ id) : t.Stretches s first (s.decodeHeader t id) := by
  rw [decodeHeader]
  split
  · exact h.advance id _
  · next header _ =>
    obtain ⟨-, hresolved⟩ := Registry.stretches_resolve hr h id
    refine hresolved.trans ?_
    dsimp only
    split
    · next hd _ =>
      have hedit := hresolved.isSplit.edit (.inl hid : first ≤ id ∨
        ∀ n : Node Handler, (n.edit (·.applyHeader hd)).LooksLike n)
      exact hedit.trans (hedit.isSplit.advance id _)
    · have hannotate := hresolved.isSplit.annotate id (.ofUnreadHeader header)
      exact hannotate.trans (hannotate.isSplit.advance id _)

lemma stretches_bodyPolicy (hr : s.IsDiscreet) (h : t.IsSplit s first) (id : NodeId) :
    t.Stretches s first (s.bodyPolicy t id).2 := by
  obtain ⟨-, hresolved⟩ := Registry.stretches_resolve hr h id
  rw [bodyPolicy]
  dsimp only
  split
  · exact hresolved
  · split
    · exact hresolved
    · exact hresolved.trans (hresolved.isSplit.annotate id _)

lemma stretches_bodyItems (hr : s.IsDiscreet) (h : t.IsSplit s first) (id : NodeId)
    (tag body : Text) : t.Stretches s first (s.bodyItems t id tag body).2 := by
  have hpolicy := stretches_bodyPolicy hr h id
  rw [bodyItems]
  split
  · next heq =>
    rw [heq] at hpolicy
    exact hpolicy
  · next heq =>
    rw [heq] at hpolicy
    split
    · exact hpolicy
    · exact hpolicy.trans (hpolicy.isSplit.annotate id _)
  · next heq =>
    rw [heq] at hpolicy
    split <;> exact hpolicy

lemma stretches_expandBody (hr : s.IsDiscreet) (h : t.IsSplit s first) (id : NodeId) :
    t.Stretches s first (s.expandBody t id) := by
  have hadvance : ∀ {t' : Tree Handler}, t.Stretches s first t' →
      t.Stretches s first (t'.advance id .bodyParsed) := fun ht =>
    ht.trans (ht.isSplit.advance id _)
  have hexpanded : ∀ {t' : Tree Handler}, t.Stretches s first t' →
      t.Stretches s first (t'.edit id fun f => { f with expanded := true }) := fun ht =>
    ht.trans (ht.isSplit.edit (.inr fun _ _ => rfl))
  rw [expandBody]
  split
  · exact h.refl
  · next n hn =>
    dsimp only
    refine hadvance ?_
    split
    · exact h.refl
    · split
      · next items _ => exact hexpanded (h.addSpecs id _ items)
      · next body _ =>
        have hitems := stretches_bodyItems hr h id n.tag body
        split
        · next items t' heq =>
          rw [heq] at hitems
          exact hexpanded (hitems.trans (hitems.isSplit.addItems _ id _ items))
        · next t' heq =>
          rw [heq] at hitems
          exact hitems

/-! ## Builds -/

lemma stretches_close {α : Type} (purpose : Purpose α) (result : Except BuildError α)
    (h : t.IsSplit s first) : t.Stretches s first (purpose.close result t).2 := by
  have hadvance : ∀ {t' : Tree Handler} (id : NodeId) (state : BuildState),
      t.Stretches s first t' → t.Stretches s first (t'.advance id state) := fun id state ht =>
    ht.trans (ht.isSplit.advance id state)
  cases purpose with
  | payload id =>
    refine hadvance id _ ?_
    split
    · exact h.update_of_same (.inr fun _ _ => rfl) (fun _ => rfl) fun _ hn =>
        ⟨hn.handler, hn.overrides⟩
    · exact h.refl
    · exact h.annotate id _
  | register id | post id =>
    refine hadvance id _ ?_
    split
    · exact h.refl
    · exact h.annotate id _
  | client => exact h.refl

section

-- the builds inside a build stretch the tree
variable {build : Builder} (hr : s.IsDiscreet)
  (hbuild : ∀ {t t' : Tree Handler} {id : NodeId}, t.IsSplit s first → first ≤ id →
    build t id = some t' → t.Stretches s first t')

include hbuild

lemma stretches_buildAll {ids : List NodeId} (hids : ∀ id ∈ ids, first ≤ id)
    (h : t.IsSplit s first) (hall : buildAll build ids t = some t') : t.Stretches s first t' := by
  induction ids generalizing t with
  | nil => exact Option.some.inj hall ▸ h.refl
  | cons id ids ih =>
    obtain ⟨hid, hids⟩ := List.forall_mem_cons.mp hids
    obtain ⟨t₁, hfirst, hrest⟩ := Option.bind_eq_some_iff.mp hall
    have h₁ := hbuild h hid hfirst
    exact h₁.trans (ih hids h₁.isSplit hrest)

lemma stretches_insertTextBy {parent : NodeId} {text : Text} {ids : List NodeId}
    (h : t.IsSplit s first) (hinsert : s.insertTextBy build t parent text = some (ids, t')) :
    (∀ id ∈ ids, first ≤ id) ∧ t.Stretches s first t' := by
  obtain ⟨t₁, hall, heq⟩ := Option.bind_eq_some_iff.mp hinsert
  obtain ⟨rfl, rfl⟩ := Prod.mk.inj (Option.some.inj heq)
  have hids : ∀ count, ∀ id ∈ (List.range count).map (t.size + ·), first ≤ id := by
    intro count id hid
    obtain ⟨k, -, rfl⟩ := List.mem_map.mp hid
    exact h.le_size.trans (Nat.le_add_right _ _)
  have hadded := fun items => h.addItems s.settings.layout parent true items
  exact ⟨hids _, (hadded _).trans (stretches_buildAll hbuild (hids _) (hadded _).isSplit hall)⟩

lemma stretches_insertSpecBy {parent : NodeId} {spec : Spec} (h : t.IsSplit s first)
    (hinsert : insertSpecBy build t parent spec = some (id, t')) :
    first ≤ id ∧ t.Stretches s first t' := by
  obtain ⟨t₁, hfirst, heq⟩ := Option.bind_eq_some_iff.mp hinsert
  obtain ⟨rfl, rfl⟩ := Prod.mk.inj (Option.some.inj heq)
  have hadded := h.addSpecs parent true [.node spec]
  exact ⟨h.le_size, hadded.trans (hbuild hadded.isSplit h.le_size hfirst)⟩

/-- A discreet program stretches the tree. -/
lemma stretches_run {α : Type} {hook : Hook α} {result : Except BuildError α}
    (hhook : hook.IsDiscreet (fun key => (s.known key).IsDiscreet s) first) (h : t.IsSplit s first)
    (hrun : s.run build hook t = some (result, t')) : t.Stretches s first t' := by
  induction hook generalizing t with
  | done =>
    obtain ⟨-, rfl⟩ := Prod.mk.inj (Option.some.inj hrun)
    exact h.refl
  | look next ih => exact ih _ (hhook _ (h.isParted_mapHandler _)) h hrun
  | edit id change next ih =>
    have hedit := h.edit hhook.1
    exact hedit.trans (ih hhook.2 hedit.isSplit hrun)
  | note line next ih =>
    have hlog := h.log (.note line)
    exact hlog.trans (ih hhook hlog.isSplit hrun)
  | build id next ih =>
    obtain ⟨t₁, hfirst, hrest⟩ := Option.bind_eq_some_iff.mp hrun
    have h₁ := hbuild h hhook.1 hfirst
    exact h₁.trans (ih _ (hhook.2 _) h₁.isSplit hrest)
  | insertText parent text next ih =>
    obtain ⟨⟨ids, t₁⟩, hinsert, hrest⟩ := Option.bind_eq_some_iff.mp hrun
    obtain ⟨hids, h₁⟩ := stretches_insertTextBy hbuild h hinsert
    exact h₁.trans (ih _ (hhook ids hids) h₁.isSplit hrest)
  | insertSpec parent spec next ih =>
    obtain ⟨⟨id, t₁⟩, hinsert, hrest⟩ := Option.bind_eq_some_iff.mp hrun
    obtain ⟨hid, h₁⟩ := stretches_insertSpecBy hbuild h hinsert
    exact h₁.trans (ih _ (hhook id hid) h₁.isSplit hrest)
  | override id tag handler next ih =>
    have hoverride := h.override id tag hhook.1
    exact hoverride.trans (ih hhook.2 hoverride.isSplit hrun)
  | setAction id action next ih =>
    have hset := h.setAction id action
    exact hset.trans (ih hhook hset.isSplit hrun)

include hr

lemma stretches_makePayload (h : t.IsSplit s first) (hid : first ≤ id)
    (hmake : s.makePayload build t id = some t') : t.Stretches s first t' := by
  obtain ⟨hhandler, hresolved⟩ := Registry.stretches_resolve hr h id
  have hlog := hresolved.trans (hresolved.isSplit.log (.call .payload id))
  obtain ⟨⟨result, t₁⟩, hrun, heq⟩ := Option.bind_eq_some_iff.mp hmake
  have hran := stretches_run hbuild (hhandler.among.payload hid) hlog.isSplit hrun
  have hclose := stretches_close (.payload id) result hran.isSplit
  exact Option.some.inj heq ▸ hlog.trans (hran.trans hclose)

lemma stretches_registerNode (h : t.IsSplit s first) (hid : first ≤ id)
    (hregister : s.registerNode build t id = some t') : t.Stretches s first t' := by
  rw [registerNode] at hregister
  split at hregister
  · exact Option.some.inj hregister ▸ h.advance id _
  · next parent _ =>
    obtain ⟨hhandler, hresolved⟩ := Registry.stretches_resolve hr h id
    have hlog := hresolved.trans (hresolved.isSplit.log (.call .register id))
    obtain ⟨⟨result, t₁⟩, hrun, heq⟩ := Option.bind_eq_some_iff.mp hregister
    have hran := stretches_run hbuild (hhandler.among.register parent hid) hlog.isSplit hrun
    have hclose := stretches_close (.register id) result hran.isSplit
    exact Option.some.inj heq ▸ hlog.trans (hran.trans hclose)

lemma stretches_finishNode (h : t.IsSplit s first) (hid : first ≤ id)
    (hfinish : s.finishNode build t id = some t') : t.Stretches s first t' := by
  obtain ⟨hhandler, hresolved⟩ := Registry.stretches_resolve hr h id
  have hlog := hresolved.trans (hresolved.isSplit.log (.call .post id))
  obtain ⟨⟨result, t₁⟩, hrun, heq⟩ := Option.bind_eq_some_iff.mp hfinish
  have hran := stretches_run hbuild (hhandler.among.post hid) hlog.isSplit hrun
  have hclose := stretches_close (.post id) result hran.isSplit
  exact Option.some.inj heq ▸ hlog.trans (hran.trans hclose)

lemma stretches_buildOnce (h : t.IsSplit s first) (hid : first ≤ id)
    (honce : s.buildOnce build t id = some t') : t.Stretches s first t' := by
  rw [buildOnce] at honce
  split at honce
  · exact Option.some.inj honce ▸ h.refl
  · split at honce
    · have hdecoded := stretches_decodeHeader hr h hid
      have hexpanded := hdecoded.trans (stretches_expandBody hr hdecoded.isSplit id)
      obtain ⟨t₁, hmake, honce⟩ := Option.bind_eq_some_iff.mp honce
      obtain ⟨t₂, hall, honce⟩ := Option.bind_eq_some_iff.mp honce
      obtain ⟨t₃, hregister, hfinish⟩ := Option.bind_eq_some_iff.mp honce
      have h₁ := hexpanded.trans (stretches_makePayload hr hbuild hexpanded.isSplit hid hmake)
      have hchildren : ∀ c ∈ t₁.childNodes id, first ≤ c := h₁.isSplit.isParted id hid
      have h₂ := h₁.trans (stretches_buildAll hbuild hchildren h₁.isSplit hall)
      have hbuilt := h₂.trans (h₂.isSplit.advance id .childrenBuilt)
      have h₃ := hbuilt.trans (stretches_registerNode hr hbuild hbuilt.isSplit hid hregister)
      exact h₃.trans (stretches_finishNode hr hbuild h₃.isSplit hid hfinish)
    · exact Option.some.inj honce ▸ h.refl

end

/-- A build behind the line stretches the tree before it. -/
theorem stretches_build (hr : s.IsDiscreet) {depth : Nat} (h : t.IsSplit s first)
    (hid : first ≤ id) (hbuild : s.build depth t id = some t') : t.Stretches s first t' := by
  induction depth generalizing t t' id with
  | zero => cases hbuild
  | succ depth ih => exact stretches_buildOnce hr ih h hid hbuild

end Setup

end TaggedOutline
