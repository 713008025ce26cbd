import TaggedOutline.Proofs.Changes
import TaggedOutline.Proofs.Linked
import TaggedOutline.Proofs.Stages

/-!
# Nodes without handlers

Without registered handlers a node has the generic one, unless a handler has been set on it or above
it.  What a build does for such a free node itself is the same wherever the node stands: it moves it
on from state to state, and on the way up some nodes are found to have the generic handler
(`Tree.Finds`).

Whoever works on a tree, the nodes on whose way up no handler has been set stay free
(`Setup.isFree_of_reaches`).
-/

namespace TaggedOutline

/-- No handler has been set on a node, and none but the generic one has been found for it. -/
structure Node.IsFree (n : Node Handler) : Prop where
  overrides : n.overrides = []
  handler : n.handler = none ∨ n.handler = some .generic

namespace Tree

variable {t t' t'' : Tree Handler} {id : NodeId} {n : Node Handler}

/-- A node and all nodes above it are free. -/
inductive IsFree (t : Tree Handler) : NodeId → Prop
  | root {id : NodeId} {n : Node Handler} (hn : t.node? id = some n) (hp : n.parent = id)
      (hfree : n.IsFree) : IsFree t id
  | beneath {id : NodeId} {n : Node Handler} (hn : t.node? id = some n) (hp : n.parent < id)
      (hfree : n.IsFree) (habove : IsFree t n.parent) : IsFree t id

/-- A tree in which some nodes have been found to have the generic handler, whatever its journal
says. -/
structure Finds (t t' : Tree Handler) : Prop where
  size_eq : t'.size = t.size
  node? : ∀ {j n}, t.node? j = some n →
    ∃ m, t'.node? j = some m ∧ (m = n ∨ m = { n with handler := some .generic })

namespace Finds

lemma of_node?_eq (h : ∀ j, t'.node? j = t.node? j) (hsize : t'.size = t.size) : t.Finds t' :=
  ⟨hsize, fun hn => ⟨_, (h _).trans hn, .inl rfl⟩⟩

lemma refl (t : Tree Handler) : t.Finds t := of_node?_eq (fun _ => rfl) rfl

lemma trans (h : t.Finds t') (h' : t'.Finds t'') : t.Finds t'' where
  size_eq := h'.size_eq.trans h.size_eq
  node? hn := by
    obtain ⟨m, hm, hnm⟩ := h.node? hn
    obtain ⟨k, hk, hmk⟩ := h'.node? hm
    refine ⟨k, hk, ?_⟩
    rcases hnm with rfl | rfl
    · exact hmk
    · exact .inr (hmk.elim id id)

lemma exists_node? (h : t.Finds t') {j : NodeId} {m : Node Handler}
    (hm : t'.node? j = some m) :
    ∃ n, t.node? j = some n ∧ (m = n ∨ m = { n with handler := some .generic }) := by
  obtain ⟨n, hn⟩ := exists_node?_of_lt (h.size_eq ▸ lt_size_of_node? hm)
  obtain ⟨k, hk, hnk⟩ := h.node? hn
  obtain rfl := Option.some.inj (hk.symm.trans hm)
  exact ⟨n, hn, hnk⟩

lemma log (t : Tree Handler) (e : JournalEntry) : t.Finds (t.log e) :=
  of_node?_eq (fun _ => rfl) rfl

lemma generic (t : Tree Handler) (id : NodeId) :
    t.Finds (t.update id fun n => { n with handler := some .generic }) where
  size_eq := size_update t id _
  node? {j n} hn := by
    by_cases hj : j = id
    · subst hj
      exact ⟨_, node?_update_self hn _, .inr rfl⟩
    · exact ⟨n, (node?_update_of_ne hj _).trans hn, .inl rfl⟩

end Finds

namespace IsFree

lemma exists_node? (h : t.IsFree id) : ∃ n, t.node? id = some n ∧ n.IsFree := by
  cases h with
  | root hn _ hfree => exact ⟨_, hn, hfree⟩
  | beneath hn _ hfree _ => exact ⟨_, hn, hfree⟩

/-- A change that leaves the nodes in their places and free leaves all of them free. -/
lemma of_node? (h : t.IsFree id) (hsame : ∀ {j n}, t.node? j = some n → n.IsFree →
    ∃ m, t'.node? j = some m ∧ m.parent = n.parent ∧ m.IsFree) : t'.IsFree id := by
  induction h with
  | root hn hp hfree =>
    obtain ⟨m, hm, hparent, hfree'⟩ := hsame hn hfree
    exact .root hm (hparent.trans hp) hfree'
  | beneath hn hp hfree _ ih =>
    obtain ⟨m, hm, hparent, hfree'⟩ := hsame hn hfree
    exact .beneath hm (hparent.trans_lt hp) hfree' (hparent ▸ ih)

lemma finds (h : t.IsFree id) (hfinds : t.Finds t') : t'.IsFree id := by
  refine h.of_node? fun hn hfree => ?_
  obtain ⟨m, hm, rfl | rfl⟩ := hfinds.node? hn
  · exact ⟨m, hm, rfl, hfree⟩
  · exact ⟨_, hm, rfl, hfree.overrides, .inr rfl⟩

lemma update (h : t.IsFree id) {j : NodeId} {f : Node Handler → Node Handler}
    (hparent : ∀ n, (f n).parent = n.parent) (hfree : ∀ n, n.IsFree → (f n).IsFree) :
    (t.update j f).IsFree id := by
  refine h.of_node? fun {k n} hn hn' => ?_
  by_cases hk : k = j
  · subst hk
    exact ⟨f n, node?_update_self hn f, hparent n, hfree n hn'⟩
  · exact ⟨n, (node?_update_of_ne hk f).trans hn, rfl, hn'⟩

lemma push (h : t.IsFree id) (n : Node Handler) : (t.push n).IsFree id :=
  h.of_node? fun hm hfree => ⟨_, node?_push_of_node? hm n, rfl, hfree⟩

/-- A new node is free if it comes under one that is. -/
lemma push_self {parent : NodeId} {runtimeOnly : Bool} (h : t.IsFree parent)
    (hn : n.IsSeed parent runtimeOnly) : (t.push n).IsFree t.size := by
  obtain ⟨m, hm, -⟩ := h.exists_node?
  exact .beneath (node?_push_self t n) (hn.parent.trans_lt (lt_size_of_node? hm))
    ⟨hn.overrides, .inl hn.handler⟩ (hn.parent.symm ▸ h.push n)

lemma climb (h : t.IsFree id) (steps : Nat) : ∀ a ∈ t.climb steps id, t.IsFree a := by
  induction steps generalizing id with
  | zero => exact fun _ ha => absurd ha List.not_mem_nil
  | succ steps ih =>
    rw [Tree.climb]
    cases h with
    | root hn hp =>
      have hparent : t.parent? id = none := by rw [parent?, hn]; exact if_pos hp
      rw [hparent]
      exact fun _ ha => absurd ha List.not_mem_nil
    | @beneath _ n hn hp _ habove =>
      have hparent : t.parent? id = some n.parent := by rw [parent?, hn]; exact if_neg hp.ne
      rw [hparent]
      exact List.forall_mem_cons.mpr ⟨habove, ih habove⟩

lemma ancestors (h : t.IsFree id) : ∀ a ∈ t.ancestors id, t.IsFree a := h.climb id

end IsFree

end Tree

/-! ## Looking for a handler -/

namespace Registry

open TaggedOutline.Tree

lemma inherit_isFree {resolve : Tree Handler → NodeId → Handler × Tree Handler}
    (hresolve : ∀ {t : Tree Handler} {id : NodeId}, t.IsFree id →
      (resolve t id).1 = .generic ∧ t.Finds (resolve t id).2)
    (tag : Text) {above : List NodeId} {t : Tree Handler} (habove : ∀ a ∈ above, t.IsFree a) :
    (({} : Registry).inherit resolve tag above t).1 = none ∧
      t.Finds (({} : Registry).inherit resolve tag above t).2 := by
  induction above generalizing t with
  | nil => exact ⟨rfl, .refl t⟩
  | cons id above ih =>
    obtain ⟨hid, habove⟩ := List.forall_mem_cons.mp habove
    obtain ⟨n, hn, hfree⟩ := hid.exists_node?
    obtain ⟨hown, hfinds⟩ := hresolve hid
    have hgeneric : Handler.generic.beneath.lookup tag = none := rfl
    have hnone : ({} : Registry).handlerBeneath? n.tag tag = none := rfl
    obtain ⟨hfound, hway⟩ := ih fun a ha => (habove a ha).finds hfinds
    rw [inherit, hn]
    simp only [hfree.overrides, List.lookup_nil, hown, hgeneric, hnone]
    exact ⟨hfound, hfinds.trans hway⟩

lemma resolveWithin_isFree (height : Nat) {t : Tree Handler} {id : NodeId} (h : t.IsFree id) :
    (({} : Registry).resolveWithin height t id).1 = .generic ∧
      t.Finds (({} : Registry).resolveWithin height t id).2 := by
  induction height generalizing t id with
  | zero => exact ⟨rfl, .refl t⟩
  | succ height ih =>
    obtain ⟨n, hn, hfree⟩ := h.exists_node?
    rw [resolveWithin, hn]
    dsimp only
    rcases hfree.handler with hh | hh
    · obtain ⟨hfound, hway⟩ := inherit_isFree ih n.tag h.ancestors
      have hnone : ({} : Registry).handler? n.tag = none := rfl
      rw [hh]
      dsimp only
      rw [hfound, hnone]
      exact ⟨rfl, hway.trans (.generic _ id)⟩
    · rw [hh]
      exact ⟨rfl, .refl t⟩

/-- A free node has the generic handler. -/
lemma resolve_isFree {r : Registry} (hempty : r = {}) {t : Tree Handler} {id : NodeId}
    (h : id < t.size → t.IsFree id) : ∃ t', r.resolve t id = (.generic, t') ∧ t.Finds t' := by
  subst hempty
  by_cases hlt : id < t.size
  · obtain ⟨hgeneric, hfinds⟩ := resolveWithin_isFree (id + 1) (h hlt)
    exact ⟨_, Prod.ext hgeneric rfl, hfinds⟩
  · refine ⟨t, ?_, .refl t⟩
    rw [resolve, resolveWithin, node?_eq_none (Nat.le_of_not_lt hlt)]

end Registry

/-! ## Steps of a build -/

namespace Setup

open TaggedOutline.Tree

/-- A step of a build only moves a free node on to a state, and looks for handlers before. -/
def MovesOn (step : Builder → Tree Handler → NodeId → Option (Tree Handler))
    (state : BuildState) : Prop :=
  ∀ {t : Tree Handler} {id : NodeId}, (id < t.size → t.IsFree id) →
    ∃ t', t.Finds t' ∧ ∀ build, step build t id = some (t'.advance id state)

variable {s : Setup} (hempty : s.registry = {})

include hempty

lemma movesOn_makePayload : MovesOn s.makePayload .payloadBuilt := by
  intro t id hfree
  obtain ⟨t', hresolve, hfinds⟩ := Registry.resolve_isFree hempty hfree
  refine ⟨t'.log (.call .payload id), hfinds.trans (.log t' _), fun build => ?_⟩
  rw [makePayload, hresolve]
  rfl

lemma movesOn_registerNode : MovesOn s.registerNode .registered := by
  intro t id hfree
  rcases hparent : t.parent? id with - | parent
  · refine ⟨t, .refl t, fun build => ?_⟩
    rw [registerNode, hparent]
    rfl
  · obtain ⟨t', hresolve, hfinds⟩ := Registry.resolve_isFree hempty hfree
    refine ⟨t'.log (.call .register id), hfinds.trans (.log t' _), fun build => ?_⟩
    rw [registerNode, hparent]
    dsimp only
    rw [hresolve]
    rfl

lemma movesOn_finishNode : MovesOn s.finishNode .built := by
  intro t id hfree
  obtain ⟨t', hresolve, hfinds⟩ := Registry.resolve_isFree hempty hfree
  refine ⟨t'.log (.call .post id), hfinds.trans (.log t' _), fun build => ?_⟩
  rw [finishNode, hresolve]
  rfl

end Setup

/-! ## Nodes that stay free -/

namespace Tree

/-- Whether a handler has been set on a node. -/
def isOverridden (t : Tree Handler) (id : NodeId) : Bool :=
  (t.node? id).any fun n => !n.overrides.isEmpty

/-- A handler has been set on a node or above it. -/
inductive IsGoverned (t : Tree Handler) : NodeId → Prop
  | here {id : NodeId} {n : Node Handler} (hn : t.node? id = some n) (hset : n.overrides ≠ []) :
      IsGoverned t id
  | beneath {id : NodeId} {n : Node Handler} (hn : t.node? id = some n)
      (habove : IsGoverned t n.parent) : IsGoverned t id

/-- Every node is free, or a handler has been set on it or above it. -/
def IsDivided (t : Tree Handler) : Prop := ∀ id < t.size, t.IsFree id ∨ t.IsGoverned id

variable {t t' : Tree Handler} {id : NodeId}

lemma IsGoverned.not_isFree (h : t.IsGoverned id) : ¬ t.IsFree id := by
  induction h with
  | here hn hset =>
    intro hfree
    obtain ⟨m, hm, hplain⟩ := hfree.exists_node?
    obtain rfl := Option.some.inj (hn.symm.trans hm)
    exact hset hplain.overrides
  | beneath hn _ ih =>
    intro hfree
    cases hfree with
    | root hm hp hplain =>
      obtain rfl := Option.some.inj (hn.symm.trans hm)
      exact ih (hp.symm ▸ .root hm hp hplain)
    | beneath hm _ _ habove =>
      obtain rfl := Option.some.inj (hn.symm.trans hm)
      exact ih habove

/-- Where no handler has been set on the way up, a node is not governed. -/
lemma IsLinked.not_isGoverned (h : t.IsLinked)
    (hway : ∀ a ∈ id :: t.ancestors id, t.isOverridden a = false) : ¬ t.IsGoverned id := by
  intro hgoverned
  induction hgoverned with
  | here hn hset =>
    have hplain := hway _ List.mem_cons_self
    exact hset (by simpa [isOverridden, hn] using hplain)
  | @beneath id n hn _ ih =>
    by_cases hp : n.parent = id
    · exact ih (hp.symm ▸ hway)
    · have hparent : t.parent? id = some n.parent := by
        rw [parent?, hn]
        exact if_neg hp
      refine ih fun a ha => hway a (List.mem_cons_of_mem _ ?_)
      rw [h.ancestors_eq hparent]
      exact ha

/-- From a tree to one in which no more nodes are free, and which is divided if the first one is. -/
structure Divides (t t' : Tree Handler) : Prop where
  isGoverned : ∀ {id}, t.IsGoverned id → t'.IsGoverned id
  isDivided : t.IsDivided → t'.IsDivided

namespace Divides

lemma refl (t : Tree Handler) : t.Divides t := ⟨fun h => h, fun h => h⟩

lemma trans {t'' : Tree Handler} (h : t.Divides t') (h' : t'.Divides t'') : t.Divides t'' :=
  ⟨fun hid => h'.isGoverned (h.isGoverned hid), fun ht => h'.isDivided (h.isDivided ht)⟩

end Divides

/-- Nodes that keep their place, and on which handlers stay set, remain governed. -/
lemma IsGoverned.of_node? (h : t.IsGoverned id) (hsame : ∀ {j n}, t.node? j = some n →
    ∃ m, t'.node? j = some m ∧ m.parent = n.parent ∧ (n.overrides ≠ [] → m.overrides ≠ [])) :
    t'.IsGoverned id := by
  induction h with
  | here hn hset =>
    obtain ⟨m, hm, -, hkept⟩ := hsame hn
    exact .here hm (hkept hset)
  | beneath hn _ ih =>
    obtain ⟨m, hm, hparent, -⟩ := hsame hn
    exact .beneath hm (hparent.symm ▸ ih)

lemma IsGoverned.update (h : t.IsGoverned id) {j : NodeId} {f : Node Handler → Node Handler}
    (hparent : ∀ n, (f n).parent = n.parent)
    (hoverrides : ∀ n, n.overrides ≠ [] → (f n).overrides ≠ []) : (t.update j f).IsGoverned id := by
  refine h.of_node? fun {k n} hn => ?_
  by_cases hk : k = j
  · subst hk
    exact ⟨f n, node?_update_self hn f, hparent n, hoverrides n⟩
  · exact ⟨n, (node?_update_of_ne hk f).trans hn, rfl, fun h => h⟩

/-- A change of a node leaves it in its place, and it is free afterwards if it was, or governed. -/
lemma IsFree.isFree_or_isGoverned (h : t.IsFree id) {j : NodeId} {f : Node Handler → Node Handler}
    (hparent : ∀ n, (f n).parent = n.parent)
    (hfree : t.IsFree j → ∀ n, n.IsFree → (f n).IsFree ∨ (f n).overrides ≠ []) :
    (t.update j f).IsFree id ∨ (t.update j f).IsGoverned id := by
  induction h with
  | @root id n hn hp hplain =>
    by_cases hid : id = j
    · subst hid
      have hn' := node?_update_self hn f
      exact (hfree (.root hn hp hplain) n hplain).imp (.root hn' ((hparent n).trans hp)) (.here hn')
    · exact .inl (.root ((node?_update_of_ne hid f).trans hn) hp hplain)
  | @beneath id n hn hp hplain habove ih =>
    by_cases hid : id = j
    · subst hid
      have hn' := node?_update_self hn f
      rcases hfree (.beneath hn hp hplain habove) n hplain with hplain' | hset
      · rw [← hparent n] at ih
        exact ih.imp (.beneath hn' ((hparent n).trans_lt hp) hplain') (.beneath hn')
      · exact .inr (.here hn' hset)
    · have hn' := (node?_update_of_ne hid f).trans hn
      exact ih.imp (.beneath hn' hp hplain) (.beneath hn')

namespace Divides

lemma update {j : NodeId} {f : Node Handler → Node Handler}
    (hparent : ∀ n, (f n).parent = n.parent)
    (hoverrides : ∀ n, n.overrides ≠ [] → (f n).overrides ≠ [])
    (hfree : t.IsFree j → ∀ n, n.IsFree → (f n).IsFree ∨ (f n).overrides ≠ []) :
    t.Divides (t.update j f) where
  isGoverned h := h.update hparent hoverrides
  isDivided h id hid := (h id (size_update t j f ▸ hid)).elim
    (fun hid => hid.isFree_or_isGoverned hparent hfree)
    fun hid => .inr (hid.update hparent hoverrides)

lemma update_of_same (t : Tree Handler) (j : NodeId) {f : Node Handler → Node Handler}
    (hparent : ∀ n, (f n).parent = n.parent) (hoverrides : ∀ n, (f n).overrides = n.overrides)
    (hhandler : ∀ n, (f n).handler = n.handler) : t.Divides (t.update j f) :=
  update hparent (fun n hset => (hoverrides n).symm ▸ hset) fun _ n hn =>
    .inl ⟨(hoverrides n).trans hn.overrides, (hhandler n).symm ▸ hn.handler⟩

lemma log (t : Tree Handler) (e : JournalEntry) : t.Divides (t.log e) where
  isGoverned h := h.of_node? fun hn => ⟨_, hn, rfl, fun hset => hset⟩
  isDivided h id hid := (h id hid).imp (fun h => h.of_node? fun hn hfree => ⟨_, hn, rfl, hfree⟩)
    fun h => h.of_node? fun hn => ⟨_, hn, rfl, fun hset => hset⟩

lemma override (t : Tree Handler) (j : NodeId) (tag : Text) (k : Handler) :
    t.Divides (t.override j tag k) :=
  update (fun _ => rfl) (fun _ _ => List.cons_ne_nil _ _) fun _ _ _ => .inr (List.cons_ne_nil _ _)

lemma add (t : Tree Handler) {n : Node Handler} {parent : NodeId} {runtimeOnly : Bool}
    (hlt : parent < t.size) (hn : n.IsSeed parent runtimeOnly) : t.Divides (t.add n) := by
  have hpush : t.Divides (t.push n) := by
    have hgoverned : ∀ {j}, t.IsGoverned j → (t.push n).IsGoverned j := fun h =>
      h.of_node? fun hm => ⟨_, node?_push_of_node? hm n, rfl, fun hset => hset⟩
    refine ⟨hgoverned, fun h j hj => ?_⟩
    rcases Nat.lt_succ_iff_lt_or_eq.mp (size_push t n ▸ hj) with hj | rfl
    · exact (h j hj).imp (·.push n) hgoverned
    · exact (h parent hlt).imp (·.push_self hn) fun habove =>
        .beneath (node?_push_self t n) (hn.parent.symm ▸ hgoverned habove)
  exact hpush.trans (update_of_same _ _ (fun _ => rfl) (fun _ => rfl) fun _ => rfl)

end Divides

end Tree

namespace Registry

open TaggedOutline.Tree

lemma divides_inherit {resolve : Tree Handler → NodeId → Handler × Tree Handler}
    (hresolve : ∀ (t : Tree Handler) (id : NodeId), t.Divides (resolve t id).2) (tag : Text)
    (above : List NodeId) (t : Tree Handler) :
    t.Divides (({} : Registry).inherit resolve tag above t).2 := by
  induction above generalizing t with
  | nil => exact .refl t
  | cons id above ih =>
    rw [inherit]
    split
    · exact .refl t
    · split
      · exact .refl t
      · dsimp only
        split
        · exact hresolve t id
        · split
          · exact hresolve t id
          · exact (hresolve t id).trans (ih _)

lemma divides_resolveWithin (height : Nat) (t : Tree Handler) (id : NodeId) :
    t.Divides (({} : Registry).resolveWithin height t id).2 := by
  induction height generalizing t id with
  | zero => exact .refl t
  | succ height ih =>
    have hfound := fun hfree : t.IsFree id => (resolveWithin_isFree (height + 1) hfree).1
    rw [resolveWithin] at hfound ⊢
    split
    · exact .refl t
    · next n hn =>
      split
      · exact .refl t
      · next hnone =>
        have hway := divides_inherit ih n.tag (t.ancestors id) t
        rw [hn] at hfound
        dsimp only at hfound
        rw [hnone] at hfound
        generalize ({} : Registry).inherit (({} : Registry).resolveWithin height) n.tag
          (t.ancestors id) t = r at hway hfound ⊢
        obtain ⟨found, t₁⟩ := r
        refine ⟨fun h => (hway.isGoverned h).update (fun _ => rfl) fun _ hset => hset, fun h => ?_⟩
        refine Divides.isDivided (t := t₁) (.update (fun _ => rfl) (fun _ hset => hset)
          fun hfree k hk => .inl ?_) (hway.isDivided h)
        -- a free node has been free before
        have hbefore : t.IsFree id := (h id (lt_size_of_node? hn)).resolve_right fun hgoverned =>
          (hway.isGoverned hgoverned).not_isFree hfree
        exact ⟨hk.overrides, .inr (congrArg some (hfound hbefore))⟩

/-- To look for handlers divides a tree. -/
lemma divides_resolve {r : Registry} (hempty : r = {}) (t : Tree Handler) (id : NodeId) :
    t.Divides (r.resolve t id).2 := by
  subst hempty
  exact divides_resolveWithin (id + 1) t id

end Registry

namespace Setup

open TaggedOutline.Tree

variable {s : Setup} {t t' : Tree Handler} {start m : Moment} {id : NodeId}

lemma divides_of_changes (hempty : s.registry = {}) (h : Changes s.registry t t') :
    t.Divides t' := by
  induction h with
  | refl => exact .refl t
  | tail _ hlast ih =>
    refine ih.trans ?_
    cases hlast with
    | log e => exact .log _ e
    | update id hparent hoverrides hhandler _ =>
      exact .update_of_same _ id hparent hoverrides hhandler
    | override id tag k => exact .override _ id tag k
    | resolve id => exact Registry.divides_resolve hempty _ id
    | add hlt hn => exact .add _ hlt hn

lemma isDivided_of_isStart (h : s.IsStart m) : m.tree.IsDivided := by
  have hroot : ∀ {t : Tree Handler} {n : Node Handler}, t.size = 1 → t.node? root = some n →
      n.parent = root → n.IsFree → t.IsDivided := by
    intro t n hsize hn hp hfree id hid
    obtain rfl : id = 0 := Nat.lt_one_iff.mp (hsize ▸ hid)
    exact .inl (.root hn hp hfree)
  cases h with
  | ofText text program => exact hroot rfl rfl rfl ⟨rfl, .inl rfl⟩
  | ofSpec spec program => exact hroot rfl rfl rfl ⟨rfl, .inl rfl⟩

/-- Without registered handlers a node on which and above which no handler has been set is free,
whatever has been done with the tree. -/
theorem isFree_of_reaches (hempty : s.registry = {}) (hstart : s.IsStart start)
    (h : s.Reaches start m) (hid : id < m.tree.size)
    (hway : ∀ a ∈ id :: m.tree.ancestors id, m.tree.isOverridden a = false) :
    m.tree.IsFree id := by
  have hdivided := (divides_of_changes hempty (changes_of_reaches h)).isDivided
    (isDivided_of_isStart hstart)
  have hlinked := (isArena_of_later hstart h).isLinked
  exact (hdivided id hid).resolve_right (hlinked.not_isGoverned hway)

end Setup

end TaggedOutline
