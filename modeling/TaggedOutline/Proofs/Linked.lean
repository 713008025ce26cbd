import Mathlib.Algebra.BigOperators.Group.Finset.Basic
import Mathlib.Algebra.GroupWithZero.Nat
import Mathlib.Order.Interval.Finset.Nat
import TaggedOutline.Proofs.Places

/-!
# What stands beneath a node

The walk over a tree has only so many steps as the tree has nodes.  In a linked tree, where the
parents of the nodes and the lists of children say the same, that is enough: the walk meets just the
nodes that have its start above them (`Tree.IsLinked.mem_descendants_iff`).

The nodes that stand at or under a child of a node are set apart from those of every other child, so
the steps that the children of a node need are as many as there are nodes beneath it
(`Tree.IsLinked.sum_children`).  What marks a node as part of the document plays no role, and it may
be changed at will (`Tree.IsLinked.edit`).
-/

namespace TaggedOutline

namespace Tree

variable {H : Type} {t t' : Tree H} {id c d start : NodeId}

/-! ## Linked trees -/

/-- The parents of the nodes and the lists of children say the same, and a parent comes before what
stands under it. -/
structure IsLinked (t : Tree H) : Prop where
  lt_of_parent? : ∀ {c parent}, t.parent? c = some parent → parent < c
  mem_childNodes_iff : ∀ {c parent}, c ∈ t.childNodes parent ↔ t.parent? c = some parent
  nodup_childNodes : ∀ parent, (t.childNodes parent).Nodup

lemma IsArena.isLinked (h : t.IsArena) : t.IsLinked where
  lt_of_parent? hc := (h.lt_of_parent? hc).1
  mem_childNodes_iff := h.mem_childNodes_iff
  nodup_childNodes := h.nodup_childNodes

lemma lt_size_of_parent? {parent : NodeId} (h : t.parent? c = some parent) : c < t.size := by
  obtain ⟨p, hp, -⟩ := exists_place?_of_parent? h
  exact lt_size_of_place? hp

lemma parent?_eq_none_of_size_le (h : t.size ≤ c) : t.parent? c = none :=
  Option.eq_none_iff_forall_ne_some.mpr fun _ hc => (lt_size_of_parent? hc).not_ge h

lemma childNodes_eq_place? (t : Tree H) (id : NodeId) :
    t.childNodes id = ((t.place? id).map Place.children).getD [] := by
  rw [childNodes, place?, Option.map_map]
  rfl

/-- A new node is at the end of the children of its parent. -/
lemma childNodes_add {n : Node H} (hparent : n.parent < t.size) (hnone : n.childNodes = [])
    (id : NodeId) :
    (t.add n).childNodes id = t.childNodes id ++ if id = n.parent then [t.size] else [] := by
  rw [childNodes_eq_place?, childNodes_eq_place?, place?_add hparent]
  by_cases hnew : id = t.size
  · subst hnew
    have hplace : t.place? t.size = none := by rw [place?, node?_eq_none le_rfl, Option.map_none]
    rw [if_pos rfl, if_neg hparent.ne', hplace]
    exact hnone
  · rw [if_neg hnew]
    split
    · next heq =>
      obtain ⟨p, hp⟩ := exists_place?_of_lt (heq ▸ hparent)
      rw [hp]
      rfl
    · rw [List.append_nil]

namespace IsLinked

lemma congr (h : t.IsLinked) (hparent : ∀ c, t'.parent? c = t.parent? c)
    (hchildren : ∀ c, t'.childNodes c = t.childNodes c) : t'.IsLinked := by
  refine ⟨fun {c _} hc => h.lt_of_parent? ((hparent c).symm.trans hc), fun {c p} => ?_, fun p => ?_⟩
  · rw [hchildren, hparent]
    exact h.mem_childNodes_iff
  · rw [hchildren]
    exact h.nodup_childNodes p

lemma of_place?_eq (h : t.IsLinked) (hsame : ∀ id, t'.place? id = t.place? id) : t'.IsLinked :=
  h.congr (fun c => parent?_congr (hsame c)) fun c => by
    rw [childNodes_eq_place?, childNodes_eq_place?, hsame]

/-- A change of a node that leaves its parent and its children alone leaves a tree linked. -/
lemma update (h : t.IsLinked) (id : NodeId) {f : Node H → Node H}
    (hparent : ∀ n, (f n).parent = n.parent) (hchildren : ∀ n, (f n).childNodes = n.childNodes) :
    (t.update id f).IsLinked := by
  refine h.congr (fun c => ?_) fun c =>
    congrArg (Option.getD · []) (map_node?_update hchildren t id c)
  have hsame := map_node?_update hparent t id c
  rw [parent?, parent?]
  rcases hn : t.node? c with - | n <;> rcases hm : (t.update id f).node? c with - | m <;> simp_all

/-- A change of the fields of a node leaves a tree linked. -/
theorem edit (h : t.IsLinked) (id : NodeId) (change : Fields → Fields) :
    (t.edit id change).IsLinked := h.update id (fun _ => rfl) fun _ => rfl

/-- A new node that stands under a node of the tree leaves it linked. -/
lemma add (h : t.IsLinked) {n : Node H} (hparent : n.parent < t.size)
    (hnone : n.childNodes = []) : (t.add n).IsLinked where
  lt_of_parent? {c parent} hc := by
    by_cases hnew : c = t.size
    · subst hnew
      rw [parent?_add_size hparent] at hc
      exact Option.some.inj hc ▸ hparent
    · rw [parent?_add_of_ne hparent hnew] at hc
      exact h.lt_of_parent? hc
  mem_childNodes_iff {c parent} := by
    rw [childNodes_add hparent hnone, List.mem_append, h.mem_childNodes_iff]
    by_cases hnew : c = t.size
    · subst hnew
      rw [parent?_add_size hparent, parent?_eq_none_of_size_le le_rfl]
      simp [eq_comm]
    · rw [parent?_add_of_ne hparent hnew]
      simp [hnew]
  nodup_childNodes parent := by
    rw [childNodes_add hparent hnone]
    split
    · refine List.nodup_append'.mpr ⟨h.nodup_childNodes parent, List.nodup_singleton _, ?_⟩
      refine List.disjoint_singleton.mpr fun hmem => ?_
      exact (lt_size_of_parent? (h.mem_childNodes_iff.mp hmem)).false
    · rw [List.append_nil]
      exact h.nodup_childNodes parent

/-- What holds of a node if it holds of its children holds of all nodes. -/
lemma induction_children (h : t.IsLinked) {P : NodeId → Prop}
    (hstep : ∀ id, (∀ c ∈ t.childNodes id, P c) → P id) (id : NodeId) : P id := by
  -- children have larger numbers, and all numbers are below the size
  induction hk : t.size - id using Nat.strong_induction_on generalizing id with
  | _ k ih =>
    refine hstep id fun c hc => ?_
    have hparent := h.mem_childNodes_iff.mp hc
    have hlt := h.lt_of_parent? hparent
    have hsize := lt_size_of_parent? hparent
    exact ih (t.size - c) (hk ▸ Nat.sub_lt_sub_left (hlt.trans hsize) hlt) c rfl

/-! ## The way up -/

lemma parent?_zero (h : t.IsLinked) : t.parent? 0 = none :=
  Option.eq_none_iff_forall_ne_some.mpr fun _ hc => Nat.not_lt_zero _ (h.lt_of_parent? hc)

lemma climb_eq (h : t.IsLinked) {steps steps' : Nat} (hsteps : id ≤ steps)
    (hsteps' : id ≤ steps') : t.climb steps id = t.climb steps' id := by
  induction steps generalizing id steps' with
  | zero =>
    obtain rfl := Nat.le_zero.mp hsteps
    cases steps' with
    | zero => rfl
    | succ steps' => rw [climb, climb, h.parent?_zero]
  | succ steps ih =>
    cases steps' with
    | zero =>
      obtain rfl := Nat.le_zero.mp hsteps'
      rw [climb, climb, h.parent?_zero]
    | succ steps' =>
      rw [climb, climb]
      rcases hparent : t.parent? id with - | parent
      · rfl
      · have hlt := h.lt_of_parent? hparent
        exact congrArg (parent :: ·) (ih (Nat.le_of_lt_succ (hlt.trans_le hsteps))
          (Nat.le_of_lt_succ (hlt.trans_le hsteps')))

/-- Above a node stand its parent and what is above that. -/
lemma ancestors_eq (h : t.IsLinked) {parent : NodeId} (hc : t.parent? c = some parent) :
    t.ancestors c = parent :: t.ancestors parent := by
  have hlt := h.lt_of_parent? hc
  obtain ⟨steps, hsteps⟩ := Nat.exists_eq_succ_of_ne_zero (Nat.ne_zero_of_lt hlt)
  rw [ancestors, hsteps, climb, ← hsteps, hc]
  exact congrArg (parent :: ·) (h.climb_eq (Nat.le_of_lt_succ (hsteps ▸ hlt)) le_rfl)

lemma ancestors_of_parent?_eq_none (hc : t.parent? c = none) : t.ancestors c = [] := by
  unfold ancestors
  cases c with
  | zero => rfl
  | succ c => rw [climb, hc]

lemma lt_of_mem_ancestors (h : t.IsLinked) (hid : id ∈ t.ancestors d) : id < d := by
  induction d using Nat.strong_induction_on with
  | _ d ih =>
    rcases hd : t.parent? d with - | parent
    · rw [ancestors_of_parent?_eq_none hd] at hid
      exact absurd hid List.not_mem_nil
    · have hlt := h.lt_of_parent? hd
      rw [h.ancestors_eq hd] at hid
      rcases List.mem_cons.mp hid with rfl | hid
      · exact hlt
      · exact (ih parent hlt hid).trans hlt

/-- A node above another one has a child on the way, or that one itself as a child. -/
lemma mem_ancestors_iff (h : t.IsLinked) :
    id ∈ t.ancestors d ↔ ∃ c ∈ t.childNodes id, c = d ∨ c ∈ t.ancestors d := by
  induction d using Nat.strong_induction_on with
  | _ d ih =>
    rcases hd : t.parent? d with - | parent
    · rw [ancestors_of_parent?_eq_none hd]
      refine iff_of_false List.not_mem_nil ?_
      rintro ⟨c, hc, rfl | hmem⟩
      · cases hd.symm.trans (h.mem_childNodes_iff.mp hc)
      · exact List.not_mem_nil hmem
    · rw [h.ancestors_eq hd, List.mem_cons, ih parent (h.lt_of_parent? hd)]
      constructor
      · rintro (rfl | ⟨c, hc, hway⟩)
        · exact ⟨d, h.mem_childNodes_iff.mpr hd, .inl rfl⟩
        · exact ⟨c, hc, .inr (List.mem_cons.mpr hway)⟩
      · rintro ⟨c, hc, rfl | hway⟩
        · exact .inl (Option.some.inj ((h.mem_childNodes_iff.mp hc).symm.trans hd))
        · exact .inr ⟨c, hc, List.mem_cons.mp hway⟩

/-- Only one child of a node is on the way up from another node. -/
lemma eq_of_mem_ancestors (h : t.IsLinked) {c' : NodeId} (hc : c ∈ t.childNodes id)
    (hc' : c' ∈ t.childNodes id) (hd : c = d ∨ c ∈ t.ancestors d)
    (hd' : c' = d ∨ c' ∈ t.ancestors d) : c = c' := by
  -- two children of a node do not stand above each other, as both stand behind the node
  have hnone : ∀ {a b : NodeId}, a ∈ t.childNodes id → b ∈ t.childNodes id →
      a ∉ t.ancestors b := by
    intro a b ha hb hmem
    have hlt := h.lt_of_parent? (h.mem_childNodes_iff.mp ha)
    rw [h.ancestors_eq (h.mem_childNodes_iff.mp hb)] at hmem
    rcases List.mem_cons.mp hmem with rfl | hmem
    · exact lt_irrefl _ hlt
    · exact lt_asymm hlt (h.lt_of_mem_ancestors hmem)
  induction d using Nat.strong_induction_on with
  | _ d ih =>
    rcases hd with rfl | hd
    · rcases hd' with rfl | hd'
      · rfl
      · exact absurd hd' (hnone hc' hc)
    · rcases hd' with rfl | hd'
      · exact absurd hd (hnone hc hc')
      · rcases hparent : t.parent? d with - | parent
        · rw [ancestors_of_parent?_eq_none hparent] at hd
          exact absurd hd List.not_mem_nil
        · rw [h.ancestors_eq hparent, List.mem_cons] at hd hd'
          exact ih parent (h.lt_of_parent? hparent) hd hd'

end IsLinked

/-! ## The walk -/

/-- The nodes beneath a node. -/
def beneath (t : Tree H) (id : NodeId) : Finset NodeId :=
  (Finset.range t.size).filter fun d => id ∈ t.ancestors d

namespace IsLinked

variable (h : t.IsLinked)

include h

/-- The nodes beneath a node are its children and what is beneath these. -/
theorem sum_children (id : NodeId) :
    ((t.childNodes id).map fun c => (t.beneath c).card + 1).sum = (t.beneath id).card := by
  have hcard : ∀ c ∈ (t.childNodes id).toFinset,
      (insert c (t.beneath c)).card = (t.beneath c).card + 1 := fun c _ =>
    Finset.card_insert_of_notMem fun hmem =>
      lt_irrefl c (h.lt_of_mem_ancestors (Finset.mem_filter.mp hmem).2)
  have hmem : ∀ {c d : NodeId}, d ∈ insert c (t.beneath c) → c = d ∨ c ∈ t.ancestors d := by
    intro c d hd
    rcases Finset.mem_insert.mp hd with rfl | hd
    · exact .inl rfl
    · exact .inr (Finset.mem_filter.mp hd).2
  rw [← List.sum_toFinset _ (h.nodup_childNodes id), ← Finset.sum_congr rfl hcard,
    ← Finset.card_biUnion]
  · have hway : ∀ d, id ∈ t.ancestors d ↔ ∃ c ∈ t.childNodes id, c = d ∨ c ∈ t.ancestors d :=
      fun _ => h.mem_ancestors_iff
    congr 1
    ext d
    simp only [Finset.mem_biUnion, List.mem_toFinset, beneath, Finset.mem_filter, Finset.mem_range,
      Finset.mem_insert, hway]
    constructor
    · rintro ⟨c, hc, rfl | ⟨hlt, habove⟩⟩
      · exact ⟨lt_size_of_parent? (h.mem_childNodes_iff.mp hc), d, hc, .inl rfl⟩
      · exact ⟨hlt, c, hc, .inr habove⟩
    · rintro ⟨hlt, c, hc, rfl | habove⟩
      · exact ⟨c, hc, .inl rfl⟩
      · exact ⟨c, hc, .inr ⟨hlt, habove⟩⟩
  · intro c hc c' hc' hne
    refine Finset.disjoint_left.mpr fun d hd hd' => hne ?_
    exact h.eq_of_mem_ancestors (List.mem_toFinset.mp hc) (List.mem_toFinset.mp hc') (hmem hd)
      (hmem hd')

/-- A walk that has steps enough meets the waiting nodes and all that is beneath them. -/
lemma mem_walk_iff {steps : Nat} {waiting : List NodeId}
    (hsteps : (waiting.map fun w => (t.beneath w).card + 1).sum ≤ steps) :
    d ∈ t.walk steps waiting ↔ ∃ w ∈ waiting, w = d ∨ w ∈ t.ancestors d := by
  induction steps generalizing waiting with
  | zero =>
    cases waiting with
    | nil => simp [walk]
    | cons w waiting => simp at hsteps
  | succ steps ih =>
    cases waiting with
    | nil => simp [walk]
    | cons w waiting =>
      have hmore : ((t.childNodes w ++ waiting).map fun w => (t.beneath w).card + 1).sum ≤
          steps := by
        rw [List.map_cons, List.sum_cons] at hsteps
        rw [List.map_append, List.sum_append, h.sum_children]
        omega
      rw [walk, List.mem_cons, ih hmore]
      simp only [List.mem_append, List.mem_cons, or_and_right, exists_or, ← h.mem_ancestors_iff,
        exists_eq_left, eq_comm (a := w), or_assoc]

/-- The walk beneath a node meets the nodes that have it above them. -/
theorem mem_descendants_iff : d ∈ t.descendants start ↔ start ∈ t.ancestors d := by
  have hsteps : ((t.childNodes start).map fun c => (t.beneath c).card + 1).sum ≤ t.size := by
    rw [h.sum_children]
    exact (Finset.card_filter_le _ _).trans (Finset.card_range _).le
  rw [descendants, h.mem_walk_iff hsteps, h.mem_ancestors_iff]

/-- The children of a node, and those of all nodes beneath it, are beneath it. -/
lemma mem_descendants_of_mem_childNodes (hid : id = start ∨ id ∈ t.descendants start)
    (hc : c ∈ t.childNodes id) : c ∈ t.descendants start := by
  rw [h.mem_descendants_iff, h.ancestors_eq (h.mem_childNodes_iff.mp hc), List.mem_cons]
  exact hid.imp Eq.symm h.mem_descendants_iff.mp

end IsLinked

end Tree

end TaggedOutline
