import Mathlib.Algebra.BigOperators.Group.Finset.Piecewise
import Mathlib.Algebra.GroupWithZero.Nat
import TaggedOutline.Proofs.Arena

/-!
# The elements of a sketch

In an arena the sketch of the root has all nodes of the document: together with the nodes outside
the document they are all nodes there are (`Tree.IsArena.size_eq`).

The sketch is a recursion over what is beneath a node, and the arena is not.  So the nodes are not
followed down to the root.  Instead the sizes of the sketches of all nodes of the document are added
up: each is one more than the sizes for its children together, and every node but the root is the
child of exactly one node.
-/

namespace TaggedOutline

namespace Tree

variable {H : Type} {t : Tree H} {id c : NodeId} {n : Node H}

/-- The number of elements in the sketch of a node. -/
def extent (t : Tree H) (id : NodeId) : Nat := ((t.sketch? id).map Sketch.size).getD 0

/-- The nodes of the document. -/
def members (t : Tree H) : Finset NodeId :=
  (Finset.range t.size).filter fun id => t.isRuntimeOnly id = false

lemma node?_of_subtreeWithin {depth : Nat} {s : Subtree H}
    (h : t.subtreeWithin depth id = some s) : t.node? id = some s.node := by
  cases depth with
  | zero => cases h
  | succ depth =>
    obtain ⟨n, hn, rfl⟩ := Option.map_eq_some_iff.mp h
    exact hn

lemma subtreeWithin_eq_none (h : t.size ≤ id) (depth : Nat) :
    t.subtreeWithin depth id = none := by
  cases depth with
  | zero => rfl
  | succ depth =>
    have hnone : t.node? id = none := Array.getElem?_eq_none h
    rw [subtreeWithin, hnone, Option.map_none]

/-- A depth that suffices for a node leaves one that suffices for its children. -/
lemma size_le_child_add {size parent child depth : Nat} (hlt : parent < child)
    (hdepth : size ≤ parent + (depth + 1)) : size ≤ child + depth := by
  omega

namespace IsArena

lemma lt_of_mem_children (h : t.IsArena) (hn : t.node? id = some n)
    (hc : Child.node c ∈ n.children) : id < c := by
  refine (h.lt_of_parent? (h.mem_childNodes_iff.mp ?_)).1
  rw [childNodes, hn]
  exact List.mem_filterMap.mpr ⟨_, hc, rfl⟩

/-- What is beneath a node is the same at all depths that suffice. -/
lemma subtreeWithin_eq (h : t.IsArena) {depth depth' : Nat} (hdepth : t.size ≤ id + depth)
    (hdepth' : t.size ≤ id + depth') : t.subtreeWithin depth id = t.subtreeWithin depth' id := by
  induction depth generalizing id depth' with
  | zero =>
    have hid : t.size ≤ id := hdepth
    rw [subtreeWithin_eq_none hid, subtreeWithin_eq_none hid]
  | succ depth ih =>
    cases depth' with
    | zero =>
      have hid : t.size ≤ id := hdepth'
      rw [subtreeWithin_eq_none hid, subtreeWithin_eq_none hid]
    | succ depth' =>
      rw [subtreeWithin, subtreeWithin]
      rcases hn : t.node? id with - | n
      · rfl
      · simp only [Option.map_some, Option.some.injEq, Subtree.mk.injEq, true_and]
        refine List.filterMap_congr fun child hchild => ?_
        cases child with
        | text s => rfl
        | node c =>
          have hlt := h.lt_of_mem_children hn hchild
          exact congrArg (Option.map Child.node)
            (ih (size_le_child_add hlt hdepth) (size_le_child_add hlt hdepth'))

lemma sizes_childSketches (h : t.IsArena) (hn : t.node? id = some n) {depth : Nat}
    (hdepth : t.size ≤ id + (depth + 1)) :
    Sketch.sizes (Subtree.childSketches (n.children.filterMap fun
      | .text s => some (.text s)
      | .node c => (t.subtreeWithin depth c).map .node)) =
      ((t.childNodes id).map fun c => if t.isRuntimeOnly c then 0 else t.extent c).sum := by
  have hlt : ∀ child ∈ n.children, ∀ c, child = .node c → id < c := by
    rintro child hchild c rfl
    exact h.lt_of_mem_children hn hchild
  rw [childNodes, hn]
  change _ = (List.map _ n.childNodes).sum
  rw [Node.childNodes]
  generalize n.children = children at hlt
  induction children with
  | nil => rfl
  | cons child children ih =>
    obtain ⟨hchild, hchildren⟩ := List.forall_mem_cons.mp hlt
    cases child with
    | text s => exact ih hchildren
    | node c =>
      have hc := hchild c rfl
      have hsub : t.subtreeWithin depth c = t.subtree? c :=
        h.subtreeWithin_eq (size_le_child_add hc hdepth) (Nat.le_add_left _ _)
      simp only [List.filterMap_cons, hsub, List.map_cons, List.sum_cons, ← ih hchildren]
      rw [extent, sketch?]
      rcases hs : t.subtree? c with - | s
      · simp
      · have hflag : t.isRuntimeOnly c = s.node.runtimeOnly := by
          rw [isRuntimeOnly, node?_of_subtreeWithin hs]
          rfl
        rw [hflag]
        simp only [Option.map_some, Subtree.childSketches, Subtree.childSketch]
        split
        · simp
        · simp [Sketch.sizes]

/-- The sketch of a node has the node and what the sketches of its children have. -/
lemma extent_eq (h : t.IsArena) (hid : id < t.size) :
    t.extent id = 1 + ∑ c ∈ t.members with t.parent? c = some id, t.extent c := by
  obtain ⟨n, hn⟩ : ∃ n, t.node? id = some n := ⟨_, Array.getElem?_eq_getElem hid⟩
  obtain ⟨depth, hdepth⟩ := Nat.exists_eq_succ_of_ne_zero (Nat.ne_of_gt h.size_pos)
  have hsize : t.extent id =
      1 + ((t.childNodes id).map fun c => if t.isRuntimeOnly c then 0 else t.extent c).sum := by
    have hdepth' : t.size ≤ id + (depth + 1) := hdepth ▸ Nat.le_add_left _ _
    rw [extent, sketch?, subtree?, hdepth, subtreeWithin, hn, ← h.sizes_childSketches hn hdepth']
    rfl
  rw [hsize, ← List.sum_toFinset _ (h.nodup_childNodes id), Finset.sum_ite, Finset.sum_const_zero,
    Nat.zero_add]
  congr 1
  refine Finset.sum_congr (Finset.ext fun c => ?_) fun _ _ => rfl
  simp only [members, Finset.mem_filter, List.mem_toFinset, h.mem_childNodes_iff, Finset.mem_range,
    Bool.not_eq_true]
  constructor
  · rintro ⟨hc, hflag⟩
    exact ⟨⟨(h.lt_of_parent? hc).2, hflag⟩, hc⟩
  · rintro ⟨⟨-, hflag⟩, hc⟩
    exact ⟨hc, hflag⟩

lemma root_mem_members (h : t.IsArena) : Tree.root ∈ t.members := by
  obtain ⟨p, hp, -, hflag⟩ := h.root
  refine Finset.mem_filter.mpr ⟨Finset.mem_range.mpr h.size_pos, ?_⟩
  rw [isRuntimeOnly_eq_of_place? hp, hflag]

/-- A node of the document stands under a node of the document. -/
lemma exists_parent?_of_mem_members (h : t.IsArena) (hc : c ∈ t.members.erase Tree.root) :
    ∃ parent ∈ t.members, t.parent? c = some parent := by
  obtain ⟨hne, hc⟩ := Finset.mem_erase.mp hc
  obtain ⟨hlt, hflag⟩ := Finset.mem_filter.mp hc
  obtain ⟨p, hp⟩ := exists_place?_of_lt (Finset.mem_range.mp hlt)
  have hup := h.parent?_eq hp hne
  refine ⟨p.parent, Finset.mem_filter.mpr ⟨?_, ?_⟩, hup⟩
  · exact Finset.mem_range.mpr (h.parent_lt_size hp)
  · by_contra hflag'
    have := h.isRuntimeOnly_of_parent? hup (Bool.eq_true_of_not_eq_false hflag')
    cases hflag.symm.trans this

/-- The children of all nodes of the document, as far as they belong to it, are its nodes but the
root. -/
lemma sum_children (h : t.IsArena) (f : NodeId → Nat) :
    ∑ id ∈ t.members, ∑ c ∈ t.members with t.parent? c = some id, f c =
      ∑ c ∈ t.members.erase Tree.root, f c := by
  have hmaps : ∀ c ∈ t.members.erase Tree.root, (t.parent? c).getD Tree.root ∈ t.members := by
    intro c hc
    obtain ⟨parent, hmem, hup⟩ := h.exists_parent?_of_mem_members hc
    rw [hup]
    exact hmem
  rw [← Finset.sum_fiberwise_of_maps_to hmaps]
  refine Finset.sum_congr rfl fun id _ => Finset.sum_congr (Finset.ext fun c => ?_) fun _ _ => rfl
  simp only [Finset.mem_filter]
  constructor
  · rintro ⟨hc, hup⟩
    refine ⟨Finset.mem_erase.mpr ⟨?_, hc⟩, by rw [hup]; rfl⟩
    rintro rfl
    cases h.parent?_root.symm.trans hup
  · rintro ⟨hc, hup⟩
    obtain ⟨parent, -, hparent⟩ := h.exists_parent?_of_mem_members hc
    rw [hparent] at hup
    exact ⟨(Finset.mem_erase.mp hc).2, hparent.trans (congrArg some hup)⟩

/-- The sketch of the root has the nodes of the document. -/
lemma extent_root (h : t.IsArena) : t.extent Tree.root = t.members.card := by
  have hsum : ∑ id ∈ t.members, t.extent id =
      t.members.card + ∑ c ∈ t.members.erase Tree.root, t.extent c := by
    calc ∑ id ∈ t.members, t.extent id
        = ∑ id ∈ t.members, (1 + ∑ c ∈ t.members with t.parent? c = some id, t.extent c) :=
          Finset.sum_congr rfl fun id hid =>
            h.extent_eq (Finset.mem_range.mp (Finset.mem_filter.mp hid).1)
      _ = t.members.card + ∑ c ∈ t.members.erase Tree.root, t.extent c := by
          rw [Finset.sum_add_distrib, ← Finset.card_eq_sum_ones, h.sum_children]
  have hroot := Finset.add_sum_erase t.members t.extent h.root_mem_members
  omega

/-- All nodes are those in the sketch of the root and those outside the document. -/
theorem size_eq (h : t.IsArena) : ∃ sk, t.sketch? Tree.root = some sk ∧
    t.size = sk.size + (List.range t.size).countP t.isRuntimeOnly := by
  have hextent := h.extent_root
  have hpos : 0 < t.members.card := Finset.card_pos.mpr ⟨_, h.root_mem_members⟩
  rcases hsk : t.sketch? Tree.root with - | sk
  · rw [extent, hsk] at hextent
    exact absurd hextent (Nat.ne_of_lt hpos)
  · refine ⟨sk, rfl, ?_⟩
    rw [extent, hsk] at hextent
    replace hextent : sk.size = t.members.card := hextent
    have hcount : t.members.card = (List.range t.size).countP fun id => !t.isRuntimeOnly id := by
      rw [List.countP_eq_length_filter, ← List.toFinset_card_of_nodup (List.nodup_range.filter _)]
      congr 1
      ext id
      simp [members]
    have htotal := List.length_eq_countP_add_countP t.isRuntimeOnly (l := List.range t.size)
    simp only [List.length_range, Bool.not_eq_true, Bool.decide_eq_false] at htotal
    omega

end IsArena

end Tree

end TaggedOutline
