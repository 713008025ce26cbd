import Mathlib.Data.List.Nodup
import TaggedOutline.Proofs.Build

/-!
# The arena of a tree

A tree keeps two sides of the same fact: each node knows its parent, and the parent has it in its
list of children.  `Tree.IsArena` says that the two sides agree, that parents come before what
stands under them, and that nothing beneath a node outside the document belongs to it.

All of that is said of the places of the nodes (`Tree.place?`).  A change of a tree leaves the
places alone, or it adds a node behind the others; both give an arena again and move nothing
(`Tree.Extends`).
-/

namespace TaggedOutline

/-- What of a node belongs to the tree. -/
structure Place where
  tag : Text
  parent : NodeId
  runtimeOnly : Bool
  children : List NodeId
deriving DecidableEq, Repr

namespace Place

/-- The place with one more child. -/
def adopt (p : Place) (child : NodeId) : Place := { p with children := p.children ++ [child] }

/-- The same place, whatever has come under it. -/
def IsSame (p q : Place) : Prop :=
  q.tag = p.tag ∧ q.parent = p.parent ∧ q.runtimeOnly = p.runtimeOnly

lemma IsSame.refl (p : Place) : p.IsSame p := ⟨rfl, rfl, rfl⟩

lemma IsSame.trans {p q r : Place} (h : p.IsSame q) (h' : q.IsSame r) : p.IsSame r :=
  ⟨h'.1.trans h.1, h'.2.1.trans h.2.1, h'.2.2.trans h.2.2⟩

end Place

/-- The place of a node. -/
def Node.place {H : Type} (n : Node H) : Place := ⟨n.tag, n.parent, n.runtimeOnly, n.childNodes⟩

namespace Tree

variable {H : Type} {t t' t'' : Tree H} {id c : NodeId} {n : Node H} {p : Place}

/-- The place of the node with a number. -/
def place? (t : Tree H) (id : NodeId) : Option Place := (t.node? id).map Node.place

/-- Whether a node was added to a finished tree. -/
def isRuntimeOnly (t : Tree H) (id : NodeId) : Bool :=
  ((t.node? id).map fun n => n.runtimeOnly).getD false

lemma place?_of_node? (h : t.node? id = some n) : t.place? id = some n.place := by
  rw [place?, h, Option.map_some]

lemma exists_node?_of_place? (h : t.place? id = some p) :
    ∃ n, t.node? id = some n ∧ n.place = p :=
  Option.map_eq_some_iff.mp h

lemma lt_size_of_place? (h : t.place? id = some p) : id < t.size := by
  obtain ⟨n, hn, -⟩ := exists_node?_of_place? h
  exact lt_size_of_node? hn

lemma exists_place?_of_lt (h : id < t.size) : ∃ p, t.place? id = some p :=
  ⟨_, place?_of_node? (Array.getElem?_eq_getElem h)⟩

lemma parent?_eq_of_place? (h : t.place? id = some p) :
    t.parent? id = if p.parent = id then none else some p.parent := by
  obtain ⟨n, hn, rfl⟩ := exists_node?_of_place? h
  rw [parent?, hn]
  rfl

lemma exists_place?_of_parent? {parent : NodeId} (h : t.parent? id = some parent) :
    ∃ p, t.place? id = some p ∧ p.parent = parent ∧ parent ≠ id := by
  rw [parent?] at h
  split at h
  · next n hn =>
    simp only [ite_eq_iff, reduceCtorEq, and_false, Option.some.injEq, false_or] at h
    obtain ⟨hne, rfl⟩ := h
    exact ⟨n.place, place?_of_node? hn, rfl, hne⟩
  · cases h

lemma childNodes_eq_of_place? (h : t.place? id = some p) : t.childNodes id = p.children := by
  obtain ⟨n, hn, rfl⟩ := exists_node?_of_place? h
  rw [childNodes, hn]
  rfl

lemma isRuntimeOnly_eq_of_place? (h : t.place? id = some p) :
    t.isRuntimeOnly id = p.runtimeOnly := by
  obtain ⟨n, hn, rfl⟩ := exists_node?_of_place? h
  rw [isRuntimeOnly, hn]
  rfl

lemma parent?_congr (h : t'.place? id = t.place? id) : t'.parent? id = t.parent? id := by
  have hparent : ∀ t : Tree H, t.parent? id =
      (t.place? id).bind fun p => if p.parent = id then none else some p.parent := fun t => by
    rw [parent?, place?]
    cases t.node? id <;> rfl
  rw [hparent, hparent, h]

lemma size_congr (h : ∀ id, t'.place? id = t.place? id) : t'.size = t.size := by
  have hle : ∀ {t t' : Tree H}, (∀ id, t'.place? id = t.place? id) → t.size ≤ t'.size := by
    intro t t' h
    by_contra hlt
    obtain ⟨p, hp⟩ := exists_place?_of_lt (Nat.lt_of_not_le hlt)
    exact (lt_size_of_place? ((h _).trans hp)).false
  exact Nat.le_antisymm (hle fun id => (h id).symm) (hle h)

/-! ## Arenas -/

/-- The two sides of the places of a tree agree. -/
structure IsArena (t : Tree H) : Prop where
  /-- The root stands under itself and is part of the document. -/
  root : ∃ p, t.place? root = some p ∧ p.parent = Tree.root ∧ p.runtimeOnly = false
  /-- Every other node stands under one that was made before it. -/
  parent_lt : ∀ {id p}, t.place? id = some p → id ≠ Tree.root → p.parent < id
  /-- The children of a node are the nodes that stand under it, in the order in which they were
  made. -/
  children : ∀ {id p}, t.place? id = some p →
    p.children = (List.range t.size).filter fun c => t.parent? c = some id
  /-- What stands under a node outside the document is outside the document. -/
  runtimeOnly : ∀ {id p q}, t.place? id = some p → t.place? p.parent = some q →
    q.runtimeOnly = true → p.runtimeOnly = true

lemma IsArena.congr (h : t.IsArena) (hsame : ∀ id, t'.place? id = t.place? id) :
    t'.IsArena where
  root := by simpa only [hsame] using h.root
  parent_lt := by simpa only [hsame] using @h.parent_lt
  children := by
    simpa only [hsame, size_congr hsame, fun id => parent?_congr (hsame id)] using @h.children
  runtimeOnly := by simpa only [hsame] using @h.runtimeOnly

/-- A tree of one node that stands under itself. -/
lemma isArena_of_singleton (hsize : t.size = 1) (hn : t.node? root = some n)
    (hparent : n.parent = root) (hchildren : n.childNodes = []) (hflag : n.runtimeOnly = false) :
    t.IsArena := by
  have hp := place?_of_node? hn
  have hid : ∀ {id p}, t.place? id = some p → id = Tree.root ∧ p = n.place := by
    intro id p h
    have hlt := lt_size_of_place? h
    obtain rfl : id = Tree.root := Nat.lt_one_iff.mp (hsize ▸ hlt)
    exact ⟨rfl, Option.some.inj (h.symm.trans hp)⟩
  have hnone : t.parent? Tree.root = none := by
    rw [parent?_eq_of_place? hp]
    exact if_pos hparent
  refine ⟨⟨_, hp, hparent, hflag⟩, fun h hne => absurd (hid h).1 hne, fun h => ?_, ?_⟩
  · obtain ⟨rfl, rfl⟩ := hid h
    rw [hsize, List.range_one, List.filter_singleton, show (0 : Nat) = Tree.root from rfl, hnone]
    exact hchildren
  · intro id p q h h' hq
    obtain ⟨-, rfl⟩ := hid h'
    cases hq.symm.trans hflag

namespace IsArena

lemma size_pos (h : t.IsArena) : 0 < t.size := by
  obtain ⟨p, hp, -⟩ := h.root
  exact Nat.zero_lt_of_lt (lt_size_of_place? hp)

lemma parent?_root (h : t.IsArena) : t.parent? Tree.root = none := by
  obtain ⟨p, hp, hparent, -⟩ := h.root
  rw [parent?_eq_of_place? hp, if_pos hparent]

lemma parent?_eq (h : t.IsArena) (hp : t.place? id = some p) (hid : id ≠ Tree.root) :
    t.parent? id = some p.parent := by
  rw [parent?_eq_of_place? hp, if_neg (h.parent_lt hp hid).ne]

lemma lt_of_parent? (h : t.IsArena) {parent : NodeId} (hc : t.parent? c = some parent) :
    parent < c ∧ c < t.size := by
  obtain ⟨p, hp, rfl, -⟩ := exists_place?_of_parent? hc
  refine ⟨h.parent_lt hp ?_, lt_size_of_place? hp⟩
  rintro rfl
  rw [h.parent?_root] at hc
  cases hc

lemma parent_lt_size (h : t.IsArena) (hp : t.place? id = some p) : p.parent < t.size := by
  by_cases hid : id = Tree.root
  · subst hid
    obtain ⟨q, hq, hroot, -⟩ := h.root
    rw [Option.some.inj (hp.symm.trans hq), hroot]
    exact h.size_pos
  · exact (h.parent_lt hp hid).trans (lt_size_of_place? hp)

lemma mem_childNodes_iff (h : t.IsArena) : c ∈ t.childNodes id ↔ t.parent? c = some id := by
  constructor
  · intro hc
    rcases hnode : t.node? id with - | n
    · simp [childNodes, hnode] at hc
    · have hp := place?_of_node? hnode
      rw [childNodes_eq_of_place? hp, h.children hp] at hc
      simpa using (List.mem_filter.mp hc).2
  · intro hc
    obtain ⟨hlt, hsize⟩ := h.lt_of_parent? hc
    obtain ⟨p, hp⟩ := exists_place?_of_lt (hlt.trans hsize)
    rw [childNodes_eq_of_place? hp, h.children hp]
    exact List.mem_filter.mpr ⟨List.mem_range.mpr hsize, by simpa using hc⟩

end IsArena

/-! ## A new node -/

lemma place?_update (t : Tree H) (f : Node H → Node H) (j : NodeId) :
    (t.update id f).place? j = if j = id then (t.node? id).map fun n => (f n).place else
      t.place? j := by
  split
  · next hj =>
    subst hj
    simp [place?, update, node?, Array.getElem?_modify, Option.map_map, Function.comp_def]
  · next hj => rw [place?, node?_update_of_ne hj, place?]

lemma place?_add (hparent : n.parent < t.size) (j : NodeId) :
    (t.add n).place? j = if j = t.size then some n.place else
      if j = n.parent then (t.place? j).map (·.adopt t.size) else t.place? j := by
  have hpush : ∀ j, Tree.node? { t with nodes := t.nodes.push n } j =
      if j = t.size then some n else t.node? j := fun j => Array.getElem?_push
  rw [add, adopt, place?_update]
  split
  · next hj =>
    subst hj
    rw [hpush, if_neg hparent.ne, if_neg hparent.ne, place?, Option.map_map]
    congr 1
    funext m
    simp [Node.place, Node.childNodes, Place.adopt]
  · rw [place?, hpush]
    split
    · rfl
    · rfl

section Add

variable (hparent : n.parent < t.size)

include hparent

lemma place?_add_size : (t.add n).place? t.size = some n.place := by
  rw [place?_add hparent, if_pos rfl]

lemma parent?_add_size : (t.add n).parent? t.size = some n.parent := by
  rw [parent?_eq_of_place? (place?_add_size hparent)]
  exact if_neg hparent.ne

/-- A node that was there keeps its place. -/
lemma exists_place?_add {j : NodeId} (hp : t.place? j = some p) :
    ∃ p', (t.add n).place? j = some p' ∧ p.IsSame p' := by
  rw [place?_add hparent, if_neg (lt_size_of_place? hp).ne, hp]
  split
  · exact ⟨_, rfl, .refl p⟩
  · exact ⟨p, rfl, .refl p⟩

/-- A node but the new one was there, whether or not it has the new one as a child now. -/
lemma exists_place?_of_add {j : NodeId} (hj : j ≠ t.size) {p' : Place}
    (hp' : (t.add n).place? j = some p') :
    ∃ p, t.place? j = some p ∧ p.IsSame p' ∧
      p'.children = p.children ++ if j = n.parent then [t.size] else [] := by
  rw [place?_add hparent, if_neg hj] at hp'
  split at hp'
  · next heq =>
    obtain ⟨p, hp, rfl⟩ := Option.map_eq_some_iff.mp hp'
    exact ⟨p, hp, .refl p, by rw [if_pos heq]; rfl⟩
  · next hne => exact ⟨p', hp', .refl p', by rw [if_neg hne, List.append_nil]⟩

lemma parent?_add_of_ne {j : NodeId} (hj : j ≠ t.size) :
    (t.add n).parent? j = t.parent? j := by
  rcases hp : t.place? j with - | p
  · refine parent?_congr (Eq.trans ?_ hp.symm)
    rw [place?_add hparent, if_neg hj, hp]
    split <;> rfl
  · obtain ⟨p', hp', hsame⟩ := exists_place?_add hparent hp
    rw [parent?_eq_of_place? hp', parent?_eq_of_place? hp, hsame.2.1]

/-- The nodes that stand under a node, with the new one among them if that is its parent. -/
lemma filter_parent?_add (id : NodeId) :
    ((List.range (t.add n).size).filter fun c => (t.add n).parent? c = some id) =
      ((List.range t.size).filter fun c => t.parent? c = some id) ++
        if id = n.parent then [t.size] else [] := by
  rw [size_add, List.range_succ, List.filter_append, List.filter_singleton,
    parent?_add_size hparent]
  congr 1
  · refine List.filter_congr fun c hc => ?_
    rw [parent?_add_of_ne hparent (List.mem_range.mp hc).ne]
  · simp [eq_comm]

lemma IsArena.add (h : t.IsArena) (hnone : n.childNodes = [])
    (hflag : t.isRuntimeOnly n.parent = true → n.runtimeOnly = true) : (t.add n).IsArena where
  root := by
    obtain ⟨p, hp, hroot, hdocument⟩ := h.root
    obtain ⟨p', hp', -, hparent', hflag'⟩ := exists_place?_add hparent hp
    exact ⟨p', hp', hparent'.trans hroot, hflag'.trans hdocument⟩
  parent_lt {id p'} hp' hid := by
    by_cases hj : id = t.size
    · subst hj
      obtain rfl := Option.some.inj ((place?_add_size hparent).symm.trans hp')
      exact hparent
    · obtain ⟨p, hp, hsame, -⟩ := exists_place?_of_add hparent hj hp'
      rw [hsame.2.1]
      exact h.parent_lt hp hid
  children {id p'} hp' := by
    rw [filter_parent?_add hparent]
    by_cases hj : id = t.size
    · subst hj
      obtain rfl := Option.some.inj ((place?_add_size hparent).symm.trans hp')
      rw [if_neg hparent.ne', List.append_nil]
      -- nothing stands below the new node, as a parent has the smaller number
      refine hnone.trans (List.filter_eq_nil_iff.mpr fun c _ hc => ?_).symm
      have hlt := h.lt_of_parent? (of_decide_eq_true hc)
      exact (hlt.1.trans hlt.2).false
    · obtain ⟨p, hp, -, hchildren⟩ := exists_place?_of_add hparent hj hp'
      rw [hchildren, h.children hp]
  runtimeOnly {id p' q'} hp' hq' hq := by
    by_cases hj : id = t.size
    · subst hj
      obtain rfl := Option.some.inj ((place?_add_size hparent).symm.trans hp')
      obtain ⟨q, hqold, hsame, -⟩ := exists_place?_of_add hparent hparent.ne hq'
      exact hflag ((isRuntimeOnly_eq_of_place? hqold).trans (hsame.2.2.symm.trans hq))
    · obtain ⟨p, hp, hsame, -⟩ := exists_place?_of_add hparent hj hp'
      rw [hsame.2.1] at hq'
      obtain ⟨q, hqold, hsameq, -⟩ :=
        exists_place?_of_add hparent (h.parent_lt_size hp).ne hq'
      exact hsame.2.2.trans (h.runtimeOnly hp hqold (hsameq.2.2.symm.trans hq))

end Add

/-! ## Later trees -/

/-- A later tree has every node of an earlier one at the same place. -/
structure Extends (t t' : Tree H) : Prop where
  isArena : t.IsArena → t'.IsArena
  place : ∀ {id p}, t.place? id = some p → ∃ p', t'.place? id = some p' ∧ p.IsSame p'

namespace Extends

lemma of_place?_eq (h : ∀ id, t'.place? id = t.place? id) : t.Extends t' where
  isArena ht := ht.congr h
  place {id p} hp := ⟨p, (h id).trans hp, .refl p⟩

lemma refl (t : Tree H) : t.Extends t := of_place?_eq fun _ => rfl

lemma trans (h : t.Extends t') (h' : t'.Extends t'') : t.Extends t'' where
  isArena ht := h'.isArena (h.isArena ht)
  place hp := by
    obtain ⟨p', hp', hsame⟩ := h.place hp
    obtain ⟨p'', hp'', hsame'⟩ := h'.place hp'
    exact ⟨p'', hp'', hsame.trans hsame'⟩

lemma lt_size (h : t.Extends t') (hid : id < t.size) : id < t'.size := by
  obtain ⟨p, hp⟩ := exists_place?_of_lt hid
  obtain ⟨p', hp', -⟩ := h.place hp
  exact lt_size_of_place? hp'

lemma isRuntimeOnly_eq (h : t.Extends t') (hid : id < t.size) :
    t'.isRuntimeOnly id = t.isRuntimeOnly id := by
  obtain ⟨p, hp⟩ := exists_place?_of_lt hid
  obtain ⟨p', hp', hsame⟩ := h.place hp
  rw [isRuntimeOnly_eq_of_place? hp', isRuntimeOnly_eq_of_place? hp, hsame.2.2]

lemma add (hparent : n.parent < t.size) (hnone : n.childNodes = [])
    (hflag : t.isRuntimeOnly n.parent = true → n.runtimeOnly = true) : t.Extends (t.add n) where
  isArena ht := .add hparent ht hnone hflag
  place := exists_place?_add hparent

end Extends

/-! ## The way up -/

namespace IsArena

lemma getLast?_climb (h : t.IsArena) (hid : id ≠ Tree.root) (hlt : id < t.size) {steps : Nat}
    (hsteps : id ≤ steps) : (t.climb steps id).getLast? = some Tree.root := by
  induction steps generalizing id with
  | zero => exact absurd (Nat.le_zero.mp hsteps) hid
  | succ steps ih =>
    obtain ⟨p, hp⟩ := exists_place?_of_lt hlt
    have hparent := h.parent_lt hp hid
    rw [climb, h.parent?_eq hp hid, List.getLast?_cons]
    by_cases hroot : p.parent = Tree.root
    · have hnone : t.climb steps p.parent = [] := by
        cases steps with
        | zero => rfl
        | succ steps => rw [climb, hroot, h.parent?_root]
      rw [hnone, hroot]
      rfl
    · rw [ih hroot (hparent.trans hlt) (Nat.le_of_lt_succ (hparent.trans_le hsteps))]
      rfl

/-- The way up from a node ends at the root. -/
lemma getLast?_ancestors (h : t.IsArena) (hid : id ≠ Tree.root) (hlt : id < t.size) :
    (t.ancestors id).getLast? = some Tree.root := h.getLast?_climb hid hlt le_rfl

/-! ## The lists of children -/

lemma nodup_childNodes (h : t.IsArena) (id : NodeId) : (t.childNodes id).Nodup := by
  rcases hnode : t.node? id with - | n
  · rw [childNodes, hnode]
    exact .nil
  · rw [childNodes_eq_of_place? (place?_of_node? hnode), h.children (place?_of_node? hnode)]
    exact List.nodup_range.filter _

/-- A node is in the list of its parent. -/
lemma mem_childNodes_parent (h : t.IsArena) (hn : t.node? id = some n) (hid : id ≠ Tree.root) :
    id ∈ t.childNodes n.parent :=
  h.mem_childNodes_iff.mpr (h.parent?_eq (place?_of_node? hn) hid)

/-- In all lists of children together a node stands once. -/
lemma count_flatMap_childNodes (h : t.IsArena) (hid : id ≠ Tree.root) (hlt : id < t.size) :
    ((List.range t.size).flatMap t.childNodes).count id = 1 := by
  obtain ⟨p, hp⟩ := exists_place?_of_lt hlt
  have hparent := h.parent?_eq hp hid
  refine List.count_eq_one_of_mem (List.nodup_flatMap.mpr ⟨fun j _ => h.nodup_childNodes j, ?_⟩) ?_
  · refine List.nodup_range.imp fun {i j} hne c hi hj => hne ?_
    rw [h.mem_childNodes_iff] at hi hj
    exact Option.some.inj (hi.symm.trans hj)
  · refine List.mem_flatMap.mpr ⟨p.parent, List.mem_range.mpr ?_, h.mem_childNodes_iff.mpr hparent⟩
    exact (h.lt_of_parent? hparent).1.trans hlt

/-! ## What is beneath a node -/

lemma isRuntimeOnly_of_parent? (h : t.IsArena) {parent : NodeId} (hc : t.parent? c = some parent)
    (hparent : t.isRuntimeOnly parent = true) : t.isRuntimeOnly c = true := by
  obtain ⟨p, hp, rfl, -⟩ := exists_place?_of_parent? hc
  obtain ⟨q, hq⟩ := exists_place?_of_lt ((h.lt_of_parent? hc).1.trans (lt_size_of_place? hp))
  rw [isRuntimeOnly_eq_of_place? hq] at hparent
  rw [isRuntimeOnly_eq_of_place? hp]
  exact h.runtimeOnly hp hq hparent

lemma isRuntimeOnly_of_mem_walk (h : t.IsArena) {steps : Nat} {waiting : List NodeId}
    (hwaiting : ∀ id ∈ waiting, t.isRuntimeOnly id = true) :
    ∀ id ∈ t.walk steps waiting, t.isRuntimeOnly id = true := by
  induction steps generalizing waiting with
  | zero => exact fun _ h => absurd h List.not_mem_nil
  | succ steps ih =>
    cases waiting with
    | nil => exact fun _ h => absurd h List.not_mem_nil
    | cons id waiting =>
      obtain ⟨hid, hwaiting⟩ := List.forall_mem_cons.mp hwaiting
      refine List.forall_mem_cons.mpr ⟨hid, ih fun c hc => ?_⟩
      rcases List.mem_append.mp hc with hc | hc
      · exact h.isRuntimeOnly_of_parent? (h.mem_childNodes_iff.mp hc) hid
      · exact hwaiting c hc

/-- Everything beneath a node outside the document is outside the document. -/
lemma isRuntimeOnly_of_mem_descendants (h : t.IsArena) (hid : t.isRuntimeOnly id = true) :
    ∀ c ∈ t.descendants id, t.isRuntimeOnly c = true :=
  h.isRuntimeOnly_of_mem_walk fun _ hc =>
    h.isRuntimeOnly_of_parent? (h.mem_childNodes_iff.mp hc) hid

end IsArena

end Tree

end TaggedOutline
