import TaggedOutline.Proofs.Changes
import TaggedOutline.Proofs.Linked

/-!
# The order of the walk

The walk beneath a node keeps a list of waiting nodes, takes the first of them, and puts its
children in front of the others.  Such a walk lists every waiting node with all that is beneath it
before it comes to the next one (`Tree.IsLinked.walk_eq`), so that the nodes beneath a node come in
pre-order: a child, what is beneath it, and then the next child.  Nothing else is a pre-order
(`Tree.IsLinked.isPreorder_iff`).

A tree is linked whatever is done with it, even by programs that move nodes into the document and
out of it.  So all searches go through the nodes in this order (`Setup.descendants_preorder`).
-/

namespace TaggedOutline

namespace Tree

variable {H : Type} {t : Tree H} {id c d : NodeId}

/-- Lists of nodes are the pre-order of what is beneath each node: its children from left to right,
each with the list of its own behind it. -/
def IsPreorder (t : Tree H) (below : NodeId → List NodeId) : Prop :=
  ∀ id, below id = (t.childNodes id).flatMap fun c => c :: below c

namespace IsLinked

variable (h : t.IsLinked)

include h

/-- A walk that has steps enough lists each waiting node with what a walk beneath it lists, and then
goes on to the next one. -/
theorem walk_eq {steps : Nat} {waiting : List NodeId}
    (hsteps : (waiting.map fun w => (t.beneath w).card + 1).sum ≤ steps) :
    t.walk steps waiting =
      waiting.flatMap fun w => w :: t.walk (t.beneath w).card (t.childNodes w) := by
  induction steps using Nat.strong_induction_on generalizing waiting with
  | _ steps ih =>
    cases waiting with
    | nil => cases steps <;> rfl
    | cons w waiting =>
      rw [List.map_cons, List.sum_cons] at hsteps
      obtain ⟨steps, rfl⟩ := Nat.exists_eq_succ_of_ne_zero (by omega : steps ≠ 0)
      have hmore : ((t.childNodes w ++ waiting).map fun w => (t.beneath w).card + 1).sum ≤
          steps := by
        rw [List.map_append, List.sum_append, h.sum_children]
        omega
      -- the walk beneath the first node lists its children in the same way
      have hbelow := ih (t.beneath w).card (by omega) (h.sum_children w).le
      rw [walk, ih steps (Nat.lt_succ_self steps) hmore, List.flatMap_append, List.flatMap_cons,
        hbelow, List.cons_append]

lemma descendants_eq_walk (id : NodeId) :
    t.descendants id = t.walk (t.beneath id).card (t.childNodes id) := by
  have hsteps : (t.beneath id).card ≤ t.size :=
    (Finset.card_filter_le _ _).trans (Finset.card_range _).le
  have hbelow := (h.sum_children id).le
  rw [descendants, h.walk_eq (hbelow.trans hsteps), h.walk_eq hbelow]

lemma isPreorder_descendants : t.IsPreorder t.descendants := fun id => by
  rw [h.descendants_eq_walk, h.walk_eq (h.sum_children id).le]
  simp only [h.descendants_eq_walk]

/-- The walk beneath the nodes is their only pre-order. -/
theorem isPreorder_iff {below : NodeId → List NodeId} :
    t.IsPreorder below ↔ below = t.descendants := by
  constructor
  · intro hbelow
    funext id
    refine h.induction_children (P := fun id => below id = t.descendants id) (fun id ih => ?_) id
    rw [hbelow id, h.isPreorder_descendants id]
    exact List.flatMap_congr fun c hc => congrArg (c :: ·) (ih c hc)
  · rintro rfl
    exact h.isPreorder_descendants

lemma notMem_descendants (id : NodeId) : id ∉ t.descendants id := fun hmem =>
  lt_irrefl id (h.lt_of_mem_ancestors (h.mem_descendants_iff.mp hmem))

/-- No node comes twice in the walk beneath another one. -/
lemma nodup_descendants (id : NodeId) : (t.descendants id).Nodup := by
  refine h.induction_children (P := fun id => (t.descendants id).Nodup) (fun id ih => ?_) id
  rw [h.isPreorder_descendants id, List.nodup_flatMap]
  refine ⟨fun c hc => List.nodup_cons.mpr ⟨h.notMem_descendants c, ih c hc⟩, ?_⟩
  refine (h.nodup_childNodes id).imp_of_mem fun {c c'} hc hc' hne d hd hd' => hne ?_
  -- a node that is listed for two children is on its way up below both
  have hway : ∀ {c : NodeId}, d ∈ c :: t.descendants c → c = d ∨ c ∈ t.ancestors d := fun hd =>
    (List.mem_cons.mp hd).imp Eq.symm h.mem_descendants_iff.mp
  exact h.eq_of_mem_ancestors hc hc' (hway hd) (hway hd')

end IsLinked

/-! ## Trees at large -/

/-- A change keeps a tree linked. -/
lemma IsLinked.change {r : Registry} {t t' : Tree Handler} (h : t.IsLinked)
    (hchange : Change r t t') : t'.IsLinked := by
  cases hchange with
  | log e => exact h.of_place?_eq (place?_log t e)
  | update id hparent _ _ hchildren => exact h.update id hparent hchildren
  | override id tag handler => exact h.of_place?_eq (place?_override t id tag handler)
  | resolve id => exact h.of_place?_eq (r.place?_resolve t id)
  | add hlt hn =>
    refine h.add (hn.parent ▸ hlt) ?_
    rw [Node.childNodes, hn.children, List.filterMap_nil]

lemma IsLinked.changes {r : Registry} {t t' : Tree Handler} (h : t.IsLinked)
    (hchanges : Changes r t t') : t'.IsLinked := by
  induction hchanges with
  | refl => exact h
  | tail _ hlast ih => exact ih.change hlast

end Tree

namespace Setup

open TaggedOutline.Tree

variable {s : Setup} {start m : Moment}

/-- Whatever is done with a tree, it is linked. -/
lemma isLinked_of_reachesFreely (hstart : s.IsStart start) (h : s.ReachesFreely start m) :
    m.tree.IsLinked :=
  (isArena_of_isStart hstart).isLinked.changes (changes_of_reachesFreely h)

/-- Whatever has been done with a tree, the walk beneath its nodes lists them in pre-order, and
nothing else does.  It lists no node twice and not the node itself, but all nodes that have it above
them. -/
theorem descendants_preorder (hstart : s.IsStart start) (h : s.ReachesFreely start m) :
    (∀ below, m.tree.IsPreorder below ↔ below = m.tree.descendants) ∧
    ∀ id, (m.tree.descendants id).Nodup ∧ id ∉ m.tree.descendants id ∧
      ∀ d, d ∈ m.tree.descendants id ↔ id ∈ m.tree.ancestors d := by
  have hlinked := isLinked_of_reachesFreely hstart h
  refine ⟨fun below => hlinked.isPreorder_iff, fun id => ⟨hlinked.nodup_descendants id, ?_, ?_⟩⟩
  · exact hlinked.notMem_descendants id
  · exact fun d => hlinked.mem_descendants_iff

/-- Someone builds a tree and adds an element under the first one of it. -/
def addUnderFirst : Hook Unit :=
  .build root fun _ => .insertText 1 "d\n".toList fun _ => pure ()

/-- An added element comes before what stands behind its parent.  It does so as well after someone
has moved the root out of the document. -/
theorem descendants_preorder_after_insertion :
    let s : Setup := {}
    let t := s.ofText "a\n  b\n    c\ne\n".toList
    let hide : Fields → Fields := fun f => { f with runtimeOnly := true }
    let start : Moment := ⟨[.program .client (.edit root hide addUnderFirst)], t⟩
    let m := s.after 80 ⟨[.program .client addUnderFirst], t.edit root hide⟩
    s.IsStart start ∧ s.ReachesFreely start m ∧ m.tree.isRuntimeOnly root = true ∧
      m.tree.IsPreorder m.tree.descendants ∧ m.tree.descendants root = [1, 3, 4, 5, 2] ∧
        ∀ d, d ∈ [1, 3, 4, 5, 2] ↔ root ∈ m.tree.ancestors d := by
  intro s t hide start m
  have hstart : s.IsStart start := .ofText _ _
  have hreaches : s.ReachesFreely start m :=
    .head (.perform [] (by decide +kernel)) (reachesFreely_of_reaches (s.reaches_after 80 _))
  have hhidden : m.tree.isRuntimeOnly root = true := by decide +kernel
  have hwalk : m.tree.descendants root = [1, 3, 4, 5, 2] := by decide +kernel
  obtain ⟨hpreorder, hbelow⟩ := descendants_preorder hstart hreaches
  exact ⟨hstart, hreaches, hhidden, (hpreorder _).mpr rfl, hwalk, hwalk ▸ (hbelow root).2.2⟩

end Setup

end TaggedOutline
