import Mathlib.Tactic.Lemma
import TaggedOutline.Tree.Subtree

/-!
# Subtrees of a tree

A `Subtree` is a value by itself.  `Subtree.IsIn` says that it is what stands beneath a node of a
tree: the nodes are those of the tree, each list of children is the one of its node, and each child
stands under the node in whose list it is.  Then the tree gives the subtree back, and the walk over
the tree runs through it in order.
-/

namespace TaggedOutline

namespace Subtree

variable {H : Type}

/-- A child by the number of its node. -/
def childId : Child (Subtree H) → Child NodeId
  | .text t => .text t
  | .node s => .node s.id

mutual

/-- A subtree is what stands beneath its node in a tree. -/
def IsIn (t : Tree H) : Subtree H → Prop
  | ⟨id, node, children⟩ =>
    t.node? id = some node ∧ node.children = children.map childId ∧ AreIn t id children

/-- Children are what stands under a node of a tree. -/
def AreIn (t : Tree H) (parent : NodeId) : List (Child (Subtree H)) → Prop
  | [] => True
  | child :: children => ChildIsIn t parent child ∧ AreIn t parent children

/-- A child is what stands under a node of a tree, which has been made before it. -/
def ChildIsIn (t : Tree H) (parent : NodeId) : Child (Subtree H) → Prop
  | .text _ => True
  | .node s => (parent < s.id ∧ s.node.parent = parent) ∧ s.IsIn t

end

@[simp] lemma childPreorders_nil : childPreorders ([] : List (Child (Subtree H))) = [] := rfl

@[simp] lemma childPreorders_cons (child : Child (Subtree H))
    (children : List (Child (Subtree H))) :
    childPreorders (child :: children) = childPreorder child ++ childPreorders children := rfl

lemma preorder_eq (s : Subtree H) : s.preorder = s.id :: childPreorders s.children := by
  cases s
  rfl

lemma isIn_iff {t : Tree H} {s : Subtree H} : s.IsIn t ↔
    t.node? s.id = some s.node ∧ s.node.children = s.children.map childId ∧
      AreIn t s.id s.children := by
  cases s
  exact Iff.rfl

lemma IsIn.here {t : Tree H} {s : Subtree H} (h : s.IsIn t) : t.node? s.id = some s.node :=
  (isIn_iff.mp h).1

/-- The numbers of the nodes among some children. -/
def childIds : List (Child (Subtree H)) → List NodeId
  | [] => []
  | .text _ :: children => childIds children
  | .node s :: children => s.id :: childIds children

lemma childNodes_eq_childIds {n : Node H} {children : List (Child (Subtree H))}
    (h : n.children = children.map childId) : n.childNodes = childIds children := by
  rw [Node.childNodes, h]
  clear h
  induction children with
  | nil => rfl
  | cons child children ih =>
    cases child with
    | text t => exact ih
    | node s => exact congrArg (s.id :: ·) ih

lemma IsIn.childNodes {t : Tree H} {s : Subtree H} (h : s.IsIn t) :
    t.childNodes s.id = childIds s.children := by
  obtain ⟨hnode, hchildren, -⟩ := isIn_iff.mp h
  rw [Tree.childNodes, hnode, Option.map_some, Option.getD_some, childNodes_eq_childIds hchildren]

/-! ## Changes elsewhere -/

mutual

/-- A subtree stays in a tree that changes elsewhere. -/
lemma IsIn.congr {t t' : Tree H} : ∀ {s : Subtree H}, s.IsIn t →
    (∀ j ∈ s.preorder, t'.node? j = t.node? j) → s.IsIn t'
  | ⟨id, _, _⟩, ⟨hnode, hchildren, hbelow⟩, hsame =>
    ⟨(hsame id List.mem_cons_self).trans hnode, hchildren,
      AreIn.congr hbelow fun j hj => hsame j (List.mem_cons_of_mem _ hj)⟩

lemma AreIn.congr {t t' : Tree H} {parent : NodeId} : ∀ {children : List (Child (Subtree H))},
    AreIn t parent children → (∀ j ∈ childPreorders children, t'.node? j = t.node? j) →
      AreIn t' parent children
  | [], _, _ => trivial
  | .text _ :: _, ⟨_, hchildren⟩, hsame => ⟨trivial, AreIn.congr hchildren hsame⟩
  | .node _ :: _, ⟨⟨hparent, hs⟩, hchildren⟩, hsame =>
    ⟨⟨hparent, IsIn.congr hs fun j hj => hsame j (List.mem_append_left _ hj)⟩,
      AreIn.congr hchildren fun j hj => hsame j (List.mem_append_right _ hj)⟩

end

/-! ## The tree gives the subtree -/

mutual

/-- A tree gives back a subtree of it, at any depth from the number of its nodes on. -/
lemma IsIn.subtreeWithin {t : Tree H} : ∀ {s : Subtree H}, s.IsIn t → ∀ depth : Nat,
    s.preorder.length ≤ depth → t.subtreeWithin depth s.id = some s
  | ⟨id, node, children⟩, ⟨hnode, hchildren, hbelow⟩, depth, hdepth => by
    obtain ⟨depth, rfl⟩ := Nat.exists_eq_succ_of_ne_zero
      (Nat.ne_of_gt (Nat.lt_of_lt_of_le (Nat.zero_lt_succ _) hdepth))
    have hlength : (childPreorders children).length ≤ depth := Nat.le_of_succ_le_succ hdepth
    rw [Tree.subtreeWithin, hnode, Option.map_some, hchildren, List.filterMap_map]
    exact congrArg (fun found => some (⟨id, node, found⟩ : Subtree H))
      (AreIn.subtreesWithin hbelow depth hlength)

lemma AreIn.subtreesWithin {t : Tree H} {parent : NodeId} :
    ∀ {children : List (Child (Subtree H))}, AreIn t parent children → ∀ depth : Nat,
      (childPreorders children).length ≤ depth →
        children.filterMap ((fun
          | .text s => some (.text s)
          | .node child => (t.subtreeWithin depth child).map .node) ∘ childId) = children
  | [], _, _, _ => rfl
  | .text _ :: _, ⟨_, hchildren⟩, depth, hdepth => by
    rw [List.filterMap_cons, AreIn.subtreesWithin hchildren depth hdepth]
    rfl
  | .node s :: children, ⟨⟨_, hs⟩, hchildren⟩, depth, hdepth => by
    have hlength : s.preorder.length + (childPreorders children).length ≤ depth := by
      rw [← List.length_append]
      exact hdepth
    have hfirst := IsIn.subtreeWithin hs depth (by omega)
    rw [List.filterMap_cons, AreIn.subtreesWithin hchildren depth (by omega)]
    simp only [Function.comp_apply, childId, hfirst, Option.map_some]

end

/-! ## The walk over the tree -/

mutual

/-- The walk runs through a subtree and goes on with what has been waiting. -/
lemma IsIn.walk {t : Tree H} : ∀ {s : Subtree H}, s.IsIn t → ∀ (steps : Nat)
    (waiting : List NodeId),
      t.walk (s.preorder.length + steps) (s.id :: waiting) = s.preorder ++ t.walk steps waiting
  | ⟨id, node, children⟩, h, steps, waiting => by
    have hsteps : (id :: childPreorders children).length + steps =
        ((childPreorders children).length + steps) + 1 := by
      rw [List.length_cons]
      omega
    rw [preorder_eq, hsteps, Tree.walk, h.childNodes, List.cons_append]
    exact congrArg (id :: ·) (AreIn.walk h.2.2 steps waiting)

lemma AreIn.walk {t : Tree H} {parent : NodeId} : ∀ {children : List (Child (Subtree H))},
    AreIn t parent children → ∀ (steps : Nat) (waiting : List NodeId),
      t.walk ((childPreorders children).length + steps) (childIds children ++ waiting) =
        childPreorders children ++ t.walk steps waiting
  | [], _, steps, waiting => by
    rw [childPreorders_nil, List.length_nil, Nat.zero_add]
    rfl
  | .text _ :: _, ⟨_, hchildren⟩, steps, waiting => AreIn.walk hchildren steps waiting
  | .node s :: children, ⟨⟨_, hs⟩, hchildren⟩, steps, waiting => by
    have hsteps : (childPreorders (.node s :: children)).length + steps =
        s.preorder.length + ((childPreorders children).length + steps) := by
      rw [childPreorders_cons, List.length_append, Nat.add_assoc]
      rfl
    rw [hsteps, childPreorders_cons, List.append_assoc, ← AreIn.walk hchildren steps waiting]
    exact IsIn.walk hs _ _

end

/-- The nodes beneath the node of a subtree are its own, in order, if the tree has as many. -/
lemma IsIn.descendants {t : Tree H} {s : Subtree H} (h : s.IsIn t)
    (hsize : (childPreorders s.children).length ≤ t.size) :
    t.descendants s.id = childPreorders s.children := by
  obtain ⟨steps, hsteps⟩ := Nat.exists_eq_add_of_le hsize
  have hnone : t.walk steps [] = [] := by cases steps <;> rfl
  have hwalk := AreIn.walk (isIn_iff.mp h).2.2 steps []
  rwa [List.append_nil, hnone, List.append_nil, ← h.childNodes, ← hsteps] at hwalk

end Subtree

end TaggedOutline
