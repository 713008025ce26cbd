import Mathlib.Tactic.Lemma
import TaggedOutline.Tree.Build

/-!
# New children of a node

Nodes are never taken away, and a new one stands behind all others.  The items of a body, the
children of a description and the nodes of an insertion all come into a tree in the same way: each
is a child, which is a text or a new node (`Tree.addSeeds`), and `Tree.addSeeds_spec` says where
they are then.
-/

namespace TaggedOutline

namespace Tree

variable {H : Type}

/-! ## Nodes of a changed tree -/

@[simp] lemma size_update (t : Tree H) (id : NodeId) (f : Node H → Node H) :
    (t.update id f).size = t.size := by
  simp [update, size]

lemma node?_update_self {t : Tree H} {id : NodeId} {n : Node H} (h : t.node? id = some n)
    (f : Node H → Node H) : (t.update id f).node? id = some (f n) := by
  simp only [node?] at h
  simp [update, node?, Array.getElem?_modify, h]

lemma node?_update_of_ne {t : Tree H} {id j : NodeId} (h : j ≠ id) (f : Node H → Node H) :
    (t.update id f).node? j = t.node? j := by
  have h' : id ≠ j := fun e => h e.symm
  simp [update, node?, Array.getElem?_modify, h']

lemma lt_size_of_node? {t : Tree H} {id : NodeId} {n : Node H} (h : t.node? id = some n) :
    id < t.size := by
  obtain ⟨hlt, -⟩ := Array.getElem?_eq_some_iff.mp h
  exact hlt

section

variable {t : Tree H} {id j : NodeId} {n : Node H}

lemma exists_node?_of_lt (h : id < t.size) : ∃ n, t.node? id = some n :=
  ⟨_, Array.getElem?_eq_getElem h⟩

/-- A node of a changed tree was there before. -/
lemma exists_of_node?_update {f : Node H → Node H} {m : Node H}
    (h : (t.update id f).node? j = some m) :
    ∃ n, t.node? j = some n ∧ (j = id ∧ m = f n ∨ j ≠ id ∧ m = n) := by
  by_cases hj : j = id
  · subst hj
    obtain ⟨n, hn⟩ := exists_node?_of_lt (size_update t j f ▸ lt_size_of_node? h)
    exact ⟨n, hn, .inl ⟨rfl, Option.some.inj (h.symm.trans (node?_update_self hn f))⟩⟩
  · exact ⟨m, (node?_update_of_ne hj f).symm.trans h, .inr ⟨hj, rfl⟩⟩

/-- The tree with one more node behind the others, which stands in no list of children yet. -/
def push (t : Tree H) (n : Node H) : Tree H := { t with nodes := t.nodes.push n }

lemma size_push (t : Tree H) (n : Node H) : (t.push n).size = t.size + 1 := Array.size_push n

lemma node?_push (t : Tree H) (n : Node H) (j : NodeId) :
    (t.push n).node? j = if j = t.size then some n else t.node? j := Array.getElem?_push

lemma node?_push_self (t : Tree H) (n : Node H) : (t.push n).node? t.size = some n := by
  rw [node?_push, if_pos rfl]

lemma node?_push_of_node? {m : Node H} (hm : t.node? j = some m) (n : Node H) :
    (t.push n).node? j = some m := by
  rw [node?_push, if_neg (Nat.ne_of_lt (lt_size_of_node? hm))]
  exact hm

/-- A node of the longer tree was there before, or it is the new one. -/
lemma exists_of_node?_push {m : Node H} (h : (t.push n).node? j = some m) :
    t.node? j = some m ∨ j = t.size ∧ m = n := by
  rw [node?_push] at h
  split at h
  · next hj => exact .inr ⟨hj, (Option.some.inj h).symm⟩
  · exact .inl h

end

lemma size_add (t : Tree H) (n : Node H) : (t.add n).size = t.size + 1 := by
  simp [add, adopt, update, size]

end Tree

lemma Node.mem_childNodes_adopt {H : Type} {n : Node H} {c id : NodeId}
    (h : c ∈ Node.childNodes { n with children := n.children ++ [.node id] }) :
    c ∈ n.childNodes ∨ c = id := by
  rw [Node.childNodes, List.filterMap_append] at h
  exact (List.mem_append.mp h).imp_right List.mem_singleton.mp

/-! ## Children as new nodes -/

/-- The child that an item of a body stands for, as a new node. -/
def BodyItem.seed (settings : LayoutSettings) (parent : NodeId) (runtimeOnly : Bool) :
    BodyItem → Child (Node Handler)
  | .text s => .text s
  | .tag header body bracket => .node (.ofTag settings parent runtimeOnly header body bracket)

/-- The child that a described child stands for, as a new node. -/
def Spec.seed (parent : NodeId) (runtimeOnly : Bool) : Child Spec → Child (Node Handler)
  | .text s => .text s
  | .node s => .node (.ofSpec parent runtimeOnly s)

/-- A node as it is when it comes under its parent. -/
structure Node.IsSeed (n : Node Handler) (parent : NodeId) (runtimeOnly : Bool) : Prop where
  parent : n.parent = parent
  runtimeOnly : n.runtimeOnly = runtimeOnly
  children : n.children = []
  state : n.state = .unparsed
  payload : n.payload = none
  action : n.action = none
  overrides : n.overrides = []
  handler : n.handler = none
  expanded : n.expanded = false
  diagnostics : n.diagnostics = []

lemma Node.IsSeed.ofTag (settings : LayoutSettings) (parent : NodeId) (runtimeOnly : Bool)
    (header body : Text) (bracket : Bool) :
    IsSeed (.ofTag settings parent runtimeOnly header body bracket) parent runtimeOnly :=
  ⟨rfl, rfl, rfl, rfl, rfl, rfl, rfl, rfl, rfl, rfl⟩

lemma Node.IsSeed.ofSpec (parent : NodeId) (runtimeOnly : Bool) (spec : Spec) :
    IsSeed (.ofSpec parent runtimeOnly spec) parent runtimeOnly :=
  ⟨rfl, rfl, rfl, rfl, rfl, rfl, rfl, rfl, rfl, rfl⟩

lemma BodyItem.isSeed_of_mem {settings : LayoutSettings} {parent : NodeId} {runtimeOnly : Bool}
    {items : List BodyItem} {n : Node Handler}
    (h : .node n ∈ items.map (BodyItem.seed settings parent runtimeOnly)) :
    n.IsSeed parent runtimeOnly := by
  obtain ⟨item, -, hitem⟩ := List.mem_map.mp h
  cases item with
  | text s => cases hitem
  | tag header body bracket =>
    obtain rfl := Child.node.inj hitem
    exact .ofTag settings parent runtimeOnly header body bracket

lemma Spec.isSeed_of_mem {parent : NodeId} {runtimeOnly : Bool} {items : List (Child Spec)}
    {n : Node Handler} (h : .node n ∈ items.map (Spec.seed parent runtimeOnly)) :
    n.IsSeed parent runtimeOnly := by
  obtain ⟨item, -, hitem⟩ := List.mem_map.mp h
  cases item with
  | text s => cases hitem
  | node s =>
    obtain rfl := Child.node.inj hitem
    exact .ofSpec parent runtimeOnly s

namespace Tree

/-- The nodes among some children. -/
def newNodes : List (Child (Node Handler)) → List (Node Handler)
  | [] => []
  | .text _ :: seeds => newNodes seeds
  | .node n :: seeds => n :: newNodes seeds

/-- Children by number, when the next new node has the number `next`. -/
def numbered (next : NodeId) : List (Child (Node Handler)) → List (Child NodeId)
  | [] => []
  | .text s :: seeds => .text s :: numbered next seeds
  | .node _ :: seeds => .node next :: numbered (next + 1) seeds

/-- The tree with new children under a node. -/
def addSeeds (parent : NodeId) : List (Child (Node Handler)) → Tree Handler → Tree Handler
  | [], t => t
  | .text s :: seeds, t => addSeeds parent seeds (t.adopt parent (.text s))
  | .node n :: seeds, t => addSeeds parent seeds (t.add n)

variable {t : Tree Handler} {id : NodeId} {n m : Node Handler}

lemma addItems_eq (settings : LayoutSettings) (parent : NodeId) (runtimeOnly : Bool)
    (items : List BodyItem) (t : Tree Handler) :
    t.addItems settings parent runtimeOnly items =
      t.addSeeds parent (items.map (BodyItem.seed settings parent runtimeOnly)) := by
  induction items generalizing t with
  | nil => rfl
  | cons item items ih => cases item <;> exact ih _

lemma addSpecs_eq (parent : NodeId) (runtimeOnly : Bool) (items : List (Child Spec))
    (t : Tree Handler) :
    t.addSpecs parent runtimeOnly items =
      t.addSeeds parent (items.map (Spec.seed parent runtimeOnly)) := by
  induction items generalizing t with
  | nil => rfl
  | cons item items ih => cases item <;> exact ih _

lemma journal_addSeeds (parent : NodeId) (seeds : List (Child (Node Handler)))
    (t : Tree Handler) : (t.addSeeds parent seeds).journal = t.journal := by
  induction seeds generalizing t with
  | nil => rfl
  | cons seed seeds ih => cases seed <;> exact ih _

lemma mem_newNodes {seeds : List (Child (Node Handler))} (h : n ∈ newNodes seeds) :
    .node n ∈ seeds := by
  induction seeds with
  | nil => exact absurd h List.not_mem_nil
  | cons seed seeds ih =>
    cases seed with
    | text s => exact List.mem_cons_of_mem _ (ih h)
    | node m =>
      rcases List.mem_cons.mp h with rfl | h
      · exact List.mem_cons_self
      · exact List.mem_cons_of_mem _ (ih h)

lemma newNodes_append (seeds seeds' : List (Child (Node Handler))) :
    newNodes (seeds ++ seeds') = newNodes seeds ++ newNodes seeds' := by
  induction seeds with
  | nil => rfl
  | cons seed seeds ih =>
    cases seed with
    | text s => exact ih
    | node n => exact congrArg (n :: ·) ih

lemma add_spec (hn : t.node? id = some n) (hm : m.parent = id) :
    (t.add m).size = t.size + 1 ∧
      (t.add m).node? id = some { n with children := n.children ++ [.node t.size] } ∧
      (∀ j < t.size, j ≠ id → (t.add m).node? j = t.node? j) ∧
      (t.add m).node? t.size = some m := by
  have hlt := lt_size_of_node? hn
  have hadd : t.add m = (t.push m).adopt id (.node t.size) := hm ▸ rfl
  refine ⟨size_add t m, ?_, fun j hj hne => ?_, ?_⟩
  · exact hadd ▸ node?_update_self (node?_push_of_node? hn m) _
  · rw [hadd, adopt, node?_update_of_ne hne, node?_push, if_neg (Nat.ne_of_lt hj)]
  · rw [hadd, adopt, node?_update_of_ne (Nat.ne_of_gt hlt), node?_push_self]

/-- New children stand behind the nodes of the tree and at the end of the list of their parent. -/
theorem addSeeds_spec {seeds : List (Child (Node Handler))} (hn : t.node? id = some n)
    (h : ∀ m ∈ newNodes seeds, m.parent = id) :
    (t.addSeeds id seeds).size = t.size + (newNodes seeds).length ∧
      (t.addSeeds id seeds).node? id =
        some { n with children := n.children ++ numbered t.size seeds } ∧
      (∀ j < t.size, j ≠ id → (t.addSeeds id seeds).node? j = t.node? j) ∧
      ∀ k, (t.addSeeds id seeds).node? (t.size + k) = (newNodes seeds)[k]? := by
  induction seeds generalizing t n with
  | nil =>
    have hnone : ∀ k, t.node? (t.size + k) = none := fun k => by simp [node?, size]
    exact ⟨rfl, by simpa [addSeeds, numbered] using hn, fun _ _ _ => rfl,
      by simpa [addSeeds, newNodes] using hnone⟩
  | cons seed seeds ih =>
    have hlt := lt_size_of_node? hn
    cases seed with
    | text s =>
      have hadopted : (t.adopt id (.text s)).node? id =
          some { n with children := n.children ++ [.text s] } := node?_update_self hn _
      obtain ⟨hsize, hhere, hothers, hnew⟩ := ih hadopted h
      have hsize' : (t.adopt id (.text s)).size = t.size := size_update t id _
      rw [hsize'] at hsize hhere hothers hnew
      refine ⟨hsize, ?_, fun j hj hne => ?_, hnew⟩
      · rw [addSeeds, hhere]
        simp [numbered]
      · rw [addSeeds, hothers j hj hne]
        exact node?_update_of_ne hne _
    | node m =>
      obtain ⟨hm, hseeds⟩ := List.forall_mem_cons.mp h
      obtain ⟨hsize', hadopted, hothers', hmade⟩ := add_spec hn hm
      obtain ⟨hsize, hhere, hothers, hnew⟩ := ih hadopted hseeds
      rw [hsize'] at hsize hhere hothers hnew
      refine ⟨?_, ?_, fun j hj hne => ?_, fun k => ?_⟩
      · rw [addSeeds, hsize, newNodes, List.length_cons]
        omega
      · rw [addSeeds, hhere]
        simp [numbered]
      · rw [addSeeds, hothers j (Nat.lt_succ_of_lt hj) hne, hothers' j hj hne]
      · rw [addSeeds, newNodes]
        -- the first number is its own, and those of the seeds behind it are one further
        cases k with
        | zero =>
          rw [Nat.add_zero, hothers t.size (Nat.lt_succ_self _) (Nat.ne_of_gt hlt), hmade]
          rfl
        | succ k =>
          have hk : t.size + (k + 1) = t.size + 1 + k := by omega
          rw [hk, hnew k]
          rfl

end Tree

end TaggedOutline
