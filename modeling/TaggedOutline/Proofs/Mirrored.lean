import TaggedOutline.Proofs.Free
import TaggedOutline.Proofs.Macros

/-!
# Copies of the nodes of a document

A tree mirrors a document if it has copies of all nodes of the document but the root, in the same
order and behind the nodes that it has from before (`Tree.Mirrors`).  The node that it has for the
root has the copies of the children of the root among its own.  Whatever is done to a node and to
its copy alike leaves the trees mirrored, be it a change of the node (`Tree.Mirrors.update`) or a
new node under it (`Tree.Mirrors.add`).
-/

namespace TaggedOutline

/-! ## Copies -/

/-- Where the nodes of a document stand in another tree: the root at `p`, the others from `first`
on. -/
def shifted (p first : Nat) : Nat → Nat
  | 0 => p
  | k + 1 => first + k

/-- A child with another number. -/
def Child.renumber (f : NodeId → NodeId) : Child NodeId → Child NodeId
  | .text s => .text s
  | .node id => .node (f id)

/-- A node is another one with other numbers, and no part of the document.  What the two remember of
their handlers does not matter. -/
structure Node.IsCopy (f : NodeId → NodeId) (n m : Node Handler) : Prop where
  tag : m.tag = n.tag
  toFields : m.toFields = { n.toFields with runtimeOnly := true }
  parent : m.parent = f n.parent
  children : m.children = n.children.map (Child.renumber f)
  state : m.state = n.state
  payload : m.payload = n.payload
  action : m.action = n.action
  overrides : m.overrides = n.overrides

/-- A change of a node leaves it in its place, and free if it was. -/
structure Node.LeavesFree (f : Node Handler → Node Handler) : Prop where
  parent : ∀ n, (f n).parent = n.parent
  isFree : ∀ n, n.IsFree → (f n).IsFree

lemma shifted_of_ne_zero (p first : Nat) {id : Nat} (h : id ≠ 0) :
    shifted p first id + 1 = first + id := by
  cases id with
  | zero => exact absurd rfl h
  | succ k => rfl

lemma shifted_ne {p first id j : Nat} (hp : p < first) (h : id ≠ j) :
    shifted p first id ≠ shifted p first j := by
  cases id <;> cases j <;> simp only [shifted, ne_eq] <;> omega

namespace Node

variable {f : NodeId → NodeId} {n m : Node Handler}

namespace IsCopy

lemma childNodes (h : n.IsCopy f m) : m.childNodes = n.childNodes.map f := by
  rw [Node.childNodes, Node.childNodes, h.children, List.filterMap_map, List.map_filterMap]
  refine List.filterMap_congr fun child _ => ?_
  cases child <;> rfl

/-- A copy has all fields of the node, but for the flag. -/
lemma field (h : n.IsCopy f m) {α : Type} (part : Fields → α)
    (hpart : ∀ fields : Fields, part { fields with runtimeOnly := true } = part fields) :
    part m.toFields = part n.toFields := (congrArg part h.toFields).trans (hpart _)

lemma edit (h : n.IsCopy f m) {change : Fields → Fields} (hchange : ∀ fields : Fields,
    change { fields with runtimeOnly := true } = { change fields with runtimeOnly := true }) :
    (n.edit change).IsCopy f (m.edit change) :=
  { h with toFields := (congrArg change h.toFields).trans (hchange _) }

lemma advance (h : n.IsCopy f m) (state : BuildState) :
    IsCopy f { n with state := n.state.later state } { m with state := m.state.later state } :=
  { h with state := congrArg (BuildState.later · state) h.state }

lemma adopt (h : n.IsCopy f m) (child : Child NodeId) :
    IsCopy f { n with children := n.children ++ [child] }
      { m with children := m.children ++ [child.renumber f] } :=
  { h with children := by rw [h.children, List.map_append, List.map_singleton] }

/-- What is remembered of a handler makes no difference. -/
lemma of_finds (h : n.IsCopy f m) {n' m' : Node Handler}
    (hn : n' = n ∨ n' = { n with handler := some .generic })
    (hm : m' = m ∨ m' = { m with handler := some .generic }) : n'.IsCopy f m' := by
  rcases hn with rfl | rfl <;> rcases hm with rfl | rfl <;> exact { h with }

lemma ofTag (f : NodeId → NodeId) (settings : LayoutSettings) (parent : NodeId)
    (runtimeOnly : Bool) (header body : Text) (bracket : Bool) :
    IsCopy f (.ofTag settings parent runtimeOnly header body bracket)
      (.ofTag settings (f parent) true header body bracket) :=
  ⟨rfl, rfl, rfl, rfl, rfl, rfl, rfl, rfl⟩

lemma ofSpec (f : NodeId → NodeId) (parent : NodeId) (runtimeOnly : Bool) (s : Spec) :
    IsCopy f (.ofSpec parent runtimeOnly s) (.ofSpec (f parent) true s) :=
  ⟨rfl, rfl, rfl, rfl, rfl, rfl, rfl, rfl⟩

end IsCopy

namespace LeavesFree

lemma edit (change : Fields → Fields) : LeavesFree (·.edit change) :=
  ⟨fun _ => rfl, fun _ h => ⟨h.overrides, h.handler⟩⟩

lemma advance (state : BuildState) :
    LeavesFree fun n => { n with state := n.state.later state } :=
  ⟨fun _ => rfl, fun _ h => ⟨h.overrides, h.handler⟩⟩

lemma adopt (child : Child NodeId) :
    LeavesFree fun n => { n with children := n.children ++ [child] } :=
  ⟨fun _ => rfl, fun _ h => ⟨h.overrides, h.handler⟩⟩

end LeavesFree

end Node

/-- A new child and its copy outside the document. -/
inductive Child.IsSeedCopy (f : NodeId → NodeId) (parent : NodeId) :
    Child (Node Handler) → Child (Node Handler) → Prop
  | text (s : Text) : IsSeedCopy f parent (.text s) (.text s)
  | node {n m : Node Handler} {runtimeOnly : Bool} (hn : n.IsSeed parent runtimeOnly)
      (hm : m.IsSeed (f parent) true) (hcopy : n.IsCopy f m) :
      IsSeedCopy f parent (.node n) (.node m)

namespace Tree

/-! ## Mirrored trees -/

/-- The elements among the items of a body are numbered one after the other. -/
lemma childNodes_of_itemChildren {H : Type} {n : Node H} {next : Nat} {items : List BodyItem}
    (h : n.children = itemChildren next items) :
    n.childNodes = List.range' next (items.filter BodyItem.isTag).length := by
  rw [Node.childNodes, h]
  clear h
  induction items generalizing next with
  | nil => rfl
  | cons item items ih =>
    cases item with
    | text s => exact ih
    | tag header body bracket => exact congrArg (next :: ·) ih

/-- A tree has copies of all nodes of a document but the root, which it has from before with other
children.  In both trees all these nodes are free. -/
structure Mirrors (p first : Nat) (cs₀ cs : List (Child NodeId)) (t₀ t : Tree Handler) : Prop where
  size_eq : t.size + 1 = first + t₀.size
  lt : p < first
  isCopy : ∀ {id n}, id ≠ root → t₀.node? id = some n →
    ∃ m, t.node? (shifted p first id) = some m ∧ n.IsCopy (shifted p first) m
  isFree : ∀ {id : Nat}, id < t₀.size → t₀.IsFree id ∧ t.IsFree (shifted p first id)
  below : ∀ {id n}, t₀.node? id = some n → ∀ c ∈ n.childNodes, c ≠ root
  root : ∃ n, t₀.node? root = some n ∧ n.children = cs₀
  here : ∃ n, t.node? p = some n ∧ n.children = cs

namespace Mirrors

variable {p first : Nat} {id : NodeId} {cs₀ cs : List (Child NodeId)} {t₀ t₀' t t' : Tree Handler}

lemma size_pos (h : Mirrors p first cs₀ cs t₀ t) : 0 < t₀.size := by
  obtain ⟨n, hn, -⟩ := h.root
  exact lt_size_of_node? hn

/-- The next new node stands where the next new node of the document has its copy. -/
lemma shifted_size (h : Mirrors p first cs₀ cs t₀ t) : shifted p first t₀.size = t.size := by
  have hsize := h.size_eq
  have hshifted := shifted_of_ne_zero p first h.size_pos.ne'
  omega

lemma size_le (h : Mirrors p first cs₀ cs t₀ t) (hid : id ≠ Tree.root)
    (hle : t₀.size ≤ (id : Nat)) : t.size ≤ shifted p first id := by
  have hsize := h.size_eq
  have hshifted := shifted_of_ne_zero p first hid
  omega

/-- A node and its copy are free, if they are there. -/
lemma isFree_of_lt (h : Mirrors p first cs₀ cs t₀ t) (hid : id ≠ Tree.root) :
    (id < t₀.size → t₀.IsFree id) ∧
      (shifted p first id < t.size → t.IsFree (shifted p first id)) :=
  ⟨fun hlt => (h.isFree hlt).1, fun hlt => (h.isFree (Nat.lt_of_not_le fun hle =>
    Nat.not_le_of_lt hlt (h.size_le hid hle))).2⟩

lemma ne_root_of_mem_childNodes (h : Mirrors p first cs₀ cs t₀ t) {c : NodeId}
    (hc : c ∈ t₀.childNodes id) : c ≠ Tree.root := by
  obtain ⟨n, hn, hc⟩ := mem_childNodes.mp hc
  exact h.below hn c hc

lemma childNodes (h : Mirrors p first cs₀ cs t₀ t) (hid : id ≠ Tree.root) :
    t.childNodes (shifted p first id) = (t₀.childNodes id).map (shifted p first) := by
  rcases Nat.lt_or_ge id t₀.size with hlt | hge
  · obtain ⟨n, hn⟩ := exists_node?_of_lt hlt
    obtain ⟨m, hm, hcopy⟩ := h.isCopy hid hn
    rw [Tree.childNodes, Tree.childNodes, hn, hm]
    exact hcopy.childNodes
  · rw [Tree.childNodes, Tree.childNodes, node?_eq_none hge, node?_eq_none (h.size_le hid hge)]
    rfl

/-- To look for handlers makes no difference. -/
lemma finds (h : Mirrors p first cs₀ cs t₀ t) (h₀ : t₀.Finds t₀') (h' : t.Finds t') :
    Mirrors p first cs₀ cs t₀' t' where
  size_eq := by rw [h₀.size_eq, h'.size_eq, h.size_eq]
  lt := h.lt
  isCopy hid hn' := by
    obtain ⟨n, hn, hn'⟩ := h₀.exists_node? hn'
    obtain ⟨m, hm, hcopy⟩ := h.isCopy hid hn
    obtain ⟨m', hm', hmm'⟩ := h'.node? hm
    exact ⟨m', hm', hcopy.of_finds hn' hmm'⟩
  isFree hid := by
    obtain ⟨hfree₀, hfree⟩ := h.isFree (h₀.size_eq ▸ hid)
    exact ⟨hfree₀.finds h₀, hfree.finds h'⟩
  below hn' := by
    obtain ⟨n, hn, hnn'⟩ := h₀.exists_node? hn'
    have hbelow := h.below hn
    rcases hnn' with rfl | rfl <;> exact hbelow
  root := by
    obtain ⟨n, hn, rfl⟩ := h.root
    obtain ⟨m, hm, rfl | rfl⟩ := h₀.node? hn <;> exact ⟨_, hm, rfl⟩
  here := by
    obtain ⟨n, hn, rfl⟩ := h.here
    obtain ⟨m, hm, rfl | rfl⟩ := h'.node? hn <;> exact ⟨_, hm, rfl⟩

/-- A change of a node and the same change of its copy. -/
theorem update (h : Mirrors p first cs₀ cs t₀ t) (hid : id ≠ Tree.root)
    {f g : Node Handler → Node Handler} (hf : Node.LeavesFree f) (hg : Node.LeavesFree g)
    (hcopy : ∀ n m, n.IsCopy (shifted p first) m → (f n).IsCopy (shifted p first) (g m))
    (hbelow : ∀ n, ∀ c ∈ (f n).childNodes, c ∈ n.childNodes ∨ c ≠ Tree.root) :
    Mirrors p first cs₀ cs (t₀.update id f) (t.update (shifted p first id) g) where
  size_eq := by rw [size_update, size_update, h.size_eq]
  lt := h.lt
  isCopy {j n'} hj hn' := by
    obtain ⟨n, hn, ⟨rfl, rfl⟩ | ⟨hne, rfl⟩⟩ := exists_of_node?_update hn'
    · obtain ⟨m, hm, hnm⟩ := h.isCopy hj hn
      exact ⟨g m, node?_update_self hm g, hcopy n m hnm⟩
    · obtain ⟨m, hm, hnm⟩ := h.isCopy hj hn
      exact ⟨m, (node?_update_of_ne (shifted_ne h.lt hne) g).trans hm, hnm⟩
  isFree hj := by
    obtain ⟨hfree₀, hfree⟩ := h.isFree (size_update t₀ id f ▸ hj)
    exact ⟨hfree₀.update hf.parent hf.isFree, hfree.update hg.parent hg.isFree⟩
  below hn' c hc := by
    obtain ⟨n, hn, ⟨-, rfl⟩ | ⟨-, rfl⟩⟩ := exists_of_node?_update hn'
    · exact (hbelow n c hc).elim (h.below hn c) fun hne => hne
    · exact h.below hn c hc
  root := by
    obtain ⟨n, hn, rfl⟩ := h.root
    exact ⟨n, (node?_update_of_ne hid.symm f).trans hn, rfl⟩
  here := by
    obtain ⟨n, hn, rfl⟩ := h.here
    have hne : shifted p first 0 ≠ shifted p first id := shifted_ne h.lt hid.symm
    exact ⟨n, (node?_update_of_ne hne g).trans hn, rfl⟩

/-- A change of the root of the document. -/
lemma update_root (h : Mirrors p first cs₀ cs t₀ t) {f : Node Handler → Node Handler}
    (hf : Node.LeavesFree f) {cs₀' : List (Child NodeId)}
    (hchildren : ∀ n, n.children = cs₀ → (f n).children = cs₀')
    (hbelow : ∀ n, ∀ c ∈ (f n).childNodes, c ∈ n.childNodes ∨ c ≠ Tree.root) :
    Mirrors p first cs₀' cs (t₀.update Tree.root f) t where
  size_eq := by rw [size_update, h.size_eq]
  lt := h.lt
  isCopy hj hn' := h.isCopy hj ((node?_update_of_ne hj f).symm.trans hn')
  isFree hj := by
    obtain ⟨hfree₀, hfree⟩ := h.isFree (size_update t₀ _ f ▸ hj)
    exact ⟨hfree₀.update hf.parent hf.isFree, hfree⟩
  below hn' c hc := by
    obtain ⟨n, hn, ⟨-, rfl⟩ | ⟨-, rfl⟩⟩ := exists_of_node?_update hn'
    · exact (hbelow n c hc).elim (h.below hn c) fun hne => hne
    · exact h.below hn c hc
  root := by
    obtain ⟨n, hn, hcs⟩ := h.root
    exact ⟨f n, node?_update_self hn f, hchildren n hcs⟩
  here := h.here

/-- Another child in the list of the node that stands for the root. -/
lemma adopt_here (h : Mirrors p first cs₀ cs t₀ t) (child : Child NodeId) :
    Mirrors p first cs₀ (cs ++ [child]) t₀ (t.adopt p child) where
  size_eq := (congrArg (· + 1) (size_update t p _)).trans h.size_eq
  lt := h.lt
  isCopy {j n} hj hn := by
    obtain ⟨m, hm, hnm⟩ := h.isCopy hj hn
    have hne : shifted p first j ≠ shifted p first 0 := shifted_ne h.lt hj
    exact ⟨m, (node?_update_of_ne hne _).trans hm, hnm⟩
  isFree hj := by
    obtain ⟨hfree₀, hfree⟩ := h.isFree hj
    have hadopt := Node.LeavesFree.adopt child
    exact ⟨hfree₀, hfree.update hadopt.parent hadopt.isFree⟩
  below := h.below
  root := h.root
  here := by
    obtain ⟨n, hn, rfl⟩ := h.here
    exact ⟨_, node?_update_self hn _, rfl⟩

lemma edit (h : Mirrors p first cs₀ cs t₀ t) (hid : id ≠ Tree.root) {change : Fields → Fields}
    (hchange : ∀ fields : Fields,
      change { fields with runtimeOnly := true } = { change fields with runtimeOnly := true }) :
    Mirrors p first cs₀ cs (t₀.edit id change) (t.edit (shifted p first id) change) :=
  h.update hid (.edit change) (.edit change) (fun _ _ hnm => hnm.edit hchange) fun _ _ => .inl

lemma annotate (h : Mirrors p first cs₀ cs t₀ t) (hid : id ≠ Tree.root) (d : Diagnostic) :
    Mirrors p first cs₀ cs (t₀.annotate id d) (t.annotate (shifted p first id) d) :=
  h.edit hid fun _ => rfl

lemma advance (h : Mirrors p first cs₀ cs t₀ t) (hid : id ≠ Tree.root) (state : BuildState) :
    Mirrors p first cs₀ cs (t₀.advance id state) (t.advance (shifted p first id) state) :=
  h.update hid (.advance state) (.advance state) (fun _ _ hnm => hnm.advance state) fun _ _ => .inl

lemma advance_root (h : Mirrors p first cs₀ cs t₀ t) (state : BuildState) :
    Mirrors p first cs₀ cs (t₀.advance Tree.root state) t :=
  h.update_root (.advance state) (fun _ hcs => hcs) fun _ _ => .inl

lemma edit_root (h : Mirrors p first cs₀ cs t₀ t) (change : Fields → Fields) :
    Mirrors p first cs₀ cs (t₀.edit Tree.root change) t :=
  h.update_root (.edit change) (fun _ hcs => hcs) fun _ _ => .inl

/-! ## New nodes -/

section

variable {parent : Nat} {n m : Node Handler}

/-- A new node and its copy, before they stand in a list of children. -/
lemma push (h : Mirrors p first cs₀ cs t₀ t) (hlt : parent < t₀.size) {runtimeOnly : Bool}
    (hn : n.IsSeed parent runtimeOnly) (hm : m.IsSeed (shifted p first parent) true)
    (hcopy : n.IsCopy (shifted p first) m) :
    Mirrors p first cs₀ cs (t₀.push n) (t.push m) where
  size_eq := by rw [size_push, size_push, h.size_eq, Nat.add_assoc]
  lt := h.lt
  isCopy {j k} hj hk := by
    rcases exists_of_node?_push hk with hk | ⟨rfl, rfl⟩
    · obtain ⟨k', hk', hkk'⟩ := h.isCopy hj hk
      exact ⟨k', node?_push_of_node? hk' m, hkk'⟩
    · rw [h.shifted_size]
      exact ⟨m, node?_push_self t m, hcopy⟩
  isFree {j} hj := by
    rcases Nat.lt_succ_iff_lt_or_eq.mp (size_push t₀ n ▸ hj) with hj | rfl
    · obtain ⟨hfree₀, hfree⟩ := h.isFree hj
      exact ⟨hfree₀.push n, hfree.push m⟩
    · obtain ⟨hfree₀, hfree⟩ := h.isFree hlt
      rw [h.shifted_size]
      exact ⟨hfree₀.push_self hn, hfree.push_self hm⟩
  below {j k} hk c hc := by
    rcases exists_of_node?_push hk with hk | ⟨-, rfl⟩
    · exact h.below hk c hc
    · rw [Node.childNodes, hn.children] at hc
      exact absurd hc List.not_mem_nil
  root := by
    obtain ⟨k, hk, hcs⟩ := h.root
    exact ⟨k, node?_push_of_node? hk n, hcs⟩
  here := by
    obtain ⟨k, hk, hcs⟩ := h.here
    exact ⟨k, node?_push_of_node? hk m, hcs⟩

/-- A new node under a copied node. -/
theorem add (h : Mirrors p first cs₀ cs t₀ t) (hparent : parent ≠ Tree.root)
    (hlt : parent < t₀.size) {runtimeOnly : Bool} (hn : n.IsSeed parent runtimeOnly)
    (hm : m.IsSeed (shifted p first parent) true) (hcopy : n.IsCopy (shifted p first) m) :
    Mirrors p first cs₀ cs (t₀.add n) (t.add m) := by
  have hadopt := (h.push hlt hn hm hcopy).update hparent (.adopt (.node t₀.size))
    (.adopt (.node t.size)) (fun _ _ hnm => h.shifted_size ▸ hnm.adopt (.node t₀.size))
    fun k c hc => ?_
  · rw [Tree.add, Tree.add, hn.parent, hm.parent]
    exact hadopt
  · refine (Node.mem_childNodes_adopt hc).imp_right ?_
    rintro rfl
    exact h.size_pos.ne'

/-- A new node under the root of the document. -/
lemma add_root (h : Mirrors p first cs₀ cs t₀ t) {runtimeOnly : Bool}
    (hn : n.IsSeed Tree.root runtimeOnly) (hm : m.IsSeed p true)
    (hcopy : n.IsCopy (shifted p first) m) :
    Mirrors p first (cs₀ ++ [.node t₀.size]) (cs ++ [.node t.size]) (t₀.add n) (t.add m) := by
  have hlt : (0 : Nat) < t₀.size := h.size_pos
  have hpush := h.push hlt hn hm hcopy
  have hadopt := (hpush.update_root (.adopt (.node t₀.size)) (fun k hk => congrArg (· ++ _) hk)
    fun k c hc => ?_).adopt_here (.node t.size)
  · rw [Tree.add, Tree.add, hn.parent, hm.parent]
    exact hadopt
  · refine (Node.mem_childNodes_adopt hc).imp_right ?_
    rintro rfl
    exact h.size_pos.ne'

lemma adopt_text (h : Mirrors p first cs₀ cs t₀ t) (hid : id ≠ Tree.root) (s : Text) :
    Mirrors p first cs₀ cs (t₀.adopt id (.text s)) (t.adopt (shifted p first id) (.text s)) :=
  h.update hid (.adopt (.text s)) (.adopt (.text s)) (fun _ _ hnm => hnm.adopt (.text s))
    fun n c hc => .inl (by simpa [Node.childNodes] using hc)

lemma adopt_text_root (h : Mirrors p first cs₀ cs t₀ t) (s : Text) :
    Mirrors p first (cs₀ ++ [.text s]) cs (t₀.adopt Tree.root (.text s)) t :=
  h.update_root (.adopt (.text s)) (fun _ hcs => congrArg (· ++ _) hcs)
    fun n c hc => .inl (by simpa [Node.childNodes] using hc)

/-- New children under a copied node, and their copies. -/
lemma addSeeds (h : Mirrors p first cs₀ cs t₀ t) (hparent : parent ≠ Tree.root)
    (hlt : parent < t₀.size) {seeds seeds' : List (Child (Node Handler))}
    (hseeds : List.Forall₂ (Child.IsSeedCopy (shifted p first) parent) seeds seeds') :
    Mirrors p first cs₀ cs (t₀.addSeeds parent seeds)
      (t.addSeeds (shifted p first parent) seeds') := by
  induction hseeds generalizing t₀ t with
  | nil => exact h
  | cons hseed _ ih =>
    cases hseed with
    | text s => exact ih (h.adopt_text hparent s) ((size_update t₀ parent _).symm ▸ hlt)
    | node hn hm hcopy =>
      exact ih (h.add hparent hlt hn hm hcopy) ((size_add t₀ _).symm ▸ Nat.lt_succ_of_lt hlt)

lemma addItems (h : Mirrors p first cs₀ cs t₀ t) (hparent : parent ≠ Tree.root)
    (hlt : parent < t₀.size) (settings : LayoutSettings) (runtimeOnly : Bool)
    (items : List BodyItem) :
    Mirrors p first cs₀ cs (t₀.addItems settings parent runtimeOnly items)
      (t.addItems settings (shifted p first parent) true items) := by
  rw [addItems_eq, addItems_eq]
  refine h.addSeeds hparent hlt ?_
  rw [List.forall₂_map_left_iff, List.forall₂_map_right_iff, List.forall₂_same]
  intro item _
  cases item with
  | text s => exact .text s
  | tag header body bracket => exact .node (.ofTag ..) (.ofTag ..) (.ofTag ..)

lemma addSpecs (h : Mirrors p first cs₀ cs t₀ t) (hparent : parent ≠ Tree.root)
    (hlt : parent < t₀.size) (runtimeOnly : Bool) (items : List (Child Spec)) :
    Mirrors p first cs₀ cs (t₀.addSpecs parent runtimeOnly items)
      (t.addSpecs (shifted p first parent) true items) := by
  rw [addSpecs_eq, addSpecs_eq]
  refine h.addSeeds hparent hlt ?_
  rw [List.forall₂_map_left_iff, List.forall₂_map_right_iff, List.forall₂_same]
  intro item _
  cases item with
  | text s => exact .text s
  | node s => exact .node (.ofSpec ..) (.ofSpec ..) (.ofSpec ..)

/-- The items of a document under its root, and those of them that are elements under the node that
stands for it. -/
lemma addItems_root (h : Mirrors p first cs₀ cs t₀ t) (settings : LayoutSettings)
    (items : List BodyItem) :
    Mirrors p first (cs₀ ++ itemChildren t₀.size items)
      (cs ++ (List.range' t.size (items.filter BodyItem.isTag).length).map .node)
      (t₀.addItems settings Tree.root false items)
      (t.addItems settings p true (items.filter BodyItem.isTag)) := by
  induction items generalizing t₀ t cs₀ cs with
  | nil =>
    rw [itemChildren, List.filter_nil, List.length_nil, List.range'_zero, List.map_nil,
      List.append_nil, List.append_nil]
    exact h
  | cons item items ih =>
    cases item with
    | text s =>
      have hmore := ih (h.adopt_text_root s)
      rw [List.append_assoc, show (t₀.adopt Tree.root (.text s)).size = t₀.size from
        size_update t₀ _ _] at hmore
      exact hmore
    | tag header body bracket =>
      have hadd := h.add_root (.ofTag _ _ _ _ _ _) (.ofTag _ _ _ _ _ _)
        (.ofTag (shifted p first) settings Tree.root false header body bracket)
      have hmore := ih hadd
      rw [List.append_assoc, List.append_assoc, size_add, size_add] at hmore
      exact hmore

end

/-- The copies of the children of the root are numbered one after the other. -/
lemma map_childNodes_root {items : List BodyItem}
    (h : Mirrors p first (itemChildren 1 items) cs t₀ t) :
    (t₀.childNodes Tree.root).map (shifted p first) =
      (List.range (items.filter BodyItem.isTag).length).map (first + ·) := by
  obtain ⟨n, hn, hchildren⟩ := h.root
  rw [Tree.childNodes, hn, Option.map_some, Option.getD_some, childNodes_of_itemChildren hchildren,
    List.range'_eq_map_range, List.map_map]
  refine List.map_congr_left fun i _ => ?_
  rw [Function.comp_apply, Nat.add_comm 1 i]
  rfl

end Mirrors

end Tree

end TaggedOutline
