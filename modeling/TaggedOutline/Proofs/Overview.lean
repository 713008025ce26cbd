import TaggedOutline.Proofs.Linked
import TaggedOutline.Proofs.Progress
import TaggedOutline.Proofs.Subtree
import TaggedOutline.Tree.Overview

/-!
# The rows of an overview

An overview is a recursion over a subtree, and the nodes beneath a node are listed by a walk over
the tree.  `Tree.IsLinked.exists_isIn` brings the two together: in a linked tree a node with all
that is beneath it is a subtree of it, so the overview has a row for each node of the walk, in its
order.

`Tree.overview_rows` is the main statement.  A row is one line only if nothing in it holds a line
feed.  A label that was written with an escaped line feed holds one, and is shown as it is
(`Tree.overview_breaks_label`).
-/

namespace TaggedOutline

/-! ## Subtrees of linked trees -/

namespace Subtree

variable {H : Type} {t : Tree H}

/-- Children stand under a node if each of them is at the head of a subtree. -/
lemma exists_areIn {parent : NodeId} {items : List (Child NodeId)}
    (h : ∀ c, Child.node c ∈ items → parent < c ∧ t.parent? c = some parent ∧
      ∃ s : Subtree H, s.id = c ∧ s.IsIn t) :
    ∃ children, items = children.map childId ∧ AreIn t parent children := by
  induction items with
  | nil => exact ⟨[], rfl, trivial⟩
  | cons item items ih =>
    obtain ⟨children, hitems, hchildren⟩ := ih fun c hc => h c (List.mem_cons_of_mem item hc)
    cases item with
    | text w => exact ⟨.text w :: children, by rw [hitems]; rfl, trivial, hchildren⟩
    | node c =>
      obtain ⟨hlt, hparent, s, rfl, hs⟩ := h c List.mem_cons_self
      have hup : s.node.parent = parent := by
        rw [Tree.parent?, hs.here] at hparent
        simp only [ite_eq_iff, reduceCtorEq, and_false, Option.some.injEq, false_or] at hparent
        exact hparent.2
      exact ⟨.node s :: children, by rw [hitems]; rfl, ⟨⟨hlt, hup⟩, hs⟩, hchildren⟩

end Subtree

namespace Tree

variable {H : Type} {t : Tree H} {id : NodeId}

/-- Every node of a linked tree is at the head of a subtree of it. -/
theorem IsLinked.exists_isIn (h : t.IsLinked) (hid : id < t.size) :
    ∃ s : Subtree H, s.id = id ∧ s.IsIn t := by
  refine h.induction_children (P := fun id => id < t.size → ∃ s : Subtree H, s.id = id ∧ s.IsIn t)
    (fun id ih hid => ?_) id hid
  obtain ⟨n, hn⟩ : ∃ n, t.node? id = some n := ⟨_, Array.getElem?_eq_getElem hid⟩
  have hbelow : ∀ c, Child.node c ∈ n.children → id < c ∧ t.parent? c = some id ∧
      ∃ s : Subtree H, s.id = c ∧ s.IsIn t := by
    intro c hc
    have hmem : c ∈ t.childNodes id := by
      rw [childNodes, hn]
      exact List.mem_filterMap.mpr ⟨_, hc, rfl⟩
    have hparent := h.mem_childNodes_iff.mp hmem
    exact ⟨h.lt_of_parent? hparent, hparent, ih c hmem (lt_size_of_parent? hparent)⟩
  obtain ⟨children, hchildren, hin⟩ := Subtree.exists_areIn hbelow
  exact ⟨⟨id, n, children⟩, rfl, hn, hchildren, hin⟩

end Tree

namespace Subtree

variable {H : Type} {t : Tree H}

mutual

/-- A subtree of a linked tree has the nodes that stand beneath its node, and that one. -/
lemma IsIn.length_preorder (ht : t.IsLinked) : ∀ {s : Subtree H}, s.IsIn t →
    s.preorder.length = (t.beneath s.id).card + 1
  | ⟨id, node, children⟩, h => by
    have hbelow := AreIn.length_childPreorders ht h.2.2
    rw [← h.childNodes, ht.sum_children] at hbelow
    exact congrArg (· + 1) hbelow

lemma AreIn.length_childPreorders (ht : t.IsLinked) {parent : NodeId} :
    ∀ {children : List (Child (Subtree H))}, AreIn t parent children →
      (childPreorders children).length =
        ((childIds children).map fun c => (t.beneath c).card + 1).sum
  | [], _ => rfl
  | .text _ :: _, ⟨_, hchildren⟩ => by
    have hrest := AreIn.length_childPreorders ht hchildren
    exact hrest
  | .node s :: children, ⟨⟨_, hs⟩, hchildren⟩ => by
    have hfirst := IsIn.length_preorder ht hs
    have hrest := AreIn.length_childPreorders ht hchildren
    rw [childPreorders_cons, List.length_append, hrest]
    show s.preorder.length + _ = _
    rw [hfirst, childIds, List.map_cons, List.sum_cons]

end

lemma IsIn.length_preorder_le (ht : t.IsLinked) {s : Subtree H} (h : s.IsIn t) :
    s.preorder.length ≤ t.size := by
  have hlt : s.id < t.size := Tree.lt_size_of_node? h.here
  have hcard : (t.beneath s.id).card < (Finset.range t.size).card := by
    apply Finset.card_lt_card
    refine ⟨Finset.filter_subset _ _, fun hsub => ?_⟩
    have hmem := hsub (Finset.mem_range.mpr hlt)
    exact lt_irrefl _ (ht.lt_of_mem_ancestors (Finset.mem_filter.mp hmem).2)
  rw [Finset.card_range] at hcard
  rw [h.length_preorder ht]
  omega

end Subtree

namespace Tree

variable {H : Type} {t : Tree H} {id : NodeId}

/-- A linked tree gives a subtree of each of its nodes, with the nodes beneath it in order. -/
lemma IsLinked.exists_subtree? (h : t.IsLinked) (hid : id < t.size) :
    ∃ s, t.subtree? id = some s ∧ s.IsIn t ∧ s.preorder = id :: t.descendants id := by
  obtain ⟨s, rfl, hs⟩ := h.exists_isIn hid
  have hlength := hs.length_preorder_le h
  have hbelow : (Subtree.childPreorders s.children).length ≤ t.size := by
    rw [Subtree.preorder_eq, List.length_cons] at hlength
    omega
  refine ⟨s, hs.subtreeWithin t.size hlength, hs, ?_⟩
  rw [hs.descendants hbelow, Subtree.preorder_eq]

lemma IsLinked.depth_of_parent? (h : t.IsLinked) {c parent : NodeId}
    (hc : t.parent? c = some parent) : t.depth c = t.depth parent + 1 := by
  rw [depth, depth, h.ancestors_eq hc, List.length_cons]

lemma IsLinked.depth_le_of_mem_ancestors (h : t.IsLinked) {d : NodeId}
    (hd : id ∈ t.ancestors d) : t.depth id ≤ t.depth d := by
  induction d using Nat.strong_induction_on with
  | _ d ih =>
    cases hparent : t.parent? d with
    | none =>
      rw [ancestors_of_parent?_eq_none hparent] at hd
      exact absurd hd List.not_mem_nil
    | some parent =>
      have hdepth := h.depth_of_parent? hparent
      rw [h.ancestors_eq hparent] at hd
      rcases List.mem_cons.mp hd with rfl | hd
      · omega
      · have hle := ih parent (h.lt_of_parent? hparent) hd
        omega

/-- A node that the walk from a node lists is there, and no less deep. -/
lemma IsLinked.exists_of_mem_walk (h : t.IsLinked) (hid : id < t.size) {d : NodeId}
    (hd : d ∈ id :: t.descendants id) :
    ∃ n level, t.node? d = some n ∧ t.depth d = t.depth id + level := by
  have hthere : d < t.size ∧ t.depth id ≤ t.depth d := by
    rcases List.mem_cons.mp hd with rfl | hd
    · exact ⟨hid, le_rfl⟩
    · have habove := h.mem_descendants_iff.mp hd
      refine ⟨?_, h.depth_le_of_mem_ancestors habove⟩
      cases hparent : t.parent? d with
      | none =>
        rw [ancestors_of_parent?_eq_none hparent] at habove
        exact absurd habove List.not_mem_nil
      | some parent => exact lt_size_of_parent? hparent
  obtain ⟨hlt, hle⟩ := hthere
  obtain ⟨level, hlevel⟩ := Nat.exists_eq_add_of_le hle
  exact ⟨_, level, Array.getElem?_eq_getElem hlt, hlevel⟩

/-! ## Rows -/

/-- The row of a node in the overview of another one. -/
def overviewRow (t : Tree H) (start d : NodeId) : Text :=
  ((t.node? d).map (Subtree.overviewLine (t.depth d - t.depth start))).getD []

end Tree

lemma Text.unlines_append (ls ms : List Text) :
    Text.unlines (ls ++ ms) = Text.unlines ls ++ Text.unlines ms := List.flatMap_append

namespace Subtree

variable {H : Type} {t : Tree H}

lemma parent?_of_childIsIn {parent : NodeId} {s : Subtree H} (hlt : parent < s.id)
    (hparent : s.node.parent = parent) (h : s.IsIn t) : t.parent? s.id = some parent := by
  rw [Tree.parent?, h.here]
  simp only [hparent]
  exact if_neg hlt.ne

mutual

/-- The overview of a subtree is made of the rows of its nodes. -/
lemma IsIn.overviewAt_eq (ht : t.IsLinked) (start : NodeId) : ∀ {s : Subtree H}, s.IsIn t →
    ∀ level : Nat, t.depth s.id = t.depth start + level →
      s.overviewAt level = Text.unlines (s.preorder.map (t.overviewRow start))
  | ⟨id, node, children⟩, h, level, hlevel => by
    have hbelow := AreIn.childOverviews_eq ht start h.2.2 level hlevel
    have hrow : t.overviewRow start id = overviewLine level node := by
      have hsub : t.depth id - t.depth start = level := by
        rw [show t.depth id = _ from hlevel, Nat.add_sub_cancel_left]
      rw [Tree.overviewRow, h.1, hsub]
      rfl
    rw [preorder_eq, List.map_cons, Text.unlines_cons, hrow, overviewAt, hbelow]

lemma AreIn.childOverviews_eq (ht : t.IsLinked) (start : NodeId) {parent : NodeId} :
    ∀ {children : List (Child (Subtree H))}, AreIn t parent children → ∀ level : Nat,
      t.depth parent = t.depth start + level →
        childOverviews (level + 1) children =
          Text.unlines ((childPreorders children).map (t.overviewRow start))
  | [], _, _, _ => rfl
  | .text _ :: _, ⟨_, hchildren⟩, level, hlevel =>
    AreIn.childOverviews_eq ht start hchildren level hlevel
  | .node s :: children, ⟨⟨⟨hlt, hparent⟩, hs⟩, hchildren⟩, level, hlevel => by
    have hdepth := ht.depth_of_parent? (parent?_of_childIsIn hlt hparent hs)
    have hfirst := IsIn.overviewAt_eq ht start hs (level + 1) (by rw [hdepth, hlevel]; rfl)
    have hrest := AreIn.childOverviews_eq ht start hchildren level hlevel
    rw [childPreorders_cons, List.map_append, Text.unlines_append, ← hrest, childOverviews]
    exact congrArg (· ++ _) hfirst

end

end Subtree

/-! ## Line feeds -/

lemma Text.feed_notMem_ofNat (n : Nat) : '\n' ∉ Text.ofNat n := by
  intro h
  have hdigit := Nat.isDigit_of_mem_toDigits (by decide) (by decide) h
  cases hdigit

/-- The line feeds of written lines are one for each line and those that the lines hold. -/
lemma Text.count_unlines (ls : List Text) :
    (Text.unlines ls).count '\n' = ls.length + (ls.map (List.count '\n')).sum := by
  induction ls with
  | nil => rfl
  | cons l ls ih =>
    rw [Text.unlines_cons, List.count_append, List.count_cons_self, ih, List.length_cons,
      List.map_cons, List.sum_cons]
    omega

lemma Text.count_unlines_eq_iff {ls : List Text} :
    (Text.unlines ls).count '\n' = ls.length ↔ ∀ l ∈ ls, '\n' ∉ l := by
  rw [Text.count_unlines, Nat.add_eq_left, List.sum_eq_zero_iff_forall_eq_nat]
  simp only [List.forall_mem_map, List.count_eq_zero]

namespace Subtree

variable {H : Type}

/-- What is shown of a node holds no line feed. -/
structure FitsLine (n : Node H) : Prop where
  tag : '\n' ∉ n.tag
  names : ∀ name ∈ n.names, '\n' ∉ name
  label : ∀ label ∈ n.label, '\n' ∉ cutLabel label

lemma feed_notMem_markers (n : Node H) : '\n' ∉ markers n := by
  rw [markers]
  cases n.suppressed <;> cases n.runtimeOnly <;> cases n.isCallable <;> decide

lemma feed_notMem_overviewLine_iff {level : Nat} {n : Node H} :
    '\n' ∉ overviewLine level n ↔ FitsLine n := by
  have hspaces : '\n' ∉ List.replicate (2 * level) ' ' := fun h =>
    absurd (List.eq_of_mem_replicate h) (by decide)
  have hmarkers :
      '\n' ∉ (if (markers n).isEmpty then [] else " [".toList ++ markers n ++ [']']) := by
    split
    · exact List.not_mem_nil
    · simp [feed_notMem_markers]
  have hdiagnostics : '\n' ∉ (if n.diagnostics.isEmpty then [] else
      " (".toList ++ Text.ofNat n.diagnostics.length ++ " diagnostics)".toList) := by
    split
    · exact List.not_mem_nil
    · simp [Text.feed_notMem_ofNat]
  have hnames : '\n' ∉ n.names.flatMap (' ' :: ·) ↔ ∀ name ∈ n.names, '\n' ∉ name := by
    simp
  have hquote : '\n' ∉ " \"".toList := by decide
  have hquote' : '\n' ∉ ['"'] := by decide
  have hparts : '\n' ∉ overviewLine level n ↔ '\n' ∉ n.tag ∧ (∀ name ∈ n.names, '\n' ∉ name) ∧
      ∀ label ∈ n.label, '\n' ∉ cutLabel label := by
    cases hl : n.label with
    | none =>
      simp only [overviewLine, hl, List.mem_append, not_or, hspaces, hnames, hmarkers, hdiagnostics,
        List.not_mem_nil, not_false_iff, and_true, true_and, Option.mem_def, reduceCtorEq,
        false_imp_iff, implies_true]
    | some label =>
      simp only [overviewLine, hl, List.mem_append, not_or, hspaces, hnames, hmarkers, hdiagnostics,
        hquote, hquote', not_false_iff, and_true, true_and, Option.mem_def, Option.some.injEq,
        forall_eq', and_assoc]
  rw [hparts]
  constructor
  · rintro ⟨htag, hall, hcut⟩
    exact ⟨htag, hall, hcut⟩
  · rintro ⟨htag, hall, hcut⟩
    exact ⟨htag, hall, hcut⟩

lemma exists_overviewLine (level : Nat) (n : Node H) :
    ∃ rest, overviewLine level n = List.replicate (2 * level) ' ' ++ (n.tag ++ rest) := by
  simp only [overviewLine, List.append_assoc]
  exact ⟨_, rfl⟩

end Subtree

namespace Tree

variable {H : Type} {t : Tree H} {id : NodeId}

lemma feed_notMem_overviewRow_iff {n : Node H} {start d : NodeId} (hn : t.node? d = some n) :
    '\n' ∉ t.overviewRow start d ↔ Subtree.FitsLine n := by
  rw [overviewRow, hn]
  exact Subtree.feed_notMem_overviewLine_iff

/-- The overview of a node has a row for the node and for each one beneath it, in the order of the
walk. -/
lemma IsLinked.overview_eq (h : t.IsLinked) (hid : id < t.size) :
    t.overview id = Text.unlines ((id :: t.descendants id).map (t.overviewRow id)) := by
  obtain ⟨s, hsubtree, hs, hpreorder⟩ := h.exists_subtree? hid
  have hs_id : s.id = id := by
    rw [Subtree.preorder_eq] at hpreorder
    exact (List.cons.inj hpreorder).1
  rw [overview, hsubtree, ← hpreorder]
  exact hs.overviewAt_eq h id 0 (by rw [hs_id]; rfl)

/-- The overview of a node has a row for the node and for each one beneath it, in the order of the
walk.  A row is indented by two spaces for each level below the node and goes on with the tag.  The
overview has as many line feeds as rows exactly if nothing that is shown of the nodes holds one, and
then the rows are its lines. -/
theorem overview_rows (h : t.IsLinked) (hid : id < t.size) :
    t.overview id = Text.unlines ((id :: t.descendants id).map (t.overviewRow id)) ∧
    (∀ d ∈ id :: t.descendants id, ∃ n level rest, t.node? d = some n ∧
      t.depth d = t.depth id + level ∧
        t.overviewRow id d = List.replicate (2 * level) ' ' ++ (n.tag ++ rest)) ∧
    ((t.overview id).count '\n' = 1 + (t.descendants id).length ↔
      ∀ d ∈ id :: t.descendants id, ∀ n, t.node? d = some n → Subtree.FitsLine n) ∧
    ((∀ d ∈ id :: t.descendants id, ∀ n, t.node? d = some n → Subtree.FitsLine n) →
      Text.lines (t.overview id) = (id :: t.descendants id).map (t.overviewRow id)) := by
  have hrows := h.overview_eq hid
  have hfits : (∀ row ∈ (id :: t.descendants id).map (t.overviewRow id), '\n' ∉ row) ↔
      ∀ d ∈ id :: t.descendants id, ∀ n, t.node? d = some n → Subtree.FitsLine n := by
    rw [List.forall_mem_map]
    refine forall₂_congr fun d hd => ?_
    obtain ⟨n, level, hn, -⟩ := h.exists_of_mem_walk hid hd
    rw [feed_notMem_overviewRow_iff hn, hn]
    simp
  refine ⟨hrows, fun d hd => ?_, ?_, fun hall => ?_⟩
  · obtain ⟨n, level, hn, hlevel⟩ := h.exists_of_mem_walk hid hd
    obtain ⟨rest, hrest⟩ := Subtree.exists_overviewLine level n
    refine ⟨n, level, rest, hn, hlevel, ?_⟩
    rw [overviewRow, hn, hlevel, Nat.add_sub_cancel_left, ← hrest]
    rfl
  · rw [← hfits, ← Text.count_unlines_eq_iff, ← hrows, List.length_map, List.length_cons,
      Nat.add_comm]
  · rw [hrows]
    exact Text.lines_unlines (hfits.mpr hall)

/-- Someone builds an element with a quoted label in another one, and an element behind them. -/
def overviewStart : Moment :=
  ⟨[.program .client <| .build root fun _ => pure ()],
    Setup.ofText {} "a\n  b c \"x\\ny\"\n  d\ne\n".toList⟩

/-- The row of a node whose label was written with an escaped line feed is two lines. -/
theorem overview_breaks_label :
    let t := (({} : Setup).after 60 overviewStart).tree
    t.descendants 1 = [3, 4] ∧ t.overview 1 = "a\n  b c \"x\ny\"\n  d\n".toList ∧
      (t.overview 1).count '\n' ≠ 1 + (t.descendants 1).length := by
  decide +kernel

/-- The rows of an overview in which one row is two lines. -/
theorem overview_rows_with_broken_label :
    let t := (({} : Setup).after 60 overviewStart).tree
    t.IsLinked ∧ 1 < t.size ∧
      t.overview 1 = Text.unlines ([1, 3, 4].map (t.overviewRow 1)) ∧
      ¬∀ d ∈ [1, 3, 4], ∀ n, t.node? d = some n → Subtree.FitsLine n := by
  intro t
  have hlinked : t.IsLinked :=
    (Setup.isArena_of_later (.ofText _ _) (Setup.reaches_after _ 60 overviewStart)).isLinked
  have hsize : 1 < t.size := by decide +kernel
  have hwalk : t.descendants 1 = [3, 4] := by decide +kernel
  have hcount : (t.overview 1).count '\n' ≠ 1 + (t.descendants 1).length := by decide +kernel
  obtain ⟨hrows, -, hfeeds, -⟩ := overview_rows hlinked hsize
  refine ⟨hlinked, hsize, hwalk ▸ hrows, fun hall => hcount (hfeeds.mpr ?_)⟩
  rw [hwalk]
  exact hall

end Tree

end TaggedOutline
