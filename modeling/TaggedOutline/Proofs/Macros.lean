import Mathlib.Algebra.Order.BigOperators.Group.List
import Mathlib.Algebra.Order.Group.Nat
import TaggedOutline.Proofs.Exports
import TaggedOutline.Proofs.Failures

/-!
# Insertions and exports

Texts and descriptions can be inserted anywhere into a tree, before its root is built or after it.
The new nodes stand in the same lists as the others, and so do the nodes that come of them, but they
are no part of the document: without registered handlers no insertion shows in what is exported of
any node, and the root is built as if there had been none (`Setup.macros_leave_document`).

An insertion overgrows a tree (`Setup.Plants`).  What builds and insertions can make of a tree keeps
its root as it was, or as a build has made it (`Setup.IsGrafted`).
-/

namespace TaggedOutline

namespace Tree

variable {t : Tree Handler} {parent : NodeId} {nodes : List (Node Handler)}

@[simp] lemma newNodes_map_node (nodes : List (Node Handler)) :
    newNodes (nodes.map .node) = nodes := by
  induction nodes with
  | nil => rfl
  | cons n nodes ih => exact congrArg (n :: ·) ih

@[simp] lemma numbered_map_node (next : NodeId) (nodes : List (Node Handler)) :
    numbered next (nodes.map .node) = (List.range' next nodes.length).map .node := by
  induction nodes generalizing next with
  | nil => rfl
  | cons n nodes ih => exact congrArg (Child.node next :: ·) (ih (next + 1))

lemma IsSound.addNodes {s : Setup} (h : t.IsSound s) (hparent : parent < t.size)
    (hnodes : ∀ n ∈ nodes, n.IsSeed parent true) :
    (t.addSeeds parent (nodes.map .node)).IsSound s := by
  obtain ⟨n, hn⟩ := exists_node?_of_lt hparent
  have hopens : Opens s t _ parent n _ (nodes.map .node) :=
    .of_addSeeds s hn ((newNodes_map_node nodes).symm ▸ hnodes)
  have hextends : t.Extends (t.addSeeds parent (nodes.map .node)) :=
    extends_addSeeds hparent (fun _ => rfl) ((newNodes_map_node nodes).symm ▸ hnodes)
  exact ⟨hextends.isArena h.isArena, hopens.offered h.isOffered⟩

end Tree

/-- Whether an item of a body is an element. -/
def BodyItem.isTag : BodyItem → Bool
  | .tag _ _ _ => true
  | .text _ => false

/-- The node that an item stands for when it is inserted under a node, if it is an element. -/
def BodyItem.node? (settings : LayoutSettings) (parent : NodeId) : BodyItem → Option (Node Handler)
  | .tag header body bracket => some (.ofTag settings parent true header body bracket)
  | .text _ => none

lemma map_seed_filter_isTag (settings : LayoutSettings) (parent : NodeId)
    (items : List BodyItem) :
    (items.filter BodyItem.isTag).map (BodyItem.seed settings parent true) =
      (items.filterMap (BodyItem.node? settings parent)).map .node := by
  induction items with
  | nil => rfl
  | cons item items ih =>
    cases item with
    | text a => exact ih
    | tag header body bracket => exact congrArg (List.cons _) ih

lemma Subtree.AreIn.isIn_of_mem {H : Type} {t : Tree H} {parent : NodeId}
    {children : List (Child (Subtree H))} (h : AreIn t parent children) {sub : Subtree H}
    (hmem : .node sub ∈ children) : sub.IsIn t := by
  induction children with
  | nil => exact absurd hmem List.not_mem_nil
  | cons child children ih =>
    rcases List.mem_cons.mp hmem with rfl | hmem
    · exact h.1.2
    · exact ih h.2 hmem

namespace Setup

open TaggedOutline.Tree Subtree

/-! ## Insertions -/

/-- The nodes that the elements of a text stand for when they are inserted under a node. -/
def textNodes (s : Setup) (parent : NodeId) (text : Text) : List (Node Handler) :=
  (Body.parse s.settings.layout text).filterMap (BodyItem.node? s.settings.layout parent)

/-- Adds new nodes under a node and builds them. -/
def plant (s : Setup) (depth : Nat) (t : Tree Handler) (parent : NodeId)
    (nodes : List (Node Handler)) : Option (Tree Handler) :=
  buildAll (s.build depth) (List.range' t.size nodes.length) (t.addSeeds parent (nodes.map .node))

section

variable (s : Setup) (depth : Nat) (t : Tree Handler) (parent : NodeId)

lemma isSeed_of_mem_textNodes (text : Text) :
    ∀ n ∈ s.textNodes parent text, n.IsSeed parent true := by
  intro n hn
  obtain ⟨item, -, hitem⟩ := List.mem_filterMap.mp hn
  cases item with
  | text a => cases hitem
  | tag header body bracket =>
    obtain rfl := Option.some.inj hitem
    exact .ofTag s.settings.layout parent true header body bracket

lemma isSeed_of_mem_singleton (spec : Spec) :
    ∀ n ∈ ([.ofSpec parent true spec] : List (Node Handler)), n.IsSeed parent true := by
  intro n hn
  obtain rfl := List.mem_singleton.mp hn
  exact .ofSpec parent true spec

/-- The elements of a text are inserted as nodes one after the other. -/
lemma insertText_eq_plant (text : Text) :
    (s.insertText depth t parent text).map Prod.snd =
      s.plant depth t parent (s.textNodes parent text) := by
  have hseeds := map_seed_filter_isTag s.settings.layout parent (Body.parse s.settings.layout text)
  have hlength := congrArg List.length hseeds
  rw [List.length_map, List.length_map] at hlength
  have hinsert : (s.insertText depth t parent text).map Prod.snd =
      buildAll (s.build depth) ((List.range
        ((Body.parse s.settings.layout text).filter BodyItem.isTag).length).map (t.size + ·))
        (t.addItems s.settings.layout parent true
          ((Body.parse s.settings.layout text).filter BodyItem.isTag)) := by
    rw [insertText, insertTextBy]
    have hsnd : ∀ (ids : List NodeId) (o : Option (Tree Handler)),
        (do return (ids, ← o)).map Prod.snd = o := fun ids o => by cases o <;> rfl
    exact hsnd _ _
  rw [hinsert, hlength, addItems_eq, hseeds, ← List.range'_eq_map_range]
  rfl

/-- A described element is inserted as a node. -/
lemma insertSpec_eq_plant (spec : Spec) :
    (s.insertSpec depth t parent spec).map Prod.snd =
      s.plant depth t parent [.ofSpec parent true spec] := by
  have hplant : s.plant depth t parent [.ofSpec parent true spec] =
      (s.build depth (t.add (.ofSpec parent true spec)) t.size).bind some := rfl
  rw [hplant, insertSpec, insertSpecBy]
  cases s.build depth (t.add (.ofSpec parent true spec)) t.size <;> rfl

end

/-- New nodes outside the document have been built; all other nodes are as they were, but for the
lists of children. -/
structure Plants (s : Setup) (t t' : Tree Handler) : Prop where
  isSound : t'.IsSound s
  overgrown : t.Overgrown t'
  new : ∀ (j : Nat) n, t.size ≤ j → t'.node? j = some n → n.IsDone

section

variable {s : Setup} {depth : Nat} {t t' : Tree Handler} {parent : NodeId}
  {nodes : List (Node Handler)}

/-- New children outside the document are still outside it when they have been built. -/
lemma RaisedAll.isRuntimeOnly_of_mem {next c : NodeId} {seeds : List (Child (Node Handler))}
    {news : List (Child (Subtree Handler))} (h : s.RaisedAll t t' parent next seeds news)
    (hseeds : ∀ n ∈ newNodes seeds, n.IsSeed parent true) (hc : .node c ∈ numbered next seeds) :
    t'.isRuntimeOnly c = true := by
  rw [← h.ids] at hc
  obtain ⟨child, hmem, hid⟩ := List.mem_map.mp hc
  cases child with
  | text a => cases hid
  | node sub =>
    obtain rfl := Child.node.inj hid
    obtain ⟨n, hn, hgrown⟩ := h.areGrown.exists_of_mem hmem
    rw [isRuntimeOnly_of_node? (h.areIn.isIn_of_mem hmem).here, hgrown.runtimeOnly]
    exact (hseeds n hn).runtimeOnly

/-- Insertions have bounds beyond which they come to an end. -/
lemma exists_plant (hidle : s.IsIdle) (hshrinks : s.Shrinks)
    (hsound : t.IsSound s) (hparent : (parent : Nat) < t.size)
    (hnodes : ∀ n ∈ nodes, n.IsSeed parent true) :
    ∃ bound, ∀ depth, bound < depth → ∃ t', s.plant depth t parent nodes = some t' := by
  obtain ⟨n, hn⟩ := exists_node?_of_lt hparent
  have hnew : newNodes (nodes.map .node) = nodes := newNodes_map_node nodes
  have hadded := (addSeeds_spec hn (hnew.symm ▸ fun m hm => (hnodes m hm).parent)).2.2.2
  refine ⟨(nodes.map (Node.rank s.settings.layout.tabWidth)).sum + 1, fun depth hdepth => ?_⟩
  have hseeds : ∀ m ∈ newNodes (nodes.map .node), (∃ runtimeOnly, m.IsSeed parent runtimeOnly) ∧
      m.rank s.settings.layout.tabWidth + 1 < depth := by
    intro m hm
    rw [hnew] at hm
    have hrank : m.rank s.settings.layout.tabWidth ≤
        (nodes.map (Node.rank s.settings.layout.tabWidth)).sum :=
      List.single_le_sum (fun _ _ => Nat.zero_le _) _ (List.mem_map_of_mem hm)
    exact ⟨⟨true, hnodes m hm⟩, by omega⟩
  rw [plant, ← congrArg List.length hnew]
  exact exists_buildAll hidle (fun hsound hn hstate hnone =>
      exists_build hidle hshrinks hsound hn hstate (hasBegun_of_children_eq_nil _ hnone))
    hseeds (hsound.addNodes hparent hnodes) (.of_added hadded)

/-- An insertion plants new nodes. -/
lemma plants_of_plant (hidle : s.IsIdle) (hsound : t.IsSound s)
    (hparent : (parent : Nat) < t.size) (hnodes : ∀ n ∈ nodes, n.IsSeed parent true)
    (h : s.plant depth t parent nodes = some t') : s.Plants t t' := by
  obtain ⟨n, hn⟩ := exists_node?_of_lt hparent
  have hnew : newNodes (nodes.map .node) = nodes := newNodes_map_node nodes
  obtain ⟨hsize, hhere, hothers, hadded⟩ :=
    addSeeds_spec hn (hnew.symm ▸ fun m hm => (hnodes m hm).parent)
  rw [plant, ← congrArg List.length hnew] at h
  obtain ⟨news, hraised⟩ := raisedAll_of_buildAll
    (fun hsound hn hstate hnone =>
      raised_of_build hidle depth hsound hn hstate (hasBegun_of_children_eq_nil _ hnone))
    (fun m hm => ⟨true, hnodes m (hnew ▸ hm)⟩) (hsound.addNodes hparent hnodes) hparent hsize.ge
    (.of_added hadded) h
  have hflags : ∀ c ∈ List.range' t.size nodes.length, t'.isRuntimeOnly c = true := by
    intro c hc
    refine hraised.isRuntimeOnly_of_mem (fun m hm => hnodes m (hnew ▸ hm)) ?_
    rw [numbered_map_node]
    exact List.mem_map_of_mem hc
  refine ⟨hraised.isSound, fun id k hk => ?_, fun j k hj hk => ?_⟩
  · have hlt : (id : Nat) < t.size := lt_size_of_node? hk
    by_cases hid : id = parent
    · subst hid
      obtain rfl := Option.some.inj (hn.symm.trans hk)
      obtain ⟨n', hn', hremembers⟩ := hraised.spares id (.inl hlt) _ hhere
      rw [numbered_map_node] at hremembers
      exact ⟨n', hn', .of_remembers hremembers rfl rfl rfl rfl hflags⟩
    · obtain ⟨k', hk', hremembers⟩ := hraised.spares id (.inl hlt) k ((hothers id hlt hid).trans hk)
      exact ⟨k', hk', .of_remembers hremembers rfl rfl rfl (List.append_nil _).symm
        fun c hc => absurd hc List.not_mem_nil⟩
  · refine hraised.new j k ⟨hj, ?_⟩ hk
    omega

lemma plants_of_insertText (hidle : s.IsIdle) (hsound : t.IsSound s)
    (hparent : (parent : Nat) < t.size) {text : Text} {ids : List NodeId}
    (h : s.insertText depth t parent text = some (ids, t')) : s.Plants t t' := by
  have hplant := s.insertText_eq_plant depth t parent text
  rw [h] at hplant
  exact plants_of_plant hidle hsound hparent (s.isSeed_of_mem_textNodes parent text) hplant.symm

lemma plants_of_insertSpec (hidle : s.IsIdle) (hsound : t.IsSound s)
    (hparent : (parent : Nat) < t.size) {spec : Spec} {id : NodeId}
    (h : s.insertSpec depth t parent spec = some (id, t')) : s.Plants t t' := by
  have hplant := s.insertSpec_eq_plant depth t parent spec
  rw [h] at hplant
  exact plants_of_plant hidle hsound hparent (isSeed_of_mem_singleton parent spec) hplant.symm

end

/-! ## The root -/

/-- The root of a tree is what a build makes of the root of an earlier one. -/
def StandsFor (s : Setup) (t₀ t : Tree Handler) : Prop :=
  ∃ (n : Node Handler) (grown sub : Subtree Handler), t₀.node? root = some n ∧
    grown.IsGrown s n ∧ t.subtree? root = some sub ∧ grown.Matches sub

/-- All nodes but the root have been built or are being built; the root is as it was or has been
built. -/
structure IsGrafted (s : Setup) (t₀ t : Tree Handler) : Prop where
  isSound : t.IsSound s
  hasBegun : ∀ j : Nat, j ≠ root → t.HasBegun j
  atRoot : t₀.Overgrown t ∨ t.HasBegun root ∧ s.StandsFor t₀ t

section

variable {s : Setup} {depth : Nat} {t₀ t t' : Tree Handler} {id : NodeId} {n : Node Handler}

lemma StandsFor.of_overgrown (h : s.StandsFor t₀ t) (harena : t.IsArena)
    (hovergrown : t.Overgrown t') : s.StandsFor t₀ t' := by
  obtain ⟨n, grown, sub, hn, hgrown, hsub, hmatches⟩ := h
  obtain ⟨sub₁, sub', hsub₁, hsub', hmatches'⟩ := hovergrown.subtree? harena harena.size_pos
  obtain rfl := Option.some.inj (hsub₁.symm.trans hsub)
  exact ⟨n, grown, sub', hn, hgrown, hsub', hmatches.trans hmatches'⟩

/-- An insertion leaves the root as it was. -/
lemma IsGrafted.plant (h : s.IsGrafted t₀ t) (hplants : s.Plants t t') : s.IsGrafted t₀ t' where
  isSound := hplants.isSound
  hasBegun j hj := by
    rcases Nat.lt_or_ge j t.size with hlt | hge
    · exact hplants.overgrown.hasBegun hlt (h.hasBegun j hj)
    · intro n hn
      rw [(hplants.new j n hge hn).1]
      decide
  atRoot := by
    refine h.atRoot.imp (fun hovergrown => hovergrown.trans hplants.overgrown) fun h' => ?_
    exact ⟨hplants.overgrown.hasBegun h.isSound.isArena.size_pos h'.1,
      h'.2.of_overgrown h.isSound.isArena hplants.overgrown⟩

section

variable (h : s.IsGrafted t₀ t) (hk : t.node? root = some n)

include h hk

lemma IsGrafted.ne_root_of_mem {c : NodeId} (hc : .node c ∈ n.children) : c ≠ root :=
  (h.isSound.isArena.lt_of_mem_children hk hc).ne'

lemma IsGrafted.hasBegun_of_mem_childNodes : ∀ c ∈ n.childNodes, t.HasBegun c := by
  intro c hc
  obtain ⟨child, hchild, hid⟩ := List.mem_filterMap.mp hc
  cases child with
  | text a => cases hid
  | node c' =>
    obtain rfl := Option.some.inj hid
    exact h.hasBegun c' (h.ne_root_of_mem hk hchild)

lemma IsGrafted.raised (hidle : s.IsIdle) (hstate : n.state = .unparsed)
    (hbuild : s.build depth t root = some t') : ∃ m news, s.Raised t t' root n m news :=
  raised_of_build hidle depth h.isSound hk hstate (h.hasBegun_of_mem_childNodes hk) hbuild

end

/-- The build of an overgrown root makes of it what it makes of the root as it was. -/
lemma IsGrafted.standsFor_of_raised {k m : Node Handler} {news : List (Child (Subtree Handler))}
    (hroot : t₀.node? root = some n) (hnone : n.children = []) (h : s.IsGrafted t₀ t)
    (hk : t.node? root = some k) (hsame : t.Overgrows n k) (hraised : s.Raised t t' root k m news) :
    s.StandsFor t₀ t' := by
  obtain ⟨added, hchildren, hflags⟩ := hsame.children
  rw [hnone, List.nil_append] at hchildren
  have hflags' : ∀ c ∈ added, t'.isRuntimeOnly c = true := by
    intro c hc
    have hchild : .node c ∈ k.children := hchildren ▸ List.mem_map_of_mem hc
    obtain ⟨j, hj, hflag⟩ := exists_node?_of_isRuntimeOnly (hflags c hc)
    obtain ⟨j', hj', hremembers⟩ := hraised.spares c (h.ne_root_of_mem hk hchild) j hj
    rw [isRuntimeOnly_of_node? hj', hremembers.congr (fun n => n.runtimeOnly) fun _ _ => rfl, hflag]
  have hdepth : t'.subtree? root =
      t'.subtreeWithin (t'.size + (childPreorders news).length + 1) root :=
    hraised.isSound.isArena.subtreeWithin_eq (Nat.le_add_left _ _) (by omega)
  have hnews : (news.map childId).filterMap
      (t'.childWithin (t'.size + (childPreorders news).length)) = news := by
    rw [List.filterMap_map]
    exact hraised.areIn.subtreesWithin _ (Nat.le_add_left _ _)
  rw [subtreeWithin_of_node? hraised.here, hraised.children, hchildren, List.filterMap_append,
    hnews] at hdepth
  exact ⟨n, ⟨root, m, news⟩, _, hroot, hraised.isGrown.of_same hsame.tag hsame.fields, hdepth,
    .of_children rfl rfl ((childrenMatch_of_outside hflags' _).append (.refl news)) root root⟩

variable (hidle : s.IsIdle) (hroot : t₀.node? root = some n)
  (hseed : n.IsSeed root false) (h : s.IsGrafted t₀ t)

include hidle hroot hseed h

/-- The build of the root makes of it what it makes of the root as it was. -/
lemma IsGrafted.standsFor (hbuild : s.build depth t root = some t') : s.StandsFor t₀ t' := by
  rcases h.atRoot with hovergrown | ⟨hbegun, hstands⟩
  · obtain ⟨k, hk, hsame⟩ := hovergrown root n hroot
    obtain ⟨m, news, hraised⟩ := h.raised hk hidle (hsame.state.trans hseed.state) hbuild
    exact h.standsFor_of_raised hroot hseed.children hk hsame hraised
  · obtain rfl := eq_of_build_of_hasBegun hbegun hbuild
    exact hstands

/-- A build leaves everything but the root as it was. -/
lemma IsGrafted.build (hbuild : s.build depth t id = some t') : s.IsGrafted t₀ t' := by
  by_cases hbegun : t.HasBegun id
  · obtain rfl := eq_of_build_of_hasBegun hbegun hbuild
    exact h
  obtain rfl : id = root := Decidable.byContradiction fun hne => hbegun (h.hasBegun id hne)
  have hovergrown : t₀.Overgrown t := h.atRoot.resolve_right fun hbuilt => hbegun hbuilt.1
  obtain ⟨k, hk, hsame⟩ := hovergrown root n hroot
  obtain ⟨m, news, hraised⟩ := h.raised hk hidle (hsame.state.trans hseed.state) hbuild
  refine ⟨hraised.isSound, fun j hj => ?_, .inr ⟨fun k' hk' => ?_, ?_⟩⟩
  · rcases Nat.lt_or_ge j t.size with hlt | hge
    · exact (h.hasBegun j hj).spares hlt (hraised.spares j hj)
    · intro k' hk'
      rw [(hraised.new j k' hge hk').1]
      decide
  · obtain rfl := Option.some.inj (hraised.here.symm.trans hk')
    rw [hraised.isDone.1]
    decide
  · exact h.standsFor_of_raised hroot hseed.children hk hsame hraised

end

/-! ## Sequences of builds and insertions -/

/-- The trees that builds and insertions make of a tree. -/
inductive Grafts (s : Setup) (t₀ : Tree Handler) : Tree Handler → Prop
  | start : Grafts s t₀ t₀
  | build {t t' : Tree Handler} (depth : Nat) (id : NodeId) :
      Grafts s t₀ t → s.build depth t id = some t' → Grafts s t₀ t'
  | insertText {t t' : Tree Handler} (depth : Nat) {parent : NodeId} (text : Text)
      {ids : List NodeId} : Grafts s t₀ t → parent < t.size →
        s.insertText depth t parent text = some (ids, t') → Grafts s t₀ t'
  | insertSpec {t t' : Tree Handler} (depth : Nat) {parent : NodeId} (spec : Spec) {id : NodeId} :
      Grafts s t₀ t → parent < t.size →
        s.insertSpec depth t parent spec = some (id, t') → Grafts s t₀ t'

section

variable {s : Setup} {t₀ t : Tree Handler}

/-- Builds and insertions keep the root as it was, or as a build has made it. -/
lemma isGrafted_of_grafts (hidle : s.IsIdle) (hfresh : s.IsFresh t₀)
    (h : s.Grafts t₀ t) : s.IsGrafted t₀ t := by
  have hsound := hfresh.isSound s
  obtain ⟨n, hseed, rfl⟩ := hfresh.exists_root
  have hroot : Tree.node? { nodes := #[n] } root = some n := rfl
  induction h with
  | start =>
    refine ⟨hsound, fun j hj k hk => ?_, .inl (.refl _)⟩
    exact absurd (Nat.lt_one_iff.mp (lt_size_of_node? hk)) hj
  | build depth id _ hbuild ih => exact ih.build hidle hroot hseed hbuild
  | insertText depth text _ hparent hinsert ih =>
    exact ih.plant (plants_of_insertText hidle ih.isSound hparent hinsert)
  | insertSpec depth spec _ hparent hinsert ih =>
    exact ih.plant (plants_of_insertSpec hidle ih.isSound hparent hinsert)

/-- Two trees whose roots are what a build makes of the same root have the same exports of it. -/
lemma StandsFor.sameExports {t t' : Tree Handler} (honly : s.IsUniform)
    (h : s.StandsFor t₀ t) (h' : s.StandsFor t₀ t') : t.SameExports s.settings t' root := by
  obtain ⟨n, grown, sub, hn, hgrown, hsub, hmatches⟩ := h
  obtain ⟨n', grown', sub', hn', hgrown', hsub', hmatches'⟩ := h'
  obtain rfl := Option.some.inj (hn.symm.trans hn')
  have hsame := IsGrown.matches honly hgrown hgrown' rfl rfl
  exact sameExports_of_matches s.settings hsub hsub' ((hmatches.symm.trans hsame).trans hmatches')

end

/-! ## Without handlers -/

section

variable {s : Setup}

lemma eq_generic_of_offers (hempty : s.registry = {}) {h : Handler} (hoffers : s.Offers h) :
    h = .generic := by
  induction hoffers with
  | generic => rfl
  | handlers hmem => exact absurd (hempty ▸ hmem) List.not_mem_nil
  | beneath hmem => exact absurd (hempty ▸ hmem) List.not_mem_nil
  | inner _ hmem ih =>
    subst ih
    exact absurd hmem List.not_mem_nil
  | installed _ hinstalls ih =>
    subst ih
    exact absurd hinstalls Handler.isIdle_generic.isQuiet.not_installs

lemma isIdle_of_empty (hempty : s.registry = {}) : s.IsIdle := fun h hoffers => by
  rw [eq_generic_of_offers hempty hoffers]
  exact Handler.isIdle_generic

lemma isUniform_of_empty (hempty : s.registry = {}) : s.IsUniform :=
  fun h h' hoffers hoffers' => by
    rw [eq_generic_of_offers hempty hoffers, eq_generic_of_offers hempty hoffers']

lemma shrinks_of_empty (hempty : s.registry = {}) : s.Shrinks where
  bodies name g hg := by
    rw [hempty] at hg
    cases hg
  handlers h g hoffers hbody := by
    rw [eq_generic_of_offers hempty hoffers] at hbody
    cases hbody

end

/-- A change of a tree, given how deep builds may stand in each other, comes to an end if they may
stand deep enough; when it does, the nodes that were there have the exports they had. -/
structure KeepsExports (st : Settings) (t : Tree Handler) (change : Nat → Option (Tree Handler)) :
    Prop where
  ends : ∃ bound, ∀ depth, bound < depth → ∃ t', change depth = some t'
  sameExports : ∀ depth t', change depth = some t' → ∀ id < t.size, t.SameExports st t' id

section

variable {s : Setup} {t₀ t : Tree Handler} {parent : NodeId} {nodes : List (Node Handler)}

lemma keepsExports_plant (hidle : s.IsIdle) (hshrinks : s.Shrinks)
    (hsound : t.IsSound s) (hparent : (parent : Nat) < t.size)
    (hnodes : ∀ n ∈ nodes, n.IsSeed parent true) :
    KeepsExports s.settings t fun depth => s.plant depth t parent nodes where
  ends := exists_plant hidle hshrinks hsound hparent hnodes
  sameExports _ _ h _ hid := by
    have hplants := plants_of_plant hidle hsound hparent hnodes h
    exact hplants.overgrown.sameExports hsound.isArena s.settings hid

/-- The build of the root comes to an end after builds and insertions. -/
lemma IsGrafted.exists_build {n : Node Handler} (hidle : s.IsIdle)
    (hshrinks : s.Shrinks) (hroot : t₀.node? root = some n) (hseed : n.IsSeed root false)
    (h : s.IsGrafted t₀ t) :
    ∃ bound, ∀ depth, bound < depth → ∃ t', s.build depth t root = some t' := by
  rcases h.atRoot with hovergrown | ⟨hbegun, -⟩
  · obtain ⟨k, hk, hsame⟩ := hovergrown root n hroot
    refine ⟨k.rank s.settings.layout.tabWidth + 1, fun depth hdepth => ?_⟩
    exact Setup.exists_build hidle hshrinks h.isSound hk (hsame.state.trans hseed.state)
      (h.hasBegun_of_mem_childNodes hk) hdepth
  · refine ⟨0, fun depth hdepth => ?_⟩
    obtain ⟨depth, rfl⟩ := Nat.exists_eq_succ_of_ne_zero hdepth.ne'
    exact ⟨t, build_of_hasBegun hbegun depth⟩

end

/-- Without registered handlers no insertion shows.  In a tree that builds and insertions have made
of a fresh one, whether its root has been built or not, a text or a description can be inserted
under any node; all nodes that were there keep their sketches, their descriptions and their written
forms.  The build of the root comes to an end and gives the exports that it gives without the
insertions. -/
theorem macros_leave_document {s : Setup} (hempty : s.registry = {}) {t₀ t : Tree Handler}
    (hfresh : s.IsFresh t₀) (h : s.Grafts t₀ t) :
    (∀ parent < t.size,
      (∀ text, KeepsExports s.settings t fun depth =>
        (s.insertText depth t parent text).map Prod.snd) ∧
      ∀ spec, KeepsExports s.settings t fun depth =>
        (s.insertSpec depth t parent spec).map Prod.snd) ∧
    (∃ bound, ∀ depth, bound < depth → ∃ t₁ t', s.build depth t₀ root = some t₁ ∧
      s.build depth t root = some t') ∧
    ∀ depth depth' t₁ t', s.build depth t₀ root = some t₁ → s.build depth' t root = some t' →
      t₁.SameExports s.settings t' root := by
  have hidle := isIdle_of_empty hempty
  have hshrinks := shrinks_of_empty hempty
  have hgrafted := isGrafted_of_grafts hidle hfresh h
  have hstart := isGrafted_of_grafts hidle hfresh .start
  obtain ⟨n, hseed, rfl⟩ := hfresh.exists_root
  have hroot : Tree.node? { nodes := #[n] } root = some n := rfl
  refine ⟨fun parent hparent => ⟨fun text => ?_, fun spec => ?_⟩, ?_,
    fun depth depth' t₁ t' h₁ h' => ?_⟩
  · simp only [insertText_eq_plant]
    exact keepsExports_plant hidle hshrinks hgrafted.isSound hparent
      (s.isSeed_of_mem_textNodes parent text)
  · simp only [insertSpec_eq_plant]
    exact keepsExports_plant hidle hshrinks hgrafted.isSound hparent
      (isSeed_of_mem_singleton parent spec)
  · obtain ⟨bound₁, hends₁⟩ := hstart.exists_build hidle hshrinks hroot hseed
    obtain ⟨bound, hends⟩ := hgrafted.exists_build hidle hshrinks hroot hseed
    refine ⟨bound₁ + bound, fun depth hdepth => ?_⟩
    obtain ⟨t₁, h₁⟩ := hends₁ depth (by omega)
    obtain ⟨t', h'⟩ := hends depth (by omega)
    exact ⟨t₁, t', h₁, h'⟩
  · exact (hstart.standsFor hidle hroot hseed h₁).sameExports (isUniform_of_empty hempty)
      (hgrafted.standsFor hidle hroot hseed h')

/-- An element is inserted before the root is built and another one after it, under the element of
the document; both bring nodes of their own. -/
theorem macros_leave_document_around_element :
    let s : Setup := {}
    let t₀ := s.ofText "a\n    b\n".toList
    ∃ t₁ t t', s.build 6 t₀ root = some t₁ ∧ s.Grafts t₀ t ∧
      (s.insertText 6 t 3 "z\n    y\n".toList).map Prod.snd = some t' ∧
      (t₁.size, t.size, t'.size) = (3, 5, 7) ∧ t₁.SameExports s.settings t root ∧
      ∀ id < 5, t.SameExports s.settings t' id := by
  intro s t₀
  have hview : (do
      let t ← (s.insertText 6 t₀ root "x\n    y\n".toList).map Prod.snd
      let t ← s.build 6 t root
      let t' ← (s.insertText 6 t 3 "z\n    y\n".toList).map Prod.snd
      let t₁ ← s.build 6 t₀ root
      return (t₁.size, t.size, t'.size)) = some (3, 5, 7) := by
    decide +kernel
  obtain ⟨t₂, hinserted, hview⟩ := Option.bind_eq_some_iff.mp hview
  obtain ⟨t, hbuild, hview⟩ := Option.bind_eq_some_iff.mp hview
  obtain ⟨t', hinsert', hview⟩ := Option.bind_eq_some_iff.mp hview
  obtain ⟨t₁, hbuild', hreturn⟩ := Option.bind_eq_some_iff.mp hview
  obtain ⟨⟨ids, t₃⟩, hinsert, heq⟩ := Option.map_eq_some_iff.mp hinserted
  obtain rfl : t₃ = t₂ := heq
  have hsizes := Option.some.inj hreturn
  have hsize : t.size = 5 := congrArg (fun sizes => sizes.2.1) hsizes
  have hlt : root < t₀.size := Nat.zero_lt_one
  have hgrafts₃ : s.Grafts t₀ t₃ := .insertText 6 _ .start hlt hinsert
  have hgrafts : s.Grafts t₀ t := .build 6 root hgrafts₃ hbuild
  have hfresh : s.IsFresh t₀ := .ofText _
  obtain ⟨-, -, hroot⟩ := macros_leave_document rfl hfresh hgrafts₃
  obtain ⟨hinsertions, -⟩ := macros_leave_document rfl hfresh hgrafts
  refine ⟨t₁, t, t', hbuild', hgrafts, hinsert', hsizes, hroot 6 6 t₁ t hbuild' hbuild, ?_⟩
  intro id hid
  exact ((hinsertions 3 (by omega)).1 _).sameExports 6 t' hinsert' id (hid.trans_eq hsize.symm)

end Setup

end TaggedOutline
