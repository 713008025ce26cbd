import TaggedOutline.Proofs.Locator.Search
import TaggedOutline.Proofs.Stretched

/-!
# Paths and insertions

A step of a path takes the first child that it accepts, or the one at some place among them.  New
children stand behind the others, so in a stretched tree each step takes the child that it took
before (`Tree.Stretches.select?`).  `Setup.follow?_of_inserts` is the main statement: insertions
lead no path elsewhere.
-/

namespace TaggedOutline

namespace Setup

open TaggedOutline.Tree

/-- The trees that someone makes of a new document, with discreet handlers at most. -/
inductive Forms (s : Setup) : Tree Handler → Prop
  | fresh {t : Tree Handler} : s.IsFresh t → Forms s t
  | build {t t' : Tree Handler} (depth : Nat) (id : NodeId) :
      Forms s t → s.build depth t id = some t' → Forms s t'
  | insertText {t t' : Tree Handler} (depth : Nat) (parent : NodeId) (text : Text)
      {ids : List NodeId} :
      Forms s t → s.insertText depth t parent text = some (ids, t') → Forms s t'
  | insertSpec {t t' : Tree Handler} (depth : Nat) (parent : NodeId) (spec : Spec) {id : NodeId} :
      Forms s t → s.insertSpec depth t parent spec = some (id, t') → Forms s t'
  | edit {t : Tree Handler} (id : NodeId) (change : Fields → Fields) :
      Forms s t → Forms s (t.edit id change)
  | override {t : Tree Handler} (id : NodeId) (tag : Text) {k : Handler} :
      k.IsDiscreet s → Forms s t → Forms s (t.override id tag k)
  | setAction {t : Tree Handler} (id : NodeId) (action : Action) :
      Forms s t → Forms s (t.setAction id action)
  | resolve {t : Tree Handler} (id : NodeId) : Forms s t → Forms s (s.registry.resolve t id).2

/-- From one tree to another by insertions, anywhere. -/
inductive Inserts (s : Setup) (t : Tree Handler) : Tree Handler → Prop
  | refl : Inserts s t t
  | insertText {t' t'' : Tree Handler} (depth : Nat) (parent : NodeId) (text : Text)
      {ids : List NodeId} :
      Inserts s t t' → s.insertText depth t' parent text = some (ids, t'') → Inserts s t t''
  | insertSpec {t' t'' : Tree Handler} (depth : Nat) (parent : NodeId) (spec : Spec)
      {id : NodeId} :
      Inserts s t t' → s.insertSpec depth t' parent spec = some (id, t'') → Inserts s t t''

variable {s : Setup} {first : NodeId} {t t' : Tree Handler}

lemma stretches_insertText (hr : s.IsDiscreet) {depth : Nat} {parent : NodeId}
    {text : Text} {ids : List NodeId} (h : t.IsSplit s first)
    (hinsert : s.insertText depth t parent text = some (ids, t')) : t.Stretches s first t' :=
  (stretches_insertTextBy (fun h hid hbuild => stretches_build hr h hid hbuild) h hinsert).2

lemma stretches_insertSpec (hr : s.IsDiscreet) {depth : Nat} {parent id : NodeId}
    {spec : Spec} (h : t.IsSplit s first)
    (hinsert : s.insertSpec depth t parent spec = some (id, t')) : t.Stretches s first t' :=
  (stretches_insertSpecBy (fun h hid hbuild => stretches_build hr h hid hbuild) h hinsert).2

lemma stretches_of_inserts (hr : s.IsDiscreet) (h : t.IsSplit s first)
    (hinserts : s.Inserts t t') : t.Stretches s first t' := by
  induction hinserts with
  | refl => exact h.refl
  | insertText depth parent text _ hinsert ih =>
    exact ih.trans (stretches_insertText hr ih.isSplit hinsert)
  | insertSpec depth parent spec _ hinsert ih =>
    exact ih.trans (stretches_insertSpec hr ih.isSplit hinsert)

lemma isSplit_of_isFresh (h : s.IsFresh t) : t.IsSplit s 0 := by
  cases h with
  | ofText text | ofSpec spec =>
    refine ⟨Nat.zero_le _, fun {id n} hn c hc => ?_, fun {id n} hn => ?_⟩ <;>
      obtain rfl : id = root := Nat.lt_one_iff.mp (lt_size_of_node? hn) <;>
        obtain rfl := Option.some.inj hn
    · exact absurd hc List.not_mem_nil
    · exact ⟨fun _ hh => (by cases hh), fun _ hx => absurd hx List.not_mem_nil⟩

lemma isSplit_of_forms (hr : s.IsDiscreet) (h : s.Forms t) : t.IsSplit s 0 := by
  induction h with
  | fresh hfresh => exact isSplit_of_isFresh hfresh
  | build depth id _ hbuild ih => exact (stretches_build hr ih (Nat.zero_le id) hbuild).isSplit
  | insertText depth parent text _ hinsert ih => exact (stretches_insertText hr ih hinsert).isSplit
  | insertSpec depth parent spec _ hinsert ih => exact (stretches_insertSpec hr ih hinsert).isSplit
  | edit id change _ ih => exact (ih.edit (.inl (Nat.zero_le id))).isSplit
  | override id tag hk _ ih => exact (ih.override id tag hk).isSplit
  | setAction id action _ ih => exact (ih.setAction id action).isSplit
  | resolve id _ ih => exact (Registry.stretches_resolve hr ih id).2.isSplit

end Setup

/-! ## Steps of a path -/

namespace Tree

variable {t t' : Tree Handler} {id start n d : NodeId}

/-- No node stands behind the last one. -/
lemma IsSplit.at_size (h : t.IsSplit s 0) : t.IsSplit s t.size :=
  ⟨le_rfl, fun hn c hc => ⟨(h.children hn c hc).1, fun hle =>
    absurd (lt_size_of_node? hn) (Nat.not_lt_of_le hle)⟩, h.isDiscreet⟩

namespace Stretches

variable (h : t.Stretches s t.size t')

include h

lemma accepts (step : Step) (hid : id < t.size) : t'.accepts step id = t.accepts step id := by
  obtain ⟨n, hn⟩ := exists_node?_of_lt hid
  obtain ⟨m, hm, hlengthens⟩ := h.exists_node? hid hn
  rw [Tree.accepts, Tree.accepts, hn, hm]
  exact hlengthens.looksLike step

lemma childNodes (hid : id < t.size) : ∃ more, t'.childNodes id = t.childNodes id ++ more := by
  obtain ⟨n, hn⟩ := exists_node?_of_lt hid
  obtain ⟨m, hm, -, more, hmore, -⟩ := h.exists_node? hid hn
  refine ⟨more, ?_⟩
  rw [Tree.childNodes, Tree.childNodes, hn, hm]
  exact hmore

/-- A step takes the child that it took before. -/
theorem select? {step : Step} (hsplit : t.IsSplit s t.size) (hselect : t.select? id step = some d) :
    t'.select? id step = some d := by
  obtain ⟨k, hk, -⟩ := mem_childNodes.mp (mem_of_select? hselect).1
  obtain ⟨more, hmore⟩ := h.childNodes (lt_size_of_node? hk)
  have hold : (t.childNodes id).filter (t'.accepts step) =
      (t.childNodes id).filter (t.accepts step) := by
    refine List.filter_congr fun c hc => h.accepts step ?_
    obtain ⟨k, hk, hc⟩ := mem_childNodes.mp hc
    exact (hsplit.children hk c hc).1
  by_cases hstep : ∃ place, step.selector = .nth place
  · obtain ⟨place, hplace⟩ := hstep
    rw [select?_of_place hplace] at hselect ⊢
    rw [hmore, List.filter_append, hold]
    exact (List.getElem?_append_left (List.getElem?_eq_some_iff.mp hselect).1).trans hselect
  · rw [select?_of_plain (not_exists.mp hstep)] at hselect ⊢
    rw [hmore, List.filter_append, hold, List.head?_append, hselect]
    rfl

lemma descend? {steps : List Step} (hsplit : t.IsSplit s t.size)
    (hdescend : t.descend? id steps = some n) : t'.descend? id steps = some n := by
  induction steps generalizing id with
  | nil => exact hdescend
  | cons step steps ih =>
    rw [Tree.descend?] at hdescend
    split at hdescend
    · next c hc =>
      rw [Tree.descend?, h.select? hsplit hc]
      exact ih hdescend
    · cases hdescend

end Stretches

/-- A path that leads somewhere begins at a node. -/
lemma lt_size_of_follow? {l : Locator} (hfollow : t.follow? start l = some n) :
    start < t.size := by
  by_contra hlt
  have hnone := node?_eq_none (Nat.le_of_not_lt hlt)
  have hchildren : t.childNodes start = [] := by rw [childNodes, hnone]; rfl
  have haccepts : ∀ step, t.anchors step start = false := fun step => by
    rw [anchors, accepts, hnone]
    exact Bool.and_false _
  rw [follow?] at hfollow
  split at hfollow
  · cases hfollow
  · next step steps _ =>
    rw [haccepts, if_neg Bool.false_ne_true, descend?] at hfollow
    split at hfollow
    · next c hc => exact absurd (hchildren ▸ (mem_of_select? hc).1) List.not_mem_nil
    · cases hfollow

lemma Stretches.follow? {l : Locator} (h : t.Stretches s t.size t') (hsplit : t.IsSplit s t.size)
    (hfollow : t.follow? start l = some n) : t'.follow? start l = some n := by
  have hanchors : ∀ step, t'.anchors step start = t.anchors step start := fun step => by
    rw [anchors, anchors, h.accepts step (lt_size_of_follow? hfollow)]
  rw [Tree.follow?] at hfollow ⊢
  split at hfollow
  · cases hfollow
  · next step steps _ =>
    rw [hanchors]
    exact h.descend? hsplit hfollow

end Tree

namespace Setup

open TaggedOutline.Tree

/-- Insertions lead no path elsewhere.  What a path leads to in a tree that someone has made, it
leads to after any insertions anywhere, if the handlers are discreet; where there is no handler but
the generic one, they are. -/
theorem follow?_of_inserts {s : Setup} (hr : s.IsDiscreet) {t t' : Tree Handler}
    (hforms : s.Forms t) (hinserts : s.Inserts t t') {start n : NodeId} {l : Locator}
    (hfollow : t.follow? start l = some n) : t'.follow? start l = some n := by
  have hsplit := (isSplit_of_forms hr hforms).at_size
  exact (stretches_of_inserts hr hsplit hinserts).follow? hsplit hfollow

/-- A handler that takes over a tag beneath its node and adds an element next to it. -/
def neighbour : Handler :=
  .scripted Pattern.reader "neighbour".toList [.override "m".toList "neighbour".toList]
    [.countAbove "neighbours".toList, .insertTextAbove "b\n".toList, .setLabel "b".toList] []

lemma isDiscreet_neighbour : neighbour.IsDiscreet { known := fun _ => neighbour } :=
  Handler.isDiscreet_scripted fun _ _ _ => .inl rfl

/-- An element keeps its place although others with its tag come next to it. -/
theorem follow?_of_inserts_in_sample :
    let s : Setup := { known := fun _ => neighbour }
    ∃ l t t', Locator.compile Pattern.reader "a/b(1)".toList = .ok l ∧ s.Forms t ∧ s.Inserts t t' ∧
      (t.childNodes 1, t'.childNodes 1) = ([2], [2, 3, 5, 6]) ∧
        t.follow? root l = some 2 ∧ t'.follow? root l = some 2 := by
  intro s
  have hview : (do
      let l ← (Locator.compile Pattern.reader "a/b(1)".toList).toOption
      let t₁ ← s.build 6 (s.ofText "a\n  b\n".toList) root
      let t := t₁.override root "m".toList neighbour
      let r ← s.insertText 6 t 1 "m\n  b\n".toList
      let r' ← s.insertSpec 6 r.2 1 { tag := "b".toList }
      return ((t.childNodes 1, r'.2.childNodes 1), t.follow? root l)) =
        some (([2], [2, 3, 5, 6]), some 2) := by
    decide +kernel
  obtain ⟨l, hl, hview⟩ := Option.bind_eq_some_iff.mp hview
  obtain ⟨t₁, hbuild, hview⟩ := Option.bind_eq_some_iff.mp hview
  obtain ⟨⟨ids, t₂⟩, htext, hview⟩ := Option.bind_eq_some_iff.mp hview
  obtain ⟨⟨id, t'⟩, hspec, hview⟩ := Option.bind_eq_some_iff.mp hview
  obtain ⟨hchildren, hfollow⟩ := Prod.mk.inj (Option.some.inj hview)
  have hcompile : Locator.compile Pattern.reader "a/b(1)".toList = .ok l := by
    cases hc : Locator.compile Pattern.reader "a/b(1)".toList <;> rw [hc] at hl <;> cases hl
    rfl
  have hforms : s.Forms (t₁.override root "m".toList neighbour) :=
    .override root _ isDiscreet_neighbour (.build 6 root (.fresh (.ofText _)) hbuild)
  have hinserts : s.Inserts (t₁.override root "m".toList neighbour) t' :=
    .insertSpec 6 1 _ (.insertText 6 1 _ .refl htext) hspec
  exact ⟨l, _, t', hcompile, hforms, hinserts, hchildren, hfollow,
    follow?_of_inserts (isDiscreet_of_empty rfl) hforms hinserts hfollow⟩

end Setup

end TaggedOutline
