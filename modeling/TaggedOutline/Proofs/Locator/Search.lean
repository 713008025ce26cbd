import TaggedOutline.Pattern.Reader
import TaggedOutline.Proofs.Linked
import TaggedOutline.Proofs.Locator.Syntax
import TaggedOutline.Proofs.Progress
import TaggedOutline.Tree.Search

/-!
# Searching for a path

`Tree.follow?` takes the first step of a path from the children of a node, and `Tree.firstFrom?`
tests for every node beneath it whether the step would take it from where it stands.  The two tests
are different code, and with a place among siblings they are different work.  `Tree.Selects` says
what the test in place comes to, and `Tree.firstFrom?_searches` is the main statement: the search
finds what the first node in the order of the walk leads to, and it finds something wherever the
steps of the path lead from the start or from a node beneath it.
-/

namespace TaggedOutline

/-! ## Compiled paths -/

/-- A place that a step asks for is counted from one. -/
def Step.IsCounted (step : Step) : Prop := ∀ n, step.selector = .nth n → 1 ≤ n

namespace Locator

/-- A written path has a first step. -/
lemma exists_cons_of_spellsPath {ls : List Lexeme} {written : List WrittenStep}
    (h : SpellsPath ls written) : ∃ w ws, written = w :: ws := by
  cases h
  exact ⟨_, _, rfl⟩

lemma exists_means_of_compile {read : Matcher.Reader} {path : Text} {l : Locator}
    (h : compile read path = .ok l) :
    ∃ w ws step steps, l.steps = step :: steps ∧ Means read w step ∧
      List.Forall₂ (Means read) ws steps := by
  rcases hlex : lexer.visible path with e | tokens
  · cases (compile_of_error hlex).symm.trans h
  · by_cases hs : ∃ written, SpellsPath (tokens.map Token.lexeme) written
    · obtain ⟨written, hs⟩ := hs
      have hmeans := ((compile_eq_ok_iff_of_spells hlex hs).mp h).1
      obtain ⟨w, ws, rfl⟩ := exists_cons_of_spellsPath hs
      obtain ⟨step, steps, hstep, hrest, hsteps⟩ := List.forall₂_cons_left_iff.mp hmeans
      exact ⟨w, ws, step, steps, hsteps, hstep, hrest⟩
    · cases (compile_of_not_spells hlex hs).symm.trans h

lemma Means.isCounted {read : Matcher.Reader} {w : WrittenStep} {step : Step}
    (h : Means read w step) : step.IsCounted := by
  intro n hn
  cases h with
  | nth _ hpos _ =>
    obtain rfl := Selector.nth.inj hn
    exact hpos
  | plain | name | attrEq | attrMatch => cases hn

lemma isCounted_of_means {read : Matcher.Reader} {ws : List WrittenStep} {steps : List Step}
    (h : List.Forall₂ (Means read) ws steps) : ∀ step ∈ steps, step.IsCounted := by
  induction h with
  | nil => exact fun _ hs => absurd hs List.not_mem_nil
  | cons hmeans _ ih => exact List.forall_mem_cons.mpr ⟨hmeans.isCounted, ih⟩

/-- The places in a path are counted from one. -/
lemma isCounted_of_compile {read : Matcher.Reader} {path : Text} {l : Locator}
    (h : compile read path = .ok l) :
    ∀ step ∈ l.steps, step.IsCounted := by
  obtain ⟨w, ws, step, steps, hsteps, hmeans, hrest⟩ := exists_means_of_compile h
  exact hsteps ▸ isCounted_of_means (.cons hmeans hrest)

/-- A path has steps, and the places in it are counted from one. -/
lemma exists_steps_of_compile {read : Matcher.Reader} {path : Text} {l : Locator}
    (h : compile read path = .ok l) :
    ∃ step steps, l.steps = step :: steps ∧ ∀ n, step.selector = .nth n → 1 ≤ n := by
  obtain ⟨w, ws, step, steps, hsteps, hmeans, -⟩ := exists_means_of_compile h
  exact ⟨step, steps, hsteps, hmeans.isCounted⟩

end Locator

/-! ## Lists of which some are taken -/

section Lists

variable {α β : Type} {p : α → Bool} {a : α}

/-- What stands at a place among the elements that are taken. -/
lemma getElem?_filter_eq_some_iff {l : List α} {k : Nat} :
    (l.filter p)[k]? = some a ↔ ∃ before after, l = before ++ a :: after ∧ p a = true ∧
      (before.filter p).length = k := by
  constructor
  · intro h
    obtain ⟨hlt, ha⟩ := List.getElem?_eq_some_iff.mp h
    have hsplit : l.filter p = (l.filter p).take k ++ a :: (l.filter p).drop (k + 1) := by
      rw [← ha, List.cons_getElem_drop_succ, List.take_append_drop]
    obtain ⟨front, back, rfl, hfront, hback⟩ := List.filter_eq_append_iff.mp hsplit
    obtain ⟨skipped, after, rfl, hskipped, hp, -⟩ := List.filter_eq_cons_iff.mp hback
    refine ⟨front ++ skipped, after, (List.append_assoc _ _ _).symm, hp, ?_⟩
    rw [List.filter_append, List.filter_eq_nil_iff.mpr hskipped, List.append_nil, hfront,
      List.length_take_of_le hlt.le]
  · rintro ⟨before, after, rfl, hp, rfl⟩
    rw [List.filter_append, List.filter_cons_of_pos hp,
      List.getElem?_append_right le_rfl, Nat.sub_self, List.getElem?_cons_zero]

lemma findSome?_filter (f : α → Option β) (l : List α) :
    (l.filter p).findSome? f = l.findSome? fun a => if p a then f a else none := by
  induction l with
  | nil => rfl
  | cons a l ih =>
    rw [List.findSome?_cons, ← ih]
    cases hp : p a with
    | false => rw [List.filter_cons_of_neg (by simp [hp]), if_neg Bool.false_ne_true]
    | true => rw [List.filter_cons_of_pos hp, if_pos rfl, List.findSome?_cons]

end Lists

namespace Tree

variable {H : Type} {t : Tree H} {start id d : NodeId} {step : Step}

/-! ## The test in place -/

/-- A step takes a node from where it stands. -/
inductive Selects (t : Tree H) (step : Step) (d : NodeId) : Prop
  /-- Of the children of its parent that the step accepts, it stands at the place of the step. -/
  | place {n : Nat} {parent : NodeId} {before after : List NodeId} (hstep : step.selector = .nth n)
      (hparent : t.parent? d = some parent) (hchildren : t.childNodes parent = before ++ d :: after)
      (hd : t.accepts step d = true) (hplace : (before.filter (t.accepts step)).length + 1 = n)
  /-- The step asks for no place and accepts it. -/
  | plain (hstep : ∀ n, step.selector ≠ .nth n) (hd : t.accepts step d = true)

lemma isPositional_iff : step.isPositional = true ↔ ∃ n, step.selector = .nth n := by
  unfold Step.isPositional
  cases step.selector <;> simp

lemma select?_of_place {n : Nat} (hstep : step.selector = .nth n) (parent : NodeId) :
    t.select? parent step = ((t.childNodes parent).filter (t.accepts step))[n - 1]? := by
  rw [select?, hstep]

lemma select?_of_plain (hstep : ∀ n, step.selector ≠ .nth n) (parent : NodeId) :
    t.select? parent step = ((t.childNodes parent).filter (t.accepts step)).head? := by
  unfold select?
  split
  · next n hn => exact absurd hn (hstep n)
  · rfl

/-- What a step selects is among the children, and the step accepts it. -/
lemma mem_of_select? {parent : NodeId} (h : t.select? parent step = some d) :
    d ∈ t.childNodes parent ∧ t.accepts step d = true := by
  refine List.mem_filter.mp ?_
  by_cases hstep : ∃ n, step.selector = .nth n
  · obtain ⟨n, hn⟩ := hstep
    rw [select?_of_place hn] at h
    exact List.mem_of_getElem? h
  · rw [select?_of_plain (not_exists.mp hstep)] at h
    exact List.mem_of_head? h

lemma isSelected_iff (hpos : ∀ n, step.selector = .nth n → 1 ≤ n) :
    t.isSelected step d = true ↔ t.Selects step d := by
  by_cases hstep : ∃ n, step.selector = .nth n
  · have hpositional := isPositional_iff.mpr hstep
    obtain ⟨n, hn⟩ := hstep
    have hn1 := hpos n hn
    rw [isSelected, if_pos hpositional]
    constructor
    · intro h
      rcases hparent : t.parent? d with - | parent
      · rw [hparent] at h
        cases h
      · rw [hparent] at h
        have hd : t.select? parent step = some d := eq_of_beq h
        rw [select?_of_place hn, getElem?_filter_eq_some_iff] at hd
        obtain ⟨before, after, hchildren, haccepts, hplace⟩ := hd
        exact .place hn hparent hchildren haccepts (by omega)
    · rintro (⟨hn', hparent, hchildren, hd, hplace⟩ | ⟨hplain, -⟩)
      · obtain rfl := Selector.nth.inj (hn'.symm.trans hn)
        rw [hparent]
        refine beq_iff_eq.mpr ?_
        rw [select?_of_place hn, getElem?_filter_eq_some_iff]
        exact ⟨_, _, hchildren, hd, by omega⟩
      · exact absurd hn (hplain n)
  · have hplain := not_exists.mp hstep
    rw [isSelected, if_neg fun h => hstep (isPositional_iff.mp h)]
    constructor
    · exact .plain hplain
    · rintro (⟨hn, -⟩ | ⟨-, hd⟩)
      · exact absurd hn (hplain _)
      · exact hd

/-- What a step takes from the children of a node, it takes from where it stands. -/
lemma isSelected_of_select? (h : t.IsLinked) (hselect : t.select? id step = some d) :
    t.isSelected step d = true := by
  obtain ⟨hmem, haccepts⟩ := mem_of_select? hselect
  rw [isSelected, h.mem_childNodes_iff.mp hmem]
  split
  · exact beq_iff_eq.mpr hselect
  · exact haccepts

/-! ## The search -/

lemma firstFrom?_of_steps {l : Locator} {steps : List Step} (hsteps : l.steps = step :: steps) :
    t.firstFrom? start l = (t.descendants start).findSome? fun id =>
      if t.isSelected step id then t.descend? id steps else none := by
  rw [firstFrom?, hsteps]
  exact findSome?_filter _ _

/-- Every tree that someone has worked on is linked. -/
lemma isLinked_of_reaches {s : Setup} {start m : Moment} (hstart : s.IsStart start)
    (h : s.Reaches start m) : m.tree.IsLinked :=
  (Setup.isArena_of_later hstart h).isLinked

lemma isSome_firstFrom?_of_descend? (h : t.IsLinked) {l : Locator} (hne : l.steps ≠ [])
    (hid : id = start ∨ id ∈ t.descendants start) (hdescend : (t.descend? id l.steps).isSome) :
    (t.firstFrom? start l).isSome := by
  obtain ⟨step, steps, hsteps⟩ := List.exists_cons_of_ne_nil hne
  rw [hsteps, descend?] at hdescend
  rcases hselect : t.select? id step with - | c
  · rw [hselect] at hdescend
    cases hdescend
  · rw [hselect] at hdescend
    have hc := h.mem_descendants_of_mem_childNodes hid (mem_of_select? hselect).1
    rw [firstFrom?_of_steps hsteps, List.findSome?_isSome_iff]
    refine ⟨c, hc, ?_⟩
    rw [if_pos (isSelected_of_select? h hselect)]
    exact hdescend

/-- The search for a path finds what the earliest node beneath the start leads to that the first
step takes from where it stands and from which the other steps lead on, child by child.  In a linked
tree it finds something whenever the steps lead somewhere from the start or from a node beneath it,
and so whenever the path leads somewhere without standing for the start itself. -/
theorem firstFrom?_searches {read : Matcher.Reader} {path : Text} {l : Locator}
    (hcompile : Locator.compile read path = .ok l) (t : Tree H) (start : NodeId) :
    (∀ x, t.firstFrom? start l = some x ↔ ∃ step steps before d after, l.steps = step :: steps ∧
      t.descendants start = before ++ d :: after ∧ t.Selects step d ∧
        t.descend? d steps = some x ∧
          ∀ c ∈ before, t.Selects step c → t.descend? c steps = none) ∧
    (t.IsLinked →
      (∀ id, id = start ∨ id ∈ t.descendants start → (t.descend? id l.steps).isSome →
        (t.firstFrom? start l).isSome) ∧
      ((∀ step ∈ l.steps.head?, t.anchors step start = false) → (t.follow? start l).isSome →
        (t.firstFrom? start l).isSome)) := by
  obtain ⟨step, steps, hsteps, hpos⟩ := Locator.exists_steps_of_compile hcompile
  refine ⟨fun x => ?_, fun hlinked => ?_⟩
  · rw [firstFrom?_of_steps hsteps, List.findSome?_eq_some_iff]
    simp only [isSelected_iff hpos, Option.ite_none_right_eq_some, ite_eq_right_iff]
    constructor
    · rintro ⟨before, d, after, hwalk, ⟨hselects, hdescend⟩, hbefore⟩
      exact ⟨step, steps, before, d, after, hsteps, hwalk, hselects, hdescend, hbefore⟩
    · rintro ⟨step', steps', before, d, after, hsteps', hwalk, hselects, hdescend, hbefore⟩
      obtain ⟨rfl, rfl⟩ := List.cons.inj (hsteps.symm.trans hsteps')
      exact ⟨before, d, after, hwalk, ⟨hselects, hdescend⟩, hbefore⟩
  · have hne : l.steps ≠ [] := hsteps ▸ List.cons_ne_nil _ _
    refine ⟨fun id => isSome_firstFrom?_of_descend? hlinked hne, fun hanchors hfollow => ?_⟩
    have hstart : t.anchors step start = false := hanchors step (by rw [hsteps]; rfl)
    refine isSome_firstFrom?_of_descend? hlinked hne (.inl rfl) ?_
    rw [follow?, hsteps] at hfollow
    simpa [hstart, hsteps] using hfollow

/-- Someone builds an element with two children of one tag, and another element with that tag. -/
def searchStart : Moment :=
  ⟨[.program .client <| .build root fun _ => pure ()],
    Setup.ofText {} "a\n  b\n  b\n    c\nb\n  c\n".toList⟩

/-- The second of two elements with the same tag is not among the children of the root; one of them
is no part of the document. -/
theorem firstFrom?_searches_in_sample :
    let s : Setup := {}
    let t := (s.after 60 searchStart).tree.edit 3 fun f => { f with runtimeOnly := true }
    ∃ l, Locator.compile Pattern.reader "b(2)/c".toList = .ok l ∧ t.IsLinked ∧
      t.follow? root l = none ∧ (t.firstFrom? root l).isSome ∧
        ∃ step steps d, l.steps = step :: steps ∧ t.Selects step d ∧
          t.descend? d steps = some 5 := by
  intro s t
  have hlinked : t.IsLinked :=
    (isLinked_of_reaches (.ofText _ _) (s.reaches_after 60 searchStart)).edit _ _
  have hview : (Locator.compile Pattern.reader "b(2)/c".toList).toOption.map (fun l =>
      (t.follow? root l, t.firstFrom? root l, t.descend? 1 l.steps)) =
      some (none, some 5, some 5) := by
    decide +kernel
  obtain ⟨l, hl, hview⟩ := Option.map_eq_some_iff.mp hview
  simp only [Prod.mk.injEq] at hview
  obtain ⟨hfollow, hfirst, hdescend⟩ := hview
  have hcompile : Locator.compile Pattern.reader "b(2)/c".toList = .ok l := by
    cases hc : Locator.compile Pattern.reader "b(2)/c".toList <;> rw [hc] at hl <;> cases hl
    rfl
  obtain ⟨hfinds, hmeets⟩ := firstFrom?_searches hcompile t root
  obtain ⟨step, steps, -, d, -, hsteps, -, hselects, hleads, -⟩ := (hfinds 5).mp hfirst
  refine ⟨l, hcompile, hlinked, hfollow, (hmeets hlinked).1 1 (.inr ?_) ?_, step, steps, d, hsteps,
    hselects, hleads⟩
  · decide +kernel
  · rw [hdescend]
    rfl

end Tree

end TaggedOutline
