import TaggedOutline.Proofs.Grammar.Termination

/-!
# Lists

Whether the separators of a list show changes the tree of the list and nothing else.  The two lists
run their items at the same places and in the same order, so each round of one is a round of the
other (`Derives.list_lockstep`); what a run of an item answers depends on the answers of the calls
in progress, not on which of them have been asked before (`Derives.congr`), so the item is the same
in every round.

Main statement: `list_visible`, on the two trees, on what a list takes and on what it leaves.
-/

namespace TaggedOutline

namespace Grammar

/-! ## Calls that have been asked -/

/-- Tables with the same answers, of which some calls have been asked in both or in neither. -/
structure Agree (asked : String × Nat → Prop) (s s' : Seeds) : Prop where
  answers : s.answers = s'.answers
  met : ∀ key, asked key → isMet s key = isMet s' key

section Agree

variable {asked asked' : String × Nat → Prop} {s s' : Seeds} {key : String × Nat}

lemma Agree.mono (h : Agree asked s s') (hsub : ∀ key, asked' key → asked key) :
    Agree asked' s s' := ⟨h.answers, fun key hkey => h.met key (hsub key hkey)⟩

lemma Agree.get?_eq_none (h : Agree asked s s') (hnone : s.get? key = none) :
    s'.get? key = none := (Seeds.get?_eq_none_congr h.answers key).mp hnone

/-- A call in progress has the same answer in both tables. -/
lemma Agree.exists_get? (h : Agree asked s s') {seed : Seed} (hseed : s.get? key = some seed) :
    ∃ seed', s'.get? key = some seed' ∧ seed'.found = seed.found := by
  have hfound : (s'.get? key).map Seed.found = some seed.found := by
    rw [← Seeds.lookup_answers, ← h.answers, Seeds.lookup_answers, hseed, Option.map_some]
  exact Option.map_eq_some_iff.mp hfound

lemma isMet_put (s : Seeds) (key : String × Nat) (seed : Seed) (k : String × Nat) :
    isMet (s.put key seed) k = if key = k then seed.met else isMet s k := by
  split
  · next h => rw [← h, isMet, Seeds.get?_put_self, Option.any_some]
  · next h => rw [isMet, isMet, Seeds.get?_put_of_ne s h]

/-- After a seed is put into both tables its call counts as asked in both or in neither. -/
lemma Agree.put (h : Agree asked s s') (key : String × Nat) (seed : Seed) :
    Agree (fun k => key = k ∨ asked k) (s.put key seed) (s'.put key seed) := by
  refine ⟨Seeds.answers_put h.answers key seed, fun k hk => ?_⟩
  rw [isMet_put, isMet_put]
  split
  · rfl
  · next hne => exact h.met k (hk.resolve_left hne)

lemma Agree.remove (h : Agree asked s s') (hnone : (s.remove key).get? key = none) :
    Agree asked (s.remove key) (s'.remove key) := by
  have hanswers := Seeds.answers_remove h.answers key
  refine ⟨hanswers, fun k hk => ?_⟩
  by_cases hne : key = k
  · subst hne
    rw [isMet, isMet, hnone, (Seeds.get?_eq_none_congr hanswers key).mp hnone]
  · rw [isMet, isMet, Seeds.get?_remove_of_ne s hne, Seeds.get?_remove_of_ne s' hne]
    exact h.met k hk

end Agree

section Congr

variable {rules : List NamedRule} {tokens : List Token} {how : Answering} {t : Task} {p : Nat}
  {s s' s₁ : Seeds} {r : Option Match} {asked : String × Nat → Prop}

/-- What a run answers depends on the answers of the calls in progress, not on which of them have
been asked before.  Only of the calls that begin in the run itself it matters whether they are
asked. -/
theorem Derives.congr (h : Derives rules tokens how t p s r s₁) (hs : Agree asked s s') :
    ∃ s₁', Derives rules tokens how t p s' r s₁' ∧ Agree asked s₁ s₁' := by
  induction h generalizing s' asked with
  | take he => exact ⟨s', .take he, hs⟩
  | finish => exact ⟨s', .finish, hs⟩
  | seqNil => exact ⟨s', .seqNil, hs⟩
  | choiceNil => exact ⟨s', .choiceNil, hs⟩
  | behindGap hgap => exact ⟨s', .behindGap hgap, hs⟩
  | unknown h => exact ⟨s', .unknown h, hs⟩
  | seqFail _ ih =>
    obtain ⟨s₁', h, hs₁⟩ := ih hs
    exact ⟨s₁', .seqFail h, hs₁⟩
  | choiceHere _ ih =>
    obtain ⟨s₁', h, hs₁⟩ := ih hs
    exact ⟨s₁', .choiceHere h, hs₁⟩
  | manyEnd _ hr ih =>
    obtain ⟨s₁', h, hs₁⟩ := ih hs
    exact ⟨s₁', .manyEnd h hr, hs₁⟩
  | optional _ ih =>
    obtain ⟨s₁', h, hs₁⟩ := ih hs
    exact ⟨s₁', .optional h, hs₁⟩
  | listFail _ ih =>
    obtain ⟨s₁', h, hs₁⟩ := ih hs
    exact ⟨s₁', .listFail h, hs₁⟩
  | behindEnd hgap _ hr ih =>
    obtain ⟨s₁', h, hs₁⟩ := ih hs
    exact ⟨s₁', .behindEnd hgap h hr, hs₁⟩
  | ref hbody _ ih =>
    obtain ⟨s₁', h, hs₁⟩ := ih hs
    exact ⟨s₁', .ref hbody h, hs₁⟩
  | plain hhow _ ih =>
    obtain ⟨s₁', h, hs₁⟩ := ih hs
    exact ⟨s₁', .plain hhow h, hs₁⟩
  | seqStop _ _ ih ihs =>
    obtain ⟨s₁', h, hs₁⟩ := ih hs
    obtain ⟨s₂', h', hs₂⟩ := ihs hs₁
    exact ⟨s₂', .seqStop h h', hs₂⟩
  | seqCons _ _ ih ihs =>
    obtain ⟨s₁', h, hs₁⟩ := ih hs
    obtain ⟨s₂', h', hs₂⟩ := ihs hs₁
    exact ⟨s₂', .seqCons h h', hs₂⟩
  | choiceNext _ _ ih ihs =>
    obtain ⟨s₁', h, hs₁⟩ := ih hs
    obtain ⟨s₂', h', hs₂⟩ := ihs hs₁
    exact ⟨s₂', .choiceNext h h', hs₂⟩
  | manyMore _ hq _ ih ihs =>
    obtain ⟨s₁', h, hs₁⟩ := ih hs
    obtain ⟨s₂', h', hs₂⟩ := ihs hs₁
    exact ⟨s₂', .manyMore h hq h', hs₂⟩
  | list _ _ ih ihs =>
    obtain ⟨s₁', h, hs₁⟩ := ih hs
    obtain ⟨s₂', h', hs₂⟩ := ihs hs₁
    exact ⟨s₂', .list h h', hs₂⟩
  | behindMore hgap _ hq _ ih ihs =>
    obtain ⟨s₁', h, hs₁⟩ := ih hs
    obtain ⟨s₂', h', hs₂⟩ := ihs hs₁
    exact ⟨s₂', .behindMore hgap h hq h', hs₂⟩
  -- the table is read here, and the two have the same answer in it
  | @met name body p s seed hhow hseed =>
    obtain ⟨seed', hseed', hfound⟩ := hs.exists_get? hseed
    have hmet : Derives rules tokens how (.rule name body) p s' seed'.found
        (s'.put (name, p) { seed' with met := true }) := .met hhow hseed'
    rw [hfound] at hmet
    exact ⟨_, hmet, (hs.put (name, p) { seed with met := true }).mono fun _ => .inr⟩
  -- the call begins in the run itself, so it counts as asked until its entry is taken out
  | @fresh name body p s r s₁ hhow hseed h hr ih =>
    obtain ⟨s₁', h', hs₁⟩ := ih (hs.put (name, p) {})
    have hmet := hs₁.met (name, p) (.inl rfl)
    have hleaves : (s₁.remove (name, p)).answers = s.answers :=
      (Derives.fresh hhow hseed h hr).leaves
    have hnone := (Seeds.get?_eq_none_congr hleaves (name, p)).mpr hseed
    exact ⟨_, .fresh hhow (hs.get?_eq_none hseed) h' (hmet ▸ hr),
      (hs₁.remove hnone).mono fun _ => .inr⟩
  | @grown name body p s m s₁ r s₂ hhow hseed h hmet hgrow ih ihs =>
    obtain ⟨s₁', h', hs₁⟩ := ih (hs.put (name, p) {})
    obtain ⟨s₂', hgrow', hs₂⟩ := ihs hs₁
    have hmet' := (hs₁.met (name, p) (.inl rfl)).symm.trans hmet
    have hleaves : (s₂.remove (name, p)).answers = s.answers :=
      (Derives.grown hhow hseed h hmet hgrow).leaves
    have hnone := (Seeds.get?_eq_none_congr hleaves (name, p)).mpr hseed
    exact ⟨_, .grown hhow (hs.get?_eq_none hseed) h' hmet' hgrow',
      (hs₂.remove hnone).mono fun _ => .inr⟩
  | growMore _ hlt _ ih ihs =>
    obtain ⟨s₁', h, hs₁⟩ := ih (hs.put _ _)
    obtain ⟨s₂', h', hs₂⟩ := ihs (hs₁.mono fun _ => .inr)
    exact ⟨s₂', .growMore h hlt h', hs₂⟩
  | growEnd _ hr ih =>
    obtain ⟨s₁', h, hs₁⟩ := ih (hs.put _ _)
    exact ⟨s₁', .growEnd h hr, hs₁.mono fun _ => .inr⟩

end Congr

/-! ## Answers while calls are in progress -/

/-- What an expression answers at a place while the calls of a table are in progress, whichever of
them have been asked: the result of every run that is deep enough. -/
def AnswersAmong (rules : List NamedRule) (tokens : List Token) (s : Seeds) (e : Expr) (p : Nat)
    (r : Option Match) : Prop :=
  ∀ s', s'.answers = s.answers → ∃ bound, ∀ depth, bound ≤ depth → ∃ s₁,
    (run rules tokens depth e p).run s' = some (r, s₁) ∧ s₁.answers = s.answers

section Lists

variable {rules : List NamedRule} {tokens : List Token} {s s₁ : Seeds} {e item : Expr}
  {p q n : Nat} {r r' : Option Match} {kind : String}

lemma answersAmong_congr (h : s₁.answers = s.answers) :
    AnswersAmong rules tokens s₁ = AnswersAmong rules tokens s := by
  funext e p r
  rw [AnswersAmong, AnswersAmong, h]

lemma AnswersAmong.unique (h : AnswersAmong rules tokens s e p r)
    (h' : AnswersAmong rules tokens s e p r') : r = r' := by
  obtain ⟨bound, hrun⟩ := h s rfl
  obtain ⟨bound', hrun'⟩ := h' s rfl
  obtain ⟨s₁, heq, -⟩ := hrun (max bound bound') (le_max_left _ _)
  obtain ⟨s₂, heq', -⟩ := hrun' (max bound bound') (le_max_right _ _)
  exact (Prod.mk.inj (Option.some.inj (heq.symm.trans heq'))).1

lemma answersAmong_of_derives (hhold : s.Hold (Advances tokens))
    (h : Derives rules tokens .seeded (.expr e) p s r s₁) : AnswersAmong rules tokens s e p r := by
  intro s' hs'
  refine ⟨e.size * (tokens.length + 3) + callsDepth rules tokens, fun depth hdepth => ?_⟩
  obtain ⟨r', s₂, hrun, hs₂, -⟩ :=
    ends_of_hold hhold p depth e p s' le_rfl (le_max_right _ _) hs' hdepth
  have hagree : Agree (fun _ => False) s s' := ⟨hs'.symm, fun _ => False.elim⟩
  obtain ⟨s₃, h', -⟩ := h.congr hagree
  obtain ⟨rfl, -⟩ := h'.unique (isSound rules tokens depth e p s' r' s₂ hrun)
  exact ⟨s₂, hrun, hs₂⟩

lemma exists_derives_expr (rules : List NamedRule) (hhold : s.Hold (Advances tokens)) (e : Expr)
    (p : Nat) : ∃ r s₁, Derives rules tokens .seeded (.expr e) p s r s₁ := by
  obtain ⟨r, s₁, hrun, -⟩ :=
    ends_of_hold hhold p _ e p s le_rfl (le_max_right _ _) rfl (le_refl _)
  exact ⟨r, s₁, isSound rules tokens _ e p s r s₁ hrun⟩

/-! ## Rounds of a list -/

/-- From a place on, up to another one, stand separators of a kind, each with an item behind it. -/
inductive Joined (tokens : List Token) (kind : String) (answers : Nat → Option Match → Prop) :
    Nat → List (Token × ParseTree) → Nat → Prop
  | nil {p : Nat} : Joined tokens kind answers p [] p
  | cons {p q n : Nat} {t : Token} {v : ParseTree} {rest : List (Token × ParseTree)}
      (ht : tokens[p]? = some t) (hkind : t.kind = kind) (h : answers (p + 1) (some (v, q)))
      (hs : Joined tokens kind answers q rest n) : Joined tokens kind answers p ((t, v) :: rest) n

/-- No separator with an item behind it stands at a place. -/
def NoneStands (tokens : List Token) (kind : String) (answers : Nat → Option Match → Prop)
    (p : Nat) : Prop :=
  ∀ t, tokens[p]? = some t → t.kind = kind → answers (p + 1) none

/-- Separators and the items behind them, as they show in the tree of a list. -/
def shown (rest : List (Token × ParseTree)) : List ParseTree :=
  rest.flatMap fun x => [.token x.1, x.2]

lemma gap?_eq_some_iff {m : Match} : gap? tokens (some kind) p = some m ↔
    ∃ t, tokens[p]? = some t ∧ t.kind = kind ∧ m = (.token t, p + 1) := by
  constructor
  · intro h
    obtain ⟨t, ht, htest, rfl⟩ := exists_of_takeIf h
    exact ⟨t, ht, of_decide_eq_true htest, rfl⟩
  · rintro ⟨t, ht, hkind, rfl⟩
    rw [gap?, takeIf, ht]
    simp [hkind]

/-- A list that does not show its separators and one that does go through the same rounds, to the
same place.  There a separator is left only if no item stands behind it. -/
theorem Derives.list_lockstep (hhold : s.Hold (Advances tokens))
    (h : Derives rules tokens .seeded (.behind item (some kind) false) p s r s₁) :
    ∃ rest n, r = some (.list (rest.map Prod.snd), n) ∧
      Derives rules tokens .seeded (.behind item (some kind) true) p s
        (some (.list (shown rest), n)) s₁ ∧
      Joined tokens kind (AnswersAmong rules tokens s item) p rest n ∧
      NoneStands tokens kind (AnswersAmong rules tokens s item) n := by
  generalize ht : Task.behind item (some kind) false = t at h
  induction h with
  | behindGap hgap =>
    cases ht
    refine ⟨[], _, rfl, .behindGap hgap, .nil, fun t ht hkind => ?_⟩
    have hsome := gap?_eq_some_iff.mpr ⟨t, ht, hkind, rfl⟩
    cases hgap.symm.trans hsome
  | @behindEnd e sep vis p s between a r s₁ hgap h hr =>
    cases ht
    obtain ⟨t, -, -, he⟩ := gap?_eq_some_iff.mp hgap
    obtain ⟨rfl, rfl⟩ := Prod.mk.inj he
    -- an item behind a separator ends behind the separator too, so the round got no item
    have hnone : r = none := by
      cases r with
      | none => rfl
      | some m =>
        have hle : p + 1 ≤ m.2 := (h.advances trivial hhold m rfl).1
        have hend : m.2 = p := hr m rfl
        omega
    subst hnone
    exact ⟨[], p, rfl, .behindEnd hgap h hr, .nil, fun _ _ _ => answersAmong_of_derives hhold h⟩
  | @behindMore e sep vis p s between a v q s₁ vs n s₂ hgap h hq _ _ ih =>
    cases ht
    obtain ⟨t, ht, hkind, he⟩ := gap?_eq_some_iff.mp hgap
    obtain ⟨rfl, rfl⟩ := Prod.mk.inj he
    have hleaves : s₁.answers = s.answers := h.leaves
    obtain ⟨rest, n', hr, hvisible, hjoined, hnone⟩ := ih (hhold.congr hleaves) rfl
    obtain ⟨hvs, rfl⟩ := Prod.mk.inj (Option.some.inj hr)
    obtain rfl := ParseTree.list.inj hvs
    rw [answersAmong_congr hleaves] at hjoined hnone
    have hitem := answersAmong_of_derives hhold h
    exact ⟨(t, v) :: rest, n, rfl, .behindMore hgap h hq hvisible, .cons ht hkind hitem hjoined,
      hnone⟩
  | _ => cases ht

/-- Without a separator there is nothing to show. -/
lemma Derives.list_unseparated {vis : Bool}
    (h : Derives rules tokens .seeded (.behind item none vis) p s r s₁) (vis' : Bool) :
    Derives rules tokens .seeded (.behind item none vis') p s r s₁ := by
  generalize ht : Task.behind item none vis = t at h
  induction h with
  | behindGap hgap =>
    cases ht
    exact .behindGap hgap
  | behindEnd hgap h hr =>
    cases ht
    exact .behindEnd hgap h hr
  | @behindMore e sep _ p s between a v q s₁ vs n s₂ hgap h hq _ _ ih =>
    cases ht
    have hround := Derives.behindMore hgap h hq (ih rfl)
    obtain ⟨rfl, rfl⟩ := Prod.mk.inj (Option.some.inj hgap)
    have hkept : ∀ b, keptGap b .empty = [] := fun b => by cases b <;> rfl
    rw [hkept] at hround ⊢
    exact hround
  | _ => cases ht

/-! ## The trees of a list -/

/-- Whether its separators show changes the tree of a list and nothing else, whatever an item is and
whichever calls are in progress.  Both lists fail where the first item fails.  Else both take the
first item and the same separators with the items behind them, and leave the same: no separator with
an item behind it.  Without separators the two trees are the same. -/
theorem list_visible (g : Grammar) (tokens : List Token) {s : Seeds}
    (hhold : s.Hold (Advances tokens)) (item : Expr) (kind : String) (p : Nat) :
    ((AnswersAmong g.rules tokens s item p none ∧
        ∀ vis, AnswersAmong g.rules tokens s (.list item (some kind) vis) p none) ∨
      ∃ v q rest n, AnswersAmong g.rules tokens s item p (some (v, q)) ∧
        Joined tokens kind (AnswersAmong g.rules tokens s item) q rest n ∧
        AnswersAmong g.rules tokens s (.list item (some kind) false) p
          (some (.list (v :: rest.map Prod.snd), n)) ∧
        AnswersAmong g.rules tokens s (.list item (some kind) true) p
          (some (.list (v :: shown rest), n)) ∧
        NoneStands tokens kind (AnswersAmong g.rules tokens s item) n) ∧
    ∃ r, ∀ vis, AnswersAmong g.rules tokens s (.list item none vis) p r := by
  constructor
  · obtain ⟨r, s₁, h⟩ := exists_derives_expr g.rules hhold (.list item (some kind) false) p
    cases h with
    | take he => simp [tokenTest?] at he
    | listFail h =>
      have hitem := answersAmong_of_derives hhold h
      exact .inl ⟨hitem, fun vis => answersAmong_of_derives hhold (.listFail h)⟩
    | @list _ _ _ _ _ v q s₁ vs n s₂ h hs =>
      have hleaves : s₁.answers = s.answers := h.leaves
      obtain ⟨rest, n', hr, hvisible, hjoined, hnone⟩ := hs.list_lockstep (hhold.congr hleaves)
      obtain ⟨hvs, rfl⟩ := Prod.mk.inj (Option.some.inj hr)
      obtain rfl := ParseTree.list.inj hvs
      rw [answersAmong_congr hleaves] at hjoined hnone
      exact .inr ⟨v, q, rest, n, answersAmong_of_derives hhold h, hjoined,
        answersAmong_of_derives hhold (.list h hs),
        answersAmong_of_derives hhold (.list h hvisible), hnone⟩
  · obtain ⟨r, s₁, h⟩ := exists_derives_expr g.rules hhold (.list item none false) p
    have hsame : ∀ vis,
        Derives g.rules tokens .seeded (.expr (.list item none vis)) p s r s₁ := by
      intro vis
      cases h with
      | take he => simp [tokenTest?] at he
      | listFail h => exact .listFail h
      | list h hs => exact .list h (hs.list_unseparated vis)
    exact ⟨r, fun vis => answersAmong_of_derives hhold (hsame vis)⟩

end Lists

/-- Lists of lists: each list begins with a list. -/
def nestedLists : Grammar where
  rules := [("list", .choice [.list (.ref "list") (some "comma") true, .token "word"])]
  start := "list"
  sound := by decide

/-- While a list of one word grows, the lists that begin with it differ in the commas only. -/
theorem list_visible_nested :
    let word : Token := { kind := "word", text := ['a'], start := 0, stop := 1 }
    let comma : Token := { kind := "comma", text := [','], start := 1, stop := 2 }
    let tokens := [word, comma, { word with start := 2, stop := 3 }]
    let first : ParseTree := .rule "list" (.token word)
    let s : Seeds := [(("list", 0), growingSeed (first, 1))]
    s.Hold (Advances tokens) ∧ ∃ rest n,
      AnswersAmong nestedLists.rules tokens s (.list (.ref "list") (some "comma") false) 0
        (some (.list (first :: rest.map Prod.snd), n)) ∧
      AnswersAmong nestedLists.rules tokens s (.list (.ref "list") (some "comma") true) 0
        (some (.list (first :: shown rest), n)) := by
  intro word comma tokens first s
  have hhold : s.Hold (Advances tokens) := by
    rw [Seeds.hold_cons]
    refine ⟨?_, Seeds.hold_nil⟩
    rintro _ ⟨⟩
    exact ⟨Nat.zero_le 1, by decide⟩
  have hseed : s.get? ("list", 0) = some (growingSeed (first, 1)) := rfl
  have hmet : AnswersAmong nestedLists.rules tokens s (.ref "list") 0 (some (first, 1)) :=
    answersAmong_of_derives hhold (.ref rfl (.met rfl hseed))
  refine ⟨hhold, ?_⟩
  rcases (list_visible nestedLists tokens hhold (.ref "list") "comma" 0).1 with
    ⟨hnone, -⟩ | ⟨v, q, rest, n, hitem, -, hsilent, hvisible, -⟩
  · cases hmet.unique hnone
  · obtain ⟨rfl, rfl⟩ := Prod.mk.inj (Option.some.inj (hmet.unique hitem))
    exact ⟨rest, n, hsilent, hvisible⟩

end Grammar

end TaggedOutline
