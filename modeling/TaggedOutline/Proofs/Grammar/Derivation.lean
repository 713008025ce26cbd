import TaggedOutline.Proofs.Grammar.Seeds

/-!
# Derivations

The runner takes a depth and collects its results in reverse.  `Derives` says without these what a
run of an expression answers: one rule for each way it can go, from the seeds before to the seeds
after.  The call of a rule is answered in one of two ways, `Answering.seeded`, which is what the
runner does, and `Answering.plain`, the usual recursive descent; nothing else differs.

Main statements: what the runner answers can be derived (`isSound`, `derives_of_runRule`), there is
at most one derivable answer (`Derives.unique`), and a run leaves the answers of the calls in
progress as they were (`Derives.leaves`).
-/

namespace TaggedOutline

namespace Grammar

/-- How the call of a rule is answered. -/
inductive Answering where
  /-- By running the body of the rule. -/
  | plain
  /-- By the seed of the call that is in progress at the place; if there is none, the body is run
  and, if it has met its own seed, run again while the match grows. -/
  | seeded

/-- What can be run at a place. -/
inductive Task where
  | expr (e : Expr)
  /-- What follows an item of a list. -/
  | behind (item : Expr) (separator : Option String) (visible : Bool)
  /-- The call of a rule. -/
  | rule (name : String) (body : Expr)
  /-- The growing of a match of a rule. -/
  | grow (name : String) (body : Expr) (best : Match)

/-- The test of an expression that takes one token. -/
def tokenTest? : Expr → Option (Token → Bool)
  | .token kind => some fun t => t.kind = kind
  | .literal text => some fun t => t.text = text
  | .word => some fun t => !t.structural
  | _ => none

/-- A token that is taken is the next one, and passes the test. -/
lemma exists_of_takeIf {tokens : List Token} {p : Nat} {test : Token → Bool} {m : Match}
    (h : takeIf tokens p test = some m) :
    ∃ t, tokens[p]? = some t ∧ test t = true ∧ m = (.token t, p + 1) := by
  rw [takeIf] at h
  split at h
  · next t ht =>
    split at h
    · next htest => exact ⟨t, ht, htest, (Option.some.inj h).symm⟩
    · simp at h
  · simp at h

/-- What stands between two items of a list, and the place after it. -/
def gap? (tokens : List Token) (separator : Option String) (place : Nat) : Option Match :=
  match separator with
  | some kind => takeIf tokens place fun t => t.kind = kind
  | none => some (.empty, place)

/-- What a list keeps of a gap. -/
def keptGap (visible : Bool) (between : ParseTree) : List ParseTree :=
  if visible && !between.isEmpty then [between] else []

/-- The seed of a call that has a match to grow. -/
def growingSeed (best : Match) : Seed := { found := some best, met := true }

/-- Whether the call under a key has been asked for its seed. -/
def isMet (s : Seeds) (key : String × Nat) : Bool := (s.get? key).any Seed.met

/-- What running a task at a place answers, with the seeds before and after. -/
inductive Derives (rules : List NamedRule) (tokens : List Token) (how : Answering) :
    Task → Nat → Seeds → Option Match → Seeds → Prop
  | take {e test p s} (he : tokenTest? e = some test) :
      Derives rules tokens how (.expr e) p s (takeIf tokens p test) s
  | finish {p s} :
      Derives rules tokens how (.expr .finish) p s
        (if tokens.length ≤ p then some (.empty, p) else none) s
  | seqNil {p s} : Derives rules tokens how (.expr (.seq [])) p s (some (.list [], p)) s
  | seqFail {e es p s s₁} (h : Derives rules tokens how (.expr e) p s none s₁) :
      Derives rules tokens how (.expr (.seq (e :: es))) p s none s₁
  | seqStop {e es p s v q s₁ s₂} (h : Derives rules tokens how (.expr e) p s (some (v, q)) s₁)
      (hs : Derives rules tokens how (.expr (.seq es)) q s₁ none s₂) :
      Derives rules tokens how (.expr (.seq (e :: es))) p s none s₂
  | seqCons {e es p s v q s₁ vs n s₂}
      (h : Derives rules tokens how (.expr e) p s (some (v, q)) s₁)
      (hs : Derives rules tokens how (.expr (.seq es)) q s₁ (some (.list vs, n)) s₂) :
      Derives rules tokens how (.expr (.seq (e :: es))) p s (some (.list (v :: vs), n)) s₂
  | choiceNil {p s} : Derives rules tokens how (.expr (.choice [])) p s none s
  | choiceHere {e es p s m s₁} (h : Derives rules tokens how (.expr e) p s (some m) s₁) :
      Derives rules tokens how (.expr (.choice (e :: es))) p s (some m) s₁
  | choiceNext {e es p s s₁ r s₂} (h : Derives rules tokens how (.expr e) p s none s₁)
      (hs : Derives rules tokens how (.expr (.choice es)) p s₁ r s₂) :
      Derives rules tokens how (.expr (.choice (e :: es))) p s r s₂
  | manyEnd {e p s r s₁} (h : Derives rules tokens how (.expr e) p s r s₁)
      (hr : ∀ m ∈ r, m.2 = p) :
      Derives rules tokens how (.expr (.many e)) p s (some (.list [], p)) s₁
  | manyMore {e p s v q s₁ vs n s₂} (h : Derives rules tokens how (.expr e) p s (some (v, q)) s₁)
      (hq : q ≠ p) (hs : Derives rules tokens how (.expr (.many e)) q s₁ (some (.list vs, n)) s₂) :
      Derives rules tokens how (.expr (.many e)) p s (some (.list (v :: vs), n)) s₂
  | optional {e p s r s₁} (h : Derives rules tokens how (.expr e) p s r s₁) :
      Derives rules tokens how (.expr (.optional e)) p s (r.or (some (.empty, p))) s₁
  | listFail {e sep vis p s s₁} (h : Derives rules tokens how (.expr e) p s none s₁) :
      Derives rules tokens how (.expr (.list e sep vis)) p s none s₁
  | list {e sep vis p s v q s₁ vs n s₂}
      (h : Derives rules tokens how (.expr e) p s (some (v, q)) s₁)
      (hs : Derives rules tokens how (.behind e sep vis) q s₁ (some (.list vs, n)) s₂) :
      Derives rules tokens how (.expr (.list e sep vis)) p s (some (.list (v :: vs), n)) s₂
  | behindGap {e sep vis p s} (hgap : gap? tokens sep p = none) :
      Derives rules tokens how (.behind e sep vis) p s (some (.list [], p)) s
  | behindEnd {e sep vis p s between a r s₁} (hgap : gap? tokens sep p = some (between, a))
      (h : Derives rules tokens how (.expr e) a s r s₁) (hr : ∀ m ∈ r, m.2 = p) :
      Derives rules tokens how (.behind e sep vis) p s (some (.list [], p)) s₁
  | behindMore {e sep vis p s between a v q s₁ vs n s₂}
      (hgap : gap? tokens sep p = some (between, a))
      (h : Derives rules tokens how (.expr e) a s (some (v, q)) s₁) (hq : q ≠ p)
      (hs : Derives rules tokens how (.behind e sep vis) q s₁ (some (.list vs, n)) s₂) :
      Derives rules tokens how (.behind e sep vis) p s
        (some (.list (keptGap vis between ++ v :: vs), n)) s₂
  | unknown {name p s} (h : rules.lookup name = none) :
      Derives rules tokens how (.expr (.ref name)) p s none s
  | ref {name body p s r s₁} (hbody : rules.lookup name = some body)
      (h : Derives rules tokens how (.rule name body) p s r s₁) :
      Derives rules tokens how (.expr (.ref name)) p s r s₁
  | plain {name body p s r s₁} (hhow : how = .plain)
      (h : Derives rules tokens how (.expr body) p s r s₁) :
      Derives rules tokens how (.rule name body) p s (r.map (nameResult name)) s₁
  | met {name body p s seed} (hhow : how = .seeded) (hseed : s.get? (name, p) = some seed) :
      Derives rules tokens how (.rule name body) p s seed.found
        (s.put (name, p) { seed with met := true })
  | fresh {name body p s r s₁} (hhow : how = .seeded) (hseed : s.get? (name, p) = none)
      (h : Derives rules tokens how (.expr body) p (s.put (name, p) {}) r s₁)
      (hr : r = none ∨ isMet s₁ (name, p) = false) :
      Derives rules tokens how (.rule name body) p s (r.map (nameResult name))
        (s₁.remove (name, p))
  | grown {name body p s m s₁ r s₂} (hhow : how = .seeded) (hseed : s.get? (name, p) = none)
      (h : Derives rules tokens how (.expr body) p (s.put (name, p) {}) (some m) s₁)
      (hmet : isMet s₁ (name, p) = true)
      (hs : Derives rules tokens how (.grow name body (nameResult name m)) p s₁ r s₂) :
      Derives rules tokens how (.rule name body) p s r (s₂.remove (name, p))
  | growMore {name body best p s m s₁ r s₂}
      (h : Derives rules tokens how (.expr body) p (s.put (name, p) (growingSeed best)) (some m) s₁)
      (hlt : best.2 < m.2)
      (hs : Derives rules tokens how (.grow name body (nameResult name m)) p s₁ r s₂) :
      Derives rules tokens how (.grow name body best) p s r s₂
  | growEnd {name body best p s r s₁}
      (h : Derives rules tokens how (.expr body) p (s.put (name, p) (growingSeed best)) r s₁)
      (hr : ∀ m ∈ r, m.2 ≤ best.2) :
      Derives rules tokens how (.grow name body best) p s (some best) s₁

/-! ## What the runner answers -/

lemma run_bind_eq_some_iff {α β : Type} {x : Run α} {f : α → Run β} {s s₂ : Seeds} {b : β} :
    (x >>= f).run s = some (b, s₂) ↔
      ∃ a s₁, x.run s = some (a, s₁) ∧ (f a).run s₁ = some (b, s₂) := by
  simp only [StateT.run_bind, Option.bind_eq_bind, Option.bind_eq_some_iff, Prod.exists]

lemma run_pure_eq_some_iff {α : Type} {a b : α} {s s₁ : Seeds} :
    (pure a : Run α).run s = some (b, s₁) ↔ a = b ∧ s = s₁ := by
  simp only [StateT.run_pure, Option.pure_def, Option.some.injEq, Prod.mk.injEq]

lemma run_modify_bind {α : Type} {change : Seeds → Seeds} {k : PUnit → Run α} {s : Seeds} :
    (modify change >>= k).run s = (k ⟨⟩).run (change s) := rfl

lemma run_get_bind {α : Type} {k : Seeds → Run α} {s : Seeds} :
    (get >>= k).run s = (k s).run s := rfl

/-- A list of trees with the place after them as a match, behind earlier trees, latest first. -/
def listed (done : List ParseTree) (m : List ParseTree × Nat) : Match :=
  (.list (done.reverse ++ m.1), m.2)

section Sound

variable {rules : List NamedRule} {tokens : List Token}

/-- At a depth, what running an expression answers can be derived. -/
def IsSound (rules : List NamedRule) (tokens : List Token) (depth : Nat) : Prop :=
  ∀ e p s r s₁, (run rules tokens depth e p).run s = some (r, s₁) →
    Derives rules tokens .seeded (.expr e) p s r s₁

variable {depth d p : Nat} {s s₁ : Seeds} {r : Option Match} {done : List ParseTree}

lemma derives_of_runSeq (hrun : ∀ d < depth, IsSound rules tokens d) (hd : d ≤ depth)
    {parts : List Expr} (h : (runSeq rules tokens d parts done p).run s = some (r, s₁)) :
    ∃ m : Option (List ParseTree × Nat), r = m.map (listed done) ∧
      Derives rules tokens .seeded (.expr (.seq parts)) p s (m.map (listed [])) s₁ := by
  induction parts generalizing d done p s with
  | nil =>
    cases d with
    | zero => simp [runSeq] at h
    | succ d =>
      rw [runSeq, run_pure_eq_some_iff] at h
      obtain ⟨rfl, rfl⟩ := h
      exact ⟨some ([], p), by simp [listed], .seqNil⟩
  | cons e parts ih =>
    cases d with
    | zero => simp [runSeq] at h
    | succ d =>
      rw [runSeq, run_bind_eq_some_iff] at h
      obtain ⟨m, s₂, hpart, hrest⟩ := h
      have hpart := hrun d hd e p s m s₂ hpart
      cases m with
      | none =>
        obtain ⟨rfl, rfl⟩ := run_pure_eq_some_iff.mp hrest
        exact ⟨none, rfl, .seqFail hpart⟩
      | some m =>
        obtain ⟨v, q⟩ := m
        obtain ⟨m, rfl, hs⟩ := ih (Nat.le_of_succ_le hd) hrest
        cases m with
        | none => exact ⟨none, rfl, .seqStop hpart hs⟩
        | some m => exact ⟨some (v :: m.1, m.2), by simp [listed], .seqCons hpart hs⟩

lemma derives_of_runChoice (hrun : ∀ d < depth, IsSound rules tokens d) (hd : d ≤ depth)
    {parts : List Expr} (h : (runChoice rules tokens d parts p).run s = some (r, s₁)) :
    Derives rules tokens .seeded (.expr (.choice parts)) p s r s₁ := by
  induction parts generalizing d s with
  | nil =>
    cases d with
    | zero => simp [runChoice] at h
    | succ d =>
      rw [runChoice, run_pure_eq_some_iff] at h
      obtain ⟨rfl, rfl⟩ := h
      exact .choiceNil
  | cons e parts ih =>
    cases d with
    | zero => simp [runChoice] at h
    | succ d =>
      rw [runChoice, run_bind_eq_some_iff] at h
      obtain ⟨m, s₂, hpart, hrest⟩ := h
      have hpart := hrun d hd e p s m s₂ hpart
      cases m with
      | none => exact .choiceNext hpart (ih (Nat.le_of_succ_le hd) hrest)
      | some m =>
        obtain ⟨rfl, rfl⟩ := run_pure_eq_some_iff.mp hrest
        exact .choiceHere hpart

lemma derives_of_runMany (hrun : ∀ d < depth, IsSound rules tokens d) (hd : d ≤ depth)
    {item : Expr} (h : (runMany rules tokens d item done p).run s = some (r, s₁)) :
    ∃ m, r = some (listed done m) ∧
      Derives rules tokens .seeded (.expr (.many item)) p s (some (listed [] m)) s₁ := by
  induction d generalizing done p s with
  | zero => simp [runMany] at h
  | succ d ih =>
    rw [runMany, run_bind_eq_some_iff] at h
    obtain ⟨m, s₂, hitem, hrest⟩ := h
    have hitem := hrun d hd item p s m s₂ hitem
    cases m with
    | none =>
      obtain ⟨rfl, rfl⟩ := run_pure_eq_some_iff.mp hrest
      exact ⟨([], p), by simp [listed], .manyEnd hitem (by simp)⟩
    | some m =>
      obtain ⟨v, q⟩ := m
      by_cases hq : q = p
      · simp only [hq, if_true] at hrest
        obtain ⟨rfl, rfl⟩ := run_pure_eq_some_iff.mp hrest
        exact ⟨([], p), by simp [listed], .manyEnd hitem (by simpa using hq)⟩
      · simp only [hq, if_false] at hrest
        obtain ⟨m, rfl, hs⟩ := ih (Nat.le_of_succ_le hd) hrest
        exact ⟨(v :: m.1, m.2), by simp [listed], .manyMore hitem hq hs⟩

/-- A round of a list, with what stands in the gap. -/
lemma runList_succ (d : Nat) (item : Expr) (sep : Option String) (vis : Bool)
    (done : List ParseTree) (p : Nat) :
    runList rules tokens (d + 1) item sep vis done p =
      match gap? tokens sep p with
      | none => return some (.list done.reverse, p)
      | some (between, a) => do
        match ← run rules tokens d item a with
        | some (v, q) =>
          if q = p then return some (.list done.reverse, p)
          else runList rules tokens d item sep vis (v :: (keptGap vis between ++ done)) q
        | none => return some (.list done.reverse, p) := by
  have hkept : ∀ between, keptGap vis between ++ done =
      if vis && !between.isEmpty then between :: done else done := by
    intro between
    rw [keptGap]
    split <;> rfl
  rw [runList.eq_def]
  simp only [hkept]
  cases sep <;> rfl

lemma derives_of_runList (hrun : ∀ d < depth, IsSound rules tokens d) (hd : d ≤ depth)
    {item : Expr} {sep : Option String} {vis : Bool}
    (h : (runList rules tokens d item sep vis done p).run s = some (r, s₁)) :
    ∃ m, r = some (listed done m) ∧
      Derives rules tokens .seeded (.behind item sep vis) p s (some (listed [] m)) s₁ := by
  induction d generalizing done p s with
  | zero => simp [runList] at h
  | succ d ih =>
    rw [runList_succ] at h
    cases hg : gap? tokens sep p with
    | none =>
      rw [hg] at h
      obtain ⟨rfl, rfl⟩ := run_pure_eq_some_iff.mp h
      exact ⟨([], p), by simp [listed], .behindGap hg⟩
    | some between =>
      obtain ⟨between, a⟩ := between
      rw [hg] at h
      obtain ⟨m, s₂, hitem, hrest⟩ := run_bind_eq_some_iff.mp h
      have hitem := hrun d hd item a s m s₂ hitem
      cases m with
      | none =>
        obtain ⟨rfl, rfl⟩ := run_pure_eq_some_iff.mp hrest
        exact ⟨([], p), by simp [listed], .behindEnd hg hitem (by simp)⟩
      | some m =>
        obtain ⟨v, q⟩ := m
        by_cases hq : q = p
        · simp only [hq, if_true] at hrest
          obtain ⟨rfl, rfl⟩ := run_pure_eq_some_iff.mp hrest
          exact ⟨([], p), by simp [listed], .behindEnd hg hitem (by simpa using hq)⟩
        · simp only [hq, if_false] at hrest
          obtain ⟨m, rfl, hs⟩ := ih (Nat.le_of_succ_le hd) hrest
          refine ⟨(keptGap vis between ++ v :: m.1, m.2), ?_, .behindMore hg hitem hq hs⟩
          rw [listed, listed, keptGap]
          split <;> simp

lemma derives_of_runGrowing (hrun : ∀ d < depth, IsSound rules tokens d) (hd : d ≤ depth)
    {name : String} {body : Expr} {best : Match}
    (h : (runGrowing rules tokens d name body p best).run s = some (r, s₁)) :
    Derives rules tokens .seeded (.grow name body best) p s r s₁ := by
  induction d generalizing best s with
  | zero => simp [runGrowing] at h
  | succ d ih =>
    rw [runGrowing, run_modify_bind] at h
    obtain ⟨m, s₂, hbody, hrest⟩ := run_bind_eq_some_iff.mp h
    have hbody := hrun d hd body p _ m s₂ hbody
    cases m with
    | none =>
      obtain ⟨rfl, rfl⟩ := run_pure_eq_some_iff.mp hrest
      exact .growEnd hbody (by simp)
    | some m =>
      by_cases hlt : best.2 < m.2
      · simp only [hlt, if_true] at hrest
        exact .growMore hbody hlt (ih (Nat.le_of_succ_le hd) hrest)
      · simp only [hlt, if_false] at hrest
        obtain ⟨rfl, rfl⟩ := run_pure_eq_some_iff.mp hrest
        exact .growEnd hbody (by simpa using hlt)

section Call

variable {name : String} {body : Expr} {seed : Seed} {m : Option Match} {s₂ : Seeds}

/-- A call that is in progress at the place answers with its seed. -/
lemma runRule_met (hseed : s.get? (name, p) = some seed) :
    (runRule rules tokens (d + 1) name body p).run s =
      some (seed.found, s.put (name, p) { seed with met := true }) := by
  rw [runRule, run_get_bind]
  simp only [hseed]
  rfl

/-- A call for which none is in progress runs its body. -/
lemma exists_run_of_runRule (hseed : s.get? (name, p) = none)
    (h : (runRule rules tokens (d + 1) name body p).run s = some (r, s₁)) :
    ∃ m s₂, (run rules tokens d body p).run (s.put (name, p) {}) = some (m, s₂) := by
  rw [runRule, run_get_bind] at h
  simp only [hseed, run_modify_bind] at h
  obtain ⟨m, s₂, hm, -⟩ := run_bind_eq_some_iff.mp h
  exact ⟨m, s₂, hm⟩

/-- A call that has not met its seed, or has not matched, is done after its body. -/
lemma runRule_fresh (hseed : s.get? (name, p) = none)
    (hbody : (run rules tokens d body p).run (s.put (name, p) {}) = some (m, s₂))
    (hr : m = none ∨ isMet s₂ (name, p) = false) :
    (runRule rules tokens (d + 1) name body p).run s =
      some (m.map (nameResult name), s₂.remove (name, p)) := by
  rw [runRule, run_get_bind]
  simp only [hseed, run_modify_bind]
  rw [StateT.run_bind, hbody]
  rcases m with _ | m
  · rfl
  · have hmet : (s₂.get? (name, p)).any Seed.met = false := hr.resolve_left (by simp)
    simp only [Option.bind_eq_bind, Option.bind_some, run_get_bind, hmet]
    rfl

/-- A call that has met its seed and matched grows its match. -/
lemma runRule_grown {m : Match} (hseed : s.get? (name, p) = none)
    (hbody : (run rules tokens d body p).run (s.put (name, p) {}) = some (some m, s₂))
    (hmet : isMet s₂ (name, p) = true) :
    (runRule rules tokens (d + 1) name body p).run s =
      ((runGrowing rules tokens d name body p (nameResult name m)).run s₂).map
        fun x => (x.1, x.2.remove (name, p)) := by
  have hmet : (s₂.get? (name, p)).any Seed.met = true := hmet
  rw [runRule, run_get_bind]
  simp only [hseed, run_modify_bind]
  rw [StateT.run_bind, hbody]
  simp only [Option.bind_eq_bind, Option.bind_some, run_get_bind, hmet, Option.map_some]
  rw [StateT.run_bind, Option.bind_eq_bind, Option.map_eq_bind]
  rfl

end Call

theorem derives_of_runRule (hrun : ∀ d < depth, IsSound rules tokens d) (hd : d ≤ depth)
    {name : String} {body : Expr} (h : (runRule rules tokens d name body p).run s = some (r, s₁)) :
    Derives rules tokens .seeded (.rule name body) p s r s₁ := by
  cases d with
  | zero => simp [runRule] at h
  | succ d =>
    cases hseed : s.get? (name, p) with
    | some seed =>
      rw [runRule_met hseed] at h
      obtain ⟨rfl, rfl⟩ := Prod.mk.inj (Option.some.inj h)
      exact .met rfl hseed
    | none =>
      obtain ⟨m, s₂, hm⟩ := exists_run_of_runRule hseed h
      have hbody := hrun d hd body p _ m s₂ hm
      by_cases hr : m = none ∨ isMet s₂ (name, p) = false
      · rw [runRule_fresh hseed hm hr] at h
        obtain ⟨rfl, rfl⟩ := Prod.mk.inj (Option.some.inj h)
        exact .fresh rfl hseed hbody hr
      · obtain ⟨hm', hmet⟩ := not_or.mp hr
        obtain ⟨m, rfl⟩ := Option.ne_none_iff_exists'.mp hm'
        rw [Bool.not_eq_false] at hmet
        rw [runRule_grown hseed hm hmet] at h
        obtain ⟨⟨r', s₃⟩, hgrow, he⟩ := Option.map_eq_some_iff.mp h
        obtain ⟨rfl, rfl⟩ := Prod.mk.inj he
        exact .grown rfl hseed hbody hmet
          (derives_of_runGrowing hrun (Nat.le_of_succ_le hd) hgrow)

theorem isSound (rules : List NamedRule) (tokens : List Token) (depth : Nat) :
    IsSound rules tokens depth := by
  induction depth using Nat.strong_induction_on with
  | _ depth hrun =>
    intro e p s r s₁ h
    cases depth with
    | zero => simp [run] at h
    | succ depth =>
      cases e with
      | token kind =>
        rw [run] at h
        obtain ⟨rfl, rfl⟩ := run_pure_eq_some_iff.mp h
        exact .take rfl
      | literal text =>
        rw [run] at h
        obtain ⟨rfl, rfl⟩ := run_pure_eq_some_iff.mp h
        exact .take rfl
      | word =>
        rw [run] at h
        obtain ⟨rfl, rfl⟩ := run_pure_eq_some_iff.mp h
        exact .take rfl
      | finish =>
        rw [run] at h
        obtain ⟨rfl, rfl⟩ := run_pure_eq_some_iff.mp h
        exact .finish
      | seq parts =>
        rw [run] at h
        obtain ⟨m, rfl, hs⟩ := derives_of_runSeq hrun (Nat.le_succ depth) h
        exact hs
      | choice alternatives =>
        rw [run] at h
        exact derives_of_runChoice hrun (Nat.le_succ depth) h
      | many item =>
        rw [run] at h
        obtain ⟨m, rfl, hs⟩ := derives_of_runMany hrun (Nat.le_succ depth) h
        exact hs
      | optional item =>
        rw [run] at h
        obtain ⟨m, s₂, hitem, hrest⟩ := run_bind_eq_some_iff.mp h
        have hitem := hrun depth (Nat.lt_succ_self depth) item p s m s₂ hitem
        cases m with
        | none =>
          obtain ⟨rfl, rfl⟩ := run_pure_eq_some_iff.mp hrest
          exact .optional hitem
        | some m =>
          obtain ⟨rfl, rfl⟩ := run_pure_eq_some_iff.mp hrest
          exact .optional hitem
      | list item sep vis =>
        rw [run] at h
        obtain ⟨m, s₂, hitem, hrest⟩ := run_bind_eq_some_iff.mp h
        have hitem := hrun depth (Nat.lt_succ_self depth) item p s m s₂ hitem
        cases m with
        | none =>
          obtain ⟨rfl, rfl⟩ := run_pure_eq_some_iff.mp hrest
          exact .listFail hitem
        | some m =>
          obtain ⟨m, rfl, hs⟩ := derives_of_runList hrun (Nat.le_succ depth) hrest
          exact .list hitem hs
      | ref name =>
        rw [run] at h
        cases hbody : rules.lookup name with
        | none =>
          simp only [hbody] at h
          obtain ⟨rfl, rfl⟩ := run_pure_eq_some_iff.mp h
          exact .unknown hbody
        | some body =>
          simp only [hbody] at h
          exact .ref hbody (derives_of_runRule hrun (Nat.le_succ depth) h)

end Sound

/-! ## One answer -/

section Unique

variable {rules : List NamedRule} {tokens : List Token} {how : Answering} {t : Task} {p : Nat}
  {s s₁ s₂ : Seeds} {r r' : Option Match}

theorem Derives.unique (h : Derives rules tokens how t p s r s₁)
    (h' : Derives rules tokens how t p s r' s₂) : r = r' ∧ s₁ = s₂ := by
  induction h generalizing r' s₂
  all_goals cases h'
  all_goals try (simp_all [tokenTest?]; done)
  -- a round that ends a loop and one that goes on differ in where the item ends
  case manyEnd.manyMore hr ih _ _ _ _ _ hq h _ => exact absurd (hr _ (ih h).1) hq
  case manyMore.manyEnd hq _ ih _ _ hr h => exact absurd (hr _ (ih h).1.symm) hq
  case behindEnd.behindMore hgap _ hr ih _ _ _ _ _ _ _ hq hgap' h _ =>
    cases hgap.symm.trans hgap'
    exact absurd (hr _ (ih h).1) hq
  case behindMore.behindEnd hgap _ hq _ ih _ _ _ _ hr hgap' h =>
    cases hgap.symm.trans hgap'
    exact absurd (hr _ (ih h).1.symm) hq
  -- else the runs of the first parts agree, and their answer decides how it goes on
  all_goals grind

end Unique

/-! ## What a run leaves -/

/-- The seeds before and after a task answer the same; while a match grows, up to its own seed. -/
def Task.Leaves : Task → Nat → Seeds → Seeds → Prop
  | .grow name _ _, p, s, s₁ => (s₁.remove (name, p)).answers = (s.remove (name, p)).answers
  | _, _, s, s₁ => s₁.answers = s.answers

section Leaves

variable {rules : List NamedRule} {tokens : List Token} {how : Answering} {t : Task} {p : Nat}
  {s s₁ : Seeds} {r : Option Match}

lemma answers_remove_of_put {key : String × Nat} {seed : Seed}
    (h : s₁.answers = (s.put key seed).answers) :
    (s₁.remove key).answers = (s.remove key).answers := by
  rw [Seeds.answers_remove h key, Seeds.remove_put]

/-- A run leaves the answers of the calls in progress as they were. -/
theorem Derives.leaves (h : Derives rules tokens how t p s r s₁) : t.Leaves p s s₁ := by
  induction h with
  | take | finish | seqNil | choiceNil | behindGap | unknown => rfl
  | seqFail _ ih | choiceHere _ ih | manyEnd _ _ ih | optional _ ih | listFail _ ih
  | behindEnd _ _ _ ih | ref _ _ ih | plain _ _ ih => exact ih
  | seqStop _ _ ih ihs | seqCons _ _ ih ihs | choiceNext _ _ ih ihs | manyMore _ _ _ ih ihs
  | list _ _ ih ihs | behindMore _ _ _ _ ih ihs => exact Eq.trans ihs ih
  | met _ hseed => exact Seeds.answers_put_of_get? hseed true
  | @fresh name body p s r s₁ _ hseed _ _ ih =>
    show (s₁.remove (name, p)).answers = s.answers
    rw [answers_remove_of_put ih, Seeds.remove_of_get? hseed]
  | @grown name body p s m s₁ r s₂ _ hseed _ _ _ ih ihs =>
    show (s₂.remove (name, p)).answers = s.answers
    rw [show (s₂.remove (name, p)).answers = _ from ihs, answers_remove_of_put ih,
      Seeds.remove_of_get? hseed]
  | growMore _ _ _ ih ihs => exact Eq.trans ihs (answers_remove_of_put ih)
  | growEnd _ _ ih => exact answers_remove_of_put ih

/-- A run that starts without calls in progress ends without. -/
lemma Derives.eq_nil {name : String} {body : Expr}
    (h : Derives rules tokens how (.rule name body) p [] r s₁) : s₁ = [] :=
  Seeds.eq_nil_of_answers h.leaves

end Leaves

end Grammar

end TaggedOutline
