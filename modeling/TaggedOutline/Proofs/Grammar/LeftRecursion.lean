import Mathlib
import TaggedOutline.Proofs.Grammar.Termination

/-!
# Rules that begin with themselves

A rule whose first alternative begins with the rule itself nests to the left: its result is that of
the other alternative, extended by what follows the rule in the first one for as long as this takes
tokens.  `LeftFold` says this without seeds.

What follows and the other alternative are run while the rule is in progress.  If they do not refer
to the rule, not even through others, they neither see its seeds nor change them: they answer as
they do on their own (`Derives.without`).

Main statement: `leftFold_of_recognize`.
-/

namespace TaggedOutline

namespace Expr

lemma mem_referencesOf {n : String} {es : List Expr} :
    n ∈ referencesOf es ↔ ∃ e ∈ es, n ∈ e.references := by
  induction es with
  | nil => simp [referencesOf]
  | cons e es ih => simp [referencesOf, ih]

lemma references_subset_of_part {e whole : Expr} (hpart : e ∈ whole.parts) :
    e.references ⊆ whole.references := by
  intro n hn
  cases whole with
  | seq es | choice es => exact mem_referencesOf.mpr ⟨e, hpart, hn⟩
  | many item | optional item | list item =>
    obtain rfl := List.mem_singleton.mp hpart
    exact hn
  | token | literal | word | finish | ref => simp [parts] at hpart

end Expr

namespace Grammar

/-! ## Expressions that do not refer to a rule -/

/-- An expression refers to a rule, or to another one from which the rule is reached. -/
inductive Reaches (rules : List NamedRule) (name : String) : Expr → Prop
  | here {e : Expr} (h : name ∈ e.references) : Reaches rules name e
  | through {e body : Expr} {n : String} (hn : n ∈ e.references)
      (hbody : rules.lookup n = some body) (h : Reaches rules name body) : Reaches rules name e

/-- No run of a task calls a rule. -/
def Task.Avoids (rules : List NamedRule) (name : String) : Task → Prop
  | .expr e => ¬ Reaches rules name e
  | .behind item sep vis => ¬ Reaches rules name (.list item sep vis)
  | .rule n body => n ≠ name ∧ ¬ Reaches rules name body
  | .grow n body _ => n ≠ name ∧ ¬ Reaches rules name body

section Avoids

variable {rules : List NamedRule} {tokens : List Token} {t : Task} {name n : String}
  {body e e' : Expr} {es : List Expr} {p : Nat} {s s₁ : Seeds} {r : Option Match}

lemma Reaches.mono (h : Reaches rules name e) (hsub : e.references ⊆ e'.references) :
    Reaches rules name e' := by
  cases h with
  | here h => exact .here (hsub h)
  | through hn hbody h => exact .through (hsub hn) hbody h

/-- An expression with fewer references reaches no more. -/
lemma not_reaches_of_subset (h : ¬ Reaches rules name e') (hsub : e.references ⊆ e'.references) :
    ¬ Reaches rules name e := fun he => h (he.mono hsub)

lemma not_reaches_of_part (h : ¬ Reaches rules name e') (hpart : e ∈ e'.parts) :
    ¬ Reaches rules name e :=
  not_reaches_of_subset h (Expr.references_subset_of_part hpart)

/-- The rest of a sequence refers to no more than the sequence. -/
lemma not_reaches_seq_tail (h : ¬ Reaches rules name (.seq (e :: es))) :
    ¬ Reaches rules name (.seq es) :=
  not_reaches_of_subset h (List.subset_append_right _ _)

lemma not_reaches_choice_tail (h : ¬ Reaches rules name (.choice (e :: es))) :
    ¬ Reaches rules name (.choice es) :=
  not_reaches_of_subset h (List.subset_append_right _ _)

lemma not_reaches_seq (h : ∀ e ∈ es, ¬ Reaches rules name e) :
    ¬ Reaches rules name (.seq es) := by
  intro hreach
  cases hreach with
  | here hn =>
    obtain ⟨e, he, hn⟩ := Expr.mem_referencesOf.mp hn
    exact h e he (.here hn)
  | through hn hbody hreach =>
    obtain ⟨e, he, hn⟩ := Expr.mem_referencesOf.mp hn
    exact h e he (.through hn hbody hreach)

/-- Names that refer only to each other reach no other name. -/
lemma not_reaches_of_closed {names : List String} (hname : name ∉ names)
    (hclosed : ∀ n ∈ names, ∀ body ∈ rules.lookup n, body.references ⊆ names)
    (he : e.references ⊆ names) : ¬ Reaches rules name e := by
  intro h
  induction h with
  | here h => exact hname (he h)
  | through hn hbody _ ih => exact ih (hclosed _ (he hn) _ hbody)

lemma avoids_rule_of_ref (h : ¬ Reaches rules name (.ref n))
    (hbody : rules.lookup n = some body) : (Task.rule n body).Avoids rules name :=
  ⟨fun hn => h (.here (List.mem_singleton.mpr hn.symm)),
    fun hreach => h (.through (List.mem_singleton.mpr rfl) hbody hreach)⟩

/-- A run that does not call a rule does the same without its entries. -/
theorem Derives.without (h : Derives rules tokens .seeded t p s r s₁)
    (ht : t.Avoids rules name) :
    Derives rules tokens .seeded t p (s.without name) r (s₁.without name) := by
  -- each call that begins or ends is one of another rule, so its entry stays or goes in both tables
  induction h with
  | take he => exact .take he
  | finish => exact .finish
  | seqNil => exact .seqNil
  | seqFail _ ih => exact .seqFail (ih (not_reaches_of_part ht List.mem_cons_self))
  | seqStop _ _ ih ihs =>
    exact .seqStop (ih (not_reaches_of_part ht List.mem_cons_self)) (ihs (not_reaches_seq_tail ht))
  | seqCons _ _ ih ihs =>
    exact .seqCons (ih (not_reaches_of_part ht List.mem_cons_self)) (ihs (not_reaches_seq_tail ht))
  | choiceNil => exact .choiceNil
  | choiceHere _ ih => exact .choiceHere (ih (not_reaches_of_part ht List.mem_cons_self))
  | choiceNext _ _ ih ihs =>
    exact .choiceNext (ih (not_reaches_of_part ht List.mem_cons_self))
      (ihs (not_reaches_choice_tail ht))
  | manyEnd _ hr ih => exact .manyEnd (ih (not_reaches_of_part ht List.mem_cons_self)) hr
  | manyMore _ hq _ ih ihs =>
    exact .manyMore (ih (not_reaches_of_part ht List.mem_cons_self)) hq (ihs ht)
  | optional _ ih => exact .optional (ih (not_reaches_of_part ht List.mem_cons_self))
  | listFail _ ih => exact .listFail (ih (not_reaches_of_part ht List.mem_cons_self))
  | list _ _ ih ihs => exact .list (ih (not_reaches_of_part ht List.mem_cons_self)) (ihs ht)
  | behindGap hgap => exact .behindGap hgap
  | behindEnd hgap _ hr ih =>
    exact .behindEnd hgap (ih (not_reaches_of_part ht List.mem_cons_self)) hr
  | behindMore hgap _ hq _ ih ihs =>
    exact .behindMore hgap (ih (not_reaches_of_part ht List.mem_cons_self)) hq (ihs ht)
  | unknown h => exact .unknown h
  | ref hbody _ ih => exact .ref hbody (ih (avoids_rule_of_ref ht hbody))
  | plain hhow => cases hhow
  | @met n body p s seed hhow hseed =>
    have hseed' : (s.without name).get? (n, p) = some seed := by rw [Seeds.get?_without ht.1, hseed]
    rw [Seeds.without_put ht.1]
    exact .met hhow hseed'
  | @fresh n body p s r s₁ hhow hseed _ hr ih =>
    have hseed' : (s.without name).get? (n, p) = none := by rw [Seeds.get?_without ht.1, hseed]
    have hbody := ih ht.2
    rw [Seeds.without_put ht.1] at hbody
    rw [Seeds.without_remove ht.1]
    exact .fresh hhow hseed' hbody (by rwa [isMet, Seeds.get?_without ht.1])
  | @grown n body p s m s₁ r s₂ hhow hseed _ hmet _ ih ihs =>
    have hseed' : (s.without name).get? (n, p) = none := by rw [Seeds.get?_without ht.1, hseed]
    have hbody := ih ht.2
    rw [Seeds.without_put ht.1] at hbody
    rw [Seeds.without_remove ht.1]
    exact .grown hhow hseed' hbody (by rwa [isMet, Seeds.get?_without ht.1]) (ihs ht)
  | @growMore n body best p s m s₁ r s₂ _ hlt _ ih ihs =>
    have hbody := ih ht.2
    rw [Seeds.without_put ht.1] at hbody
    exact .growMore hbody hlt (ihs ht)
  | @growEnd n body best p s r s₁ _ hr ih =>
    have hbody := ih ht.2
    rw [Seeds.without_put ht.1] at hbody
    exact .growEnd hbody hr

/-- A run that does not call a rule leaves its entries alone. -/
lemma Derives.get?_of_avoids (h : Derives rules tokens .seeded t p s r s₁)
    (ht : t.Avoids rules name) (q : Nat) : s₁.get? (name, q) = s.get? (name, q) := by
  have hkey : ∀ {n : String} {p : Nat}, n ≠ name → (n, p) ≠ (name, q) := fun hn he =>
    hn (Prod.mk.inj he).1
  induction h with
  | take | finish | seqNil | choiceNil | behindGap | unknown => rfl
  | seqFail _ ih | choiceHere _ ih | manyEnd _ _ ih | optional _ ih | listFail _ ih
  | behindEnd _ _ _ ih => exact ih (not_reaches_of_part ht List.mem_cons_self)
  | seqStop _ _ ih ihs | seqCons _ _ ih ihs =>
    rw [ihs (not_reaches_seq_tail ht), ih (not_reaches_of_part ht List.mem_cons_self)]
  | choiceNext _ _ ih ihs =>
    rw [ihs (not_reaches_choice_tail ht), ih (not_reaches_of_part ht List.mem_cons_self)]
  | manyMore _ _ _ ih ihs | list _ _ ih ihs | behindMore _ _ _ _ ih ihs =>
    rw [ihs ht, ih (not_reaches_of_part ht List.mem_cons_self)]
  | ref hbody _ ih => exact ih (avoids_rule_of_ref ht hbody)
  | plain hhow => cases hhow
  | met => exact Seeds.get?_put_of_ne _ (hkey ht.1) _
  | fresh _ _ _ _ ih =>
    rw [Seeds.get?_remove_of_ne _ (hkey ht.1), ih ht.2, Seeds.get?_put_of_ne _ (hkey ht.1)]
  | grown _ _ _ _ _ ih ihs =>
    rw [Seeds.get?_remove_of_ne _ (hkey ht.1), ihs ht, ih ht.2, Seeds.get?_put_of_ne _ (hkey ht.1)]
  | growMore _ _ _ ih ihs => rw [ihs ht, ih ht.2, Seeds.get?_put_of_ne _ (hkey ht.1)]
  | growEnd _ _ ih => rw [ih ht.2, Seeds.get?_put_of_ne _ (hkey ht.1)]

/-- What does not call a rule answers as on its own if the rule is the only one in progress. -/
lemma Derives.alone (h : Derives rules tokens .seeded (.expr e) p s r s₁)
    (he : ¬ Reaches rules name e) (hs : s.without name = []) :
    Derives rules tokens .seeded (.expr e) p [] r [] ∧ s₁.without name = [] := by
  have h' : Derives rules tokens .seeded (.expr e) p (s.without name) r (s₁.without name) :=
    h.without he
  rw [hs] at h'
  have hnil : s₁.without name = [] := Seeds.eq_nil_of_answers h'.leaves
  rw [hnil] at h'
  exact ⟨h', hnil⟩

end Avoids

/-! ## One round -/

section Round

variable {rules : List NamedRule} {tokens : List Token} {name : String} {ts : List Expr}
  {base : Expr} {seed : Seed} {how : Answering} {p q : Nat} {v : ParseTree} {s s₁ : Seeds}
  {r : Option Match}

lemma derives_seq_cons {e : Expr} {es : List Expr}
    (h : Derives rules tokens how (.expr (.seq (e :: es))) p s r s₁) :
    r = none ∧ Derives rules tokens how (.expr e) p s none s₁ ∨
      ∃ v q s', Derives rules tokens how (.expr e) p s (some (v, q)) s' ∧
        (r = none ∧ Derives rules tokens how (.expr (.seq es)) q s' none s₁ ∨
          ∃ vs n, r = some (.list (v :: vs), n) ∧
            Derives rules tokens how (.expr (.seq es)) q s' (some (.list vs, n)) s₁) := by
  cases h with
  | take he => simp [tokenTest?] at he
  | seqFail h => exact .inl ⟨rfl, h⟩
  | seqStop h hs => exact .inr ⟨_, _, _, h, .inl ⟨rfl, hs⟩⟩
  | seqCons h hs => exact .inr ⟨_, _, _, h, .inr ⟨_, _, rfl, hs⟩⟩

lemma derives_choice_cons {e : Expr} {es : List Expr}
    (h : Derives rules tokens how (.expr (.choice (e :: es))) p s r s₁) :
    (∃ m, r = some m ∧ Derives rules tokens how (.expr e) p s (some m) s₁) ∨
      ∃ s', Derives rules tokens how (.expr e) p s none s' ∧
        Derives rules tokens how (.expr (.choice es)) p s' r s₁ := by
  cases h with
  | take he => simp [tokenTest?] at he
  | choiceHere h => exact .inl ⟨_, rfl, h⟩
  | choiceNext h hs => exact .inr ⟨_, h, hs⟩

/-- A choice of one alternative does what the alternative does. -/
lemma derives_of_choice_single {e : Expr}
    (h : Derives rules tokens how (.expr (.choice [e])) p s r s₁) :
    Derives rules tokens how (.expr e) p s r s₁ := by
  rcases derives_choice_cons h with ⟨m, rfl, he⟩ | ⟨s', he, hs⟩
  · exact he
  · cases hs with
    | take htest => simp [tokenTest?] at htest
    | choiceNil => exact he

variable (hbody : rules.lookup name = some (.choice [.seq (.ref name :: ts), base]))
include hbody

/-- A sequence that begins with a rule in progress begins with the seed, which is marked. -/
lemma derives_seq_met (hseed : s.get? (name, p) = some seed)
    (h : Derives rules tokens .seeded (.expr (.seq (.ref name :: ts))) p s r s₁) :
    seed.found = none ∧ r = none ∧ s₁ = s.put (name, p) { seed with met := true } ∨
      ∃ v q, seed.found = some (v, q) ∧
        (r = none ∧ Derives rules tokens .seeded (.expr (.seq ts)) q
            (s.put (name, p) { seed with met := true }) none s₁ ∨
          ∃ vs n, r = some (.list (v :: vs), n) ∧ Derives rules tokens .seeded (.expr (.seq ts)) q
            (s.put (name, p) { seed with met := true }) (some (.list vs, n)) s₁) := by
  have hmet : ∀ {r' s'}, Derives rules tokens .seeded (.expr (.ref name)) p s r' s' →
      r' = seed.found ∧ s' = s.put (name, p) { seed with met := true } := fun href =>
    href.unique (.ref hbody (.met rfl hseed))
  rcases derives_seq_cons h with ⟨hr, href⟩ | ⟨v, q, s', href, hrest⟩
  · obtain ⟨hfound, hs⟩ := hmet href
    exact .inl ⟨hfound.symm, hr, hs⟩
  · obtain ⟨hfound, rfl⟩ := hmet href
    exact .inr ⟨v, q, hfound.symm, hrest⟩

variable (hbase : ¬ Reaches rules name base) (hts : ¬ Reaches rules name (.seq ts))
include hbase

/-- As long as the seed is a failure, the body does what the other alternative does. -/
lemma derives_base (hseed : s.get? (name, p) = some {}) (hs : s.without name = [])
    (h : Derives rules tokens .seeded (.expr (.choice [.seq (.ref name :: ts), base])) p s r s₁) :
    Derives rules tokens .seeded (.expr base) p [] r [] ∧ s₁.without name = [] ∧
      isMet s₁ (name, p) = true := by
  rcases derives_choice_cons h with ⟨m, -, hseq⟩ | ⟨s', hseq, hother⟩
  · rcases derives_seq_met hbody hseed hseq with ⟨-, hr, -⟩ | ⟨v, q, hfound, -⟩
    · simp at hr
    · simp at hfound
  · rcases derives_seq_met hbody hseed hseq with ⟨-, -, rfl⟩ | ⟨v, q, hfound, -⟩
    · have hs' : (s.put (name, p) { met := true }).without name = [] := by
        rw [Seeds.without_put_self, hs]
      have hother := derives_of_choice_single hother
      obtain ⟨halone, hnil⟩ := hother.alone hbase hs'
      refine ⟨halone, hnil, ?_⟩
      rw [isMet, hother.get?_of_avoids hbase, Seeds.get?_put_self]
      rfl
    · simp at hfound

include hts

/-- With a match as the seed, the body extends it by what follows; if that fails, it does what the
other alternative does. -/
lemma derives_round {best : Match} (hseed : s.get? (name, p) = some (growingSeed best))
    (hs : s.without name = [])
    (h : Derives rules tokens .seeded (.expr (.choice [.seq (.ref name :: ts), base])) p s r s₁) :
    s₁.without name = [] ∧
      ((∃ vs n, Derives rules tokens .seeded (.expr (.seq ts)) best.2 [] (some (.list vs, n)) [] ∧
          r = some (.list (best.1 :: vs), n)) ∨
        Derives rules tokens .seeded (.expr (.seq ts)) best.2 [] none [] ∧
          Derives rules tokens .seeded (.expr base) p [] r []) := by
  have hs' : (s.put (name, p) (growingSeed best)).without name = [] := by
    rw [Seeds.without_put_self, hs]
  rcases derives_choice_cons h with ⟨m, rfl, hseq⟩ | ⟨s', hseq, hother⟩
  · rcases derives_seq_met hbody hseed hseq with ⟨hfound, -⟩ |
      ⟨v, q, ⟨⟩, ⟨hr, -⟩ | ⟨vs, n, hr, hrest⟩⟩
    · simp [growingSeed] at hfound
    · simp at hr
    · obtain ⟨halone, hnil⟩ := hrest.alone hts hs'
      exact ⟨hnil, .inl ⟨vs, n, halone, hr⟩⟩
  · rcases derives_seq_met hbody hseed hseq with ⟨hfound, -⟩ |
      ⟨v, q, ⟨⟩, ⟨-, hrest⟩ | ⟨vs, n, hr, -⟩⟩
    · simp [growingSeed] at hfound
    · obtain ⟨hfails, hnil⟩ := hrest.alone hts hs'
      obtain ⟨halone, hnil'⟩ := (derives_of_choice_single hother).alone hbase hnil
      exact ⟨hnil', .inr ⟨hfails, halone⟩⟩
    · simp at hr

end Round

/-! ## The fold -/

/-- From a match of a rule to the last one, each the one before extended by what follows it, under
the name of the rule.  It ends where what follows fails or takes no token. -/
inductive LeftFold (rules : List NamedRule) (tokens : List Token) (name : String)
    (ts : List Expr) : Match → Match → Prop
  | stop {m : Match} {r : Option Match} (h : Answers rules tokens (.seq ts) m.2 r)
      (hr : ∀ m' ∈ r, m'.2 ≤ m.2) : LeftFold rules tokens name ts m m
  | step {m last : Match} {vs : List ParseTree} {n : Nat}
      (h : Answers rules tokens (.seq ts) m.2 (some (.list vs, n))) (hn : m.2 < n)
      (hs : LeftFold rules tokens name ts (nameResult name (.list (m.1 :: vs), n)) last) :
      LeftFold rules tokens name ts m last

section LeftFold

variable {rules : List NamedRule} {tokens : List Token} {name : String} {ts : List Expr}
  {base : Expr} {p : Nat} {s s₁ : Seeds} {r : Option Match} {m last last' best : Match}

lemma LeftFold.unique (h : LeftFold rules tokens name ts m last)
    (h' : LeftFold rules tokens name ts m last') : last = last' := by
  induction h with
  | stop h hr =>
    cases h' with
    | stop => rfl
    | step h' hn =>
      rw [h.unique h'] at hr
      exact absurd (hr _ rfl) (Nat.not_le.mpr hn)
  | step h hn _ ih =>
    cases h' with
    | stop h' hr =>
      rw [h'.unique h] at hr
      exact absurd (hr _ rfl) (Nat.not_le.mpr hn)
    | step h' _ hs' =>
      obtain ⟨hvs, rfl⟩ := Prod.mk.inj (Option.some.inj (h.unique h'))
      obtain rfl := ParseTree.list.inj hvs
      exact ih hs'

/-- Growing is the fold: the other alternative, which gave the first match, never beats it. -/
lemma leftFold_of_grow
    (hbody : rules.lookup name = some (.choice [.seq (.ref name :: ts), base]))
    (hbase : ¬ Reaches rules name base) (hts : ¬ Reaches rules name (.seq ts))
    (hfirst : Derives rules tokens .seeded (.expr base) p [] (some m) []) (hle : m.2 ≤ best.2)
    (hs : s.without name = [])
    (h : Derives rules tokens .seeded
      (.grow name (.choice [.seq (.ref name :: ts), base]) best) p s r s₁) :
    ∃ last, r = some last ∧ LeftFold rules tokens name ts best last := by
  generalize ht : Task.grow name (.choice [.seq (.ref name :: ts), base]) best = t at h
  induction h generalizing best with
  | @growMore _ _ _ p s m' s₂ r s₃ h hlt _ _ ih =>
    obtain ⟨rfl, rfl, rfl⟩ := Task.grow.inj ht
    obtain ⟨hnil, ⟨vs, n, hrest, hm⟩ | ⟨-, hother⟩⟩ :=
      derives_round hbody hbase hts (Seeds.get?_put_self s _ _)
        (by rw [Seeds.without_put_self, hs]) h
    · obtain rfl := Option.some.inj hm
      obtain ⟨last, hr, hfold⟩ := ih hfirst (by rw [snd_nameResult]; omega) hnil rfl
      exact ⟨last, hr, .step (answers_of_derives hrest) hlt hfold⟩
    · -- what follows has failed, so the match is the first one again, which is not longer
      obtain rfl := Option.some.inj (hfirst.unique hother).1
      omega
  | @growEnd _ _ _ p s r s₂ h hr =>
    obtain ⟨rfl, rfl, rfl⟩ := Task.grow.inj ht
    obtain ⟨-, ⟨vs, n, hrest, rfl⟩ | ⟨hfails, -⟩⟩ :=
      derives_round hbody hbase hts (Seeds.get?_put_self s _ _)
        (by rw [Seeds.without_put_self, hs]) h
    · have hn : n ≤ best.2 := hr _ rfl
      exact ⟨best, rfl, .stop (answers_of_derives hrest) (by simpa using hn)⟩
    · exact ⟨best, rfl, .stop (answers_of_derives hfails) (by simp)⟩
  | _ => cases ht

/-- A call of a rule that begins with itself is the fold from the match of the other alternative. -/
lemma leftFold_of_rule
    (hbody : rules.lookup name = some (.choice [.seq (.ref name :: ts), base]))
    (hbase : ¬ Reaches rules name base) (hts : ¬ Reaches rules name (.seq ts))
    (h : Derives rules tokens .seeded (.rule name (.choice [.seq (.ref name :: ts), base])) p []
      r s₁) :
    ∃ first, Derives rules tokens .seeded (.expr base) p [] first [] ∧
      (first = none ∧ r = none ∨ ∃ m last, first = some m ∧ r = some last ∧
        LeftFold rules tokens name ts (nameResult name m) last) := by
  have hput : (Seeds.put (name, p) {} []).without name = [] := Seeds.without_put_self [] p {}
  cases h with
  | plain hhow => cases hhow
  | met _ hseed => simp [Seeds.get?] at hseed
  | fresh _ _ h hr =>
    obtain ⟨hfirst, -, hmet⟩ := derives_base hbody hbase (Seeds.get?_put_self [] _ _) hput h
    obtain rfl := hr.resolve_right (by simp [hmet])
    exact ⟨none, hfirst, .inl ⟨rfl, rfl⟩⟩
  | grown _ _ h _ hgrow =>
    obtain ⟨hfirst, hnil, -⟩ := derives_base hbody hbase (Seeds.get?_put_self [] _ _) hput h
    obtain ⟨last, hr, hfold⟩ :=
      leftFold_of_grow hbody hbase hts hfirst (by rw [snd_nameResult]) hnil hgrow
    exact ⟨_, hfirst, .inr ⟨_, last, rfl, hr, hfold⟩⟩

end LeftFold

/-- A rule that begins with itself folds to the left.  It fails where its other alternative fails;
otherwise its result is the match of that alternative, extended by what follows the rule for as long
as this takes tokens. -/
theorem leftFold_of_recognize (g : Grammar) {name : String} {ts : List Expr} {base : Expr}
    (hbody : g.body? name = some (.choice [.seq (.ref name :: ts), base]))
    (hbase : ¬ Reaches g.rules name base) (hts : ∀ t ∈ ts, ¬ Reaches g.rules name t) (s : Stream) :
    ∃ first, Answers g.rules s.tokens base s.position first ∧
      (g.recognize name s = none ↔ first = none) ∧
      ∀ m, first = some m → ∃ last,
        LeftFold g.rules s.tokens name ts (nameResult name m) last ∧
        (∀ last', LeftFold g.rules s.tokens name ts (nameResult name m) last' → last' = last) ∧
        g.recognize name s = some (last.1, { s with position := last.2 }) := by
  obtain ⟨r, hr, -⟩ := exists_derives_rule hbody s.tokens s.position
  have hrecognize := recognize_of_derives hbody hr
  obtain ⟨first, hfirst, ⟨rfl, rfl⟩ | ⟨m, last, rfl, rfl, hfold⟩⟩ :=
    leftFold_of_rule hbody hbase (not_reaches_seq hts) hr
  · exact ⟨none, answers_of_derives hfirst, iff_of_true hrecognize rfl, by simp⟩
  · refine ⟨some m, answers_of_derives hfirst, iff_of_false (by simp [hrecognize]) (by simp), ?_⟩
    rintro _ ⟨⟩
    exact ⟨last, hfold, fun last' hfold' => hfold'.unique hfold, hrecognize⟩

/-- Differences of products of numbers.  Both rules begin with themselves. -/
def arithmetic : Grammar where
  rules := [
    ("sum", .seq [.ref "expr", .finish]),
    ("expr", .choice [
      .seq [.ref "expr", .choice [.literal ['+'], .literal ['-']], .ref "term"],
      .ref "term"]),
    ("term", .choice [.seq [.ref "term", .literal ['*'], .ref "num"], .ref "num"]),
    ("num", .token "num")]
  start := "sum"
  sound := by decide

/-- The tokens of `9-2*3-1`. -/
def difference : List Token :=
  let token (kind : String) (c : Char) (start : Nat) : Token :=
    { kind, text := [c], start, stop := start + 1 }
  [token "num" '9' 0, token "op" '-' 1, token "num" '2' 2, token "op" '*' 3, token "num" '3' 4,
    token "op" '-' 5, token "num" '1' 6]

theorem leftFold_of_arithmetic :
    let ts : List Expr := [.choice [.literal ['+'], .literal ['-']], .ref "term"]
    let s : Stream := { tokens := difference }
    arithmetic.body? "expr" = some (.choice [.seq (.ref "expr" :: ts), .ref "term"]) ∧
      ¬ Reaches arithmetic.rules "expr" (.ref "term") ∧
      (∀ t ∈ ts, ¬ Reaches arithmetic.rules "expr" t) ∧
      (arithmetic.recognize "expr" s).map (fun m => m.2.position) = some 7 ∧
      ∃ first, Answers arithmetic.rules s.tokens (.ref "term") s.position first ∧
        (arithmetic.recognize "expr" s = none ↔ first = none) ∧
        ∀ m, first = some m → ∃ last,
          LeftFold arithmetic.rules s.tokens "expr" ts (nameResult "expr" m) last ∧
          (∀ last', LeftFold arithmetic.rules s.tokens "expr" ts (nameResult "expr" m) last' →
            last' = last) ∧
          arithmetic.recognize "expr" s = some (last.1, { s with position := last.2 }) := by
  intro ts s
  have hclosed : ∀ n ∈ ["term", "num"], ∀ body ∈ arithmetic.rules.lookup n,
      body.references ⊆ ["term", "num"] := by decide
  have hbase : ¬ Reaches arithmetic.rules "expr" (.ref "term") :=
    not_reaches_of_closed (by decide) hclosed (by decide)
  have hts : ∀ t ∈ ts, ¬ Reaches arithmetic.rules "expr" t := by
    intro t ht
    have href : ∀ t ∈ ts, t.references ⊆ ["term", "num"] := by decide
    exact not_reaches_of_closed (by decide) hclosed (href t ht)
  have hrun : (arithmetic.recognize "expr" s).map (fun m => m.2.position) = some 7 := by cbv
  exact ⟨rfl, hbase, hts, hrun, leftFold_of_recognize arithmetic rfl hbase hts s⟩

end Grammar

end TaggedOutline
