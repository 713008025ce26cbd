import Mathlib
import TaggedOutline.Header
import TaggedOutline.Locator
import TaggedOutline.Proofs.Grammar.Termination

/-!
# Plain descent

A seed is only asked for when a rule is called again at the place where it is running.  `Tries` says
what calls an expression comes to before a token has been taken.  In a grammar where no rule comes
to itself in this way the seeds make no difference: a rule does what recursive descent does, which
runs the body of a rule for every reference.

Main statements: `recognize_of_descending`, and `isDescending_of_order`, by which such grammars can
be told from their rules: the names stand in an order in which each rule begins with earlier ones
only.
-/

namespace TaggedOutline

namespace Expr

mutual

/-- Whether an expression may match without taking a token, if only some rules may. -/
def mayBeEmpty (empties : List String) : Expr → Bool
  | .token _ | .literal _ | .word => false
  | .finish | .many _ | .optional _ => true
  | .seq parts => allMayBeEmpty empties parts
  | .choice alternatives => anyMayBeEmpty empties alternatives
  | .list item _ _ => item.mayBeEmpty empties
  | .ref name => empties.contains name

/-- Whether all expressions of a list may match without taking a token. -/
def allMayBeEmpty (empties : List String) : List Expr → Bool
  | [] => true
  | e :: es => e.mayBeEmpty empties && allMayBeEmpty empties es

/-- Whether an expression of a list may match without taking a token. -/
def anyMayBeEmpty (empties : List String) : List Expr → Bool
  | [] => false
  | e :: es => e.mayBeEmpty empties || anyMayBeEmpty empties es

end

mutual

/-- The rules that an expression may call itself before a token has been taken. -/
def firsts (empties : List String) : Expr → List String
  | .ref name => [name]
  | .seq parts => firstsOfSeq empties parts
  | .choice alternatives => firstsOfChoice empties alternatives
  | .many item => item.firsts empties
  | .optional item => item.firsts empties
  | .list item _ _ => item.firsts empties
  | .token _ | .literal _ | .word | .finish => []

/-- The rules that a sequence may call before a token has been taken. -/
def firstsOfSeq (empties : List String) : List Expr → List String
  | [] => []
  | e :: es => e.firsts empties ++ if e.mayBeEmpty empties then firstsOfSeq empties es else []

/-- The rules that the alternatives of a choice may call before a token has been taken. -/
def firstsOfChoice (empties : List String) : List Expr → List String
  | [] => []
  | e :: es => e.firsts empties ++ firstsOfChoice empties es

end

end Expr

namespace Grammar

/-- What plain descent answers for an expression at a place. -/
def Descends (rules : List NamedRule) (tokens : List Token) (e : Expr) (p : Nat)
    (r : Option Match) : Prop :=
  Derives rules tokens .plain (.expr e) p [] r []

/-- An expression, run at a place by plain descent, comes to the call of a rule before a token has
been taken.  The parts of a sequence before the one that makes the call have then matched without
taking a token, and the earlier alternatives of a choice have failed. -/
inductive Tries (rules : List NamedRule) (tokens : List Token) (p : Nat) : Expr → String → Prop
  | ref {n : String} : Tries rules tokens p (.ref n) n
  | through {n m : String} {body : Expr} (hbody : rules.lookup n = some body)
      (h : Tries rules tokens p body m) : Tries rules tokens p (.ref n) m
  | seqHere {e : Expr} {es : List Expr} {n : String} (h : Tries rules tokens p e n) :
      Tries rules tokens p (.seq (e :: es)) n
  | seqNext {e : Expr} {es : List Expr} {v : ParseTree} {n : String}
      (he : Descends rules tokens e p (some (v, p))) (h : Tries rules tokens p (.seq es) n) :
      Tries rules tokens p (.seq (e :: es)) n
  | choiceHere {e : Expr} {es : List Expr} {n : String} (h : Tries rules tokens p e n) :
      Tries rules tokens p (.choice (e :: es)) n
  | choiceNext {e : Expr} {es : List Expr} {n : String} (he : Descends rules tokens e p none)
      (h : Tries rules tokens p (.choice es) n) : Tries rules tokens p (.choice (e :: es)) n
  | many {e : Expr} {n : String} (h : Tries rules tokens p e n) : Tries rules tokens p (.many e) n
  | optional {e : Expr} {n : String} (h : Tries rules tokens p e n) :
      Tries rules tokens p (.optional e) n
  | list {e : Expr} {sep : Option String} {vis : Bool} {n : String} (h : Tries rules tokens p e n) :
      Tries rules tokens p (.list e sep vis) n

/-- At no place in any tokens does a rule come to itself before a token has been taken. -/
def IsDescending (rules : List NamedRule) : Prop :=
  ∀ tokens p name body, rules.lookup name = some body → ¬ Tries rules tokens p body name

/-! ## No seed is met -/

/-- The calls in progress are at earlier places, or at the same place and not tried there. -/
def IsCalm (rules : List NamedRule) (tokens : List Token) (e : Expr) (p : Nat) (s : Seeds) : Prop :=
  ∀ n q seed, s.get? (n, q) = some seed → q ≤ p ∧ (q = p → ¬ Tries rules tokens p e n)

/-- A task finds the calls in progress calm. -/
def Task.Calm (rules : List NamedRule) (tokens : List Token) : Task → Nat → Seeds → Prop
  | .expr e, p, s => IsCalm rules tokens e p s
  | .behind item _ _, p, s => IsCalm rules tokens item p s
  | .rule n body, p, s => rules.lookup n = some body ∧ IsCalm rules tokens (.ref n) p s
  | .grow _ _ _, _, _ => False

section Calm

variable {rules : List NamedRule} {tokens : List Token} {e e' : Expr} {t : Task} {name : String}
  {body : Expr} {p q : Nat} {s s₁ : Seeds} {r : Option Match}

lemma isCalm_nil : IsCalm rules tokens e p [] := by
  intro n q seed h
  simp [Seeds.get?] at h

/-- What runs at a later place, or tries no more calls, finds the same calls calm. -/
lemma IsCalm.next (h : IsCalm rules tokens e p s) (hle : p ≤ q)
    (htries : q = p → ∀ n, Tries rules tokens p e' n → Tries rules tokens p e n) :
    IsCalm rules tokens e' q s := by
  intro n place seed hseed
  obtain ⟨hplace, hnot⟩ := h n place seed hseed
  refine ⟨hplace.trans hle, ?_⟩
  rintro rfl he'
  obtain rfl : p = place := le_antisymm hle hplace
  exact hnot rfl (htries rfl n he')

lemma IsCalm.here (h : IsCalm rules tokens e p s)
    (htries : ∀ n, Tries rules tokens p e' n → Tries rules tokens p e n) :
    IsCalm rules tokens e' p s := h.next le_rfl fun _ => htries

/-- A rule that is called finds no call of its own at the place. -/
lemma IsCalm.get?_ref (h : IsCalm rules tokens (.ref name) p s) : s.get? (name, p) = none := by
  rw [Option.eq_none_iff_forall_ne_some]
  intro seed hseed
  exact (h name p seed hseed).2 rfl .ref

/-- The body of a rule that does not come to itself finds the call of the rule calm. -/
lemma IsCalm.put (hfree : IsDescending rules) (hbody : rules.lookup name = some body)
    (h : IsCalm rules tokens (.ref name) p s) :
    IsCalm rules tokens body p (s.put (name, p) {}) := by
  intro n q seed hseed
  by_cases hkey : (name, p) = (n, q)
  · obtain ⟨rfl, rfl⟩ := Prod.mk.inj hkey
    exact ⟨le_rfl, fun _ => hfree tokens p name body hbody⟩
  · rw [Seeds.get?_put_of_ne s hkey] at hseed
    obtain ⟨hle, hnot⟩ := h n q seed hseed
    exact ⟨hle, fun hq htries => hnot hq (.through hbody htries)⟩

/-- A match of plain descent does not end before its place. -/
lemma Derives.le_of_plain {v : ParseTree}
    (h : Derives rules tokens .plain t p [] (some (v, q)) []) (ht : t.Starts (Advances tokens) p) :
    p ≤ q := (h.advances ht Seeds.hold_nil _ rfl).1

/-- Among calm calls a run does what plain descent does, and leaves the table as it was. -/
lemma Derives.plain_of_calm (hfree : IsDescending rules)
    (h : Derives rules tokens .seeded t p s r s₁) (hs : t.Calm rules tokens p s) :
    Derives rules tokens .plain t p [] r [] ∧ s₁ = s := by
  induction h with
  | take he => exact ⟨.take he, rfl⟩
  | finish => exact ⟨.finish, rfl⟩
  | seqNil => exact ⟨.seqNil, rfl⟩
  | seqFail _ ih =>
    obtain ⟨hplain, rfl⟩ := ih (IsCalm.here hs fun _ => .seqHere)
    exact ⟨.seqFail hplain, rfl⟩
  | seqStop _ _ ih ihs =>
    obtain ⟨hplain, rfl⟩ := ih (IsCalm.here hs fun _ => .seqHere)
    obtain ⟨hrest, rfl⟩ := ihs (IsCalm.next hs (hplain.le_of_plain trivial) (by
      rintro rfl n
      exact .seqNext hplain))
    exact ⟨.seqStop hplain hrest, rfl⟩
  | seqCons _ _ ih ihs =>
    obtain ⟨hplain, rfl⟩ := ih (IsCalm.here hs fun _ => .seqHere)
    obtain ⟨hrest, rfl⟩ := ihs (IsCalm.next hs (hplain.le_of_plain trivial) (by
      rintro rfl n
      exact .seqNext hplain))
    exact ⟨.seqCons hplain hrest, rfl⟩
  | choiceNil => exact ⟨.choiceNil, rfl⟩
  | choiceHere _ ih =>
    obtain ⟨hplain, rfl⟩ := ih (IsCalm.here hs fun _ => .choiceHere)
    exact ⟨.choiceHere hplain, rfl⟩
  | choiceNext _ _ ih ihs =>
    obtain ⟨hplain, rfl⟩ := ih (IsCalm.here hs fun _ => .choiceHere)
    obtain ⟨hrest, rfl⟩ := ihs (IsCalm.here hs fun _ => .choiceNext hplain)
    exact ⟨.choiceNext hplain hrest, rfl⟩
  | manyEnd _ hr ih =>
    obtain ⟨hplain, rfl⟩ := ih (IsCalm.here hs fun _ => .many)
    exact ⟨.manyEnd hplain hr, rfl⟩
  | manyMore _ hq _ ih ihs =>
    obtain ⟨hplain, rfl⟩ := ih (IsCalm.here hs fun _ => .many)
    obtain ⟨hrest, rfl⟩ :=
      ihs (IsCalm.next hs (hplain.le_of_plain trivial) fun he => absurd he hq)
    exact ⟨.manyMore hplain hq hrest, rfl⟩
  | optional _ ih =>
    obtain ⟨hplain, rfl⟩ := ih (IsCalm.here hs fun _ => .optional)
    exact ⟨.optional hplain, rfl⟩
  | listFail _ ih =>
    obtain ⟨hplain, rfl⟩ := ih (IsCalm.here hs fun _ => .list)
    exact ⟨.listFail hplain, rfl⟩
  | list _ _ ih ihs =>
    obtain ⟨hplain, rfl⟩ := ih (IsCalm.here hs fun _ => .list)
    obtain ⟨hrest, rfl⟩ := ihs (IsCalm.next hs (hplain.le_of_plain trivial) fun _ _ => .list)
    exact ⟨.list hplain hrest, rfl⟩
  | behindGap hgap => exact ⟨.behindGap hgap, rfl⟩
  | behindEnd hgap _ hr ih =>
    obtain ⟨hplain, rfl⟩ := ih (IsCalm.next hs (advances_gap hgap).1 fun _ _ => id)
    exact ⟨.behindEnd hgap hplain hr, rfl⟩
  | behindMore hgap _ hq _ ih ihs =>
    have hgap_le := (advances_gap hgap).1
    obtain ⟨hplain, rfl⟩ := ih (IsCalm.next hs hgap_le fun _ _ => id)
    have hle := hgap_le.trans (hplain.le_of_plain trivial)
    obtain ⟨hrest, rfl⟩ := ihs (IsCalm.next hs hle fun _ _ => id)
    exact ⟨.behindMore hgap hplain hq hrest, rfl⟩
  | unknown h => exact ⟨.unknown h, rfl⟩
  | ref hbody _ ih =>
    obtain ⟨hplain, rfl⟩ := ih ⟨hbody, hs⟩
    exact ⟨.ref hbody hplain, rfl⟩
  | plain hhow => cases hhow
  | met _ hseed =>
    rw [hs.2.get?_ref] at hseed
    cases hseed
  | @fresh name body p s r s₁ _ hseed _ _ ih =>
    obtain ⟨hplain, rfl⟩ := ih (hs.2.put hfree hs.1)
    exact ⟨.plain rfl hplain, by rw [Seeds.remove_put, Seeds.remove_of_get? hseed]⟩
  | @grown name body p s m s₁ r s₂ _ _ _ hmet _ ih =>
    -- the body leaves the new seed as it was put, and it was not marked
    obtain ⟨-, rfl⟩ := ih (hs.2.put hfree hs.1)
    rw [isMet, Seeds.get?_put_self] at hmet
    cases hmet
  | growMore => exact hs.elim
  | growEnd => exact hs.elim

end Calm

/-! ## Grammars in which rules begin with earlier ones -/

/-- What a task runs may match without taking a token, if only some rules may. -/
def Task.MayBeEmpty (empties : List String) : Task → Prop
  | .expr e => e.mayBeEmpty empties = true
  | .rule _ body => body.mayBeEmpty empties = true
  | .behind _ _ _ | .grow _ _ _ => True

section Order

variable {rules : List NamedRule} {tokens : List Token} {empties order : List String} {t : Task}
  {e : Expr} {p : Nat} {n : String} {s s₁ : Seeds} {r : Option Match}

/-- What plain descent matches without taking a token may do so by its form. -/
lemma Derives.mayBeEmpty
    (hempty : ∀ rule ∈ rules, rule.2.mayBeEmpty empties = true → rule.1 ∈ empties)
    (h : Derives rules tokens .plain t p s r s₁) (hs : s.Hold (Advances tokens)) :
    ∀ m ∈ r, m.2 = p → t.MayBeEmpty empties := by
  induction h with
  | @take e test p s he =>
    intro m hm hp
    obtain ⟨t, -, -, rfl⟩ := exists_of_takeIf hm
    exact absurd hp (Nat.succ_ne_self p)
  | finish | manyEnd | manyMore | optional | seqNil =>
    intro m _ _
    rfl
  | seqFail | seqStop | choiceNil | listFail | unknown => simp
  | @seqCons e es p s v q s₁ vs n s₂ h hrest ih ihs =>
    have hs₁ := hs.congr h.leaves
    have hle : p ≤ q := (h.advances trivial hs _ rfl).1
    have hle' : q ≤ n := (hrest.advances trivial hs₁ _ rfl).1
    rintro _ ⟨⟩ hp
    -- a match does not go back, so neither the part nor the rest has taken a token
    obtain rfl : n = p := hp
    obtain rfl : q = n := le_antisymm hle' hle
    exact Bool.and_eq_true_iff.mpr ⟨ih hs _ rfl rfl, ihs hs₁ _ rfl rfl⟩
  | choiceHere _ ih =>
    intro m hm hp
    exact Bool.or_eq_true_iff.mpr (.inl (ih hs m hm hp))
  | choiceNext h _ _ ihs =>
    intro m hm hp
    exact Bool.or_eq_true_iff.mpr (.inr (ihs (hs.congr h.leaves) m hm hp))
  | @list e sep vis p s v q s₁ vs n s₂ h hrest ih _ =>
    have hle : p ≤ q := (h.advances trivial hs _ rfl).1
    have hle' : q ≤ n := (hrest.advances trivial (hs.congr h.leaves) _ rfl).1
    rintro _ ⟨⟩ hp
    obtain rfl : n = p := hp
    exact ih hs _ rfl (le_antisymm hle' hle)
  | behindGap | behindEnd | behindMore | growMore | growEnd =>
    intro m _ _
    trivial
  | @ref name body p s r s₁ hbody _ ih =>
    intro m hm hp
    exact List.contains_iff_mem.mpr
      (hempty (name, body) (mem_rules_of_lookup hbody) (ih hs m hm hp))
  | plain _ _ ih =>
    intro m hm hp
    obtain ⟨m', hm', rfl⟩ := Option.map_eq_some_iff.mp hm
    exact ih hs m' hm' (by rwa [snd_nameResult] at hp)
  | met hhow | fresh hhow | grown hhow => cases hhow

/-- An expression comes to no other calls than those it may begin with, and earlier ones. -/
lemma exists_first_of_tries
    (hempty : ∀ rule ∈ rules, rule.2.mayBeEmpty empties = true → rule.1 ∈ empties)
    (horder : ∀ rule ∈ rules, ∀ n ∈ rule.2.firsts empties, order.idxOf n < order.idxOf rule.1)
    (h : Tries rules tokens p e n) :
    ∃ first ∈ e.firsts empties, order.idxOf n ≤ order.idxOf first := by
  induction h with
  | @ref n => exact ⟨n, List.mem_singleton.mpr rfl, le_rfl⟩
  | @through n m body hbody _ ih =>
    obtain ⟨first, hfirst, hle⟩ := ih
    have hlt := horder (n, body) (mem_rules_of_lookup hbody) first hfirst
    exact ⟨n, List.mem_singleton.mpr rfl, hle.trans hlt.le⟩
  | seqHere _ ih | choiceHere _ ih =>
    obtain ⟨first, hfirst, hle⟩ := ih
    exact ⟨first, List.mem_append_left _ hfirst, hle⟩
  | seqNext he _ ih =>
    obtain ⟨first, hfirst, hle⟩ := ih
    have hnull : _ = true := he.mayBeEmpty hempty Seeds.hold_nil _ rfl rfl
    refine ⟨first, List.mem_append_right _ ?_, hle⟩
    rwa [if_pos hnull]
  | choiceNext _ _ ih =>
    obtain ⟨first, hfirst, hle⟩ := ih
    exact ⟨first, List.mem_append_right _ hfirst, hle⟩
  | many _ ih | optional _ ih | list _ ih => exact ih

/-- If the names of the rules stand in an order in which each rule begins with earlier ones only, no
rule comes to itself before a token has been taken. -/
theorem isDescending_of_order (empties order : List String)
    (hempty : ∀ rule ∈ rules, rule.2.mayBeEmpty empties = true → rule.1 ∈ empties)
    (horder : ∀ rule ∈ rules, ∀ n ∈ rule.2.firsts empties, order.idxOf n < order.idxOf rule.1) :
    IsDescending rules := by
  intro tokens p name body hbody htries
  obtain ⟨first, hfirst, hle⟩ := exists_first_of_tries hempty horder htries
  have hlt := horder (name, body) (mem_rules_of_lookup hbody) first hfirst
  exact absurd hle (Nat.not_le.mpr hlt)

end Order

/-- The rules of header lines begin with earlier ones. -/
lemma isDescending_header : IsDescending Header.grammar.rules :=
  isDescending_of_order ["names"]
    ["tag", "names", "key", "value", "entry", "entries", "params", "options", "label",
      "parser_name", "parser", "code", "open", "comment", "header"] (by decide) (by decide)

/-- The rules of paths begin with earlier ones. -/
lemma isDescending_path : IsDescending Locator.grammar.rules :=
  isDescending_of_order []
    ["tag", "key", "value", "name", "index", "attr_match", "attr_eq", "filter", "position", "step",
      "path"] (by decide) (by decide)

/-! ## What a grammar recognizes -/

/-- Seeds make no difference to a grammar in which no rule comes to itself before a token has been
taken: plain descent has exactly one answer, and it is what the rule recognizes. -/
theorem recognize_of_descending (g : Grammar) (hfree : IsDescending g.rules) (name : String)
    (s : Stream) :
    ∃ r, (∀ r', Descends g.rules s.tokens (.ref name) s.position r' ↔ r' = r) ∧
      g.recognize name s = r.map fun m => (m.1, { s with position := m.2 }) := by
  obtain ⟨r, hplain, hrecognize⟩ : ∃ r, Descends g.rules s.tokens (.ref name) s.position r ∧
      g.recognize name s = r.map fun m => (m.1, { s with position := m.2 }) := by
    cases hbody : g.body? name with
    | none => exact ⟨none, .unknown hbody, by rw [recognize, hbody]; rfl⟩
    | some body =>
      obtain ⟨r, hr, -⟩ := exists_derives_rule hbody s.tokens s.position
      obtain ⟨hplain, -⟩ := hr.plain_of_calm hfree ⟨hbody, isCalm_nil⟩
      exact ⟨r, .ref hbody hplain, recognize_of_derives hbody hr⟩
  refine ⟨r, fun r' => ⟨fun h => (h.unique hplain).1, ?_⟩, hrecognize⟩
  rintro rfl
  exact hplain

/-- Numbers and groups of them in parentheses, which may nest. -/
def groups : Grammar where
  rules := [
    ("value", .choice [.token "number", .ref "group"]),
    ("group", .seq [.token "lparen", .optional (.ref "items"), .token "rparen"]),
    ("items", .list (.ref "value") (some "comma") false),
    ("doc", .seq [.ref "value", .finish])]
  start := "doc"
  sound := by decide

theorem recognize_groups :
    let token (kind : String) (c : Char) (start : Nat) : Token :=
      { kind, text := [c], start, stop := start + 1 }
    let s : Stream := { tokens := [token "lparen" '(' 0, token "number" '1' 1, token "comma" ',' 2,
      token "lparen" '(' 3, token "rparen" ')' 4, token "rparen" ')' 5] }
    IsDescending groups.rules ∧
      (groups.recognize "doc" s).map (fun m => m.2.position) = some 6 ∧
      ∃ r, (∀ r', Descends groups.rules s.tokens (.ref "doc") s.position r' ↔ r' = r) ∧
        groups.recognize "doc" s = r.map fun m => (m.1, { s with position := m.2 }) := by
  intro token s
  have hfree : IsDescending groups.rules :=
    isDescending_of_order [] ["group", "value", "items", "doc"] (by decide) (by decide)
  have hrun : (groups.recognize "doc" s).map (fun m => m.2.position) = some 6 := by cbv
  exact ⟨hfree, hrun, recognize_of_descending groups hfree "doc" s⟩

end Grammar

end TaggedOutline
