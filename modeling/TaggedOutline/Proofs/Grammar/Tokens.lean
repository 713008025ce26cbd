import Mathlib
import TaggedOutline.Proofs.Grammar.Termination

/-!
# The tokens of a result

A parse tree holds the tokens that were taken to make it, in their order.  The only ones that are
left out are separators that do not show: a list that has them takes them but does not keep them.

Main statement: `tokens_of_recognize`, which says this of every rule of every grammar.
-/

namespace TaggedOutline

/-! ## Keeping tokens -/

/-- Tokens kept of others, in their order, where only tokens of silent kinds are left out. -/
inductive Keeps (silent : String → Prop) : List Token → List Token → Prop
  | nil : Keeps silent [] []
  | keep {kept all : List Token} (t : Token) (h : Keeps silent kept all) :
      Keeps silent (t :: kept) (t :: all)
  | leave {kept all : List Token} {t : Token} (ht : silent t.kind) (h : Keeps silent kept all) :
      Keeps silent kept (t :: all)

namespace Keeps

variable {silent : String → Prop} {kept kept' all all' : List Token}

lemma append (h : Keeps silent kept all) (h' : Keeps silent kept' all') :
    Keeps silent (kept ++ kept') (all ++ all') := by
  induction h with
  | nil => exact h'
  | keep t _ ih => exact .keep t ih
  | leave ht _ ih => exact .leave ht ih

lemma sublist (h : Keeps silent kept all) : kept.Sublist all := by
  induction h with
  | nil => exact .slnil
  | keep t _ ih => exact .cons_cons t ih
  | leave _ _ ih => exact .cons _ ih

lemma eq_of_forall_not (h : Keeps silent kept all) (hnone : ∀ kind, ¬ silent kind) :
    kept = all := by
  induction h with
  | nil => rfl
  | keep t _ ih => rw [ih]
  | leave ht _ _ => exact absurd ht (hnone _)

end Keeps

lemma extract_append {α : Type} (l : List α) {p q n : Nat} (hq : p ≤ q) (hn : q ≤ n) :
    l.extract p q ++ l.extract q n = l.extract p n := by
  obtain ⟨a, rfl⟩ := Nat.exists_eq_add_of_le hq
  obtain ⟨b, rfl⟩ := Nat.exists_eq_add_of_le hn
  have hsplit : p + a + b - p = a + b := by omega
  simp only [List.extract_eq_take_drop, Nat.add_sub_cancel_left, hsplit]
  rw [List.take_add, List.drop_drop]

namespace ParseTree

mutual

lemma tokens_of_isEmpty (v : ParseTree) (h : v.isEmpty = true) : v.tokens = [] := by
  match v with
  | .empty => rfl
  | .token _ => simp [isEmpty] at h
  | .list items => exact tokensOf_of_areEmpty items h
  | .rule _ inner => exact tokens_of_isEmpty inner h

lemma tokensOf_of_areEmpty (vs : List ParseTree) (h : areEmpty vs = true) :
    tokensOf vs = [] := by
  match vs with
  | [] => rfl
  | v :: vs =>
    obtain ⟨hv, hvs⟩ := Bool.and_eq_true_iff.mp h
    rw [tokensOf, tokens_of_isEmpty v hv, tokensOf_of_areEmpty vs hvs, List.append_nil]

end

lemma tokensOf_append (us vs : List ParseTree) :
    tokensOf (us ++ vs) = tokensOf us ++ tokensOf vs := by
  induction us with
  | nil => rfl
  | cons u us ih => rw [List.cons_append, tokensOf, tokensOf, ih, List.append_assoc]

end ParseTree

namespace Grammar

/-- A name adds and takes no token. -/
lemma tokens_nameResult (name : String) (m : Match) :
    (nameResult name m).1.tokens = m.1.tokens := by
  rw [nameResult]
  split
  · next h => exact (ParseTree.tokens_of_isEmpty m.1 h).symm
  · rfl

/-! ## Matches that account for their tokens -/

/-- A match holds the tokens from a place to its end, up to those of silent kinds. -/
def Accounts (silent : String → Prop) (tokens : List Token) (p : Nat) (m : Match) : Prop :=
  p ≤ m.2 ∧ Keeps silent m.1.tokens (tokens.extract p m.2)

/-- Separators that do not show are of silent kinds. -/
def HidesOnly (silent : String → Prop) (sep : Option String) (vis : Bool) : Prop :=
  vis = false → ∀ kind ∈ sep, silent kind

section Accounts

variable {silent : String → Prop} {tokens : List Token} {p q n : Nat} {v : ParseTree}
  {us vs : List ParseTree}

lemma accounts_of_tokens_eq_nil (hv : v.tokens = []) : Accounts silent tokens p (v, p) := by
  refine ⟨le_rfl, ?_⟩
  show Keeps silent v.tokens (tokens.extract p p)
  rw [hv, List.extract_eq_take_drop, Nat.sub_self]
  exact .nil

lemma extract_one {t : Token} (ht : tokens[p]? = some t) : tokens.extract p (p + 1) = [t] := by
  obtain ⟨hlt, rfl⟩ := List.getElem?_eq_some_iff.mp ht
  rw [List.extract_eq_take_drop, List.drop_eq_getElem_cons hlt, Nat.add_sub_cancel_left]
  rfl

lemma accounts_takeIf (test : Token → Bool) :
    ∀ m ∈ takeIf tokens p test, Accounts silent tokens p m := by
  intro m hm
  obtain ⟨t, ht, -, rfl⟩ := exists_of_takeIf hm
  refine ⟨Nat.le_succ p, ?_⟩
  show Keeps silent [t] (tokens.extract p (p + 1))
  rw [extract_one ht]
  exact .keep t .nil

lemma Accounts.append (h : Accounts silent tokens p (.list us, q))
    (hs : Accounts silent tokens q (.list vs, n)) :
    Accounts silent tokens p (.list (us ++ vs), n) := by
  obtain ⟨hle, hkeeps⟩ := h
  obtain ⟨hle', hkeeps'⟩ := hs
  refine ⟨hle.trans hle', ?_⟩
  show Keeps silent (ParseTree.tokensOf (us ++ vs)) (tokens.extract p n)
  rw [ParseTree.tokensOf_append, ← extract_append tokens hle hle']
  exact hkeeps.append hkeeps'

lemma Accounts.cons (h : Accounts silent tokens p (v, q))
    (hs : Accounts silent tokens q (.list vs, n)) :
    Accounts silent tokens p (.list (v :: vs), n) := by
  have htokens : (ParseTree.list [v]).tokens = v.tokens := by
    simp [ParseTree.tokens, ParseTree.tokensOf]
  have hsingle : Accounts silent tokens p (.list [v], q) := by
    rw [Accounts, htokens]
    exact h
  exact hsingle.append hs

lemma Accounts.nameResult {m : Match} (h : Accounts silent tokens p m) (name : String) :
    Accounts silent tokens p (Grammar.nameResult name m) := by
  rw [Accounts, tokens_nameResult, snd_nameResult]
  exact h

/-- What a list keeps of a gap accounts for it, if separators that do not show are silent. -/
lemma accounts_keptGap {sep : Option String} {vis : Bool} {between : ParseTree}
    (hhides : HidesOnly silent sep vis) (hgap : gap? tokens sep p = some (between, q)) :
    Accounts silent tokens p (.list (keptGap vis between), q) := by
  cases sep with
  | none =>
    obtain ⟨rfl, rfl⟩ := Prod.mk.inj (Option.some.inj hgap)
    have hkept : keptGap vis .empty = [] := by simp [keptGap, ParseTree.isEmpty]
    rw [hkept]
    exact accounts_of_tokens_eq_nil rfl
  | some kind =>
    cases vis with
    | true =>
      have hsep : Accounts silent tokens p (between, q) := accounts_takeIf _ _ hgap
      obtain ⟨t, -, -, hm⟩ := exists_of_takeIf hgap
      obtain ⟨rfl, rfl⟩ := Prod.mk.inj hm
      exact hsep.cons (accounts_of_tokens_eq_nil rfl)
    | false =>
      obtain ⟨t, ht, hkind, hm⟩ := exists_of_takeIf hgap
      obtain ⟨rfl, rfl⟩ := Prod.mk.inj hm
      have hsilent : silent t.kind := by
        rw [of_decide_eq_true hkind]
        exact hhides rfl kind rfl
      refine ⟨Nat.le_succ p, ?_⟩
      show Keeps silent [] (tokens.extract p (p + 1))
      rw [extract_one ht]
      exact .leave hsilent .nil

lemma isKept_accounts (silent : String → Prop) (tokens : List Token) :
    IsKept tokens (HidesOnly silent) (Accounts silent tokens) where
  take hm := accounts_takeIf _ _ hm
  empty _ := accounts_of_tokens_eq_nil rfl
  nil _ := accounts_of_tokens_eq_nil rfl
  cons h hs := h.cons hs
  gap hhides hgap hs := (accounts_keptGap hhides hgap).append hs
  name name h := h.nameResult name

end Accounts

/-! ## Grammars -/

/-- The kinds of separators that do not show in the rules of a grammar. -/
def Silences (g : Grammar) (kind : String) : Prop :=
  ∃ rule ∈ g.rules, rule.2.HasList (some kind) false

/-- No token is lost, doubled or moved: what a grammar recognizes holds the tokens between the place
before and the place after, in their order, and leaves out only separators that do not show. -/
theorem tokens_of_recognize (g : Grammar) {name : String} {s rest : Stream} {value : ParseTree}
    (h : g.recognize name s = some (value, rest)) :
    rest.tokens = s.tokens ∧ s.position ≤ rest.position ∧
      (s.position ≤ s.tokens.length → rest.position ≤ s.tokens.length) ∧
      value.tokens.Sublist (s.tokens.extract s.position rest.position) ∧
      Keeps g.Silences value.tokens (s.tokens.extract s.position rest.position) ∧
      ((∀ kind, ¬ g.Silences kind) →
        value.tokens = s.tokens.extract s.position rest.position) := by
  obtain ⟨body, hbody, hrest, hderives⟩ := exists_derives_of_recognize h
  have hrules : ∀ name body, g.rules.lookup name = some body →
      body.ListsIn (HidesOnly g.Silences) := by
    rintro name body hlookup sep vis hlist rfl kind rfl
    exact ⟨(name, body), mem_rules_of_lookup hlookup, hlist⟩
  obtain ⟨hle, hmax⟩ : Advances s.tokens s.position (value, rest.position) :=
    hderives.advances trivial Seeds.hold_nil _ rfl
  obtain ⟨-, hkeeps⟩ : Accounts g.Silences s.tokens s.position (value, rest.position) :=
    hderives.keeps (isKept_accounts g.Silences s.tokens) hrules (hrules name body hbody) trivial
      Seeds.hold_nil _ rfl
  have htokens : rest.tokens = s.tokens := by rw [hrest]
  have hlimit : s.position ≤ s.tokens.length → rest.position ≤ s.tokens.length := by
    intro hplace
    rwa [max_eq_left hplace] at hmax
  exact ⟨htokens, hle, hlimit, hkeeps.sublist, hkeeps, hkeeps.eq_of_forall_not⟩

/-- Sums of numbers that nest to the left, where commas in a number do not show. -/
def groupedSums : Grammar where
  rules := [
    ("sum", .choice [.seq [.ref "sum", .token "plus", .ref "number"], .ref "number"]),
    ("number", .list (.token "digits") (some "comma") false)]
  start := "sum"
  sound := by decide

/-- The tokens of `1,5+2`. -/
def sumTokens : List Token :=
  let token (kind : String) (c : Char) (start : Nat) : Token :=
    { kind, text := [c], start, stop := start + 1 }
  [token "digits" '1' 0, token "comma" ',' 1, token "digits" '5' 2, token "plus" '+' 3,
    token "digits" '2' 4]

theorem tokens_of_groupedSums :
    let s : Stream := { tokens := sumTokens }
    let rest : Stream := { tokens := sumTokens, position := 5 }
    ∃ value, groupedSums.recognize "sum" s = some (value, rest) ∧
      value.texts = [['1'], ['5'], ['+'], ['2']] ∧
      rest.tokens = s.tokens ∧ s.position ≤ rest.position ∧
      (s.position ≤ s.tokens.length → rest.position ≤ s.tokens.length) ∧
      value.tokens.Sublist (s.tokens.extract s.position rest.position) ∧
      Keeps groupedSums.Silences value.tokens (s.tokens.extract s.position rest.position) ∧
      ((∀ kind, ¬ groupedSums.Silences kind) →
        value.tokens = s.tokens.extract s.position rest.position) := by
  intro s rest
  have hrun : (groupedSums.recognize "sum" s).map (fun m => (m.1.texts, m.2)) =
      some ([['1'], ['5'], ['+'], ['2']], rest) := by cbv
  obtain ⟨⟨value, rest'⟩, h, hm⟩ := Option.map_eq_some_iff.mp hrun
  obtain ⟨htexts, rfl⟩ := Prod.mk.inj hm
  exact ⟨value, h, htexts, tokens_of_recognize groupedSums h⟩

end Grammar

end TaggedOutline
