import TaggedOutline.Proofs.Grammar.Derivation

/-!
# What every way of matching keeps

A property of matches holds of all that is derived if the ways to make a match from others keep it,
`IsKept`: taking a token, putting a match in front of a list, with or without what stands between,
and naming.  It may depend on which lists occur in the rules.  The seeds of the calls in progress
have to have the property too, as a call may answer with them.

Main statements: `Derives.keeps`, and the first use of it, that a match lies between its place and
the end of the tokens (`Derives.advances`).
-/

namespace TaggedOutline

namespace Expr

/-- The expressions an expression is made of. -/
def parts : Expr → List Expr
  | .seq parts => parts
  | .choice alternatives => alternatives
  | .many item | .optional item | .list item _ _ => [item]
  | .token _ | .literal _ | .word | .finish | .ref _ => []

/-- An expression stands somewhere in another one. -/
inductive Within (e : Expr) : Expr → Prop
  | self : Within e e
  | part {e' whole : Expr} (hpart : e' ∈ whole.parts) (h : Within e e') : Within e whole

/-- In an expression stands a list with a separator that shows or not. -/
def HasList (e : Expr) (sep : Option String) (vis : Bool) : Prop :=
  ∃ item, Within (.list item sep vis) e

/-- The lists in an expression are among some. -/
def ListsIn (lists : Option String → Bool → Prop) (e : Expr) : Prop :=
  ∀ sep vis, e.HasList sep vis → lists sep vis

section HasList

variable {lists : Option String → Bool → Prop} {e : Expr} {es : List Expr}

lemma hasList_list (item : Expr) (sep : Option String) (vis : Bool) :
    HasList (.list item sep vis) sep vis := ⟨item, .self⟩

lemma ListsIn.of_part {whole : Expr} (h : whole.ListsIn lists) (hpart : e ∈ whole.parts) :
    e.ListsIn lists := by
  rintro sep vis ⟨item, hitem⟩
  exact h sep vis ⟨item, .part hpart hitem⟩

/-- The rest of a sequence is not a part of it, but its parts are. -/
lemma ListsIn.seq_tail (h : ListsIn lists (.seq (e :: es))) : ListsIn lists (.seq es) := by
  rintro sep vis ⟨item, hitem⟩
  cases hitem with
  | part hpart hitem => exact h sep vis ⟨item, .part (List.mem_cons_of_mem e hpart) hitem⟩

lemma ListsIn.choice_tail (h : ListsIn lists (.choice (e :: es))) :
    ListsIn lists (.choice es) := by
  rintro sep vis ⟨item, hitem⟩
  cases hitem with
  | part hpart hitem => exact h sep vis ⟨item, .part (List.mem_cons_of_mem e hpart) hitem⟩

end HasList

end Expr

namespace Grammar

/-- A match that is to grow has a property. -/
def Task.Starts (P : Nat → Match → Prop) : Task → Nat → Prop
  | .grow _ _ best, p => P p best
  | _, _ => True

/-- The lists in what is run are among some. -/
def Task.ListsIn (lists : Option String → Bool → Prop) : Task → Prop
  | .expr e | .rule _ e | .grow _ e _ => e.ListsIn lists
  | .behind item sep vis => (Expr.list item sep vis).ListsIn lists

/-- A property of the matches found at a place is kept by every way to make a match, where lists are
among some. -/
structure IsKept (tokens : List Token) (lists : Option String → Bool → Prop)
    (P : Nat → Match → Prop) : Prop where
  take : ∀ {p test m}, takeIf tokens p test = some m → P p m
  empty : ∀ p, P p (.empty, p)
  nil : ∀ p, P p (.list [], p)
  cons : ∀ {p v q vs n}, P p (v, q) → P q (.list vs, n) → P p (.list (v :: vs), n)
  gap : ∀ {p sep vis between a vs n}, lists sep vis → gap? tokens sep p = some (between, a) →
    P a (.list vs, n) → P p (.list (keptGap vis between ++ vs), n)
  name : ∀ {p m} name, P p m → P p (nameResult name m)

section Kept

variable {lists : Option String → Bool → Prop} {P : Nat → Match → Prop} {rules : List NamedRule}
  {tokens : List Token} {how : Answering} {t : Task} {p : Nat} {s s₁ : Seeds} {r : Option Match}

/-- What every way of matching keeps holds of all that is derived. -/
theorem Derives.keeps (h : Derives rules tokens how t p s r s₁) (hP : IsKept tokens lists P)
    (hrules : ∀ name body, rules.lookup name = some body → body.ListsIn lists)
    (ht : t.ListsIn lists) (hbest : t.Starts P p) (hs : s.Hold P) : ∀ m ∈ r, P p m := by
  induction h with
  | take =>
    intro m hm
    exact hP.take hm
  | finish =>
    intro m hm
    split at hm
    · obtain rfl := Option.some.inj hm
      exact hP.empty _
    · simp at hm
  | seqFail | seqStop | choiceNil | listFail | unknown => simp
  | seqNil | manyEnd | behindGap | behindEnd =>
    rintro _ ⟨⟩
    exact hP.nil _
  | seqCons h _ ih ihs =>
    rintro _ ⟨⟩
    exact hP.cons (ih (ht.of_part List.mem_cons_self) trivial hs _ rfl)
      (ihs ht.seq_tail trivial (hs.congr h.leaves) _ rfl)
  | choiceHere _ ih => exact ih (ht.of_part List.mem_cons_self) trivial hs
  | choiceNext h _ _ ihs => exact ihs ht.choice_tail trivial (hs.congr h.leaves)
  | manyMore h _ _ ih ihs =>
    rintro _ ⟨⟩
    exact hP.cons (ih (ht.of_part List.mem_cons_self) trivial hs _ rfl)
      (ihs ht trivial (hs.congr h.leaves) _ rfl)
  | optional _ ih =>
    intro m hm
    rcases Option.or_eq_some_iff.mp hm with hm | ⟨-, hm⟩
    · exact ih (ht.of_part List.mem_cons_self) trivial hs m hm
    · obtain rfl := Option.some.inj hm
      exact hP.empty _
  | list h _ ih ihs =>
    rintro _ ⟨⟩
    exact hP.cons (ih (ht.of_part List.mem_cons_self) trivial hs _ rfl)
      (ihs ht trivial (hs.congr h.leaves) _ rfl)
  | @behindMore e sep vis p s between a v q s₁ vs n s₂ hgap h _ _ ih ihs =>
    rintro _ ⟨⟩
    have hlist : (Expr.list e sep vis).ListsIn lists := ht
    have hround := hP.cons (ih (hlist.of_part List.mem_cons_self) trivial hs _ rfl)
      (ihs ht trivial (hs.congr h.leaves) _ rfl)
    exact hP.gap (hlist sep vis (Expr.hasList_list e sep vis)) hgap hround
  | ref hbody _ ih => exact ih (hrules _ _ hbody) trivial hs
  | met _ hseed => exact hs.of_get? hseed
  | plain _ _ ih =>
    intro m hm
    obtain ⟨m', hm', rfl⟩ := Option.map_eq_some_iff.mp hm
    exact hP.name _ (ih ht trivial hs m' hm')
  | fresh _ _ _ _ ih =>
    intro m hm
    obtain ⟨m', hm', rfl⟩ := Option.map_eq_some_iff.mp hm
    exact hP.name _ (ih ht trivial (hs.put (by simp)) m' hm')
  | @grown name body p s m s₁ r s₂ _ _ h _ _ ih ihs =>
    have hput : (s.put (name, p) {}).Hold P := hs.put (by simp)
    exact ihs ht (hP.name _ (ih ht trivial hput _ rfl)) (hput.congr h.leaves)
  -- the round before has left its match as the seed of this one
  | @growMore name body best p s m s₁ r s₂ h _ _ ih ihs =>
    have hput : (s.put (name, p) (growingSeed best)).Hold P :=
      hs.put (by rintro _ ⟨⟩; exact hbest)
    exact ihs ht (hP.name _ (ih ht trivial hput _ rfl)) (hput.congr h.leaves)
  | growEnd =>
    rintro _ ⟨⟩
    exact hbest

end Kept

/-! ## How far a run gets -/

/-- A match found at a place does not end before it, nor behind the tokens unless the place is
there. -/
def Advances (tokens : List Token) (p : Nat) (m : Match) : Prop :=
  p ≤ m.2 ∧ m.2 ≤ max tokens.length p

section Advances

variable {rules : List NamedRule} {tokens : List Token} {how : Answering} {t : Task} {p : Nat}
  {s s₁ : Seeds} {r : Option Match}

lemma advances_takeIf (test : Token → Bool) :
    ∀ m ∈ takeIf tokens p test, Advances tokens p m := by
  intro m hm
  obtain ⟨t, ht, -, rfl⟩ := exists_of_takeIf hm
  have hlt : p < tokens.length := (List.getElem?_eq_some_iff.mp ht).1
  refine ⟨Nat.le_succ p, ?_⟩
  show p + 1 ≤ max tokens.length p
  omega

lemma advances_self (v : ParseTree) : Advances tokens p (v, p) := ⟨le_rfl, le_max_right _ _⟩

lemma Advances.trans {v w : ParseTree} {q n : Nat} (h : Advances tokens p (v, q))
    (hs : Advances tokens q (w, n)) (u : ParseTree) : Advances tokens p (u, n) := by
  obtain ⟨hle, hmax⟩ := h
  obtain ⟨hle', hmax'⟩ := hs
  simp only at hle hmax hle' hmax'
  refine ⟨hle.trans hle', ?_⟩
  show n ≤ max tokens.length p
  omega

@[simp] lemma snd_nameResult (name : String) (m : Match) : (nameResult name m).2 = m.2 := by
  rw [nameResult]
  split <;> rfl

lemma Advances.nameResult {m : Match} (h : Advances tokens p m) (name : String) :
    Advances tokens p (Grammar.nameResult name m) := by
  rw [Advances, snd_nameResult]
  exact h

lemma advances_gap {sep : Option String} {between : ParseTree} {a : Nat}
    (hgap : gap? tokens sep p = some (between, a)) : Advances tokens p (between, a) := by
  cases sep with
  | none =>
    obtain ⟨rfl, rfl⟩ := Prod.mk.inj (Option.some.inj hgap)
    exact advances_self _
  | some kind => exact advances_takeIf _ _ hgap

lemma isKept_advances (tokens : List Token) :
    IsKept tokens (fun _ _ => True) (Advances tokens) where
  take hm := advances_takeIf _ _ hm
  empty _ := advances_self _
  nil _ := advances_self _
  cons h hs := h.trans hs _
  gap _ hgap hs := (advances_gap hgap).trans hs _
  name name h := h.nameResult name

theorem Derives.advances (h : Derives rules tokens how t p s r s₁)
    (hbest : t.Starts (Advances tokens) p) (hs : s.Hold (Advances tokens)) :
    ∀ m ∈ r, Advances tokens p m := by
  have ht : t.ListsIn fun _ _ => True := by cases t <;> exact fun _ _ _ => trivial
  exact h.keeps (isKept_advances tokens) (fun _ _ _ _ _ _ => trivial) ht hbest hs

end Advances

end Grammar

end TaggedOutline
