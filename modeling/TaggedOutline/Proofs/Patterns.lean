import Mathlib.Data.List.TakeWhile
import TaggedOutline.Pattern.Ends

/-!
# Patterns with one end

The patterns of a lexer mostly match in one way only: at every place there is no end or exactly one.
`Pattern.Single` says what is left of the text at that end.  A greedy repetition has many ends, but
if what follows it can only begin where the repetition cannot go on, there is one end again
(`Single.star_seq`).
-/

namespace TaggedOutline

namespace Cursor

lemma head?_distinct (cs : List Cursor) : (distinct cs).head? = cs.head? := by
  match cs with
  | [] => rfl
  | [_] => rfl
  | c :: d :: cs => simp [distinct, distinctFrom]

@[simp] lemma distinct_singleton (c : Cursor) : distinct [c] = [c] := rfl

@[simp] lemma distinct_nil : distinct [] = [] := rfl

end Cursor

namespace Pattern

/-! ## The head of a text -/

lemma findFrom_anchored_eq_none (p : Pattern) (offset : Nat) (before : Char) (t : Text) :
    (anchored p).findFrom offset (some before) t = none := by
  induction t generalizing offset before with
  | nil => simp [findFrom, anchored, ends]
  | cons c t ih =>
    have hends : (anchored p).ends ⟨offset, some before, c :: t⟩ = [] := by simp [anchored, ends]
    rw [findFrom, hends]
    exact ih _ c

/-- An anchored pattern is looked for at the head of the text only. -/
lemma find_anchored (p : Pattern) (t : Text) :
    (anchored p).find t = (p.ends ⟨0, none, t⟩).head? := by
  have hends : (anchored p).ends ⟨0, none, t⟩ = Cursor.distinct (p.ends ⟨0, none, t⟩) := by
    simp [anchored, ends]
  have hhead := Cursor.head?_distinct (p.ends ⟨0, none, t⟩)
  rw [← hends] at hhead
  rw [← hhead, find]
  cases t with
  | nil => rfl
  | cons c t =>
    rw [findFrom]
    cases (anchored p).ends ⟨0, none, c :: t⟩ with
    | nil => exact findFrom_anchored_eq_none p _ c t
    | cons d ds => rfl

/-! ## One end -/

/-- At every place the pattern has no end, or one with the text that `rest?` gives. -/
def Single (p : Pattern) (rest? : Text → Option Text) : Prop :=
  ∀ c : Cursor, (rest? c.after = none ∧ p.ends c = []) ∨
    ∃ d, rest? c.after = some d.after ∧ p.ends c = [d]

/-- The text after a character of a kind. -/
def step (kind : Char → Bool) : Text → Option Text
  | [] => none
  | c :: t => if kind c then some t else none

lemma length_lt_of_step {kind : Char → Bool} {t rest : Text} (h : step kind t = some rest) :
    rest.length < t.length := by
  cases t with
  | nil => simp [step] at h
  | cons c t =>
    simp only [step, Option.ite_none_right_eq_some, Option.some.injEq] at h
    simp [h.2]

/-- What is left after as many rounds as possible. -/
def iterate (rest? : Text → Option Text) (t : Text) : Text :=
  match rest? t with
  | none => t
  | some rest => if rest.length < t.length then iterate rest? rest else t
termination_by t.length

lemma iterate_step (kind : Char → Bool) : iterate (step kind) = List.dropWhile kind := by
  funext t
  induction t with
  | nil => rw [iterate]; rfl
  | cons c t ih =>
    rw [iterate]
    by_cases hc : kind c = true
    · simp [step, hc, ih]
    · simp [step, hc]

namespace Single

variable {p q : Pattern} {f g : Text → Option Text}

lemma one (s : CharSet) : Single (.one s) (step s.contains) := by
  rintro ⟨offset, before, after⟩
  cases after with
  | nil => exact .inl ⟨rfl, rfl⟩
  | cons d rest =>
    by_cases hd : s.contains d = true
    · exact .inr ⟨⟨offset + d.utf8Size, some d, rest⟩, by simp [step, hd], by simp [ends, hd]⟩
    · exact .inl ⟨by simp [step, hd], by simp [ends, hd]⟩

lemma seq (hp : Single p f) (hq : Single q g) : Single (.seq p q) fun t => (f t).bind g := by
  intro c
  rcases hp c with ⟨hf, hends⟩ | ⟨d, hf, hends⟩
  · exact .inl ⟨by simp [hf], by simp [ends, hends]⟩
  · rcases hq d with ⟨hg, hends'⟩ | ⟨e, hg, hends'⟩
    · exact .inl ⟨by simp [hf, hg], by simp [ends, hends, hends']⟩
    · exact .inr ⟨e, by simp [hf, hg], by simp [ends, hends, hends']⟩

/-- Alternatives that exclude each other. -/
lemma alt (hp : Single p f) (hq : Single q g) (hne : ∀ t, f t = none ∨ g t = none) :
    Single (.alt p q) fun t => (f t).or (g t) := by
  intro c
  rcases hp c with ⟨hf, hends⟩ | ⟨d, hf, hends⟩
  · rcases hq c with ⟨hg, hends'⟩ | ⟨e, hg, hends'⟩
    · exact .inl ⟨by simp [hf, hg], by simp [ends, hends, hends']⟩
    · exact .inr ⟨e, by simp [hf, hg], by simp [ends, hends, hends']⟩
  · have hg : g c.after = none := (hne c.after).resolve_left (by simp [hf])
    rcases hq c with ⟨-, hends'⟩ | ⟨e, hg', -⟩
    · exact .inr ⟨d, by simp [hf, hg], by simp [ends, hends, hends']⟩
    · simp [hg] at hg'

/-- The ends of a greedy repetition: the preferred one is after as many rounds as possible, and at
all others one more round is possible. -/
lemma ends_star (hp : Single p f) (hshort : ∀ t rest, f t = some rest → rest.length < t.length)
    (c : Cursor) :
    ∃ e ds, (Pattern.star true p).ends c = e :: ds ∧ e.after = iterate f c.after ∧
      ∀ d ∈ ds, (f d.after).isSome := by
  rw [ends]
  induction hn : c.after.length using Nat.strong_induction_on generalizing c with
  | _ n ih =>
    rw [starEnds, iterate]
    rcases hp c with ⟨hf, hends⟩ | ⟨d, hf, hends⟩
    · exact ⟨c, [], by simp [hends], by simp [hf], by simp⟩
    · have hlt := hshort _ _ hf
      obtain ⟨e, ds, hstar, he, hds⟩ := ih d.after.length (hn ▸ hlt) d rfl
      refine ⟨e, ds ++ [c], ?_, by simp [hf, hlt, he], fun b hb => ?_⟩
      · simp only [hends, hlt, dif_pos, arrange, if_true, hstar, List.cons_append]
      · rcases List.mem_append.mp hb with hb | hb
        · exact hds b hb
        · rw [List.mem_singleton.mp hb, hf]
          rfl

/-- A greedy repetition before a pattern that cannot begin where the repetition goes on. -/
theorem star_seq (hp : Single p f) (hq : Single q g)
    (hshort : ∀ t rest, f t = some rest → rest.length < t.length)
    (hne : ∀ t, (f t).isSome → g t = none) :
    Single (.seq (.star true p) q) fun t => g (iterate f t) := by
  intro c
  obtain ⟨e, ds, hstar, he, hds⟩ := hp.ends_star hshort c
  have hnone : ds.flatMap q.ends = [] := by
    rw [List.flatMap_eq_nil_iff]
    intro d hd
    rcases hq d with ⟨-, hends⟩ | ⟨b, hg, -⟩
    · exact hends
    · simp [hne _ (hds d hd)] at hg
  have hends : (Pattern.seq (.star true p) q).ends c = Cursor.distinct (q.ends e) := by
    rw [ends, hstar, List.flatMap_cons, hnone, List.append_nil]
  simp only [hends, ← he]
  rcases hq e with ⟨hg, hends'⟩ | ⟨b, hg, hends'⟩
  · exact .inl ⟨hg, by rw [hends']; rfl⟩
  · exact .inr ⟨b, hg, by rw [hends']; rfl⟩

/-- A match of an anchored pattern with one end. -/
lemma find (hp : Single p f) (t : Text) :
    ((anchored p).find t).map Cursor.after = f t := by
  rw [find_anchored]
  rcases hp ⟨0, none, t⟩ with ⟨hf, hends⟩ | ⟨d, hf, hends⟩
  · rw [hends, hf]
    rfl
  · rw [hends, hf]
    rfl

/-- A match of an anchored repetition. -/
lemma find_star (hp : Single p f) (hq : Single q g)
    (hshort : ∀ t rest, f t = some rest → rest.length < t.length) (t : Text) :
    ((anchored (.seq q (.star true p))).find t).map Cursor.after = (g t).map (iterate f) := by
  rw [find_anchored, ends, Cursor.head?_distinct]
  rcases hq ⟨0, none, t⟩ with ⟨hg, hends⟩ | ⟨d, hg, hends⟩
  · rw [hends, hg]
    rfl
  · obtain ⟨e, ds, hstar, he, -⟩ := hp.ends_star hshort d
    rw [hends, hg]
    simp [hstar, he]

end Single

end Pattern

end TaggedOutline
