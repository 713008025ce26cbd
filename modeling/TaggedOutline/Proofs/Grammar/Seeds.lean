import TaggedOutline.Proofs.Readings

/-!
# Tables of seeds

What the changes of a table of seeds do to its entries.  A run may mark a seed that it meets, and it
puts and removes entries of its own; `Seeds.answers` is what it must leave as it was: the keys with
the answers under them.
-/

namespace TaggedOutline

namespace Seeds

variable {s s' : Seeds} {key key' : String × Nat} {seed : Seed}

/-! ## Changes and look-ups -/

lemma get?_cons (k : String × Nat) (old : Seed) (s : Seeds) (key : String × Nat) :
    get? ((k, old) :: s) key = if k = key then some old else get? s key := by
  by_cases h : k = key
  · simp [get?, h]
  · have hne : (key == k) = false := beq_false_of_ne (Ne.symm h)
    simp [get?, h, List.lookup_cons, hne]

lemma get?_put_self (s : Seeds) (key : String × Nat) (seed : Seed) :
    (s.put key seed).get? key = some seed := by
  induction s with
  | nil => simp [put, get?]
  | cons entry s ih =>
    obtain ⟨k, old⟩ := entry
    rw [put]
    split
    · next h => rw [get?_cons, if_pos h]
    · next h => rw [get?_cons, if_neg h, ih]

lemma get?_put_of_ne (s : Seeds) (hne : key ≠ key') (seed : Seed) :
    (s.put key seed).get? key' = s.get? key' := by
  induction s with
  | nil => rw [put, get?_cons, if_neg hne]
  | cons entry s ih =>
    obtain ⟨k, old⟩ := entry
    rw [put]
    split
    · next h => rw [get?_cons, get?_cons, if_neg (h ▸ hne), if_neg (h ▸ hne)]
    · rw [get?_cons, get?_cons, ih]

lemma get?_remove_of_ne (s : Seeds) (hne : key ≠ key') :
    (s.remove key).get? key' = s.get? key' := by
  induction s with
  | nil => rfl
  | cons entry s ih =>
    obtain ⟨k, old⟩ := entry
    rw [remove, get?_cons]
    split
    · next h => rw [if_neg (h ▸ hne)]
    · rw [get?_cons, ih]

lemma remove_of_get? (h : s.get? key = none) : s.remove key = s := by
  induction s with
  | nil => rfl
  | cons entry s ih =>
    obtain ⟨k, old⟩ := entry
    obtain ⟨hk, hrest⟩ := get?_cons_eq_none h
    rw [remove, if_neg hk, ih hrest]

/-- What is put under a key goes when the key is removed. -/
lemma remove_put (s : Seeds) (key : String × Nat) (seed : Seed) :
    (s.put key seed).remove key = s.remove key := by
  induction s with
  | nil => simp [put, remove]
  | cons entry s ih =>
    obtain ⟨k, old⟩ := entry
    rw [put, remove]
    split
    · next h => rw [remove, if_pos h]
    · next h => rw [remove, if_neg h, ih]

/-! ## Answers -/

/-- The keys of a table with the answers under them. -/
def answers (s : Seeds) : List ((String × Nat) × Option Match) := s.map fun e => (e.1, e.2.found)

lemma answers_put_of_get? (h : s.get? key = some seed) (met : Bool) :
    (s.put key { seed with met }).answers = s.answers := by
  induction s with
  | nil => simp [get?] at h
  | cons entry s ih =>
    obtain ⟨k, old⟩ := entry
    rw [get?_cons] at h
    rw [put]
    split
    · next hk =>
      rw [if_pos hk, Option.some.injEq] at h
      simp [answers, h]
    · next hk =>
      rw [if_neg hk] at h
      simpa [answers] using ih h

lemma exists_of_answers_cons {k : String × Nat} {old : Seed}
    (h : answers ((k, old) :: s) = s'.answers) :
    ∃ old' rest, s' = (k, old') :: rest ∧ old.found = old'.found ∧ s.answers = answers rest := by
  cases s' with
  | nil => simp [answers] at h
  | cons entry rest =>
    obtain ⟨k', old'⟩ := entry
    simp only [answers, List.map_cons, List.cons.injEq, Prod.mk.injEq] at h
    obtain ⟨⟨rfl, hfound⟩, hrest⟩ := h
    exact ⟨old', rest, rfl, hfound, hrest⟩

lemma answers_remove (h : s.answers = s'.answers) (key : String × Nat) :
    (s.remove key).answers = (s'.remove key).answers := by
  induction s generalizing s' with
  | nil =>
    obtain rfl : s' = [] := by simpa [answers] using h
    rfl
  | cons entry s ih =>
    obtain ⟨k, old⟩ := entry
    obtain ⟨old', rest, rfl, hfound, hrest⟩ := exists_of_answers_cons h
    rw [remove, remove]
    split
    · exact hrest
    · simp only [answers, List.map_cons, hfound, List.cons.injEq, true_and]
      exact ih hrest

lemma answers_put (h : s.answers = s'.answers) (key : String × Nat) (seed : Seed) :
    (s.put key seed).answers = (s'.put key seed).answers := by
  induction s generalizing s' with
  | nil =>
    obtain rfl : s' = [] := by simpa [answers] using h
    rfl
  | cons entry s ih =>
    obtain ⟨k, old⟩ := entry
    obtain ⟨old', rest, rfl, hfound, hrest⟩ := exists_of_answers_cons h
    rw [put, put]
    split
    · simpa [answers] using hrest
    · simp only [answers, List.map_cons, hfound, List.cons.injEq, true_and]
      exact ih hrest

lemma lookup_answers (s : Seeds) (key : String × Nat) :
    s.answers.lookup key = (s.get? key).map Seed.found := by
  induction s with
  | nil => rfl
  | cons entry s ih =>
    obtain ⟨k, old⟩ := entry
    rw [answers] at ih
    rw [get?_cons, answers, List.map_cons, List.lookup_cons, ih]
    by_cases hk : k = key
    · simp [hk]
    · have hne : (key == k) = false := beq_false_of_ne (Ne.symm hk)
      simp [hk, hne]

/-- Tables with the same answers hold the same keys. -/
lemma get?_eq_none_congr (h : s.answers = s'.answers) (key : String × Nat) :
    s.get? key = none ↔ s'.get? key = none := by
  rw [← Option.map_eq_none_iff (f := Seed.found), ← lookup_answers, h, lookup_answers,
    Option.map_eq_none_iff]

lemma eq_nil_of_answers (h : s.answers = []) : s = [] := List.map_eq_nil_iff.mp h

/-- Every match that a table answers with has a property, which may depend on the place it was
found at. -/
def Hold (P : Nat → Match → Prop) (s : Seeds) : Prop :=
  ∀ a ∈ s.answers, ∀ m ∈ a.2, P a.1.2 m

section Hold

variable {P : Nat → Match → Prop}

lemma hold_nil : Hold P [] := by simp [Hold, answers]

lemma hold_cons (k : String × Nat) (old : Seed) (s : Seeds) :
    Hold P ((k, old) :: s) ↔ (∀ m ∈ old.found, P k.2 m) ∧ Hold P s := List.forall_mem_cons

lemma Hold.congr (h : Hold P s) (he : s'.answers = s.answers) : Hold P s' := by
  rw [Hold, he]
  exact h

lemma Hold.of_get? (h : Hold P s) (hseed : s.get? key = some seed) :
    ∀ m ∈ seed.found, P key.2 m := by
  induction s with
  | nil => simp [get?] at hseed
  | cons entry s ih =>
    obtain ⟨k, old⟩ := entry
    obtain ⟨hold, hrest⟩ := (hold_cons k old s).mp h
    rw [get?_cons] at hseed
    split at hseed
    · next hk =>
      obtain rfl := Option.some.inj hseed
      exact hk ▸ hold
    · exact ih hrest hseed

lemma Hold.put (h : Hold P s) (hseed : ∀ m ∈ seed.found, P key.2 m) :
    Hold P (s.put key seed) := by
  induction s with
  | nil => exact (hold_cons key seed []).mpr ⟨hseed, hold_nil⟩
  | cons entry s ih =>
    obtain ⟨k, old⟩ := entry
    obtain ⟨hold, hrest⟩ := (hold_cons k old s).mp h
    rw [Seeds.put]
    split
    · next hk => exact (hold_cons k seed s).mpr ⟨hk ▸ hseed, hrest⟩
    · exact (hold_cons k old _).mpr ⟨hold, ih hrest⟩

end Hold

/-! ## The entries of other rules -/

/-- The table without the entries of one rule. -/
def without (name : String) (s : Seeds) : Seeds := s.filter fun e => e.1.1 ≠ name

section Without

variable {name : String}

lemma without_cons (k : String × Nat) (old : Seed) (s : Seeds) :
    without name ((k, old) :: s) =
      if k.1 = name then without name s else (k, old) :: without name s := by
  by_cases h : k.1 = name <;> simp [without, h]

lemma get?_without (hne : key.1 ≠ name) (s : Seeds) : (s.without name).get? key = s.get? key := by
  induction s with
  | nil => rfl
  | cons entry s ih =>
    obtain ⟨k, old⟩ := entry
    rw [without_cons, get?_cons]
    split
    · next h =>
      have hk : k ≠ key := fun he => hne (he ▸ h)
      rw [ih, if_neg hk]
    · rw [get?_cons, ih]

lemma without_put (hne : key.1 ≠ name) (s : Seeds) (seed : Seed) :
    (s.put key seed).without name = (s.without name).put key seed := by
  induction s with
  | nil => exact (without_cons key seed []).trans (if_neg hne)
  | cons entry s ih =>
    obtain ⟨k, old⟩ := entry
    rw [put, without_cons]
    by_cases hk : k = key
    · have hother : k.1 ≠ name := hk ▸ hne
      rw [if_pos hk, without_cons, if_neg hother, if_neg hother, put, if_pos hk]
    · rw [if_neg hk, without_cons, ih]
      split
      · rfl
      · rw [put, if_neg hk]

/-- What is put under the name goes with it. -/
lemma without_put_self (s : Seeds) (p : Nat) (seed : Seed) :
    (s.put (name, p) seed).without name = s.without name := by
  induction s with
  | nil => exact (without_cons (name, p) seed []).trans (if_pos rfl)
  | cons entry s ih =>
    obtain ⟨k, old⟩ := entry
    rw [put]
    split
    · next hk =>
      have hname : k.1 = name := by rw [hk]
      rw [without_cons, without_cons, if_pos hname, if_pos hname]
    · rw [without_cons, without_cons, ih]

lemma without_remove (hne : key.1 ≠ name) (s : Seeds) :
    (s.remove key).without name = (s.without name).remove key := by
  induction s with
  | nil => rfl
  | cons entry s ih =>
    obtain ⟨k, old⟩ := entry
    rw [remove, without_cons]
    by_cases hk : k = key
    · rw [if_pos hk, if_neg (hk ▸ hne), remove, if_pos hk]
    · rw [if_neg hk, without_cons, ih]
      split
      · rfl
      · rw [remove, if_neg hk]

end Without

end Seeds

end TaggedOutline
