import TaggedOutline.Pattern

/-!
# Where patterns end

Of any pattern it is known that it looks forward: its matches end in the text that is searched
(`Pattern.follows_of_findFrom`).  This makes a compiled pattern of it, `Pattern.matcher`.
-/

namespace TaggedOutline

namespace Cursor

theorem mem_of_mem_distinctFrom {seen : List Nat} {cs : List Cursor} {c : Cursor}
    (h : c ∈ distinctFrom seen cs) : c ∈ cs := by
  induction cs generalizing seen with
  | nil => simp [distinctFrom] at h
  | cons d cs ih =>
    rw [distinctFrom] at h
    split at h
    · exact List.mem_cons_of_mem d (ih h)
    · rcases List.mem_cons.mp h with rfl | h
      · exact List.mem_cons_self
      · exact List.mem_cons_of_mem d (ih h)

theorem mem_of_mem_distinct {cs : List Cursor} {c : Cursor} (h : c ∈ distinct cs) : c ∈ cs := by
  match cs with
  | [] => exact h
  | [_] => exact h
  | _ :: _ :: _ => exact mem_of_mem_distinctFrom h

end Cursor

namespace Pattern

/-- All ends are places of the text behind the place where they are looked for. -/
def Forward (round : Cursor → List Cursor) : Prop := ∀ c, ∀ d ∈ round c, c.Follows d

section Forward

variable {round : Cursor → List Cursor} {c : Cursor} {further : List Cursor} {greedy : Bool}

theorem follows_of_mem_arrange (h : ∀ d ∈ further, c.Follows d) :
    ∀ d ∈ arrange greedy further c, c.Follows d := by
  intro d hd
  have hd' : d ∈ further ∨ d = c := by
    rw [arrange] at hd
    split at hd
    · simpa using hd
    · simpa [or_comm] using hd
  rcases hd' with hd' | rfl
  · exact h d hd'
  · exact .refl d

theorem forward_starThrough (hround : Forward round) (greedy : Bool) (passed : List Nat) :
    ∀ d ∈ (starThrough greedy round c passed).1, c.Follows d := by
  induction hn : c.after.length using Nat.strongRecOn generalizing c passed with
  | ind n ih =>
    subst hn
    rw [starThrough]
    -- what the rounds behind each end of the first one add
    refine follows_of_mem_arrange (List.foldlRecOn
      (motive := fun acc : List Cursor × List Nat => ∀ d ∈ acc.1, c.Follows d)
      (round c) _ (by simp) fun acc hacc e he d hd => ?_)
    have hce : c.Follows e := hround c e he
    simp only at hd
    split at hd
    · next hlt =>
      split at hd
      · exact hacc d hd
      · rcases List.mem_append.mp hd with hd | hd
        · exact hacc d hd
        · exact hce.trans (ih _ hlt acc.2 rfl d hd)
    · rcases List.mem_append.mp hd with hd | hd
      · exact hacc d hd
      · exact List.mem_singleton.mp hd ▸ hce

theorem forward_starEnds (hround : Forward round) (greedy : Bool) :
    Forward (starEnds greedy round) := by
  intro c
  induction hn : c.after.length using Nat.strongRecOn generalizing c with
  | ind n ih =>
    subst hn
    intro d hd
    rw [starEnds] at hd
    split at hd
    · exact List.mem_singleton.mp hd ▸ .refl c
    · next e he =>
      have hce : c.Follows e := hround c e (he ▸ List.mem_cons_self)
      split at hd
      · next hlt =>
        exact follows_of_mem_arrange (fun d hd => hce.trans (ih _ hlt e rfl d hd)) d hd
      · exact List.mem_singleton.mp hd ▸ .refl c
    · exact forward_starThrough hround greedy [] d (Cursor.mem_of_mem_distinct hd)

end Forward

theorem forward_ends (p : Pattern) : Forward p.ends := by
  induction p with
  | empty =>
    intro c d hd
    exact List.mem_singleton.mp hd ▸ .refl c
  | one s =>
    rintro ⟨offset, before, after⟩ d hd
    cases after with
    | nil => simp [ends] at hd
    | cons a rest =>
      simp only [ends, List.mem_ite_nil_right, List.mem_singleton] at hd
      obtain ⟨-, rfl⟩ := hd
      exact ⟨[a], rfl, rfl⟩
  | start everyLine | finish everyLine | wordEdge there =>
    intro c d hd
    simp only [ends, List.mem_ite_nil_right, List.mem_singleton] at hd
    exact hd.2 ▸ .refl c
  | seq p q ihp ihq =>
    intro c d hd
    obtain ⟨e, he, hd⟩ := List.mem_flatMap.mp (Cursor.mem_of_mem_distinct hd)
    exact (ihp c e he).trans (ihq e d hd)
  | alt p q ihp ihq =>
    intro c d hd
    rcases List.mem_append.mp (Cursor.mem_of_mem_distinct hd) with hd | hd
    · exact ihp c d hd
    · exact ihq c d hd
  | star greedy p ih => exact forward_starEnds ih greedy

theorem follows_of_findFrom {p : Pattern} {offset : Nat} {before : Option Char} {t : Text}
    {c : Cursor} (h : p.findFrom offset before t = some c) :
    Cursor.Follows ⟨offset, before, t⟩ c := by
  induction t generalizing offset before with
  | nil => exact forward_ends p _ c (List.mem_of_mem_head? h)
  | cons a t ih =>
    rw [findFrom] at h
    split at h
    · next d ds hds =>
      obtain rfl := Option.some.inj h
      exact forward_ends p _ d (hds ▸ List.mem_cons_self)
    · have hstep : Cursor.Follows ⟨offset, before, a :: t⟩ ⟨offset + a.utf8Size, some a, t⟩ :=
        ⟨[a], rfl, rfl⟩
      exact hstep.trans (ih h)

/-- A pattern as it is used in lexers and locators. -/
def matcher (p : Pattern) : Matcher where
  find := p.find
  follows _ _ h := follows_of_findFrom h

/-- The matches of a pattern at the head of a text. -/
def atHead (p : Pattern) : Matcher := (anchored p).matcher

end Pattern

end TaggedOutline
