import Mathlib.Data.List.Chain
import Mathlib.Data.List.TakeWhile
import TaggedOutline.Lexer

/-!
# Tokens tile the text

A lexer neither skips nor repeats a part of its text.  `Lexer.Tiles` says so piece by piece: each
token is cut from the text where the one before it ends, and what was not cut is left.  `scan_tiles`
says it of every lexer, whatever its rules match: either nothing is left, or the cutting ends with
an error at a place where neither a rule nor the fallback takes anything.

Rules may match nothing, and a rule with an alternative outside its group may match further on in
the text.  All that is used of a pattern is that its matches end in the text
(`Matcher.follows`).
-/

namespace TaggedOutline

namespace Text

lemma byteSize_pos {t : Text} (h : t ≠ []) : 0 < byteSize t := by
  obtain ⟨c, rest, rfl⟩ := List.exists_cons_of_ne_nil h
  have := c.utf8Size_pos
  rw [byteSize_cons]
  omega

lemma take_length_sub {t piece rest : Text} (h : t = piece ++ rest) :
    t.take (t.length - rest.length) = piece := by
  simp [h]

/-- A place between two characters of a text, in bytes. -/
def IsBoundary (t : Text) (n : Nat) : Prop := ∃ s rest, t = s ++ rest ∧ n = byteSize s

lemma IsBoundary.zero (t : Text) : IsBoundary t 0 := ⟨[], t, rfl, rfl⟩

lemma IsBoundary.append {t : Text} {n : Nat} (h : IsBoundary t n) (piece : Text) :
    IsBoundary (piece ++ t) (byteSize piece + n) := by
  obtain ⟨s, rest, rfl, rfl⟩ := h
  exact ⟨piece ++ s, rest, (List.append_assoc ..).symm, (byteSize_append ..).symm⟩

end Text

namespace LexRule

variable {r : LexRule} {t : Text}

lemma exists_of_rest? {rest : { rest : Text // rest.length < t.length }}
    (h : r.rest? t = some rest) :
    ∃ piece c, t = piece ++ rest.val ∧ piece ≠ [] ∧ r.pattern.find t = some c ∧
      c.after = rest.val := by
  rw [rest?] at h
  split at h
  · cases h
  · next c hc =>
    split at h
    · next hlt =>
      obtain rfl := Option.some.inj h
      obtain ⟨piece, hpiece, -⟩ := r.pattern.follows _ _ hc
      replace hpiece : t = piece ++ c.after := hpiece
      refine ⟨piece, c, hpiece, ?_, hc, rfl⟩
      rintro rfl
      rw [List.nil_append] at hpiece
      exact absurd (congrArg List.length hpiece) (Nat.ne_of_gt hlt)
    · cases h

/-- A rule without a non-empty match has no match at all or one that ends where it begins. -/
lemma after_eq_of_rest?_eq_none (h : r.rest? t = none) {c : Cursor}
    (hc : r.pattern.find t = some c) : c.after = t := by
  obtain ⟨piece, hpiece, -⟩ := r.pattern.follows _ _ hc
  replace hpiece : t = piece ++ c.after := hpiece
  rw [rest?, hc] at h
  simp only [dite_eq_right_iff, reduceCtorEq, imp_false, Nat.not_lt] at h
  have hnil : piece = [] := by
    rw [← List.length_eq_zero_iff]
    have := congrArg List.length hpiece
    rw [List.length_append] at this
    omega
  rw [hpiece, hnil, List.nil_append]

end LexRule

namespace Lexer

/-- A token that may be cut off a text, where it leaves `piece` and is followed by `rest`: the first
match of a rule ends there, or the fallback takes the piece. -/
inductive Cuts (lx : Lexer) (offset : Nat) (piece rest : Text) : Token → Prop
  | rule {r : LexRule} {c : Cursor} (hr : r ∈ lx.rules)
      (hfind : r.pattern.find (piece ++ rest) = some c) (hafter : c.after = rest) :
      Cuts lx offset piece rest
        { kind := r.name, text := r.transform piece, start := offset
          stop := offset + Text.byteSize piece, silent := r.silent, structural := r.structural }
  | word (hword : ∀ c ∈ piece, lx.inWord c = true) :
      Cuts lx offset piece rest
        { kind := "word", text := piece, start := offset, stop := offset + Text.byteSize piece }

/-- The tokens are cut one after the other from a text that begins at byte `offset`, and `rest` is
left of it. -/
inductive Tiles (lx : Lexer) (rest : Text) : Nat → Text → List Token → Prop
  | nil {offset : Nat} : Tiles lx rest offset rest []
  | cons {offset : Nat} {piece t : Text} {token : Token} {tokens : List Token}
      (hcuts : lx.Cuts offset piece t token) (hpiece : piece ≠ [])
      (htiles : Tiles lx rest token.stop t tokens) :
      Tiles lx rest offset (piece ++ t) (token :: tokens)

/-- Neither a rule nor the fallback takes anything from a text, and there is something to take. -/
def IsStuck (lx : Lexer) (t : Text) : Prop :=
  (∀ r ∈ lx.rules, ∀ c, r.pattern.find t = some c → c.after = t) ∧
    ∃ c ∈ t.head?, Text.isBlank c = true ∨ c ∈ lx.stops

variable {lx : Lexer} {offset : Nat} {piece t rest : Text} {token : Token} {tokens : List Token}

/-! ## One token -/

lemma Cuts.start_eq (h : lx.Cuts offset piece rest token) : token.start = offset := by
  cases h <;> rfl

lemma Cuts.stop_eq (h : lx.Cuts offset piece rest token) :
    token.stop = offset + Text.byteSize piece := by
  cases h <;> rfl

lemma exists_cuts_of_next? {left : { rest : Text // rest.length < t.length }}
    (h : lx.next? offset t = some (token, left)) :
    ∃ piece, t = piece ++ left.val ∧ piece ≠ [] ∧ lx.Cuts offset piece left.val token := by
  rw [next?] at h
  split at h
  · next r left' hrule =>
    simp only [Option.some.injEq, Prod.mk.injEq] at h
    obtain ⟨rfl, rfl⟩ := h
    obtain ⟨r', hr', hrest⟩ := List.exists_of_findSome?_eq_some hrule
    obtain ⟨left'', hleft, heq⟩ := Option.map_eq_some_iff.mp hrest
    obtain ⟨rfl, rfl⟩ := Prod.mk.inj heq
    obtain ⟨piece, c, ht, hpiece, hfind, hafter⟩ := LexRule.exists_of_rest? hleft
    refine ⟨piece, ht, hpiece, ?_⟩
    rw [ht] at hfind
    rw [Text.take_length_sub ht]
    exact .rule hr' hfind hafter
  · simp only [Option.dite_none_right_eq_some, Option.some.injEq, Prod.mk.injEq] at h
    obtain ⟨hlt, rfl, rfl⟩ := h
    have ht : t.takeWhile lx.inWord ++ t.dropWhile lx.inWord = t := List.takeWhile_append_dropWhile
    refine ⟨t.takeWhile lx.inWord, ht.symm, fun hnil => ?_, ?_⟩
    · rw [hnil, List.nil_append] at ht
      exact absurd (congrArg List.length ht) (Nat.ne_of_lt hlt)
    · rw [Text.take_length_sub ht.symm]
      exact .word fun c hc => List.mem_takeWhile_imp hc

lemma isStuck_of_next?_eq_none (ht : t ≠ []) (h : lx.next? offset t = none) : lx.IsStuck t := by
  rw [next?] at h
  split at h
  · cases h
  · next hrules =>
    refine ⟨fun r hr c hc => ?_, ?_⟩
    · have hrest := List.findSome?_eq_none_iff.mp hrules r hr
      exact LexRule.after_eq_of_rest?_eq_none (Option.map_eq_none_iff.mp hrest) hc
    · obtain ⟨c, rest, rfl⟩ := List.exists_cons_of_ne_nil ht
      refine ⟨c, rfl, ?_⟩
      by_contra hc
      have hword : lx.inWord c = true := by simpa [inWord] using hc
      have hlt : (rest.dropWhile lx.inWord).length < rest.length + 1 :=
        Nat.lt_succ_of_le (List.dropWhile_sublist _).length_le
      simp [hword, hlt] at h

/-! ## All tokens -/

lemma exists_tiles_scanFrom (lx : Lexer) (offset : Nat) (t : Text) :
    ∃ rest, lx.Tiles rest offset t (lx.scanFrom offset t).1 ∧
      match (lx.scanFrom offset t).2 with
      | none => rest = []
      | some e => lx.IsStuck rest ∧ e.snippet = rest.take 16 ∧
          e.offset + Text.byteSize rest = offset + Text.byteSize t := by
  induction hn : t.length using Nat.strong_induction_on generalizing offset t with
  | _ n ih =>
    subst hn
    by_cases ht : t = []
    · subst ht
      refine ⟨[], ?_⟩
      rw [scanFrom]
      exact ⟨.nil, rfl⟩
    rw [scanFrom, if_neg (by simpa using ht)]
    match hnext : lx.next? offset t with
    | none => exact ⟨t, .nil, isStuck_of_next?_eq_none ht hnext, rfl, rfl⟩
    | some (token, left) =>
      obtain ⟨piece, hpiece, hne, hcuts⟩ := exists_cuts_of_next? hnext
      obtain ⟨rest, htiles, hend⟩ := ih left.val.length left.property token.stop left.val rfl
      refine ⟨rest, ?_, ?_⟩
      · conv => arg 4; rw [hpiece]
        exact .cons hcuts hne htiles
      · have hsize : token.stop + Text.byteSize left.val = offset + Text.byteSize t := by
          rw [hcuts.stop_eq, congrArg Text.byteSize hpiece, Text.byteSize_append, Nat.add_assoc]
        dsimp only
        split at hend
        · exact hend
        · exact ⟨hend.1, hend.2.1, hend.2.2.trans hsize⟩

/-- The end of the last token, which is the head of the text if there is none. -/
def lastStop (tokens : List Token) : Nat := (tokens.getLast?.map Token.stop).getD 0

namespace Tiles

lemma start_of_head? (h : lx.Tiles rest offset t tokens) :
    ∀ k ∈ tokens.head?, k.start = offset := by
  cases h with
  | nil => exact fun _ h => absurd h (Option.not_mem_none _)
  | cons hcuts => exact fun k hk => Option.some.inj hk ▸ hcuts.start_eq

lemma start_lt_stop (h : lx.Tiles rest offset t tokens) : ∀ k ∈ tokens, k.start < k.stop := by
  induction h with
  | nil => exact fun _ h => absurd h List.not_mem_nil
  | cons hcuts hpiece _ ih =>
    refine List.forall_mem_cons.mpr ⟨?_, ih⟩
    have := Text.byteSize_pos hpiece
    rw [hcuts.start_eq, hcuts.stop_eq]
    omega

/-- Each token begins where the one before it ends. -/
lemma isChain (h : lx.Tiles rest offset t tokens) :
    tokens.IsChain fun k l => l.start = k.stop := by
  induction h with
  | nil => exact .nil
  | cons _ _ htiles ih => exact List.isChain_cons.mpr ⟨htiles.start_of_head?, ih⟩

lemma isBoundary (h : lx.Tiles rest offset t tokens) :
    ∀ k ∈ tokens, ∃ m n, Text.IsBoundary t m ∧ Text.IsBoundary t n ∧
      k.start = offset + m ∧ k.stop = offset + n := by
  induction h with
  | nil => exact fun _ h => absurd h List.not_mem_nil
  | @cons offset piece t token tokens hcuts _ _ ih =>
    refine List.forall_mem_cons.mpr ⟨?_, fun k hk => ?_⟩
    · refine ⟨0, Text.byteSize piece, .zero _, ?_, hcuts.start_eq, hcuts.stop_eq⟩
      exact ⟨piece, t, rfl, rfl⟩
    · obtain ⟨m, n, hm, hn, hstart, hstop⟩ := ih k hk
      refine ⟨_, _, hm.append piece, hn.append piece, ?_, ?_⟩
      · rw [hstart, hcuts.stop_eq, Nat.add_assoc]
      · rw [hstop, hcuts.stop_eq, Nat.add_assoc]

lemma stop_add_byteSize (h : lx.Tiles rest offset t tokens) :
    (tokens.getLast?.map Token.stop).getD offset + Text.byteSize rest =
      offset + Text.byteSize t := by
  induction h with
  | nil => rfl
  | @cons offset piece t token tokens hcuts _ _ ih =>
    rw [Text.byteSize_append, ← Nat.add_assoc, ← hcuts.stop_eq, ← ih, List.getLast?_cons]
    cases tokens.getLast? <;> rfl

end Tiles

/-- The tokens of a text tile it from its head on, at places between its characters.  They end with
the text, or else the only error is where the last one ends, and nothing can be taken there.  What a
grammar sees is that error or the tokens that are not silent. -/
theorem scan_tiles (lx : Lexer) (t : Text) :
    let tokens := (lx.scan t).1
    ∃ rest, lx.Tiles rest 0 t tokens ∧
      (∀ k ∈ tokens.head?, k.start = 0) ∧ (tokens.IsChain fun k l => l.start = k.stop) ∧
      (∀ k ∈ tokens, k.start < k.stop ∧ Text.IsBoundary t k.start ∧ Text.IsBoundary t k.stop) ∧
      lastStop tokens + Text.byteSize rest = Text.byteSize t ∧
      match (lx.scan t).2 with
      | none => rest = [] ∧ lx.visible t = .ok (tokens.filter fun k => !k.silent)
      | some e => e = ⟨lastStop tokens, rest.take 16⟩ ∧ lx.IsStuck rest ∧
          lx.visible t = .error e := by
  obtain ⟨rest, htiles, hend⟩ := exists_tiles_scanFrom lx 0 t
  change lx.Tiles rest 0 t (lx.scan t).1 at htiles
  change match (lx.scan t).2 with | none => _ | some e => _ at hend
  have hstop := htiles.stop_add_byteSize
  rw [Nat.zero_add] at hstop
  refine ⟨rest, htiles, htiles.start_of_head?, htiles.isChain, fun k hk => ?_, hstop, ?_⟩
  · obtain ⟨m, n, hm, hn, hstart, hstop⟩ := htiles.isBoundary k hk
    rw [Nat.zero_add] at hstart hstop
    exact ⟨htiles.start_lt_stop k hk, hstart ▸ hm, hstop ▸ hn⟩
  · rw [visible]
    match hscan : lx.scan t with
    | (tokens, none) =>
      rw [hscan] at hend
      exact ⟨hend, rfl⟩
    | (tokens, some e) =>
      rw [hscan] at hend hstop
      obtain ⟨hstuck, hsnippet, hoffset⟩ := hend
      have hplace : e.offset = lastStop tokens := by
        rw [lastStop]
        dsimp only at hstop
        omega
      exact ⟨by rw [← hplace, ← hsnippet], hstuck, rfl⟩

end Lexer

end TaggedOutline
