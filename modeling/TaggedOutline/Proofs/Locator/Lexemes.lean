import TaggedOutline.Locator
import TaggedOutline.Proofs.Header.Lexemes

/-!
# Lexemes of paths

What the lexer of paths makes of a text that is put together of bare words and marks is put together
of their lexemes: a mark is cut off wherever it stands at the head (`lexes_mark`), and a word where
no further character of a word follows it (`lexes_word`).
-/

namespace TaggedOutline

/-! ## Texts and their lexemes -/

/-- A lexer makes these lexemes of a text, wherever the text begins. -/
def Lexer.Lexes (lx : Lexer) (t : Text) (ls : List Lexeme) : Prop :=
  ∀ offset, ∃ tokens, lx.scanFrom offset t = (tokens, none) ∧ Header.seen tokens = ls

namespace Lexer.Lexes

variable {lx : Lexer} {t rest : Text} {l : Lexeme} {ls : List Lexeme}

lemma nil (lx : Lexer) : lx.Lexes [] [] := fun offset => ⟨[], by rw [scanFrom]; rfl, rfl⟩

/-- A visible token at the head of a text is its first lexeme. -/
lemma cons (hnext : ∀ offset, ∃ token h, lx.next? offset t = some (token, ⟨rest, h⟩) ∧
    token.silent = false ∧ token.lexeme = l) (h : lx.Lexes rest ls) : lx.Lexes t (l :: ls) := by
  intro offset
  obtain ⟨token, hlt, hfound, hsilent, rfl⟩ := hnext offset
  obtain ⟨tokens, hscan, rfl⟩ := h token.stop
  have hne : ¬t.isEmpty = true := fun he => by simp [List.isEmpty_iff.mp he] at hlt
  refine ⟨token :: tokens, ?_, by simp [Header.seen, hsilent]⟩
  rw [scanFrom, if_neg hne, hfound]
  simp only [hscan]

lemma visible (h : lx.Lexes t ls) :
    ∃ tokens, lx.visible t = .ok tokens ∧ tokens.map Token.lexeme = ls := by
  obtain ⟨tokens, hscan, hseen⟩ := h 0
  exact ⟨_, by rw [Lexer.visible, scan, hscan], hseen⟩

end Lexer.Lexes

namespace Locator

open Header (after? next?_of_mark next?_of_word rules_none_of_lookup)
open Pattern (step)

/-! ## The rules of paths -/

/-- The rules before those of the marks with one character. -/
def firstRules : List LexRule := [.spaces, .quoted, .mark "match_op" ['=', '~']]

/-- The marks with one character and their kinds. -/
def marks : List (Char × String) :=
  [('=', "equals"), ('[', "lbracket"), (']', "rbracket"), ('(', "lparen"), (')', "rparen"),
    ('.', "dot"), ('/', "slash")]

lemma rules_lexer : lexer.rules = firstRules ++ marks.map fun m => .mark m.2 [m.1] := rfl

lemma after?_matchOp_cons {c : Char} (hc : c ≠ '=') (t : Text) :
    after? (.mark "match_op" ['=', '~']) (c :: t) = none := by
  have hpair := (Header.single_char '=').seq (Header.single_char '~')
  have hnone : (step (fun d => decide (d = '=')) (c :: t)).bind
      (step fun d => decide (d = '~')) = none := by
    simp [step, hc]
  refine (Header.after?_eq (r := .mark "match_op" ['=', '~']) (t := c :: t)
    (f := fun t => (step _ t).bind (step _)) (hpair.find (c :: t)) ?_).trans hnone
  intro rest hrest
  cases hnone.symm.trans hrest

lemma firstRules_none {c : Char} (hindent : Layout.isIndent c = false) (hquote : c ≠ '"')
    (hequals : c ≠ '=') (t : Text) : ∀ q ∈ firstRules, after? q (c :: t) = none := by
  simp [firstRules, hindent, hquote, after?_matchOp_cons hequals]

/-- A mark at the head of a text is cut off. -/
theorem lexes_mark {c : Char} {kind : String} (hmark : marks.lookup c = some kind)
    (hequals : c ≠ '=') {t : Text} {ls : List Lexeme} (h : lexer.Lexes t ls) :
    lexer.Lexes (c :: t) ((kind, [c]) :: ls) := by
  obtain ⟨hindent, hquote⟩ : Layout.isIndent c = false ∧ c ≠ '"' := by
    obtain ⟨before, behind, hmarks, -⟩ := List.lookup_eq_some_iff.mp hmark
    have hall : ∀ m ∈ marks, Layout.isIndent m.1 = false ∧ m.1 ≠ '"' := by decide
    exact hall (c, kind) (by simp [hmarks])
  exact .cons (next?_of_mark rules_lexer (firstRules_none hindent hquote hequals t) hmark) h

lemma rules_none_of_inWord {c : Char} (hc : lexer.inWord c = true) (t : Text) :
    ∀ q ∈ lexer.rules, after? q (c :: t) = none := by
  simp only [Lexer.inWord, Bool.and_eq_true, Bool.not_eq_true'] at hc
  obtain ⟨hblank, hstops⟩ := hc
  have hstop : ∀ d, stops.contains d = true → c ≠ d := by
    rintro _ hd rfl
    exact absurd hd (Bool.eq_false_iff.mp hstops)
  have hindent : Layout.isIndent c = false := Bool.eq_false_iff.mpr fun hc => by
    rw [Layout.isBlank_of_isIndent hc] at hblank
    cases hblank
  have hmark : marks.lookup c = none := by
    have hall : ∀ m ∈ marks, stops.contains m.1 = true := by decide
    rw [List.lookup_eq_none_iff]
    intro m hm
    simpa using hstop _ (hall m hm)
  exact rules_none_of_lookup rules_lexer (firstRules_none hindent (hstop '"' rfl) (hstop '=' rfl) t)
    hmark

/-- A word is cut off where no character of a word follows. -/
theorem lexes_word {w t : Text} (hw : w ≠ []) (hin : ∀ c ∈ w, lexer.inWord c = true)
    (hstop : ∀ c ∈ t.head?, lexer.inWord c = false) {ls : List Lexeme} (h : lexer.Lexes t ls) :
    lexer.Lexes (w ++ t) (("word", w) :: ls) := by
  obtain ⟨c, w, rfl⟩ := List.exists_cons_of_ne_nil hw
  have hnone := rules_none_of_inWord (hin c List.mem_cons_self) (w ++ t)
  exact .cons (fun offset => next?_of_word hnone offset rfl hw hin hstop) h

end Locator

end TaggedOutline
