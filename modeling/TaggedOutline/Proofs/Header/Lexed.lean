import TaggedOutline.Proofs.Header.Lexemes

/-!
# Lines as they are cut

`Lexed` is the relation between a line and its lexemes, one case for each kind of piece;
`lexemes_eq_some_iff` says that it is what `lexemes` computes.  With it lines are taken apart and
put together by induction: blanks at the end do not matter, a line can be split between two lexemes,
and lines can be put one behind the other.
-/

namespace TaggedOutline

namespace Header

open Pattern

/-- A line is cut into some lexemes. -/
inductive Lexed : Text → List Lexeme → Prop
  | nil : Lexed [] []
  | space {c : Char} {t : Text} {ls : List Lexeme} (hc : Layout.isIndent c = true)
      (h : Lexed t ls) : Lexed (c :: t) ls
  | word {c : Char} {w t : Text} {ls : List Lexeme} (hw : ∀ d ∈ c :: w, isWordChar d = true)
      (hnext : ∀ d ∈ t.head?, isWordChar d = false) (h : Lexed t ls) :
      Lexed (c :: w ++ t) (("word", c :: w) :: ls)
  | quoted {raw t : Text} {ls : List Lexeme} (hraw : IsQuoted raw) (h : Lexed t ls) :
      Lexed ('"' :: raw ++ '"' :: t) (("string", unescape raw) :: ls)
  | mark {c : Char} {kind : String} {t : Text} {ls : List Lexeme}
      (hc : marks.lookup c = some kind) (h : Lexed t ls) : Lexed (c :: t) ((kind, [c]) :: ls)
  | code {raw t : Text} {ls : List Lexeme} (hraw : IsCode false raw) (h : Lexed t ls) :
      Lexed ('\x7b' :: raw ++ '\x7d' :: t) (("code", Text.trim raw) :: ls)
  | opening {t : Text} {ls : List Lexeme} (ht : closeCode false t = none) (h : Lexed t ls) :
      Lexed ('\x7b' :: t) (("open_brace", ['\x7b']) :: ls)
  | comment {raw : Text} (hraw : '\n' ∉ raw) : Lexed ('#' :: raw) [("comment", Text.trim raw)]

/-- Spaces before a line are no lexemes. -/
lemma Lexed.spaces {sp t : Text} {ls : List Lexeme} (hsp : ∀ c ∈ sp, Layout.isIndent c = true)
    (h : Lexed t ls) : Lexed (sp ++ t) ls := by
  induction sp with
  | nil => exact h
  | cons c sp ih =>
    obtain ⟨hc, hsp⟩ := List.forall_mem_cons.mp hsp
    exact .space hc (ih hsp)

/-! ## The lexemes of a line -/

lemma lexemes_of_isPiece {t rest : Text} {piece : Option Lexeme} (h : IsPiece t piece rest) :
    lexemes t = (lexemes rest).map (piece.toList ++ ·) :=
  lexemes_of_firstPiece (firstPiece_eq_some_iff.mpr h)

lemma lexemes_space {c : Char} (hc : Layout.isIndent c = true) (t : Text) :
    lexemes (c :: t) = lexemes t := by
  obtain ⟨sp, rest, rfl, hsp, hrest⟩ := exists_run Layout.isIndent t
  have hdrop : ∀ d s, (∀ a ∈ d :: s, Layout.isIndent a = true) →
      lexemes (d :: s ++ rest) = lexemes rest := fun d s hs => by
    simpa using lexemes_of_isPiece (.spaces hs hrest)
  rw [← List.cons_append, hdrop c sp (List.forall_mem_cons.mpr ⟨hc, hsp⟩)]
  cases sp with
  | nil => rfl
  | cons d sp => exact (hdrop d sp hsp).symm

/-- A line feed outside of strings and code is no part of a line. -/
lemma lexemes_feed (t : Text) : lexemes ('\n' :: t) = none := by
  refine lexemes_eq_none (by simp) ?_
  rw [firstPiece, if_neg (by decide), if_neg (by decide), if_neg (by decide), if_neg (by decide)]
  rfl

lemma feed_notMem_head? {t : Text} {ls : List Lexeme} (h : lexemes t = some ls) :
    '\n' ∉ t.head? := by
  intro hfeed
  obtain ⟨s, rfl⟩ := List.head?_eq_some_iff.mp hfeed
  cases (lexemes_feed s).symm.trans h

/-- Behind a comment there is a line feed or nothing. -/
lemma eq_nil_of_not_feed {t : Text} (h : ∀ d ∈ t.head?, isLineChar d = false)
    (hfeed : '\n' ∉ t.head?) : t = [] := by
  cases t with
  | nil => rfl
  | cons d s =>
    obtain rfl : d = '\n' := by simpa [isLineChar] using h d rfl
    exact absurd rfl hfeed

lemma feed_notMem_of_lineChars {raw : Text} (h : ∀ d ∈ raw, isLineChar d = true) :
    '\n' ∉ raw := fun hm => absurd (h _ hm) (by decide)

/-- A comment goes up to the end of a line. -/
lemma feed_notMem_of_comment {t : Text} {ls : List Lexeme} (h : lexemes ('#' :: t) = some ls) :
    '\n' ∉ t := by
  obtain ⟨raw, rest, rfl, hraw, hnext⟩ := exists_run isLineChar t
  rw [← List.cons_append, lexemes_of_isPiece (.comment hraw hnext)] at h
  obtain ⟨ls, hls, -⟩ := Option.map_eq_some_iff.mp h
  obtain rfl := eq_nil_of_not_feed hnext (feed_notMem_head? hls)
  rw [List.append_nil]
  exact feed_notMem_of_lineChars hraw

lemma lexemes_comment {raw : Text} (hraw : '\n' ∉ raw) :
    lexemes ('#' :: raw) = some [("comment", Text.trim raw)] := by
  have hline : ∀ c ∈ raw, isLineChar c = true := fun c hc =>
    bne_iff_ne.mpr fun heq => hraw (heq ▸ hc)
  have hpiece : IsPiece ('#' :: raw ++ []) (some ("comment", Text.trim raw)) [] :=
    .comment hline (by simp)
  rw [← List.append_nil ('#' :: raw), lexemes_of_isPiece hpiece, lexemes_nil]
  rfl

/-- With a piece before it a line that is cut into lexemes is one again; only a comment has to be
the end of the line. -/
lemma Lexed.of_isPiece {t rest : Text} {piece : Option Lexeme} {ls : List Lexeme}
    (h : IsPiece t piece rest) (hrest : Lexed rest ls) (hfeed : '\n' ∉ rest.head?) :
    Lexed t (piece.toList ++ ls) := by
  cases h with
  | spaces hsp => exact hrest.spaces hsp
  | quoted hraw => exact .quoted hraw hrest
  | code hraw => exact .code hraw hrest
  | opening hclose => exact .opening hclose hrest
  | @comment raw _ hraw hnext =>
    obtain rfl := eq_nil_of_not_feed hnext hfeed
    cases hrest
    rw [List.append_nil]
    exact .comment (feed_notMem_of_lineChars hraw)
  | mark hc => exact .mark hc hrest
  | word hw hnext => exact .word hw hnext hrest

/-- The lexemes of a line are those that it is cut into. -/
theorem lexemes_eq_some_iff {t : Text} {ls : List Lexeme} : lexemes t = some ls ↔ Lexed t ls := by
  constructor
  · intro h
    induction hn : t.length using Nat.strong_induction_on generalizing t ls with
    | _ n ih =>
      subst hn
      by_cases hne : t = []
      · subst hne
        obtain rfl : [] = ls := by simpa using h
        exact .nil
      cases hfirst : firstPiece t with
      | none => cases (lexemes_eq_none hne hfirst).symm.trans h
      | some m =>
        obtain ⟨piece, rest⟩ := m
        have hpiece := isPiece_of_firstPiece hfirst
        rw [lexemes_of_isPiece hpiece] at h
        obtain ⟨ls, hls, rfl⟩ := Option.map_eq_some_iff.mp h
        exact .of_isPiece hpiece (ih rest.length hpiece.length_lt hls rfl) (feed_notMem_head? hls)
  · intro h
    induction h with
    | nil => exact lexemes_nil
    | space hc _ ih => rw [lexemes_space hc, ih]
    | word hw hnext _ ih => rw [lexemes_of_isPiece (.word hw hnext), ih]; rfl
    | quoted hraw _ ih => rw [lexemes_of_isPiece (.quoted hraw), ih]; rfl
    | mark hc _ ih => rw [lexemes_of_isPiece (.mark hc), ih]; rfl
    | code hraw _ ih => rw [lexemes_of_isPiece (.code hraw), ih]; rfl
    | opening ht _ ih => rw [lexemes_of_isPiece (.opening ht), ih]; rfl
    | comment hraw => exact lexemes_comment hraw

/-! ## Taking lines apart and putting them together -/

lemma head?_append_left {p : Char → Prop} {x y : Text} (h : ∀ c ∈ (x ++ y).head?, p c) :
    ∀ c ∈ x.head?, p c := by
  cases x with
  | nil => simp
  | cons c x => exact h

lemma not_blank_of_word {c : Char} (h : isWordChar c = true) : Text.isBlank c = false := by
  simp only [isWordChar, Bool.and_eq_true, Bool.not_eq_true'] at h
  exact h.1

/-- Code that is not closed in a text is not closed in the head of the text. -/
lemma closeCode_eq_none_of_append {deep : Bool} {x y : Text}
    (h : closeCode deep (x ++ y) = none) : closeCode deep x = none := by
  cases hx : closeCode deep x with
  | none => rfl
  | some rest =>
    obtain ⟨raw, hraw, rfl⟩ := closeCode_eq_some_iff.mp hx
    have hsome : closeCode deep (raw ++ '\x7d' :: rest ++ y) = some (rest ++ y) :=
      closeCode_eq_some_iff.mpr ⟨raw, hraw, by simp⟩
    exact absurd (h.symm.trans hsome) (by simp)

/-- Blanks at the end of a line are no lexemes. -/
lemma Lexed.trimEnd {t : Text} {ls : List Lexeme} (h : Lexed t ls) :
    Lexed (Text.trimEnd t) ls := by
  induction h with
  | nil => exact .nil
  | @space c t ls hc _ ih =>
    rw [Text.trimEnd_cons]
    split
    · rename_i hempty
      simp only [Bool.and_eq_true, List.isEmpty_iff] at hempty
      exact hempty.1 ▸ ih
    · exact .space hc ih
  | @word c w t ls hw hnext _ ih =>
    rw [Text.trimEnd_append (by simp) (not_blank_of_word (hw _ (List.getLast_mem _)))]
    refine .word hw ?_ ih
    obtain ⟨s, hs⟩ := Text.trimEnd_isPrefix t
    exact head?_append_left (y := s) (by rwa [hs])
  | @quoted raw t ls hraw _ ih =>
    rw [Text.trimEnd_append_cons _ (by decide)]
    exact .quoted hraw ih
  | @mark c kind t ls hc _ ih =>
    have hblank : ∀ m ∈ marks, Text.isBlank m.1 = false := by decide
    obtain ⟨before, behind, hmarks, -⟩ := List.lookup_eq_some_iff.mp hc
    have hb := hblank (c, kind) (by simp [hmarks])
    rw [Text.trimEnd_cons, hb]
    simpa using .mark hc ih
  | @code raw t ls hraw _ ih =>
    rw [Text.trimEnd_append_cons _ (by decide)]
    exact .code hraw ih
  | @opening t ls ht _ ih =>
    have hb : Text.isBlank '\x7b' = false := by decide
    rw [Text.trimEnd_cons, hb, Bool.and_false]
    obtain ⟨s, hs⟩ := Text.trimEnd_isPrefix t
    exact .opening (closeCode_eq_none_of_append (by rwa [hs])) ih
  | @comment raw hraw =>
    have hb : Text.isBlank '#' = false := by decide
    rw [Text.trimEnd_cons, hb, Bool.and_false, ← Text.trim_trimEnd]
    exact .comment fun hm => hraw ((Text.trimEnd_isPrefix raw).subset hm)

/-- Indentation is no lexeme. -/
lemma Lexed.dropIndent {t : Text} {ls : List Lexeme} (h : Lexed t ls) :
    Lexed (t.dropWhile Layout.isIndent) ls := by
  induction t with
  | nil => exact h
  | cons c t ih =>
    by_cases hc : Layout.isIndent c = true
    · rw [List.dropWhile_cons_of_pos hc]
      exact ih (lexemes_eq_some_iff.mp (lexemes_space hc t ▸ lexemes_eq_some_iff.mpr h))
    · rwa [List.dropWhile_cons_of_neg hc]

/-- A line is split between any two of its lexemes. -/
lemma Lexed.split {t : Text} {ls ms : List Lexeme} (h : Lexed t (ls ++ ms)) :
    ∃ x y, t = x ++ y ∧ Lexed x ls ∧ Lexed y ms := by
  generalize hall : ls ++ ms = all at h
  induction h generalizing ls with
  | nil =>
    obtain ⟨rfl, rfl⟩ := List.append_eq_nil_iff.mp hall
    exact ⟨[], [], rfl, .nil, .nil⟩
  | space hc _ ih =>
    obtain ⟨x, y, rfl, hx, hy⟩ := ih hall
    exact ⟨_ :: x, y, rfl, .space hc hx, hy⟩
  | @word c w t all hw hnext h ih =>
    rcases List.append_eq_cons_iff.mp hall with ⟨rfl, rfl⟩ | ⟨ls, rfl, hls⟩
    · exact ⟨[], _, rfl, .nil, .word hw hnext h⟩
    · obtain ⟨x, y, rfl, hx, hy⟩ := ih hls.symm
      exact ⟨c :: w ++ x, y, by simp, .word hw (head?_append_left hnext) hx, hy⟩
  | @quoted raw t all hraw h ih =>
    rcases List.append_eq_cons_iff.mp hall with ⟨rfl, rfl⟩ | ⟨ls, rfl, hls⟩
    · exact ⟨[], _, rfl, .nil, .quoted hraw h⟩
    · obtain ⟨x, y, rfl, hx, hy⟩ := ih hls.symm
      exact ⟨'"' :: raw ++ '"' :: x, y, by simp, .quoted hraw hx, hy⟩
  | @mark c kind t all hc h ih =>
    rcases List.append_eq_cons_iff.mp hall with ⟨rfl, rfl⟩ | ⟨ls, rfl, hls⟩
    · exact ⟨[], _, rfl, .nil, .mark hc h⟩
    · obtain ⟨x, y, rfl, hx, hy⟩ := ih hls.symm
      exact ⟨c :: x, y, rfl, .mark hc hx, hy⟩
  | @code raw t all hraw h ih =>
    rcases List.append_eq_cons_iff.mp hall with ⟨rfl, rfl⟩ | ⟨ls, rfl, hls⟩
    · exact ⟨[], _, rfl, .nil, .code hraw h⟩
    · obtain ⟨x, y, rfl, hx, hy⟩ := ih hls.symm
      exact ⟨'\x7b' :: raw ++ '\x7d' :: x, y, by simp, .code hraw hx, hy⟩
  | @opening t all ht h ih =>
    rcases List.append_eq_cons_iff.mp hall with ⟨rfl, rfl⟩ | ⟨ls, rfl, hls⟩
    · exact ⟨[], _, rfl, .nil, .opening ht h⟩
    · obtain ⟨x, y, rfl, hx, hy⟩ := ih hls.symm
      exact ⟨'\x7b' :: x, y, rfl, .opening (closeCode_eq_none_of_append ht) hx, hy⟩
  | @comment raw hraw =>
    rcases List.append_eq_cons_iff.mp hall with ⟨rfl, rfl⟩ | ⟨ls, rfl, hls⟩
    · exact ⟨[], _, rfl, .nil, .comment hraw⟩
    · obtain ⟨rfl, rfl⟩ := List.append_eq_nil_iff.mp hls.symm
      exact ⟨_, [], by simp, .comment hraw, .nil⟩

/-- A line with another one behind it that does not continue its last word. -/
lemma Lexed.append {x y : Text} {ls ms : List Lexeme} (hx : Lexed x ls)
    (hls : ∀ l ∈ ls, l.1 ≠ "open_brace" ∧ l.1 ≠ "comment") (hy : Lexed y ms)
    (hnext : ∀ c ∈ y.head?, isWordChar c = false) : Lexed (x ++ y) (ls ++ ms) := by
  induction hx with
  | nil => exact hy
  | space hc _ ih => exact .space hc (ih hls)
  | @word c w t ls hw hstop _ ih =>
    have hall := ih fun l hl => hls l (List.mem_cons_of_mem _ hl)
    have hstop' : ∀ d ∈ (t ++ y).head?, isWordChar d = false := by
      cases t with
      | nil => exact hnext
      | cons d t => exact hstop
    simpa using Lexed.word hw hstop' hall
  | quoted hraw _ ih =>
    simpa using Lexed.quoted hraw (ih fun l hl => hls l (List.mem_cons_of_mem _ hl))
  | mark hc _ ih => exact .mark hc (ih fun l hl => hls l (List.mem_cons_of_mem _ hl))
  | code hraw _ ih =>
    simpa using Lexed.code hraw (ih fun l hl => hls l (List.mem_cons_of_mem _ hl))
  | opening => exact absurd rfl (hls _ List.mem_cons_self).1
  | comment => exact absurd rfl (hls _ List.mem_cons_self).2

end Header

end TaggedOutline
