import TaggedOutline.Header
import TaggedOutline.Proofs.Patterns
import TaggedOutline.Proofs.Spellings
import TaggedOutline.Proofs.Tiling

/-!
# Lexemes of header lines

The lexer of header lines decides by the first character which rule applies, with one exception: an
opening brace begins code if it is closed and stands alone otherwise.  `lexemes` cuts a line in that
way, without patterns and without places; `visible_eq_lexemes` says that the tokens which the
grammar sees are those lexemes.

`IsPiece` has a case for each kind of piece that a line can begin with.  `firstPiece` finds it
(`firstPiece_eq_some_iff`) and the lexer cuts it off (`IsPiece.exists_next?`).
-/

namespace TaggedOutline

namespace Header

open Pattern

/-- What is left after the quote that closes a string. -/
def closeQuote : Text → Option Text
  | [] => none
  | c :: t =>
    if c = '"' then some t
    else if c = '\\' then
      match t with
      | [] => none
      | d :: t => if d = '\n' then none else closeQuote t
    else closeQuote t

lemma closeQuote_quote (t : Text) : closeQuote ('"' :: t) = some t := by
  rw [closeQuote.eq_def]
  simp

lemma closeQuote_plain {c : Char} (hquote : c ≠ '"') (hback : c ≠ '\\') (t : Text) :
    closeQuote (c :: t) = closeQuote t := by
  rw [closeQuote.eq_def]
  simp [hquote, hback]

lemma closeQuote_escape {d : Char} (hd : d ≠ '\n') (t : Text) :
    closeQuote ('\\' :: d :: t) = closeQuote t := by
  rw [closeQuote.eq_def]
  simp [hd]

lemma closeQuote_feed (t : Text) : closeQuote ('\\' :: '\n' :: t) = none := by
  rw [closeQuote.eq_def]
  simp

/-- A text that can stand between quotes. -/
inductive IsQuoted : Text → Prop
  | nil : IsQuoted []
  | plain {c : Char} {t : Text} (hquote : c ≠ '"') (hback : c ≠ '\\') (h : IsQuoted t) :
      IsQuoted (c :: t)
  | escape {d : Char} {t : Text} (hd : d ≠ '\n') (h : IsQuoted t) : IsQuoted ('\\' :: d :: t)

lemma closeQuote_eq_some_iff {t rest : Text} :
    closeQuote t = some rest ↔ ∃ raw, IsQuoted raw ∧ t = raw ++ '"' :: rest := by
  constructor
  · intro h
    induction hn : t.length using Nat.strong_induction_on generalizing t with
    | _ n ih =>
      subst hn
      cases t with
      | nil => simp [closeQuote] at h
      | cons c t =>
        by_cases hquote : c = '"'
        · subst hquote
          rw [closeQuote_quote, Option.some.injEq] at h
          exact ⟨[], .nil, by rw [h]; rfl⟩
        by_cases hback : c = '\\'
        · subst hback
          cases t with
          | nil => simp [closeQuote] at h
          | cons d t =>
            by_cases hd : d = '\n'
            · subst hd
              simp [closeQuote_feed] at h
            · rw [closeQuote_escape hd] at h
              obtain ⟨raw, hraw, rfl⟩ := ih t.length (by simp only [List.length_cons]; omega) h rfl
              exact ⟨_, hraw.escape hd, rfl⟩
        · rw [closeQuote_plain hquote hback] at h
          obtain ⟨raw, hraw, rfl⟩ := ih t.length (by simp) h rfl
          exact ⟨_, hraw.plain hquote hback, rfl⟩
  · rintro ⟨raw, hraw, rfl⟩
    induction hraw with
    | nil => exact closeQuote_quote rest
    | plain hquote hback _ ih => exact (closeQuote_plain hquote hback _).trans ih
    | escape hd _ ih => exact (closeQuote_escape hd _).trans ih

/-- Whether a character is not a brace. -/
def isBraceless (c : Char) : Bool := c != '\x7b' && c != '\x7d'

/-- What is left after the brace that closes code, inside a pair of braces of the code or not. -/
def closeCode : Bool → Text → Option Text
  | _, [] => none
  | deep, c :: t =>
    if c = '\x7d' then if deep then closeCode false t else some t
    else if c = '\x7b' then if deep then none else closeCode true t
    else closeCode deep t

/-- A text that can stand before the brace that closes code, inside a pair of braces of the code or
not. -/
inductive IsCode : Bool → Text → Prop
  | nil : IsCode false []
  | plain {deep : Bool} {c : Char} {t : Text} (hc : isBraceless c = true) (h : IsCode deep t) :
      IsCode deep (c :: t)
  | enter {t : Text} (h : IsCode true t) : IsCode false ('\x7b' :: t)
  | leave {t : Text} (h : IsCode false t) : IsCode true ('\x7d' :: t)

lemma closeCode_plain {c : Char} (hc : isBraceless c = true) (deep : Bool) (t : Text) :
    closeCode deep (c :: t) = closeCode deep t := by
  simp only [isBraceless, Bool.and_eq_true, bne_iff_ne] at hc
  rw [closeCode, if_neg hc.2, if_neg hc.1]

lemma closeCode_eq_some_iff {deep : Bool} {t rest : Text} :
    closeCode deep t = some rest ↔ ∃ raw, IsCode deep raw ∧ t = raw ++ '\x7d' :: rest := by
  constructor
  · intro h
    induction t generalizing deep with
    | nil => simp [closeCode] at h
    | cons c t ih =>
      by_cases hclose : c = '\x7d'
      · subst hclose
        cases deep with
        | false =>
          simp only [closeCode, Bool.false_eq_true, if_false, if_true, Option.some.injEq] at h
          exact ⟨[], .nil, by rw [h]; rfl⟩
        | true =>
          simp only [closeCode, if_true] at h
          obtain ⟨raw, hraw, rfl⟩ := ih h
          exact ⟨_, hraw.leave, rfl⟩
      by_cases hopen : c = '\x7b'
      · subst hopen
        cases deep with
        | true => simp [closeCode] at h
        | false =>
          simp only [closeCode, hclose, Bool.false_eq_true, if_false, if_true] at h
          obtain ⟨raw, hraw, rfl⟩ := ih h
          exact ⟨_, hraw.enter, rfl⟩
      · have hplain : isBraceless c = true := by simp [isBraceless, hclose, hopen]
        rw [closeCode_plain hplain] at h
        obtain ⟨raw, hraw, rfl⟩ := ih h
        exact ⟨_, hraw.plain hplain, rfl⟩
  · rintro ⟨raw, hraw, rfl⟩
    induction hraw with
    | nil => rfl
    | plain hc _ ih => exact (closeCode_plain hc _ _).trans ih
    | enter _ ih => exact ih
    | leave _ ih => exact ih

/-- The punctuation marks with their kinds. -/
def marks : List (Char × String) :=
  [('(', "lparen"), (')', "rparen"), ('[', "lbracket"), (']', "rbracket"), (',', "comma"),
    ('=', "equals"), (':', "colon")]

/-- Whether a character can stand in a word. -/
def isWordChar (c : Char) : Bool := !Text.isBlank c && !stops.contains c

/-- Whether a character belongs to a comment that has begun. -/
def isLineChar (c : Char) : Bool := c != '\n'

/-- The first piece of a line and what is left after it; spaces are no lexeme. -/
def firstPiece : Text → Option (Option Lexeme × Text)
  | [] => none
  | c :: t =>
    if Layout.isIndent c then some (none, t.dropWhile Layout.isIndent)
    else if c = '"' then
      (closeQuote t).map fun rest =>
        (some ("string", unescape (t.take (t.length - rest.length)).dropLast), rest)
    else if c = '\x7b' then
      match closeCode false t with
      | some rest =>
        some (some ("code", Text.trim (t.take (t.length - rest.length)).dropLast), rest)
      | none => some (some ("open_brace", ['\x7b']), t)
    else if c = '#' then
      some (some ("comment", Text.trim (t.takeWhile isLineChar)), t.dropWhile isLineChar)
    else
      match marks.lookup c with
      | some kind => some (some (kind, [c]), t)
      | none =>
        if isWordChar c then
          some (some ("word", c :: t.takeWhile isWordChar), t.dropWhile isWordChar)
        else none

/-- The lexemes of a line, if it is one line of lexemes throughout. -/
def lexemes (t : Text) : Option (List Lexeme) :=
  if t.isEmpty then some []
  else
    match firstPiece t with
    | none => none
    | some (piece, rest) =>
      if rest.length < t.length then (lexemes rest).map (piece.toList ++ ·) else none
termination_by t.length

/-! ## Pieces -/

lemma not_indent_of_word {c : Char} (h : isWordChar c = true) : Layout.isIndent c = false := by
  simp only [isWordChar, Bool.and_eq_true, Bool.not_eq_true'] at h
  cases hc : Layout.isIndent c with
  | false => rfl
  | true => simp [Layout.isBlank_of_isIndent hc] at h

lemma not_word_of_mark {m : Char × String} (h : m ∈ marks) : isWordChar m.1 = false := by
  revert m
  decide

lemma not_word_of_lookup {c : Char} {kind : String} (hc : marks.lookup c = some kind) :
    isWordChar c = false := by
  obtain ⟨before, behind, hmarks, -⟩ := List.lookup_eq_some_iff.mp hc
  exact not_word_of_mark (m := (c, kind)) (by simp [hmarks])

lemma ne_of_word {c d : Char} (hc : isWordChar c = true) (hd : isWordChar d = false) : c ≠ d := by
  rintro rfl
  simp [hc] at hd

lemma lookup_of_word {c : Char} (h : isWordChar c = true) : marks.lookup c = none := by
  rw [List.lookup_eq_none_iff]
  intro m hm
  simpa using ne_of_word h (not_word_of_mark hm)

/-- No mark begins a piece of another kind. -/
lemma ne_of_lookup {c : Char} {kind : String} (h : marks.lookup c = some kind) :
    Layout.isIndent c = false ∧ c ≠ '"' ∧ c ≠ '\x7b' ∧ c ≠ '#' := by
  have hall : ∀ m ∈ marks, Layout.isIndent m.1 = false ∧ m.1 ≠ '"' ∧ m.1 ≠ '\x7b' ∧
      m.1 ≠ '#' := by decide
  obtain ⟨before, behind, hmarks, -⟩ := List.lookup_eq_some_iff.mp h
  exact hall (c, kind) (by simp [hmarks])

/-- What stands before the character that closes a piece. -/
lemma dropLast_take_of_closed (raw rest : Text) (c : Char) :
    ((raw ++ c :: rest).take ((raw ++ c :: rest).length - rest.length)).dropLast = raw := by
  have hsplit : raw ++ c :: rest = (raw ++ [c]) ++ rest := by simp
  rw [Text.take_length_sub hsplit, List.dropLast_concat]

/-- A line begins with a piece, which has a lexeme unless it is spaces. -/
inductive IsPiece : Text → Option Lexeme → Text → Prop
  | spaces {c : Char} {sp rest : Text} (hsp : ∀ d ∈ c :: sp, Layout.isIndent d = true)
      (hnext : ∀ d ∈ rest.head?, Layout.isIndent d = false) : IsPiece (c :: sp ++ rest) none rest
  | quoted {raw rest : Text} (hraw : IsQuoted raw) :
      IsPiece ('"' :: raw ++ '"' :: rest) (some ("string", unescape raw)) rest
  | code {raw rest : Text} (hraw : IsCode false raw) :
      IsPiece ('\x7b' :: raw ++ '\x7d' :: rest) (some ("code", Text.trim raw)) rest
  | opening {rest : Text} (hrest : closeCode false rest = none) :
      IsPiece ('\x7b' :: rest) (some ("open_brace", ['\x7b'])) rest
  | comment {raw rest : Text} (hraw : ∀ d ∈ raw, isLineChar d = true)
      (hnext : ∀ d ∈ rest.head?, isLineChar d = false) :
      IsPiece ('#' :: raw ++ rest) (some ("comment", Text.trim raw)) rest
  | mark {c : Char} {kind : String} {rest : Text} (hc : marks.lookup c = some kind) :
      IsPiece (c :: rest) (some (kind, [c])) rest
  | word {c : Char} {w rest : Text} (hw : ∀ d ∈ c :: w, isWordChar d = true)
      (hnext : ∀ d ∈ rest.head?, isWordChar d = false) :
      IsPiece (c :: w ++ rest) (some ("word", c :: w)) rest

lemma isPiece_of_firstPiece {t rest : Text} {piece : Option Lexeme}
    (h : firstPiece t = some (piece, rest)) : IsPiece t piece rest := by
  cases t with
  | nil => cases h
  | cons c t =>
    rw [firstPiece] at h
    split_ifs at h with hspace hquote hopen hcomment hword
    · obtain ⟨sp, rest', rfl, hsp, hnext⟩ := exists_run Layout.isIndent t
      obtain ⟨rfl, rfl⟩ : none = piece ∧ rest' = rest := by simpa [dropWhile_run hsp hnext] using h
      exact .spaces (List.forall_mem_cons.mpr ⟨hspace, hsp⟩) hnext
    · obtain ⟨_, hclose, heq⟩ := Option.map_eq_some_iff.mp h
      obtain ⟨rfl, rfl⟩ := Prod.mk.inj heq
      obtain ⟨raw, hraw, rfl⟩ := closeQuote_eq_some_iff.mp hclose
      rw [dropLast_take_of_closed, hquote]
      exact .quoted hraw
    · cases hclose : closeCode false t with
      | some rest' =>
        simp only [hclose, Option.some.injEq, Prod.mk.injEq] at h
        obtain ⟨rfl, rfl⟩ := h
        obtain ⟨raw, hraw, rfl⟩ := closeCode_eq_some_iff.mp hclose
        rw [dropLast_take_of_closed, hopen]
        exact .code hraw
      | none =>
        simp only [hclose, Option.some.injEq, Prod.mk.injEq] at h
        obtain ⟨rfl, rfl⟩ := h
        exact hopen ▸ .opening hclose
    · obtain ⟨raw, rest', rfl, hraw, hnext⟩ := exists_run isLineChar t
      rw [takeWhile_run hraw hnext, dropWhile_run hraw hnext] at h
      obtain ⟨rfl, rfl⟩ := Prod.mk.inj (Option.some.inj h)
      exact hcomment ▸ .comment hraw hnext
    -- no mark is a character of a word
    · obtain ⟨w, rest', rfl, hw, hnext⟩ := exists_run isWordChar t
      rw [lookup_of_word hword, takeWhile_run hw hnext, dropWhile_run hw hnext] at h
      obtain ⟨rfl, rfl⟩ := Prod.mk.inj (Option.some.inj h)
      exact .word (List.forall_mem_cons.mpr ⟨hword, hw⟩) hnext
    · cases hmark : marks.lookup c with
      | some kind =>
        simp only [hmark, Option.some.injEq, Prod.mk.injEq] at h
        obtain ⟨rfl, rfl⟩ := h
        exact .mark hmark
      | none => simp [hmark] at h

/-- The first piece of a line is the one that the line begins with. -/
theorem firstPiece_eq_some_iff {t rest : Text} {piece : Option Lexeme} :
    firstPiece t = some (piece, rest) ↔ IsPiece t piece rest := by
  refine ⟨isPiece_of_firstPiece, fun h => ?_⟩
  cases h with
  | spaces hsp hnext =>
    obtain ⟨hc, hsp⟩ := List.forall_mem_cons.mp hsp
    rw [List.cons_append, firstPiece, if_pos hc, dropWhile_run hsp hnext]
  | @quoted raw rest hraw =>
    have hclose : closeQuote (raw ++ '"' :: rest) = some rest :=
      closeQuote_eq_some_iff.mpr ⟨raw, hraw, rfl⟩
    rw [List.cons_append, firstPiece, if_neg (by decide), if_pos rfl, hclose, Option.map_some,
      dropLast_take_of_closed]
  | @code raw rest hraw =>
    have hclose : closeCode false (raw ++ '\x7d' :: rest) = some rest :=
      closeCode_eq_some_iff.mpr ⟨raw, hraw, rfl⟩
    rw [List.cons_append, firstPiece, if_neg (by decide), if_neg (by decide), if_pos rfl, hclose]
    simp only [dropLast_take_of_closed]
  | opening hrest =>
    rw [firstPiece, if_neg (by decide), if_neg (by decide), if_pos rfl, hrest]
  | comment hraw hnext =>
    rw [List.cons_append, firstPiece, if_neg (by decide), if_neg (by decide), if_neg (by decide),
      if_pos rfl, takeWhile_run hraw hnext, dropWhile_run hraw hnext]
  | mark hc =>
    obtain ⟨hindent, hquote, hopen, hcomment⟩ := ne_of_lookup hc
    rw [firstPiece, hindent, if_neg (by simp), if_neg hquote, if_neg hopen, if_neg hcomment, hc]
  | word hw hnext =>
    obtain ⟨hc, hw⟩ := List.forall_mem_cons.mp hw
    rw [List.cons_append, firstPiece, not_indent_of_word hc, if_neg (by simp),
      if_neg (ne_of_word hc (by decide)), if_neg (ne_of_word hc (by decide)),
      if_neg (ne_of_word hc (by decide)), lookup_of_word hc]
    simp only [hc, if_true, takeWhile_run hw hnext, dropWhile_run hw hnext]

/-- A piece takes something. -/
lemma IsPiece.length_lt {t rest : Text} {piece : Option Lexeme} (h : IsPiece t piece rest) :
    rest.length < t.length := by
  cases h <;> simp only [List.length_append, List.length_cons] <;> omega

/-! ## The patterns -/

lemma contains_single_eq (c : Char) : (CharSet.single c).contains = fun d => decide (d = c) :=
  funext fun d => CharSet.contains_single c d

lemma contains_space : (CharSet.ofList [' ', '\t']).contains = Layout.isIndent := by
  funext c
  simp [CharSet.ofList, CharSet.contains, Layout.isIndent]

lemma contains_braceless :
    (CharSet.compl (.ofList ['\x7b', '\x7d'])).contains = isBraceless := by
  funext c
  simp [CharSet.ofList, CharSet.contains, isBraceless, bne, Bool.beq_eq_decide_eq]

lemma contains_line : (CharSet.compl (.single '\n')).contains = isLineChar := by
  funext c
  simp [CharSet.contains, isLineChar, bne, Bool.beq_eq_decide_eq]

lemma single_char (c : Char) : Single (.char c) (step fun d => decide (d = c)) := by
  rw [← contains_single_eq]
  exact Single.one _

/-- One character of a quoted string, a backslash with the character after it. -/
def quotedStep (t : Text) : Option Text :=
  (step (fun c => c != '"' && c != '\\') t).or
    ((step (fun c => decide (c = '\\')) t).bind (step isLineChar))

/-- Code in braces inside code. -/
def innerCode (t : Text) : Option Text :=
  (step (fun c => decide (c = '\x7b')) t).bind fun t =>
    step (fun c => decide (c = '\x7d')) (t.dropWhile isBraceless)

/-- One character of code, or code in braces inside it. -/
def codeStep (t : Text) : Option Text := (step isBraceless t).or (innerCode t)

lemma length_lt_of_quotedStep {t rest : Text} (h : quotedStep t = some rest) :
    rest.length < t.length := by
  rcases Option.or_eq_some_iff.mp h with h | ⟨-, h⟩
  · exact length_lt_of_step h
  · obtain ⟨mid, hmid, hrest⟩ := Option.bind_eq_some_iff.mp h
    exact (length_lt_of_step hrest).trans (length_lt_of_step hmid)

lemma length_lt_of_innerCode {t rest : Text} (h : innerCode t = some rest) :
    rest.length < t.length := by
  obtain ⟨mid, hmid, hrest⟩ := Option.bind_eq_some_iff.mp h
  exact (length_lt_of_step hrest).trans_le
    ((List.dropWhile_suffix _).length_le.trans (length_lt_of_step hmid).le)

lemma length_lt_of_codeStep {t rest : Text} (h : codeStep t = some rest) :
    rest.length < t.length := by
  rcases Option.or_eq_some_iff.mp h with h | ⟨-, h⟩
  · exact length_lt_of_step h
  · exact length_lt_of_innerCode h

/-- Behind as much of a string as possible the closing quote is looked for. -/
lemma step_iterate_quotedStep (t : Text) :
    step (fun c => decide (c = '"')) (iterate quotedStep t) = closeQuote t := by
  induction hn : t.length using Nat.strong_induction_on generalizing t with
  | _ n ih =>
    subst hn
    cases t with
    | nil =>
      rw [iterate]
      rfl
    | cons c t =>
      by_cases hquote : c = '"'
      · subst hquote
        rw [closeQuote_quote, iterate]
        simp [quotedStep, step]
      by_cases hback : c = '\\'
      · subst hback
        cases t with
        | nil =>
          rw [iterate]
          rfl
        | cons d t =>
          by_cases hd : d = '\n'
          · subst hd
            rw [closeQuote_feed, iterate]
            rfl
          · have hstep : quotedStep ('\\' :: d :: t) = some t := by
              simp [quotedStep, step, isLineChar, hd]
            have hlt := length_lt_of_quotedStep hstep
            rw [closeQuote_escape hd, iterate, hstep]
            simp only [hlt, if_true]
            exact ih _ hlt t rfl
      · have hstep : quotedStep (c :: t) = some t := by simp [quotedStep, step, hquote, hback]
        have hlt := length_lt_of_quotedStep hstep
        rw [closeQuote_plain hquote hback, iterate, hstep]
        simp only [hlt, if_true]
        exact ih _ hlt t rfl

/-- Inside a pair of braces of the code the closing brace is the next brace. -/
lemma closeCode_deep (t : Text) :
    closeCode true t =
      (step (fun c => decide (c = '\x7d')) (t.dropWhile isBraceless)).bind (closeCode false) := by
  induction t with
  | nil => rfl
  | cons c t ih =>
    rw [closeCode]
    by_cases hclose : c = '\x7d'
    · simp [hclose, isBraceless, step]
    by_cases hopen : c = '\x7b'
    · simp [hopen, isBraceless, step]
    · have hplain : isBraceless c = true := by simp [isBraceless, hclose, hopen]
      rw [if_neg hclose, if_neg hopen, ih, List.dropWhile_cons_of_pos hplain]

/-- Behind as much of code as possible the closing brace is looked for. -/
lemma step_iterate_codeStep (t : Text) :
    step (fun c => decide (c = '\x7d')) (iterate codeStep t) = closeCode false t := by
  induction hn : t.length using Nat.strong_induction_on generalizing t with
  | _ n ih =>
    subst hn
    rw [iterate]
    cases t with
    | nil => rfl
    | cons c t =>
      by_cases hclose : c = '\x7d'
      · simp [codeStep, innerCode, step, closeCode, isBraceless, hclose]
      by_cases hopen : c = '\x7b'
      · have hdeep : closeCode false (c :: t) = closeCode true t := by simp [closeCode, hopen]
        have hstep : codeStep (c :: t) =
            step (fun c => decide (c = '\x7d')) (t.dropWhile isBraceless) := by
          simp [codeStep, innerCode, step, isBraceless, hopen]
        rw [hdeep, closeCode_deep, hstep]
        cases hrest : step (fun c => decide (c = '\x7d')) (t.dropWhile isBraceless) with
        | none => simp [step, hopen]
        | some rest =>
          have hlt : rest.length < (c :: t).length := length_lt_of_codeStep (hstep.trans hrest)
          simp only [hlt, if_true, Option.bind_some]
          exact ih _ hlt rest rfl
      · have hstep : codeStep (c :: t) = some t := by
          simp [codeStep, step, isBraceless, hclose, hopen]
        have hplain : closeCode false (c :: t) = closeCode false t := by
          simp [closeCode, hclose, hopen]
        have hlt := length_lt_of_codeStep hstep
        rw [hplain, hstep]
        simp only [hlt, if_true]
        exact ih _ hlt t rfl

lemma single_quoted :
    Single LexRule.quotedPattern fun t =>
      (step (fun c => decide (c = '"')) t).bind closeQuote := by
  have hbody : Single (.alt (.one (.compl (.ofList ['"', '\\'])))
      (.seq (.char '\\') (.one (.compl (.single '\n'))))) quotedStep := by
    have hset :
        (CharSet.compl (.ofList ['"', '\\'])).contains = fun c => c != '"' && c != '\\' := by
      funext c
      simp [CharSet.ofList, CharSet.contains, bne, Bool.beq_eq_decide_eq]
    have hplain := Single.one (CharSet.compl (.ofList ['"', '\\']))
    have hescaped := (single_char '\\').seq (Single.one (CharSet.compl (.single '\n')))
    rw [hset] at hplain
    rw [contains_line] at hescaped
    refine hplain.alt hescaped fun t => ?_
    cases t with
    | nil => exact .inl rfl
    | cons c t =>
      by_cases hc : c = '\\'
      · exact .inl (by simp [step, hc])
      · exact .inr (by simp [step, hc])
  have hall := (single_char '"').seq (hbody.star_seq (single_char '"')
    (fun _ _ => length_lt_of_quotedStep) fun t ht => ?_)
  · simp only [step_iterate_quotedStep] at hall
    exact hall
  · cases t with
    | nil => simp [quotedStep, step] at ht
    | cons c t =>
      by_cases hc : c = '"'
      · simp [quotedStep, step, hc] at ht
      · simp [step, hc]

lemma single_code :
    Single codePattern fun t =>
      (step (fun c => decide (c = '\x7b')) t).bind (closeCode false) := by
  have hplain := Single.one (CharSet.compl (.ofList ['\x7b', '\x7d']))
  rw [contains_braceless] at hplain
  have hinner := (single_char '\x7b').seq (hplain.star_seq (single_char '\x7d')
    (fun _ _ => length_lt_of_step) fun t ht => ?_)
  · simp only [iterate_step] at hinner
    have hbody : Single (.alt bracelessPattern (.inOrder [.char '\x7b', .star true bracelessPattern,
        .char '\x7d'])) codeStep := by
      refine hplain.alt hinner fun t => ?_
      cases t with
      | nil => exact .inl rfl
      | cons c t =>
        by_cases hc : c = '\x7b'
        · exact .inl (by simp [step, isBraceless, hc])
        · exact .inr (by simp [innerCode, step, hc])
    have hall := (single_char '\x7b').seq (hbody.star_seq (single_char '\x7d')
      (fun _ _ => length_lt_of_codeStep) fun t ht => ?_)
    · simp only [step_iterate_codeStep] at hall
      exact hall
    · cases t with
      | nil => simp [codeStep, innerCode, step] at ht
      | cons c t =>
        by_cases hc : c = '\x7d'
        · simp [codeStep, innerCode, step, isBraceless, hc] at ht
        · simp [step, hc]
  · cases t with
    | nil => simp [step] at ht
    | cons c t =>
      by_cases hc : c = '\x7d'
      · simp [step, isBraceless, hc] at ht
      · simp [step, hc]

/-! ## The rules -/

/-- What is left after a match of a rule. -/
def after? (r : LexRule) (t : Text) : Option Text := (r.rest? t).map Subtype.val

lemma after?_eq {r : LexRule} {f : Text → Option Text} {t : Text}
    (h : (r.pattern.find t).map Cursor.after = f t)
    (hshort : ∀ rest, f t = some rest → rest.length < t.length) : after? r t = f t := by
  rw [← h] at hshort ⊢
  unfold after? LexRule.rest?
  cases hfind : r.pattern.find t with
  | none => rfl
  | some c =>
    have hlt := hshort c.after (by rw [hfind]; rfl)
    simp [hlt]

lemma after?_spaces (t : Text) :
    after? .spaces t = (step Layout.isIndent t).map (·.dropWhile Layout.isIndent) := by
  have hspace := Single.one (.ofList [' ', '\t'])
  rw [contains_space] at hspace
  have hfind := hspace.find_star hspace (fun _ _ => length_lt_of_step) t
  rw [iterate_step] at hfind
  refine after?_eq (r := .spaces) (f := fun t => (step Layout.isIndent t).map _) hfind
    fun rest hrest => ?_
  obtain ⟨mid, hmid, rfl⟩ := Option.map_eq_some_iff.mp hrest
  exact (List.dropWhile_suffix _).length_le.trans_lt (length_lt_of_step hmid)

lemma after?_quoted (t : Text) :
    after? .quoted t = (step (fun c => decide (c = '"')) t).bind closeQuote := by
  refine after?_eq (r := .quoted) (f := fun t => (step _ t).bind closeQuote) (single_quoted.find t)
    fun rest hrest => ?_
  obtain ⟨mid, hmid, hclose⟩ := Option.bind_eq_some_iff.mp hrest
  obtain ⟨raw, -, rfl⟩ := closeQuote_eq_some_iff.mp hclose
  have hlt := length_lt_of_step hmid
  simp only [List.length_append, List.length_cons] at hlt
  omega

/-- The rule of code in braces. -/
def codeRule : LexRule where
  name := "code"
  pattern := codePattern.atHead
  transform := fun t => Text.trim (dropEnds t)

lemma after?_code (t : Text) :
    after? codeRule t = (step (fun c => decide (c = '\x7b')) t).bind (closeCode false) := by
  refine after?_eq (r := codeRule) (f := fun t => (step _ t).bind (closeCode false))
    (single_code.find t) fun rest hrest => ?_
  obtain ⟨mid, hmid, hclose⟩ := Option.bind_eq_some_iff.mp hrest
  obtain ⟨raw, -, rfl⟩ := closeCode_eq_some_iff.mp hclose
  have hlt := length_lt_of_step hmid
  simp only [List.length_append, List.length_cons] at hlt
  omega

/-- The rule of comments. -/
def commentRule : LexRule where
  name := "comment"
  pattern := commentPattern.atHead
  transform := fun t => Text.trim t.tail

lemma after?_comment (t : Text) :
    after? commentRule t =
      (step (fun c => decide (c = '#')) t).map (·.dropWhile isLineChar) := by
  have hline := Single.one (CharSet.compl (.single '\n'))
  rw [contains_line] at hline
  have hfind := hline.find_star (single_char '#') (fun _ _ => length_lt_of_step) t
  rw [iterate_step] at hfind
  refine after?_eq (r := commentRule) (f := fun t => (step _ t).map _) hfind fun rest hrest => ?_
  obtain ⟨mid, hmid, rfl⟩ := Option.map_eq_some_iff.mp hrest
  exact (List.dropWhile_suffix _).length_le.trans_lt (length_lt_of_step hmid)

lemma after?_mark (name : String) (c : Char) (t : Text) :
    after? (.mark name [c]) t = step (fun d => decide (d = c)) t :=
  after?_eq (r := .mark name [c]) ((single_char c).find t) fun _ => length_lt_of_step

lemma rest?_eq_none {r : LexRule} {t : Text} (h : after? r t = none) : r.rest? t = none := by
  simpa [after?] using h

lemma findSome?_rules_eq_none {rules : List LexRule} {t : Text}
    (h : ∀ q ∈ rules, after? q t = none) :
    rules.findSome? (fun r => (r.rest? t).map fun rest => (r, rest)) = none := by
  rw [List.findSome?_eq_none_iff]
  intro q hq
  simp [rest?_eq_none (h q hq)]

/-- The first rule with a match makes the token. -/
lemma next?_of_rule {lx : Lexer} (pre post : List LexRule) (r : LexRule)
    (hrules : lx.rules = pre ++ r :: post) {t w rest : Text} (ht : t = w ++ rest)
    (hpre : ∀ q ∈ pre, after? q t = none) (hr : after? r t = some rest) (offset : Nat) :
    ∃ token h, lx.next? offset t = some (token, ⟨rest, h⟩) ∧ token.silent = r.silent ∧
      token.lexeme = (r.name, r.transform w) := by
  obtain ⟨⟨left, h⟩, hrest, rfl⟩ := Option.map_eq_some_iff.mp hr
  have hfound : lx.rules.findSome? (fun r => (r.rest? t).map fun rest => (r, rest)) =
      some (r, ⟨left, h⟩) := by
    simp [hrules, List.findSome?_append, findSome?_rules_eq_none hpre, hrest]
  refine ⟨{ kind := r.name, text := r.transform w, start := offset
            stop := offset + Text.byteSize w, silent := r.silent, structural := r.structural },
    h, ?_, rfl, rfl⟩
  rw [Lexer.next?, hfound]
  simp only [Text.take_length_sub ht]

section NoRule

variable {lx : Lexer} {t : Text} (h : ∀ q ∈ lx.rules, after? q t = none) (offset : Nat)

include h

/-- Where no rule has a match the token is the word at the head. -/
lemma next?_of_word {w rest : Text} (ht : t = w ++ rest) (hne : w ≠ [])
    (hw : ∀ c ∈ w, lx.inWord c = true) (hrest : ∀ c ∈ rest.head?, lx.inWord c = false) :
    ∃ token hlt, lx.next? offset t = some (token, ⟨rest, hlt⟩) ∧ token.silent = false ∧
      token.lexeme = ("word", w) := by
  have hdrop : t.dropWhile lx.inWord = rest := ht ▸ dropWhile_run hw hrest
  have hlt : rest.length < t.length := by
    have hpos := List.length_pos_of_ne_nil hne
    rw [ht, List.length_append]
    omega
  refine ⟨{ kind := "word", text := w, start := offset, stop := offset + Text.byteSize w },
    hlt, ?_, rfl, rfl⟩
  rw [Lexer.next?, findSome?_rules_eq_none h]
  simp only [hdrop, hlt, dif_pos, Text.take_length_sub ht]

/-- Where no rule has a match and no word is at the head there is no token. -/
lemma next?_eq_none (hhead : ∀ c ∈ t.head?, lx.inWord c = false) : lx.next? offset t = none := by
  have hdrop : t.dropWhile lx.inWord = t := dropWhile_run (w := []) (by simp) hhead
  rw [Lexer.next?, findSome?_rules_eq_none h]
  simp [hdrop]

end NoRule

/-- The rules before those of the punctuation marks. -/
def firstRules : List LexRule :=
  [.spaces, .quoted, codeRule, .mark "open_brace" ['\x7b'], commentRule]

lemma rules_lexer :
    lexer.rules = firstRules ++ marks.map fun m => .mark m.2 [m.1] := rfl

section FirstRule

variable {c : Char} {t : Text}

@[simp] lemma after?_spaces_cons : after? .spaces (c :: t) =
    if Layout.isIndent c then some (t.dropWhile Layout.isIndent) else none := by
  rw [after?_spaces, step]
  split <;> rfl

@[simp] lemma after?_quoted_cons : after? .quoted (c :: t) =
    if c = '"' then closeQuote t else none := by
  rw [after?_quoted, step]
  simp only [decide_eq_true_eq]
  split <;> rfl

@[simp] lemma after?_code_cons : after? codeRule (c :: t) =
    if c = '\x7b' then closeCode false t else none := by
  rw [after?_code, step]
  simp only [decide_eq_true_eq]
  split <;> rfl

@[simp] lemma after?_comment_cons : after? commentRule (c :: t) =
    if c = '#' then some (t.dropWhile isLineChar) else none := by
  rw [after?_comment, step]
  simp only [decide_eq_true_eq]
  split <;> rfl

@[simp] lemma after?_mark_cons (name : String) (d : Char) : after? (.mark name [d]) (c :: t) =
    if c = d then some t else none := by
  rw [after?_mark, step]
  simp only [decide_eq_true_eq]

end FirstRule

section Marks

variable {lx : Lexer} {first : List LexRule} {table : List (Char × String)}
  (hrules : lx.rules = first ++ table.map fun m => .mark m.2 [m.1]) {c : Char} {t : Text}
  (hfirst : ∀ q ∈ first, after? q (c :: t) = none)

include hrules hfirst

/-- A mark of the table is cut off where the rules before the table have no match. -/
lemma next?_of_mark {kind : String} (hc : table.lookup c = some kind) (offset : Nat) :
    ∃ token h, lx.next? offset (c :: t) = some (token, ⟨t, h⟩) ∧ token.silent = false ∧
      token.lexeme = (kind, [c]) := by
  obtain ⟨before, behind, htable, hne⟩ := List.lookup_eq_some_iff.mp hc
  have hsplit : lx.rules = (first ++ before.map fun m => .mark m.2 [m.1]) ++
      .mark kind [c] :: behind.map fun m => .mark m.2 [m.1] := by
    rw [hrules, htable, List.map_append, List.map_cons, List.append_assoc]
  have hpre : ∀ q ∈ first ++ before.map (fun m => LexRule.mark m.2 [m.1]),
      after? q (c :: t) = none := by
    intro q hq
    rcases List.mem_append.mp hq with hq | hq
    · exact hfirst q hq
    · obtain ⟨m, hm, rfl⟩ := List.mem_map.mp hq
      have hother : c ≠ m.1 := by simpa using hne m hm
      rw [after?_mark_cons, if_neg hother]
  exact next?_of_rule _ _ (.mark kind [c]) hsplit (List.singleton_append).symm hpre
    ((after?_mark_cons _ _).trans (if_pos rfl)) offset

lemma rules_none_of_lookup (hc : table.lookup c = none) :
    ∀ q ∈ lx.rules, after? q (c :: t) = none := by
  intro q hq
  rw [hrules, List.mem_append] at hq
  rcases hq with hq | hq
  · exact hfirst q hq
  · obtain ⟨m, hm, rfl⟩ := List.mem_map.mp hq
    have hother : c ≠ m.1 := by simpa using List.lookup_eq_none_iff.mp hc m hm
    rw [after?_mark_cons, if_neg hother]

end Marks

lemma firstRules_none {c : Char} (hspace : Layout.isIndent c = false) (hquote : c ≠ '"')
    (hopen : c ≠ '\x7b') (hcomment : c ≠ '#') (t : Text) :
    ∀ q ∈ firstRules, after? q (c :: t) = none := by
  simp [firstRules, hspace, hquote, hopen, hcomment]

/-- What stands between the ends of a text. -/
lemma dropEnds_between (c d : Char) (raw : Text) : dropEnds (c :: raw ++ [d]) = raw :=
  List.dropLast_concat

section NextPiece

variable {t rest : Text} (offset : Nat)

/-- The piece at the head of a line is cut off as a token. -/
theorem IsPiece.exists_next? {piece : Option Lexeme} (h : IsPiece t piece rest) :
    ∃ token hlt, lexer.next? offset t = some (token, ⟨rest, hlt⟩) ∧
      token.silent = piece.isNone ∧ ∀ l ∈ piece, token.lexeme = l := by
  have hseen : ∀ {l : Lexeme}, (∃ token hlt, lexer.next? offset t = some (token, ⟨rest, hlt⟩) ∧
      token.silent = false ∧ token.lexeme = l) →
        ∃ token hlt, lexer.next? offset t = some (token, ⟨rest, hlt⟩) ∧
          token.silent = (some l).isNone ∧ ∀ l' ∈ some l, token.lexeme = l' := by
    rintro l ⟨token, hlt, hnext, hsilent, rfl⟩
    exact ⟨token, hlt, hnext, hsilent, by rintro _ ⟨⟩; rfl⟩
  -- in each case the rules before its own find nothing
  cases h with
  | @spaces c sp rest hsp hnext =>
    obtain ⟨hc, hsp⟩ := List.forall_mem_cons.mp hsp
    have hr : after? .spaces (c :: sp ++ rest) = some rest := by
      rw [List.cons_append, after?_spaces_cons, if_pos hc, dropWhile_run hsp hnext]
    obtain ⟨token, hlt, hfound, hsilent, -⟩ :=
      next?_of_rule [] _ _ rules_lexer rfl (by simp) hr offset
    exact ⟨token, hlt, hfound, hsilent, by simp⟩
  | @quoted raw rest hraw =>
    have hclose : closeQuote (raw ++ '"' :: rest) = some rest :=
      closeQuote_eq_some_iff.mpr ⟨raw, hraw, rfl⟩
    have hpre : ∀ q ∈ [LexRule.spaces], after? q ('"' :: raw ++ '"' :: rest) = none := by
      simp [Layout.isIndent]
    have hr : after? .quoted ('"' :: raw ++ '"' :: rest) = some rest := by simp [hclose]
    have htext : LexRule.quoted.transform ('"' :: raw ++ ['"']) = unescape raw :=
      congrArg unescape (dropEnds_between _ _ raw)
    rw [← htext]
    exact hseen (next?_of_rule _ _ .quoted rules_lexer (by simp) hpre hr offset)
  | @code raw rest hraw =>
    have hclose : closeCode false (raw ++ '\x7d' :: rest) = some rest :=
      closeCode_eq_some_iff.mpr ⟨raw, hraw, rfl⟩
    have hpre : ∀ q ∈ [LexRule.spaces, .quoted],
        after? q ('\x7b' :: raw ++ '\x7d' :: rest) = none := by
      simp [Layout.isIndent]
    have hr : after? codeRule ('\x7b' :: raw ++ '\x7d' :: rest) = some rest := by simp [hclose]
    have htext : codeRule.transform ('\x7b' :: raw ++ ['\x7d']) = Text.trim raw :=
      congrArg Text.trim (dropEnds_between _ _ raw)
    rw [← htext]
    exact hseen (next?_of_rule _ _ codeRule rules_lexer (by simp) hpre hr offset)
  | opening hrest =>
    have hpre : ∀ q ∈ [LexRule.spaces, .quoted, codeRule], after? q ('\x7b' :: rest) = none := by
      simp [Layout.isIndent, hrest]
    exact hseen (next?_of_rule _ _ (.mark "open_brace" ['\x7b']) rules_lexer
      (List.singleton_append).symm hpre ((after?_mark_cons _ _).trans (if_pos rfl)) offset)
  | @comment raw rest hraw hnext =>
    have hpre : ∀ q ∈ [LexRule.spaces, .quoted, codeRule, .mark "open_brace" ['\x7b']],
        after? q ('#' :: raw ++ rest) = none := by
      simp [Layout.isIndent]
    have hr : after? commentRule ('#' :: raw ++ rest) = some rest := by
      rw [List.cons_append, after?_comment_cons, if_pos rfl, dropWhile_run hraw hnext]
    exact hseen (next?_of_rule _ _ commentRule rules_lexer rfl hpre hr offset)
  | mark hc =>
    obtain ⟨hspace, hquote, hopen, hcomment⟩ := ne_of_lookup hc
    exact hseen (next?_of_mark rules_lexer (firstRules_none hspace hquote hopen hcomment rest)
      hc offset)
  | @word c w rest hw hnext =>
    have hc := hw c List.mem_cons_self
    have hfirst := firstRules_none (not_indent_of_word hc) (ne_of_word hc (by decide))
      (ne_of_word hc (by decide)) (ne_of_word hc (by decide)) (w ++ rest)
    exact hseen (next?_of_word (rules_none_of_lookup rules_lexer hfirst (lookup_of_word hc)) offset
      rfl (by simp) hw hnext)

/-- Where no piece is at the head of a line there is no token. -/
lemma next?_eq_none_of_firstPiece (h : firstPiece t = none) : lexer.next? offset t = none := by
  cases t with
  | nil =>
    refine next?_eq_none ?_ offset (by simp)
    simp [rules_lexer, firstRules, marks, after?_spaces, after?_quoted, after?_code,
      after?_comment, after?_mark, step]
  | cons c t =>
    rw [firstPiece] at h
    split_ifs at h with hspace hquote hopen hcomment hword
    -- a quote that is not closed
    · subst hquote
      have hclose : closeQuote t = none := Option.map_eq_none_iff.mp h
      refine next?_eq_none ?_ offset (by rintro _ ⟨⟩; decide)
      simp [rules_lexer, firstRules, marks, hclose, Layout.isIndent]
    · cases hclose : closeCode false t <;> simp [hclose] at h
    · rw [lookup_of_word hword] at h
      cases h
    -- a character that begins nothing
    · have hmark : marks.lookup c = none := by
        cases hmark : marks.lookup c with
        | none => rfl
        | some kind => simp [hmark] at h
      have hfirst := firstRules_none (by simpa using hspace) hquote hopen hcomment t
      refine next?_eq_none (rules_none_of_lookup rules_lexer hfirst hmark) offset ?_
      rintro _ ⟨⟩
      exact Bool.eq_false_iff.mpr hword

end NextPiece

/-- The next token of a header line is its first piece. -/
lemma next?_lexer (offset : Nat) (t : Text) :
    match firstPiece t with
    | none => lexer.next? offset t = none
    | some (piece, rest) => ∃ token h, lexer.next? offset t = some (token, ⟨rest, h⟩) ∧
        token.silent = piece.isNone ∧ ∀ l ∈ piece, token.lexeme = l := by
  split
  · exact next?_eq_none_of_firstPiece offset ‹_›
  · exact (isPiece_of_firstPiece ‹_›).exists_next? offset

lemma lexemes_eq_none {t : Text} (hne : t ≠ []) (h : firstPiece t = none) :
    lexemes t = none := by
  rw [lexemes, if_neg (by simpa using hne), h]

lemma lexemes_of_firstPiece {t rest : Text} {piece : Option Lexeme}
    (h : firstPiece t = some (piece, rest)) :
    lexemes t = (lexemes rest).map (piece.toList ++ ·) := by
  have hlt := (isPiece_of_firstPiece h).length_lt
  have hne : t.isEmpty ≠ true := by
    rintro he
    simp [List.isEmpty_iff.mp he] at hlt
  rw [lexemes, if_neg hne, h]
  simp only [hlt, if_true]

@[simp] lemma lexemes_nil : lexemes [] = some [] := by rw [lexemes]; rfl

/-- The tokens that a grammar sees, without their places. -/
def seen (tokens : List Token) : List Lexeme :=
  (tokens.filter fun token => !token.silent).map Token.lexeme

lemma scanFrom_eq_lexemes (offset : Nat) (t : Text) :
    lexemes t = match lexer.scanFrom offset t with
      | (tokens, none) => some (seen tokens)
      | (_, some _) => none := by
  induction hn : t.length using Nat.strong_induction_on generalizing t offset with
  | _ n ih =>
    subst hn
    by_cases he : t = []
    · subst he
      rw [lexemes_nil, Lexer.scanFrom]
      rfl
    have hnext := next?_lexer offset t
    rw [Lexer.scanFrom, if_neg (by simpa using he)]
    cases hpiece : firstPiece t with
    | none =>
      rw [hpiece] at hnext
      simp only at hnext
      rw [hnext, lexemes_eq_none he hpiece]
    | some m =>
      obtain ⟨piece, rest⟩ := m
      rw [hpiece] at hnext
      obtain ⟨token, hlt, hnext, hsilent, hlexeme⟩ := hnext
      rw [hnext, lexemes_of_firstPiece hpiece, ih rest.length hlt token.stop rest rfl]
      cases hscan : lexer.scanFrom token.stop rest with
      | mk tokens error =>
        cases error with
        | some e => simp [hscan]
        | none =>
          cases piece with
          | none => simp_all [seen]
          | some l => simp_all [seen]

/-- The tokens that the grammar sees of a line are its lexemes. -/
theorem visible_eq_lexemes (t : Text) :
    lexemes t = match lexer.visible t with
      | .ok tokens => some (tokens.map Token.lexeme)
      | .error _ => none := by
  rw [scanFrom_eq_lexemes 0, Lexer.visible, Lexer.scan]
  cases lexer.scanFrom 0 t with
  | mk tokens error => cases error <;> rfl

end Header

end TaggedOutline
