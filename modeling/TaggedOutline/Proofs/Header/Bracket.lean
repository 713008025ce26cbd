import TaggedOutline.Proofs.Cut
import TaggedOutline.Proofs.Header.Lexed
import TaggedOutline.Proofs.Header.Spelling

/-!
# What opens a bracket

Whether a header ends with an opening bracket is decided twice: by the scan of a body, which looks
for the number sign that begins the comment and for the bracket before it, and by the grammar of
header lines.  The scan knows strings but not code in braces.  `bracket_agrees_iff` says exactly
when the two agree: always, unless the header has code and the scan takes a brace of the line for an
opening bracket.
-/

namespace TaggedOutline

namespace Header

/-! ## The scan for the comment -/

lemma cutComment_comment (t : Text) : cutComment ('#' :: t) = ([], '#' :: t) := by
  simp [cutComment, cutCommentFrom]

lemma cutComment_cons {c : Char} (hsign : c ≠ '#') (hquote : c ≠ '"') (t : Text) :
    cutComment (c :: t) = (c :: (cutComment t).1, (cutComment t).2) := by
  simp [cutComment, cutCommentFrom, hsign, hquote]

lemma cutComment_append {w : Text} (hw : ∀ c ∈ w, c ≠ '#' ∧ c ≠ '"') (t : Text) :
    cutComment (w ++ t) = (w ++ (cutComment t).1, (cutComment t).2) := by
  induction w with
  | nil => rfl
  | cons c w ih =>
    have hc := hw c List.mem_cons_self
    rw [List.cons_append, cutComment_cons hc.1 hc.2,
      ih fun d hd => hw d (List.mem_cons_of_mem _ hd)]
    rfl

lemma cutComment_quoted {raw : Text} (hraw : IsQuoted raw) (t : Text) :
    cutComment ('"' :: raw ++ '"' :: t) =
      ('"' :: raw ++ '"' :: (cutComment t).1, (cutComment t).2) := by
  have hinside : cutCommentFrom true false (raw ++ '"' :: t) =
      (raw ++ '"' :: (cutComment t).1, (cutComment t).2) := by
    induction hraw with
    | nil => simp [cutComment, cutCommentFrom]
    | plain hquote hback _ ih => simp [cutCommentFrom, hquote, hback, ih]
    | escape _ _ ih => simp [cutCommentFrom, ih]
  rw [List.cons_append, cutComment, cutCommentFrom]
  simp [hinside]

/-- The scan goes past lexemes that are neither code nor a comment. -/
lemma Lexed.cutComment_append {x : Text} {ls : List Lexeme} (hx : Lexed x ls)
    (hls : ∀ l ∈ ls, l.1 ≠ "code" ∧ l.1 ≠ "comment") (y : Text) :
    cutComment (x ++ y) = (x ++ (cutComment y).1, (cutComment y).2) := by
  induction hx with
  | nil => rfl
  | @space c t ls hc _ ih =>
    have hne : c ≠ '#' ∧ c ≠ '"' := by
      constructor <;> rintro rfl <;> simp [Layout.isIndent] at hc
    rw [List.cons_append, cutComment_cons hne.1 hne.2, ih hls]
    rfl
  | @word c w t ls hw _ _ ih =>
    have hplain : ∀ d ∈ c :: w, d ≠ '#' ∧ d ≠ '"' := fun d hd =>
      ⟨ne_of_word (hw d hd) (by decide), ne_of_word (hw d hd) (by decide)⟩
    rw [List.append_assoc, Header.cutComment_append hplain,
      ih fun l hl => hls l (List.mem_cons_of_mem _ hl), List.append_assoc]
  | @quoted raw t ls hraw _ ih =>
    have hrest := ih fun l hl => hls l (List.mem_cons_of_mem _ hl)
    have hquoted := cutComment_quoted hraw (t ++ y)
    rw [hrest] at hquoted
    simpa using hquoted
  | @mark c kind t ls hc _ ih =>
    have hne : ∀ m ∈ marks, m.1 ≠ '#' ∧ m.1 ≠ '"' := by decide
    obtain ⟨before, behind, hmarks, -⟩ := List.lookup_eq_some_iff.mp hc
    have hc' := hne (c, kind) (by simp [hmarks])
    rw [List.cons_append, cutComment_cons hc'.1 hc'.2,
      ih fun l hl => hls l (List.mem_cons_of_mem _ hl)]
    rfl
  | code => exact absurd rfl (hls _ List.mem_cons_self).1
  | @opening t ls ht _ ih =>
    rw [List.cons_append, cutComment_cons (by decide) (by decide),
      ih fun l hl => hls l (List.mem_cons_of_mem _ hl)]
    rfl
  | comment => exact absurd rfl (hls _ List.mem_cons_self).2

/-- The state of the scan after a character. -/
def afterChar (quoted escaped : Bool) (c : Char) : Bool × Bool :=
  if escaped then (quoted, false)
  else if quoted && c == '\\' then (quoted, true)
  else if c == '"' then (!quoted, false)
  else (quoted, false)

/-- Only quotes have escapes. -/
lemma afterChar_state (quoted escaped : Bool) (c : Char) :
    (afterChar quoted escaped c).2 = true → (afterChar quoted escaped c).1 = true := by
  unfold afterChar
  split
  · simp
  · split
    · rename_i hback
      simp only [Bool.and_eq_true] at hback
      simp [hback.1]
    · split <;> simp

/-- The last character before the comment of a line that is not blank. -/
def lastSeen (quoted escaped : Bool) (t : Text) : Option Char :=
  (Text.trimEnd (cutCommentFrom quoted escaped t).1).getLast?

lemma lastSeen_nil (quoted escaped : Bool) : lastSeen quoted escaped [] = none := rfl

lemma lastSeen_sign (t : Text) : lastSeen false false ('#' :: t) = none := by
  simp [lastSeen, cutCommentFrom]

lemma lastSeen_cons {quoted escaped : Bool} {c : Char}
    (h : (!escaped && !quoted && c == '#') = false) (t : Text) :
    lastSeen quoted escaped (c :: t) =
      (lastSeen (afterChar quoted escaped c).1 (afterChar quoted escaped c).2 t).or
        (if Text.isBlank c then none else some c) := by
  have hcut : (cutCommentFrom quoted escaped (c :: t)).1 =
      c :: (cutCommentFrom (afterChar quoted escaped c).1 (afterChar quoted escaped c).2 t).1 := by
    rw [cutCommentFrom, h]
    rfl
  rw [lastSeen, hcut, lastSeen, Text.trimEnd_cons]
  cases Text.trimEnd (cutCommentFrom (afterChar quoted escaped c).1
    (afterChar quoted escaped c).2 t).1 with
  | nil => cases Text.isBlank c <;> simp
  | cons d s =>
    cases hlast : (d :: s).getLast? with
    | none => simp at hlast
    | some last => simpa using hlast

lemma lastSeen_trimEnd (quoted escaped : Bool) (t : Text) :
    lastSeen quoted escaped (Text.trimEnd t) = lastSeen quoted escaped t := by
  induction t generalizing quoted escaped with
  | nil => rfl
  | cons c t ih =>
    cases hsign : !escaped && !quoted && c == '#' with
    | true =>
      simp only [Bool.and_eq_true, Bool.not_eq_true', beq_iff_eq] at hsign
      obtain ⟨⟨rfl, rfl⟩, rfl⟩ := hsign
      rw [← List.nil_append ('#' :: t), Text.trimEnd_append_cons [] (by decide), List.nil_append,
        lastSeen_sign, List.nil_append, lastSeen_sign]
    | false =>
      rw [Text.trimEnd_cons, lastSeen_cons hsign, ← ih]
      split
      · rename_i hempty
        simp only [Bool.and_eq_true, List.isEmpty_iff] at hempty
        simp [hempty, lastSeen_nil]
      · rw [lastSeen_cons hsign]

lemma lastSeen_dropIndent (t : Text) :
    lastSeen false false (t.dropWhile Layout.isIndent) = lastSeen false false t := by
  induction t with
  | nil => rfl
  | cons c t ih =>
    by_cases hc : Layout.isIndent c = true
    · have hsign : (c == '#') = false := by
        rw [beq_eq_false_iff_ne]
        rintro rfl
        simp [Layout.isIndent] at hc
      have hquote : (c == '"') = false := by
        rw [beq_eq_false_iff_ne]
        rintro rfl
        simp [Layout.isIndent] at hc
      have hafter : afterChar false false c = (false, false) := by simp [afterChar, hquote]
      rw [List.dropWhile_cons_of_pos hc, ih, lastSeen_cons (by simp [hsign]), hafter,
        Layout.isBlank_of_isIndent hc]
      simp
    · rw [List.dropWhile_cons_of_neg hc]

/-- Whether the scan of a body takes a line for the head of a bracket. -/
def seemsOpen (t : Text) : Bool := lastSeen false false t == some '\x7b'

lemma isSuffixOf_singleton (c : Char) (t : Text) : [c].isSuffixOf t = (t.getLast? == some c) := by
  rw [Bool.eq_iff_iff, List.isSuffixOf_iff_suffix, beq_iff_eq, List.getLast?_eq_some_iff]
  exact ⟨fun ⟨s, hs⟩ => ⟨s, hs.symm⟩, fun ⟨s, hs⟩ => ⟨s, hs.symm⟩⟩

/-! ## The ends of lines -/

lemma Lexed.all_indent {t : Text} (h : Lexed t []) : ∀ c ∈ t, Layout.isIndent c = true := by
  generalize hls : ([] : List Lexeme) = ls at h
  induction h with
  | nil => simp
  | space hc _ ih =>
    intro d hd
    rcases List.mem_cons.mp hd with rfl | hd
    · exact hc
    · exact ih hls d hd
  | word | quoted | mark | code | opening | comment => simp at hls

/-- The spaces before the first lexeme can be split off. -/
lemma Lexed.split_indent {t : Text} {ls : List Lexeme} (h : Lexed t ls) :
    ∃ sp rest, t = sp ++ rest ∧ (∀ c ∈ sp, Layout.isIndent c = true) ∧ Lexed rest ls ∧
      ∀ c ∈ rest.head?, Layout.isIndent c = false := by
  obtain ⟨sp, rest, rfl, hsp, hrest⟩ := exists_run Layout.isIndent t
  exact ⟨sp, rest, rfl, hsp, dropWhile_run hsp hrest ▸ h.dropIndent, hrest⟩

lemma kind_of_mark {c : Char} {kind : String} (h : marks.lookup c = some kind) :
    kind ∉ ["word", "string", "code", "open_brace", "comment"] := by
  have hall : ∀ m ∈ marks, m.2 ∉ ["word", "string", "code", "open_brace", "comment"] := by decide
  obtain ⟨before, behind, hmarks, -⟩ := List.lookup_eq_some_iff.mp h
  exact hall (c, kind) (by simp [hmarks])

section Inversion

variable {t text : Text} {ls : List Lexeme}

lemma Lexed.word_inv (h : Lexed t (("word", text) :: ls))
    (hhead : ∀ c ∈ t.head?, Layout.isIndent c = false) :
    ∃ c w rest, text = c :: w ∧ (∀ d ∈ c :: w, isWordChar d = true) ∧ t = c :: w ++ rest ∧
      ∀ d ∈ rest.head?, isWordChar d = false := by
  generalize hall : ("word", text) :: ls = all at h
  cases h with
  | space hc => exact absurd hc (by simp [hhead _ rfl])
  | word hw hnext =>
    obtain ⟨rfl, -⟩ : text = _ ∧ _ := by simpa using hall
    exact ⟨_, _, _, rfl, hw, rfl, hnext⟩
  | mark hc =>
    obtain ⟨⟨rfl, -⟩, -⟩ : ("word" = _ ∧ _) ∧ _ := by simpa using hall
    exact absurd (kind_of_mark hc) (by simp)
  | nil | quoted | code | opening | comment => simp at hall

lemma Lexed.comment_inv (h : Lexed t (("comment", text) :: ls))
    (hhead : ∀ c ∈ t.head?, Layout.isIndent c = false) :
    ∃ raw, t = '#' :: raw ∧ '\n' ∉ raw ∧ Text.trim raw = text := by
  generalize hall : ("comment", text) :: ls = all at h
  cases h with
  | space hc => exact absurd hc (by simp [hhead _ rfl])
  | comment hraw =>
    obtain ⟨rfl, -⟩ : text = _ ∧ _ := by simpa using hall
    exact ⟨_, rfl, hraw, rfl⟩
  | mark hc =>
    obtain ⟨⟨rfl, -⟩, -⟩ : ("comment" = _ ∧ _) ∧ _ := by simpa using hall
    exact absurd (kind_of_mark hc) (by simp)
  | nil | word | quoted | code | opening => simp at hall

lemma Lexed.opening_inv (h : Lexed t (("open_brace", text) :: ls))
    (hhead : ∀ c ∈ t.head?, Layout.isIndent c = false) :
    ∃ rest, t = '\x7b' :: rest ∧ Lexed rest ls := by
  generalize hall : ("open_brace", text) :: ls = all at h
  cases h with
  | space hc => exact absurd hc (by simp [hhead _ rfl])
  | opening _ hrest =>
    obtain ⟨-, rfl⟩ : _ ∧ ls = _ := by simpa using hall
    exact ⟨_, rfl, hrest⟩
  | mark hc =>
    obtain ⟨⟨rfl, -⟩, -⟩ : ("open_brace" = _ ∧ _) ∧ _ := by simpa using hall
    exact absurd (kind_of_mark hc) (by simp)
  | nil | word | quoted | code | comment => simp at hall

lemma Lexed.code_inv (h : Lexed t (("code", text) :: ls))
    (hhead : ∀ c ∈ t.head?, Layout.isIndent c = false) :
    ∃ raw rest, t = '\x7b' :: raw ++ '\x7d' :: rest ∧ Text.trim raw = text ∧ Lexed rest ls := by
  generalize hall : ("code", text) :: ls = all at h
  cases h with
  | space hc => exact absurd hc (by simp [hhead _ rfl])
  | code _ hrest =>
    obtain ⟨rfl, rfl⟩ : text = _ ∧ ls = _ := by simpa using hall
    exact ⟨_, _, rfl, rfl, hrest⟩
  | mark hc =>
    obtain ⟨⟨rfl, -⟩, -⟩ : ("code" = _ ∧ _) ∧ _ := by simpa using hall
    exact absurd (kind_of_mark hc) (by simp)
  | nil | word | quoted | opening | comment => simp at hall

end Inversion

/-! ## The part before the end of a header -/

/-- A lexeme that is neither the end of a header nor a comment. -/
def IsInner (l : Lexeme) : Prop := l.1 ∉ ["code", "open_brace", "comment"]

/-- A spelling with lexemes that are neither the end of a header nor a comment. -/
def SpellsInner {α : Type} (spells : List Lexeme → α → Prop) : Prop :=
  ∀ ls a, spells ls a → ∀ l ∈ ls, IsInner l

section Inner

variable {α : Type} {spells : List Lexeme → α → Prop}

lemma inner_maybe (h : SpellsInner spells) : SpellsInner (SpellsMaybe spells) := by
  intro ls a hs
  cases hs with
  | absent => simp
  | present hs => exact h ls _ hs

lemma inner_each (h : SpellsInner spells) : SpellsInner (SpellsEach spells) := by
  intro ls as hs
  induction hs with
  | nil => simp
  | cons hs _ ih =>
    intro l hl
    rcases List.mem_append.mp hl with hl | hl
    · exact h _ _ hs l hl
    · exact ih l hl

lemma inner_one {kind : String} (h : kind ∉ ["code", "open_brace", "comment"]) :
    SpellsInner (SpellsOne kind) := by
  rintro _ t rfl l hl
  obtain rfl := List.mem_singleton.mp hl
  exact h

lemma inner_value : SpellsInner SpellsValue := by
  rintro _ _ (⟨sign, value⟩ | ⟨sign, value⟩) <;> simp [IsInner]

lemma inner_entry : SpellsInner SpellsEntry := by
  rintro _ _ ⟨key, h⟩ l hl
  rcases List.mem_cons.mp hl with rfl | hl
  · simp [IsInner]
  · exact inner_maybe inner_value _ _ h l hl

lemma inner_next : SpellsInner SpellsNext := by
  rintro _ e ⟨hcomma, h⟩ l hl
  rcases List.mem_append.mp hl with hl | hl
  · exact inner_maybe (inner_one (by simp)) _ _ hcomma l hl
  · exact inner_entry _ _ h l hl

lemma inner_entries : SpellsInner SpellsEntries := by
  rintro _ _ ⟨h, hs⟩ l hl
  rcases List.mem_append.mp hl with hl | hl
  · exact inner_entry _ _ h l hl
  · exact inner_each inner_next _ _ hs l hl

lemma inner_block {left right : String} (hleft : left ∉ ["code", "open_brace", "comment"])
    (hright : right ∉ ["code", "open_brace", "comment"]) :
    SpellsInner (SpellsBlock left right) := by
  rintro _ _ ⟨opening, closing, h⟩ l hl
  rcases List.mem_cons.mp hl with rfl | hl
  · exact hleft
  rcases List.mem_append.mp hl with hl | hl
  · exact inner_maybe inner_entries _ _ h l hl
  · obtain rfl := List.mem_singleton.mp hl
    exact hright

lemma inner_parserName : SpellsInner SpellsParser := by
  rintro _ _ ⟨sign, name⟩
  simp [IsInner]

end Inner

/-- What spells a header is an inner part, an end and a comment, and the header with another end is
spelled with that end instead. -/
lemma Spells.split {ls : List Lexeme} {h : Header} (hs : Spells ls h) :
    ∃ inner ending comment ending?, ls = inner ++ (ending ++ comment) ∧
      (∀ l ∈ inner, IsInner l) ∧ inner.head? = some ("word", h.tag) ∧
      SpellsMaybe SpellsEnding ending ending? ∧
      (h.inlineCode, h.bracket) = ending?.getD (none, false) ∧
      SpellsMaybe (SpellsOne "comment") comment h.comment ∧
      ∀ other other?, SpellsMaybe SpellsEnding other other? →
        Spells (inner ++ (other ++ comment))
          { h with inlineCode := (other?.getD (none, false)).1
                   bracket := (other?.getD (none, false)).2 } := by
  obtain @⟨names, params, options, label, parser, ending, comment, h, _, _, _, hnames, hparams,
    hoptions, hlabel, hparser, hending, hcomment, hp, ho, he⟩ := hs
  refine ⟨("word", h.tag) :: (names ++ (params ++ (options ++ (label ++ parser)))), ending, comment,
    _, by simp, ?_, rfl, hending, he, hcomment, ?_⟩
  · intro l hl
    simp only [List.mem_cons, List.mem_append] at hl
    rcases hl with rfl | hl | hl | hl | hl | hl
    · simp [IsInner]
    · exact inner_each (inner_one (by simp)) _ _ hnames l hl
    · exact inner_maybe (inner_block (by simp) (by simp)) _ _ hparams l hl
    · exact inner_maybe (inner_block (by simp) (by simp)) _ _ hoptions l hl
    · exact inner_maybe (inner_one (by simp)) _ _ hlabel l hl
    · exact inner_maybe inner_parserName _ _ hparser l hl
  · intro other other? hother
    have hnew := Spells.mk (h := { h with inlineCode := (other?.getD (none, false)).1
                                          bracket := (other?.getD (none, false)).2 })
      hnames hparams hoptions hlabel hparser hother hcomment hp ho rfl
    simpa using hnew

lemma getLast?_append_ne {c : Char} {x y : Text} (hx : c ∉ x.getLast?) (hy : c ∉ y.getLast?) :
    c ∉ (x ++ y).getLast? := by
  rw [List.getLast?_append]
  cases hlast : y.getLast? with
  | none => simpa using hx
  | some d => rwa [hlast] at hy

/-- The inner part of a header does not end with an opening brace. -/
lemma Lexed.brace_notMem_getLast? {t : Text} {ls : List Lexeme} (h : Lexed t ls)
    (hls : ∀ l ∈ ls, IsInner l) : '\x7b' ∉ t.getLast? := by
  induction h with
  | nil => simp
  | @space c t ls hc _ ih =>
    refine getLast?_append_ne (x := [c]) (fun hm => ?_) (ih hls)
    obtain rfl : c = '\x7b' := by simpa using hm
    exact absurd hc (by decide)
  | @word c w t ls hw _ _ ih =>
    refine getLast?_append_ne (fun hm => ?_) (ih fun l hl => hls l (List.mem_cons_of_mem _ hl))
    exact absurd (hw _ (List.mem_of_getLast? hm)) (by decide)
  | @quoted raw t ls _ _ ih =>
    have hquoted : '\x7b' ∉ ('"' :: raw ++ ['"']).getLast? := by
      rw [List.getLast?_concat]
      simp
    simpa using getLast?_append_ne hquoted (ih fun l hl => hls l (List.mem_cons_of_mem _ hl))
  | @mark c kind t ls hc _ ih =>
    refine getLast?_append_ne (x := [c]) (fun hm => ?_)
      (ih fun l hl => hls l (List.mem_cons_of_mem _ hl))
    obtain rfl : c = '\x7b' := by simpa using hm
    have hnone : marks.lookup '\x7b' = none := by decide
    simp [hnone] at hc
  | code => exact absurd (hls _ List.mem_cons_self) (by simp [IsInner])
  | opening => exact absurd (hls _ List.mem_cons_self) (by simp [IsInner])
  | comment => exact absurd (hls _ List.mem_cons_self) (by simp [IsInner])

/-! ## The header of a line -/

open Body (isComment bracketHeader?)

/-- With the settings of the library a line opens a bracket if it seems to and there is something
before the bracket. -/
lemma bracketHeader?_eq {r : Row} (h : isComment {} r.line = false) {code comment : Text}
    (hcut : cutComment r.content = (code, comment)) :
    bracketHeader? {} r.line =
      if 1 < (Text.trimEnd code).length ∧ seemsOpen r.content = true then
        some (Text.trimEnd (Text.trimEnd code).dropLast ++
          if comment.isEmpty then [] else ' ' :: comment)
      else none := by
  have hseems : seemsOpen r.content = ['\x7b'].isSuffixOf (Text.trimEnd code) := by
    rw [isSuffixOf_singleton, seemsOpen, lastSeen]
    show ((Text.trimEnd (cutComment r.content).1).getLast? == _) = _
    rw [hcut]
  have hcut' : cutComment r.line.content = (code, comment) := hcut
  rw [bracketHeader?, h, hcut', hseems]
  simp only [List.isEmpty_cons, Bool.or_self, Bool.false_eq_true, if_false, List.length_cons,
    List.length_nil, Nat.zero_add, ← List.dropLast_eq_take]
  by_cases hlength : 1 < (Text.trimEnd code).length
  · cases hsuffix : ['\x7b'].isSuffixOf (Text.trimEnd code) with
    | true =>
      cases comment with
      | nil => simp [hlength]
      | cons c comment => simp [hlength]
    | false => simp
  · have hle : (Text.trimEnd code).length ≤ 1 := by omega
    simp [hlength, hle]

lemma cutComment_indent {sp : Text} (hsp : ∀ c ∈ sp, Layout.isIndent c = true) (t : Text) :
    cutComment (sp ++ t) = (sp ++ (cutComment t).1, (cutComment t).2) := by
  refine cutComment_append (fun c hc => ?_) t
  have hindent := hsp c hc
  constructor <;> rintro rfl <;> simp [Layout.isIndent] at hindent

/-- At the end of a line the scan finds the comment that is spelled there. -/
lemma Lexed.exists_comment {y : Text} {ls : List Lexeme} {comment : Option Text}
    (h : Lexed y ls) (hs : SpellsMaybe (SpellsOne "comment") ls comment) :
    ∃ sp tail, cutComment y = (sp, tail) ∧ (∀ c ∈ sp, Layout.isIndent c = true) ∧
      Lexed (if tail.isEmpty then [] else ' ' :: tail) ls := by
  cases hs with
  | absent =>
    refine ⟨y, [], ?_, h.all_indent, .nil⟩
    simpa [cutComment, cutCommentFrom] using cutComment_indent h.all_indent []
  | present hs =>
    obtain rfl := hs
    obtain ⟨sp, rest, rfl, hsp, hrest, hhead⟩ := h.split_indent
    obtain ⟨raw, rfl, -, -⟩ := hrest.comment_inv hhead
    refine ⟨sp, '#' :: raw, ?_, hsp, .space rfl hrest⟩
    rw [cutComment_indent hsp, cutComment_comment, List.append_nil]

/-- A header begins with its tag. -/
lemma exists_tag_of_parse {t : Text} {h : Header} (hparse : parse t = some h)
    (hhead : ∀ c ∈ t.head?, Layout.isIndent c = false) :
    ∃ c w rest, h.tag = c :: w ∧ (∀ d ∈ c :: w, isWordChar d = true) ∧ t = c :: w ++ rest ∧
      ∀ d ∈ rest.head?, isWordChar d = false := by
  obtain ⟨ls, hls, hspells⟩ := parse_eq_some_iff.mp hparse
  obtain ⟨inner, ending, comment, _, rfl, -, hinner, -⟩ := hspells.split
  cases inner with
  | nil => simp at hinner
  | cons l inner =>
    obtain rfl : l = ("word", h.tag) := by simpa using hinner
    exact (lexemes_eq_some_iff.mp hls).word_inv hhead

/-- The row of a header stands for the header. -/
lemma parse_content {t : Text} {h : Header} (hparse : parse t = some h) :
    parse (Row.ofText 4 t).content = some h := by
  obtain ⟨ls, hls, hspells⟩ := parse_eq_some_iff.mp hparse
  exact parse_eq_some_iff.mpr
    ⟨ls, lexemes_eq_some_iff.mpr (lexemes_eq_some_iff.mp hls).dropIndent.trimEnd, hspells⟩

/-- The line of a header begins with a word. -/
lemma exists_word_of_parse {t : Text} (hfeed : '\n' ∉ t) {h : Header}
    (hparse : parse t = some h) :
    ∃ c w, (Row.ofText 4 t).content = c :: w ∧ isWordChar c = true := by
  obtain ⟨c, w, rest, -, hw, hcontent, -⟩ :=
    exists_tag_of_parse (parse_content hparse) (Row.clean_ofText 4 hfeed).bare
  exact ⟨c, w ++ rest, hcontent, hw c List.mem_cons_self⟩

/-- The line of a header is no comment and opens an element. -/
lemma not_stray_of_parse {t : Text} (hfeed : '\n' ∉ t) {h : Header} (hparse : parse t = some h) :
    isComment {} (Row.ofText 4 t).line = false ∧ Body.isStray {} (Row.ofText 4 t) = false := by
  obtain ⟨c, w, hcontent, hc⟩ := exists_word_of_parse hfeed hparse
  have hsign : ('#' == c) = false := by simpa using (ne_of_word hc (by decide)).symm
  have hbrace : (c == '\x7d') = false := by simpa using ne_of_word hc (by decide)
  have hcomment : isComment {} (Row.ofText 4 t).line = false := by
    simp [isComment, Row.line, hcontent, List.isPrefixOf, hsign]
  refine ⟨hcomment, ?_⟩
  simp [Body.isStray, Body.isQuiet, hcomment, Row.isBlank, hcontent, hbrace]

/-- A single line of a header is a body with one element, which has no body. -/
lemma parse_body_line {t : Text} (hfeed : '\n' ∉ t) {h : Header} (hparse : parse t = some h) :
    Body.parse {} t = [.tag
      ((bracketHeader? {} (Row.ofText 4 t).line).getD (Row.ofText 4 t).content) []
      (bracketHeader? {} (Row.ofText 4 t).line).isSome] := by
  obtain ⟨-, hstray⟩ := not_stray_of_parse hfeed hparse
  have hne : t ≠ [] := by
    rintro rfl
    exact absurd hstray (by decide)
  have hrows : Text.rows 4 t = [Row.ofText 4 t] := by
    rw [Text.rows, Text.lines_of_notMem hne hfeed]
    rfl
  have hcut := Body.parse_eq_cut {} t
  rw [show ({} : LayoutSettings).tabWidth = 4 from rfl, hrows] at hcut
  rw [hcut]
  cases hb : bracketHeader? {} (Row.ofText 4 t).line with
  | none =>
    rw [Body.cut_indented hstray hb, List.drop_nil, Body.cut_nil]
    rfl
  | some header =>
    rw [Body.cut_bracket hstray hb]
    simp [Body.enclosed, Body.Item.written, Text.unlines]

/-- Before the bracket that the scan sees in the line of a header there is something. -/
lemma one_lt_length_of_seemsOpen {t : Text} (hfeed : '\n' ∉ t) {h : Header}
    (hparse : parse t = some h) (hopen : seemsOpen (Row.ofText 4 t).content = true) :
    1 < (Text.trimEnd (cutComment (Row.ofText 4 t).content).1).length := by
  obtain ⟨c, w, hcontent, hc⟩ := exists_word_of_parse hfeed hparse
  have hlast : (Text.trimEnd (cutComment (Row.ofText 4 t).content).1).getLast? = some '\x7b' :=
    eq_of_beq hopen
  have hhead : Text.trimEnd (cutComment (Row.ofText 4 t).content).1 =
      c :: Text.trimEnd (cutComment w).1 := by
    rw [hcontent, cutComment_cons (ne_of_word hc (by decide)) (ne_of_word hc (by decide)),
      Text.trimEnd_cons, not_blank_of_word hc]
    simp
  rw [hhead] at hlast ⊢
  cases htail : Text.trimEnd (cutComment w).1 with
  | nil =>
    obtain rfl : c = '\x7b' := by simpa [htail] using hlast
    exact absurd hc (by decide)
  | cons d s => simp

lemma seemsOpen_content (t : Text) : seemsOpen (Row.ofText 4 t).content = seemsOpen t := by
  rw [seemsOpen, seemsOpen, Row.ofText, lastSeen_trimEnd, lastSeen_dropIndent]

/-- The line of a header opens a bracket exactly where the scan takes it for the head of one. -/
lemma isSome_bracketHeader? {t : Text} (hfeed : '\n' ∉ t) {h : Header}
    (hparse : parse t = some h) :
    (bracketHeader? {} (Row.ofText 4 t).line).isSome = seemsOpen t := by
  have hcut : cutComment (Row.ofText 4 t).content =
      ((cutComment (Row.ofText 4 t).content).1, (cutComment (Row.ofText 4 t).content).2) := rfl
  rw [bracketHeader?_eq (not_stray_of_parse hfeed hparse).1 hcut, ← seemsOpen_content t]
  cases hopen : seemsOpen (Row.ofText 4 t).content with
  | false => simp
  | true => simp [one_lt_length_of_seemsOpen hfeed hparse hopen]

lemma kinds_of_inner {inner : List Lexeme} (h : ∀ l ∈ inner, IsInner l) :
    ∀ l ∈ inner, l.1 ≠ "code" ∧ l.1 ≠ "open_brace" ∧ l.1 ≠ "comment" := by
  intro l hl
  simpa [IsInner] using h l hl

/-- A line without code and without a bracket is not taken for the head of one. -/
lemma seemsOpen_of_inner {x y : Text} {inner ls : List Lexeme} {comment : Option Text}
    (hx : Lexed x inner) (hinner : ∀ l ∈ inner, IsInner l) (hy : Lexed y ls)
    (hcomment : SpellsMaybe (SpellsOne "comment") ls comment) : seemsOpen (x ++ y) = false := by
  obtain ⟨sp, tail, hcut, hsp, -⟩ := hy.exists_comment hcomment
  have hcode : (cutComment (x ++ y)).1 = x ++ sp := by
    rw [hx.cutComment_append fun l hl =>
      ⟨(kinds_of_inner hinner l hl).1, (kinds_of_inner hinner l hl).2.2⟩, hcut]
  have hlast := hx.trimEnd.brace_notMem_getLast? hinner
  rw [seemsOpen, lastSeen]
  show ((Text.trimEnd (cutComment (x ++ y)).1).getLast? == _) = _
  rw [hcode, Text.trimEnd_append_of_blank fun c hc => Layout.isBlank_of_isIndent (hsp c hc)]
  simpa using hlast

/-- A line with a bracket is taken for the head of one, and what is left without the bracket has the
other lexemes. -/
lemma Lexed.opening_split {x y : Text} {inner ls : List Lexeme} {sign : Text}
    {comment : Option Text} (hx : Lexed x inner) (hinner : ∀ l ∈ inner, IsInner l)
    (hy : Lexed y (("open_brace", sign) :: ls))
    (hcomment : SpellsMaybe (SpellsOne "comment") ls comment) :
    ∃ code tail, cutComment (x ++ y) = (code, tail) ∧
      (Text.trimEnd code).getLast? = some '\x7b' ∧
      Lexed (Text.trimEnd (Text.trimEnd code).dropLast ++
        if tail.isEmpty then [] else ' ' :: tail) (inner ++ ls) := by
  obtain ⟨sp, rest, rfl, hsp, hrest, hhead⟩ := hy.split_indent
  obtain ⟨behind, rfl, hbehind⟩ := hrest.opening_inv hhead
  obtain ⟨sp', tail, hcut, hsp', htail⟩ := hbehind.exists_comment hcomment
  have hkinds := kinds_of_inner hinner
  have hcode : cutComment (x ++ (sp ++ '\x7b' :: behind)) = (x ++ (sp ++ '\x7b' :: sp'), tail) := by
    rw [hx.cutComment_append fun l hl => ⟨(hkinds l hl).1, (hkinds l hl).2.2⟩,
      cutComment_indent hsp, cutComment_cons (by decide) (by decide), hcut]
  have htrim : Text.trimEnd (x ++ (sp ++ '\x7b' :: sp')) = x ++ sp ++ ['\x7b'] := by
    have hblank : Text.trimEnd sp' = [] := by
      simpa using Text.trimEnd_append_of_blank (t := [])
        fun c hc => Layout.isBlank_of_isIndent (hsp' c hc)
    rw [← List.append_assoc, Text.trimEnd_append_cons _ (by decide), hblank]
  refine ⟨_, tail, hcode, by rw [htrim, List.getLast?_concat], ?_⟩
  rw [htrim, List.dropLast_concat,
    Text.trimEnd_append_of_blank fun c hc => Layout.isBlank_of_isIndent (hsp c hc)]
  refine hx.trimEnd.append (fun l hl => (hkinds l hl).2) htail ?_
  intro c hc
  cases tail with
  | nil => simp at hc
  | cons d tail =>
    obtain rfl : ' ' = c := by simpa using hc
    decide

/-- The header of a line that opens a bracket is the header of the line without the bracket. -/
lemma exists_header_of_opening {t : Text} (hfeed : '\n' ∉ t) {h : Header}
    (hparse : parse t = some h) (hbracket : h.bracket = true) :
    ∃ header, bracketHeader? {} (Row.ofText 4 t).line = some header ∧
      parse header = some { h with bracket := false } := by
  obtain ⟨ls, hls, hspells⟩ := parse_eq_some_iff.mp hparse
  obtain ⟨inner, ending, comment, ending?, rfl, hinner, -, hending, he, hcomment, hother⟩ :=
    hspells.split
  cases hending with
  | absent => simp [hbracket] at he
  | present hending =>
    cases hending with
    | code t => simp [hbracket] at he
    | opening sign =>
      have hcode : h.inlineCode = none := (Prod.mk.inj he).1
      obtain ⟨x, y, hxy, hx, hy⟩ := (lexemes_eq_some_iff.mp hls).dropIndent.trimEnd.split
      obtain ⟨code, tail, hcut, hlast, hheader⟩ := hx.opening_split hinner hy hcomment
      have hcontent : (Row.ofText 4 t).content = x ++ y := hxy
      have hopen : seemsOpen (Row.ofText 4 t).content = true := by
        rw [hcontent, seemsOpen, lastSeen]
        show ((Text.trimEnd (cutComment (x ++ y)).1).getLast? == _) = _
        rw [hcut, hlast]
        rfl
      have hlength := one_lt_length_of_seemsOpen hfeed hparse hopen
      rw [hcontent, hcut] at hlength
      refine ⟨_, (bracketHeader?_eq (not_stray_of_parse hfeed hparse).1 (hcontent ▸ hcut)).trans
        (if_pos ⟨hlength, hopen⟩), parse_eq_some_iff.mpr ⟨_, lexemes_eq_some_iff.mpr hheader, ?_⟩⟩
      have hnew := hother [] none .absent
      rw [List.nil_append] at hnew
      rw [hcode]
      exact hnew

/-- A header with a bracket has no code. -/
lemma inlineCode_of_bracket {t : Text} {h : Header} (hparse : parse t = some h)
    (hbracket : h.bracket = true) : h.inlineCode = none := by
  obtain ⟨ls, -, hspells⟩ := parse_eq_some_iff.mp hparse
  obtain ⟨_, _, _, ending?, -, -, -, hending, he, -⟩ := hspells.split
  cases hending with
  | absent => exact (Prod.mk.inj he).1
  | present hending =>
    cases hending with
    | code t => simp [hbracket] at he
    | opening sign => exact (Prod.mk.inj he).1

/-- The line of a header without code and without a bracket is not taken for the head of one. -/
lemma seemsOpen_eq_false {t : Text} {h : Header} (hparse : parse t = some h)
    (hcode : h.inlineCode = none) (hbracket : h.bracket = false) : seemsOpen t = false := by
  obtain ⟨ls, hls, hspells⟩ := parse_eq_some_iff.mp hparse
  obtain ⟨inner, ending, comment, ending?, rfl, hinner, -, hending, he, hcomment, -⟩ :=
    hspells.split
  obtain ⟨x, y, rfl, hx, hy⟩ := (lexemes_eq_some_iff.mp hls).split
  cases hending with
  | absent => exact seemsOpen_of_inner hx hinner hy hcomment
  | present hending =>
    cases hending with
    | code t => simp [hcode] at he
    | opening sign => simp [hbracket] at he

/-- The scan of a body and the grammar agree on whether the line of a header opens a bracket, and on
the header that is left without it, exactly if the header has no code or the scan does not take the
line for the head of a bracket. -/
theorem bracket_agrees_iff {t : Text} (hfeed : '\n' ∉ t) {h : Header} (hparse : parse t = some h) :
    (∃ header, Body.parse {} t = [.tag header [] h.bracket] ∧
      parse header = some { h with bracket := false }) ↔
        ¬(h.inlineCode.isSome = true ∧ seemsOpen t = true) := by
  have hbody := parse_body_line hfeed hparse
  have hsome := isSome_bracketHeader? hfeed hparse
  cases hbracket : h.bracket with
  | true =>
    obtain ⟨header, hheader, hdecoded⟩ := exists_header_of_opening hfeed hparse hbracket
    rw [hheader] at hbody
    have hcode : h.inlineCode.isSome = false := by rw [inlineCode_of_bracket hparse hbracket]; rfl
    refine ⟨fun _ => by simp [hcode], fun _ => ⟨header, hbody, hdecoded⟩⟩
  | false =>
    cases hseems : seemsOpen t with
    | true =>
      rw [hseems] at hsome
      have hcode : h.inlineCode.isSome = true := by
        cases hcode : h.inlineCode with
        | some t => rfl
        | none => simp [seemsOpen_eq_false hparse hcode hbracket] at hseems
      constructor
      · rintro ⟨header, htag, -⟩
        rw [hbody, hsome] at htag
        simp at htag
      · exact fun hnot => absurd ⟨hcode, rfl⟩ hnot
    | false =>
      rw [hseems, Option.isSome_eq_false_iff, Option.isNone_iff_eq_none] at hsome
      rw [hsome] at hbody
      have hcontent : parse (Row.ofText 4 t).content = some { h with bracket := false } := by
        rw [← hbracket]
        exact parse_content hparse
      exact ⟨fun _ => by simp, fun _ => ⟨_, hbody, hcontent⟩⟩

/-- A header with a bracket, and one with code that the scan takes for the head of a bracket. -/
theorem bracket_agrees_in_samples :
    (∃ header, Body.parse {} "outer \x7b # x".toList = [.tag header [] true] ∧
      parse header = some { tag := "outer".toList, comment := some ['x'] }) ∧
    ¬ ∃ header, Body.parse {} "a \x7b\"\x7d # \x7b".toList = [.tag header [] false] ∧
      parse header =
        some { tag := ['a'], inlineCode := some ['"'], comment := some ['\x7b'] } := by
  have hopen := bracket_agrees_iff (t := "outer \x7b # x".toList) (by decide +kernel)
    (h := { tag := "outer".toList, bracket := true, comment := some ['x'] }) (by decide +kernel)
  have hcode := bracket_agrees_iff (t := "a \x7b\"\x7d # \x7b".toList) (by decide +kernel)
    (h := { tag := ['a'], inlineCode := some ['"'], comment := some ['\x7b'] }) (by decide +kernel)
  exact ⟨hopen.mpr (by decide +kernel), fun h => hcode.mp h (by decide +kernel)⟩

end Header

end TaggedOutline
