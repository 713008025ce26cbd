import TaggedOutline.Proofs.Header.Canonical

/-!
# The heads of brackets

The header of an element with a bracket is written with the bracket before its comment.
`reopens_bracket` says that such a line is the head of the same element again, if the line opens a
bracket at all.  It may not: nothing may be left of a header without its bracket, and a header with
code is written without a bracket and can be taken for the head of one.
-/

namespace TaggedOutline

namespace Header

open Body (bracketHeader? isStray isComment)

/-! ## The state of the scan -/

/-- The state of the scan after a text. -/
def afterText (quoted escaped : Bool) (t : Text) : Bool × Bool :=
  t.foldl (fun state c => afterChar state.1 state.2 c) (quoted, escaped)

lemma afterText_cons (quoted escaped : Bool) (c : Char) (t : Text) :
    afterText quoted escaped (c :: t) =
      afterText (afterChar quoted escaped c).1 (afterChar quoted escaped c).2 t := rfl

lemma afterText_append (quoted escaped : Bool) (a b : Text) :
    afterText quoted escaped (a ++ b) =
      afterText (afterText quoted escaped a).1 (afterText quoted escaped a).2 b :=
  List.foldl_append

lemma afterText_state {quoted escaped : Bool} (h : escaped = true → quoted = true) (t : Text) :
    (afterText quoted escaped t).2 = true → (afterText quoted escaped t).1 = true := by
  induction t generalizing quoted escaped with
  | nil => exact h
  | cons c t ih => exact ih (afterChar_state quoted escaped c)

lemma afterChar_fst {c : Char} (hquote : c ≠ '"') (quoted escaped : Bool) :
    (afterChar quoted escaped c).1 = quoted := by
  unfold afterChar
  split
  · rfl
  · split
    · rfl
    · rw [if_neg (by simpa using hquote)]

/-- A text without quotes changes no quoting. -/
lemma afterText_fst {t : Text} (h : '"' ∉ t) (quoted escaped : Bool) :
    (afterText quoted escaped t).1 = quoted := by
  induction t generalizing quoted escaped with
  | nil => rfl
  | cons c t ih =>
    have hc : c ≠ '"' := fun he => h (he ▸ List.mem_cons_self)
    rw [afterText_cons, ih fun hm => h (List.mem_cons_of_mem _ hm), afterChar_fst hc]

lemma cutCommentFrom_cons {quoted escaped : Bool} {c : Char}
    (h : (!escaped && !quoted && c == '#') = false) (t : Text) :
    cutCommentFrom quoted escaped (c :: t) =
      (c :: (cutCommentFrom (afterChar quoted escaped c).1 (afterChar quoted escaped c).2 t).1,
        (cutCommentFrom (afterChar quoted escaped c).1 (afterChar quoted escaped c).2 t).2) := by
  rw [cutCommentFrom, h]
  rfl

/-- Over a text without a comment the scan goes on. -/
lemma cutCommentFrom_append {quoted escaped : Bool} {a : Text}
    (h : (cutCommentFrom quoted escaped a).2 = []) (b : Text) :
    cutCommentFrom quoted escaped (a ++ b) =
      (a ++ (cutCommentFrom (afterText quoted escaped a).1 (afterText quoted escaped a).2 b).1,
        (cutCommentFrom (afterText quoted escaped a).1 (afterText quoted escaped a).2 b).2) := by
  induction a generalizing quoted escaped with
  | nil => rfl
  | cons c a ih =>
    cases hsign : !escaped && !quoted && c == '#' with
    | true => simp [cutCommentFrom, hsign] at h
    | false =>
      rw [cutCommentFrom_cons hsign] at h
      rw [List.cons_append, cutCommentFrom_cons hsign, ih h]
      rfl

/-- The scan cuts a text in two: the first part has no comment, and the second, if there is one,
begins with a number sign outside quotes. -/
lemma cutCommentFrom_spec (quoted escaped : Bool) (t : Text) :
    t = (cutCommentFrom quoted escaped t).1 ++ (cutCommentFrom quoted escaped t).2 ∧
      (cutCommentFrom quoted escaped (cutCommentFrom quoted escaped t).1).2 = [] ∧
      ((cutCommentFrom quoted escaped t).2 = [] ∨
        (∃ rest, (cutCommentFrom quoted escaped t).2 = '#' :: rest) ∧
          afterText quoted escaped (cutCommentFrom quoted escaped t).1 = (false, false)) := by
  induction t generalizing quoted escaped with
  | nil => exact ⟨rfl, rfl, .inl rfl⟩
  | cons c t ih =>
    cases hsign : !escaped && !quoted && c == '#' with
    | true =>
      have hcut : cutCommentFrom quoted escaped (c :: t) = ([], c :: t) := by
        rw [cutCommentFrom, hsign]
        rfl
      simp only [Bool.and_eq_true, Bool.not_eq_true', beq_iff_eq] at hsign
      rw [hcut]
      exact ⟨rfl, rfl, .inr ⟨⟨t, by rw [hsign.2]⟩, by rw [hsign.1.1, hsign.1.2]; rfl⟩⟩
    | false =>
      obtain ⟨hsplit, hplain, hcomment⟩ :=
        ih (afterChar quoted escaped c).1 (afterChar quoted escaped c).2
      rw [cutCommentFrom_cons hsign]
      refine ⟨congrArg (c :: ·) hsplit, ?_, hcomment⟩
      rw [cutCommentFrom_cons hsign]
      exact hplain

lemma cutCommentFrom_left {quoted escaped : Bool} {a b : Text}
    (h : (cutCommentFrom quoted escaped (a ++ b)).2 = []) :
    (cutCommentFrom quoted escaped a).2 = [] := by
  induction a generalizing quoted escaped with
  | nil => rfl
  | cons c a ih =>
    cases hsign : !escaped && !quoted && c == '#' with
    | true => simp [cutCommentFrom, hsign] at h
    | false =>
      rw [List.cons_append, cutCommentFrom_cons hsign] at h
      rw [cutCommentFrom_cons hsign]
      exact ih h

/-- The scan is outside quotes before a text without quotes that it leaves outside quotes. -/
lemma afterText_left {a b : Text} (hb : '"' ∉ b)
    (h : afterText false false (a ++ b) = (false, false)) :
    afterText false false a = (false, false) := by
  rw [afterText_append] at h
  have hquoted : (afterText false false a).1 = false := by
    rw [← afterText_fst hb (afterText false false a).1 (afterText false false a).2, h]
  have hescaped : (afterText false false a).2 = false := by
    cases he : (afterText false false a).2 with
    | false => rfl
    | true =>
      rw [afterText_state (fun h => h) a he] at hquoted
      contradiction
  exact Prod.ext hquoted hescaped

lemma quote_notMem_of_blank {t : Text} (h : ∀ c ∈ t, Text.isBlank c = true) : '"' ∉ t := by
  intro hm
  have hblank : Text.isBlank '"' = false := by decide
  rw [h _ hm] at hblank
  contradiction

/-! ## Lines with a bracket -/

/-- The line of a bracket, from the parts of its header before the comment and from the comment
on. -/
def opened (code comment : Text) : Text :=
  Text.trimEnd code ++ ' ' :: '\x7b' :: (if comment.isEmpty then [] else ' ' :: comment)

lemma openingLine_eq {s : Spec} (hs : s.hasBracket = true) {code comment : Text}
    (hcut : cutComment (s.headerLine {}) = (code, comment)) :
    s.openingLine {} = opened code comment := by
  rw [Spec.openingLine, if_pos hs, hcut, opened]
  exact List.append_assoc _ _ _

lemma trimEnd_sign (rest : Text) : Text.trimEnd ('#' :: rest) = '#' :: Text.trimEnd rest :=
  Text.trimEnd_append_cons [] (by decide) rest

section Opened

variable {header code comment : Text} (hcut : cutComment header = (code, comment))

include hcut

lemma cutComment_parts :
    header = code ++ comment ∧ (cutCommentFrom false false code).2 = [] ∧
      (comment = [] ∨
        (∃ rest, comment = '#' :: rest) ∧ afterText false false code = (false, false)) := by
  have hspec := cutCommentFrom_spec false false header
  rw [show cutCommentFrom false false header = (code, comment) from hcut] at hspec
  exact hspec

lemma trimEnd_opened :
    Text.trimEnd (opened code comment) = opened code (Text.trimEnd comment) := by
  obtain ⟨-, -, rfl | ⟨⟨rest, rfl⟩, -⟩⟩ := cutComment_parts hcut
  · have hline : opened code [] = Text.trimEnd code ++ [' '] ++ ['\x7b'] := by simp [opened]
    rw [Text.trimEnd_nil, hline, Text.trimEnd_append_singleton (by decide)]
  · have hline (t : Text) : opened code ('#' :: t) =
        (Text.trimEnd code ++ [' ', '\x7b', ' ']) ++ '#' :: t := by simp [opened]
    rw [trimEnd_sign, hline, hline, Text.trimEnd_append_cons _ (by decide)]

lemma cutComment_opened :
    cutComment (opened code (Text.trimEnd comment)) =
      (Text.trimEnd code ++ ' ' :: '\x7b' :: (if comment.isEmpty then [] else [' ']),
        Text.trimEnd comment) := by
  obtain ⟨blanks, hblanks, hcode⟩ := Text.exists_append_trimEnd code
  obtain ⟨-, hplain, hcomment⟩ := cutComment_parts hcut
  have hplain' : (cutCommentFrom false false (Text.trimEnd code)).2 = [] :=
    cutCommentFrom_left (hcode ▸ hplain)
  rw [cutComment, opened, cutCommentFrom_append hplain']
  rcases hcomment with rfl | ⟨⟨rest, rfl⟩, hstate⟩
  · simp [cutCommentFrom]
  · have hstate' := afterText_left (quote_notMem_of_blank hblanks) (hcode ▸ hstate)
    rw [hstate', trimEnd_sign]
    simp [cutCommentFrom]

lemma content_opened (hbare : ∀ c ∈ (opened code comment).head?, Layout.isIndent c = false) :
    (Row.ofText 4 (opened code comment)).content = opened code (Text.trimEnd comment) := by
  have hdrop : (opened code comment).dropWhile Layout.isIndent = opened code comment := by
    cases h : opened code comment with
    | nil => rfl
    | cons c t => rw [List.dropWhile_cons_of_neg (by simp [hbare c (by simp [h])])]
  rw [← trimEnd_opened hcut, Row.ofText, hdrop]

/-- With something before the bracket the line of a bracket begins with that. -/
lemma exists_content_opened (hne : Text.trimEnd code ≠ [])
    (hbare : ∀ c ∈ (Text.trimEnd code).head?, Layout.isIndent c = false) :
    (∀ c ∈ (opened code comment).head?, Layout.isIndent c = false) ∧
      ∃ c d t, (Row.ofText 4 (opened code comment)).content = c :: d :: t ∧ c ≠ '#' := by
  obtain ⟨c, w, hc⟩ := List.exists_cons_of_ne_nil hne
  have hbare' : ∀ d ∈ (opened code comment).head?, Layout.isIndent d = false := by
    rw [opened, hc]
    rintro _ ⟨⟩
    exact hbare c (by rw [hc]; rfl)
  have hsign : c ≠ '#' := by
    rintro rfl
    obtain ⟨blanks, -, hcode⟩ := Text.exists_append_trimEnd code
    have hplain := cutCommentFrom_left (hcode ▸ (cutComment_parts hcut).2.1)
    simp [hc, cutCommentFrom] at hplain
  refine ⟨hbare', c, ?_⟩
  rw [content_opened hcut hbare', opened, hc, List.cons_append]
  cases w with
  | nil => exact ⟨_, _, rfl, hsign⟩
  | cons d w => exact ⟨_, _, rfl, hsign⟩

/-- The line of a bracket is the head of a bracket, if there is something before the bracket. -/
lemma bracketHeader?_opened (hne : Text.trimEnd code ≠ [])
    (hbare : ∀ c ∈ (Text.trimEnd code).head?, Layout.isIndent c = false) :
    (Row.ofText 4 (opened code comment)).indent = 0 ∧
      isStray {} (Row.ofText 4 (opened code comment)) = false ∧
      bracketHeader? {} (Row.ofText 4 (opened code comment)).line =
        some (Text.trimEnd code ++
          if comment.isEmpty then [] else ' ' :: Text.trimEnd comment) := by
  obtain ⟨hbare', c, d, t, hfirst, hsign⟩ := exists_content_opened hcut hne hbare
  have hcomment : isComment {} (Row.ofText 4 (opened code comment)).line = false := by
    have hhash : ('#' == c) = false := by simpa using hsign.symm
    change (!(['#'] : Text).isEmpty && ['#'].isPrefixOf (Row.ofText 4 _).content) = false
    rw [hfirst]
    simp [List.isPrefixOf, hhash]
  have hstray : isStray {} (Row.ofText 4 (opened code comment)) = false := by
    have hblank : (Row.ofText 4 (opened code comment)).isBlank = false := by
      rw [Row.isBlank, hfirst]
      rfl
    have hclose : ((Row.ofText 4 (opened code comment)).content == ['\x7d']) = false := by
      rw [hfirst]
      simp
    rw [isStray, Body.isQuiet, hblank, hcomment]
    exact hclose
  have hcut' := cutComment_opened hcut
  rw [← content_opened hcut hbare'] at hcut'
  have htrim : Text.trimEnd (Text.trimEnd code ++
      ' ' :: '\x7b' :: (if comment.isEmpty then [] else [' '])) =
        Text.trimEnd code ++ [' '] ++ ['\x7b'] := by
    have hsplit (t : Text) : Text.trimEnd code ++ ' ' :: '\x7b' :: t =
        (Text.trimEnd code ++ [' ']) ++ '\x7b' :: t := by simp
    rw [hsplit, Text.trimEnd_append_cons _ (by decide)]
    split
    · rfl
    · rfl
  have hseems : seemsOpen (Row.ofText 4 (opened code comment)).content = true := by
    rw [seemsOpen, lastSeen]
    change ((Text.trimEnd (cutComment _).1).getLast? == _) = _
    rw [hcut', htrim, List.getLast?_concat]
    rfl
  have hempty : (Text.trimEnd comment).isEmpty = comment.isEmpty := by
    obtain ⟨-, -, rfl | ⟨⟨rest, rfl⟩, -⟩⟩ := cutComment_parts hcut
    · rfl
    · rw [trimEnd_sign]
      rfl
  refine ⟨ofText_of_bare hbare', hstray, ?_⟩
  rw [bracketHeader?_eq hcomment hcut', htrim, if_pos ⟨by simp, hseems⟩, List.dropLast_concat,
    Text.trimEnd_append_of_blank (by simp [Text.isBlank]), Text.trimEnd_trimEnd, hempty]

/-- With nothing before the bracket a line is not the head of a bracket. -/
lemma bracketHeader?_opened_of_nil (hne : Text.trimEnd code = []) :
    bracketHeader? {} (Row.ofText 4 (opened code comment)).line = none := by
  obtain ⟨z, hz⟩ : ∃ z, opened code comment = [' '] ++ '\x7b' :: z := ⟨_, by rw [opened, hne]; rfl⟩
  have hcontent : (Row.ofText 4 (opened code comment)).content = '\x7b' :: Text.trimEnd z := by
    rw [hz]
    exact Text.trimEnd_append_cons [] (by decide) z
  have htrim := trimEnd_opened hcut
  rw [hz, Text.trimEnd_append_cons _ (by decide), ← hcontent] at htrim
  have hcut' := cutComment_opened hcut
  rw [← htrim, List.singleton_append, cutComment_cons (by decide) (by decide), hne] at hcut'
  obtain ⟨hfirst, hsecond⟩ := Prod.mk.inj hcut'
  have hcode : Text.trimEnd (cutComment (Row.ofText 4 (opened code comment)).content).1 =
      ['\x7b'] := by
    rw [(List.cons.inj hfirst).2, ← List.nil_append ('\x7b' :: _),
      Text.trimEnd_append_cons [] (by decide)]
    split
    · rfl
    · rfl
  have hcomment : isComment {} (Row.ofText 4 (opened code comment)).line = false := by
    change (!(['#'] : Text).isEmpty && ['#'].isPrefixOf (Row.ofText 4 _).content) = false
    rw [hcontent]
    simp [List.isPrefixOf]
  have hparts : cutComment (Row.ofText 4 (opened code comment)).content =
      ((cutComment (Row.ofText 4 (opened code comment)).content).1, Text.trimEnd comment) :=
    Prod.ext rfl hsecond
  rw [bracketHeader?_eq hcomment hparts, hcode, if_neg (by simp)]

end Opened

/-! ## Heads that are read again -/

/-- The row that the head of an element is written as. -/
def headRow (s : Spec) : Row := Row.ofText 4 (s.openingLine {})

/-- The head of an element, where it is written, is the head of the same element: it opens a bracket
if the element has one, and its header says the same. -/
structure Reopens (s : Spec) : Prop where
  isLine : '\n' ∉ s.openingLine {}
  indent : (headRow s).indent = 0
  stray : isStray {} (headRow s) = false
  opens : (bracketHeader? {} (headRow s).line).isSome = s.hasBracket
  same : (Spec.ofHeader {} ((bracketHeader? {} (headRow s).line).getD (headRow s).content)
    s.hasBracket).over {} = s.over {}

lemma feed_notMem_opened {header code comment : Text} (hcut : cutComment header = (code, comment))
    (hfeed : '\n' ∉ header) : '\n' ∉ opened code comment := by
  rw [(cutComment_parts hcut).1, List.mem_append, not_or] at hfeed
  have hcode : '\n' ∉ Text.trimEnd code := fun hm =>
    hfeed.1 ((Text.trimEnd_isPrefix code).subset hm)
  unfold opened
  split
  · simp [hcode]
  · simp [hcode, hfeed.2]

/-- The head of an element with a bracket, by the parts of its header line. -/
lemma headRow_opened {s : Spec} (hbracket : s.hasBracket = true)
    (hfeed : '\n' ∉ s.headerLine {}) {code comment : Text}
    (hcut : cutComment (s.headerLine {}) = (code, comment)) (hne : Text.trimEnd code ≠ [])
    (hbare : ∀ c ∈ (Text.trimEnd code).head?, Layout.isIndent c = false) :
    '\n' ∉ s.openingLine {} ∧ (headRow s).indent = 0 ∧ isStray {} (headRow s) = false ∧
      bracketHeader? {} (headRow s).line = some (Text.trimEnd code ++
        if comment.isEmpty then [] else ' ' :: Text.trimEnd comment) := by
  have hline := openingLine_eq hbracket hcut
  rw [headRow, hline]
  exact ⟨feed_notMem_opened hcut hfeed, bracketHeader?_opened hcut hne hbare⟩

/-- The head of an element without a bracket is its header line. -/
lemma headRow_plain {s : Spec} {h : Header} (hbracket : s.hasBracket = false)
    (hs : Describes s h) (hr : IsReadable h) :
    '\n' ∉ s.openingLine {} ∧ (headRow s).indent = 0 ∧ isStray {} (headRow s) = false ∧
      parse (headRow s).content = some { h with bracket := false } := by
  have hfeed := feed_notMem_headerLine hs hr
  have hparse := parse_headerLine hs hr.toIsWritable
  have hline : s.openingLine {} = s.headerLine {} := by
    rw [Spec.openingLine, hbracket]
    rfl
  rw [headRow, hline]
  exact ⟨hfeed, ofText_of_bare (bare_headerLine hs hr.toIsWritable),
    (not_stray_of_parse hfeed hparse).2, parse_content hparse⟩

lemma Reopens.clean {s : Spec} (h : Reopens s) : (headRow s).Clean := Row.clean_ofText 4 h.isLine

/-- Whether a header has a bracket does not count for the sketch of its element. -/
lemma over_ofHeader {t t' : Text} {h h' : Header} (hparse : parse t = some h)
    (hparse' : parse t' = some h') (hhead : ∀ c ∈ t.head?, Layout.isIndent c = false)
    (hhead' : ∀ c ∈ t'.head?, Layout.isIndent c = false)
    (hsame : { h with bracket := false } = { h' with bracket := false }) (bracket bracket' : Bool) :
    (Spec.ofHeader {} t bracket).over {} = (Spec.ofHeader {} t' bracket').over {} := by
  obtain ⟨tag, names, params, options, label, parser, inlineCode, b, comment⟩ := h
  obtain ⟨tag', names', params', options', label', parser', inlineCode', b', comment'⟩ := h'
  simp only [Header.mk.injEq] at hsame
  obtain ⟨rfl, rfl, rfl, rfl, rfl, rfl, rfl, -, rfl⟩ := hsame
  have htag := rawTag_of_parse hparse hhead
  have htag' := rawTag_of_parse hparse' hhead'
  unfold Spec.over Spec.keepsBody Spec.ofHeader Spec.withHeader
  simp only [htag, htag', hparse, hparse']

lemma reopens_plain {r : Row} (hclean : r.Clean) (hstray : isStray {} r = false)
    (hplain : bracketHeader? {} r.line = none) : Reopens (Spec.ofHeader {} r.content false) := by
  obtain ⟨hbracket, hline, hheads⟩ := heads_openingLine hclean hstray hplain
  have hnone : bracketHeader? {} (headRow (Spec.ofHeader {} r.content false)).line = none :=
    hheads.plain
  refine ⟨hline, hheads.indent, hheads.stray, by rw [hnone, hbracket]; rfl, ?_⟩
  rw [hnone, hbracket]
  exact congrArg (Spec.over {}) hheads.spec

section Bracket

variable {r : Row} {header : Text}

/-- The header of a row that opens a bracket, by the parts of the row. -/
lemma exists_parts_of_bracketHeader? (hstray : isStray {} r = false)
    (hheader : bracketHeader? {} r.line = some header) :
    ∃ code comment, cutComment r.content = (code, comment) ∧
      (Text.trimEnd code).getLast? = some '\x7b' ∧
      header = Text.trimEnd (Text.trimEnd code).dropLast ++
        if comment.isEmpty then [] else ' ' :: comment := by
  have hcomment : isComment {} r.line = false :=
    (Bool.or_eq_false_iff.mp (Bool.or_eq_false_iff.mp hstray).1).2
  have hcut : cutComment r.content = ((cutComment r.content).1, (cutComment r.content).2) := rfl
  rw [bracketHeader?_eq hcomment hcut] at hheader
  split at hheader
  · rename_i hopen
    exact ⟨_, _, rfl, eq_of_beq hopen.2, (Option.some.inj hheader).symm⟩
  · simp at hheader

/-- The parts of the header of a bracket are those of the row that opens it. -/
lemma cutComment_header {code comment : Text} (hcut : cutComment r.content = (code, comment))
    (hlast : (Text.trimEnd code).getLast? = some '\x7b') :
    cutComment (Text.trimEnd (Text.trimEnd code).dropLast ++
        if comment.isEmpty then [] else ' ' :: comment) =
      (Text.trimEnd (Text.trimEnd code).dropLast ++ if comment.isEmpty then [] else [' '],
        comment) := by
  obtain ⟨before, hbefore⟩ := List.getLast?_eq_some_iff.mp hlast
  obtain ⟨blanks, hblanks, hcode⟩ := Text.exists_append_trimEnd code
  obtain ⟨blanks', hblanks', hbefore'⟩ := Text.exists_append_trimEnd before
  rw [hbefore, List.dropLast_concat]
  have hsplit : code = Text.trimEnd before ++ (blanks' ++ '\x7b' :: blanks) := by
    rw [hcode, hbefore]
    conv_lhs => rw [hbefore']
    simp
  obtain ⟨-, hplain, hcomment⟩ := cutComment_parts hcut
  have hplain' : (cutCommentFrom false false (Text.trimEnd before)).2 = [] :=
    cutCommentFrom_left (hsplit ▸ hplain)
  rw [cutComment, cutCommentFrom_append hplain']
  rcases hcomment with rfl | ⟨⟨rest, rfl⟩, hstate⟩
  · simp [cutCommentFrom]
  · have hquote : '"' ∉ blanks' ++ '\x7b' :: blanks := by
      simp [quote_notMem_of_blank hblanks', quote_notMem_of_blank hblanks]
    rw [afterText_left hquote (hsplit ▸ hstate)]
    simp [cutCommentFrom]

/-- The header of a bracket is a line of its own, and begins where the row begins unless it is
empty. -/
lemma header_spec (hclean : r.Clean) (hstray : isStray {} r = false)
    (hheader : bracketHeader? {} r.line = some header) :
    '\n' ∉ header ∧ ∃ code comment, cutComment header = (code, comment) ∧
      header = Text.trimEnd code ++ (if comment.isEmpty then [] else ' ' :: Text.trimEnd comment) ∧
      ∀ c ∈ (Text.trimEnd code).head?, Layout.isIndent c = false := by
  obtain ⟨code, comment, hcut, hlast, rfl⟩ := exists_parts_of_bracketHeader? hstray hheader
  obtain ⟨hcontent, -, hcomment⟩ := cutComment_parts hcut
  have hcut' := cutComment_header hcut hlast
  have hpre : Text.trimEnd (Text.trimEnd code).dropLast <+: r.content := by
    rw [hcontent]
    exact (Text.trimEnd_isPrefix _).trans ((List.dropLast_prefix _).trans
      ((Text.trimEnd_isPrefix _).trans (List.prefix_append _ _)))
  have htrim : Text.trimEnd (Text.trimEnd (Text.trimEnd code).dropLast ++
      if comment.isEmpty then [] else [' ']) = Text.trimEnd (Text.trimEnd code).dropLast := by
    rw [Text.trimEnd_append_of_blank (by split <;> simp [Text.isBlank]), Text.trimEnd_trimEnd]
  have htrim' : Text.trimEnd comment = comment := by
    rcases hcomment with rfl | ⟨⟨rest, rfl⟩, -⟩
    · rfl
    · have hall := hclean.trimmed
      rw [hcontent, Text.trimEnd_append_cons _ (by decide)] at hall
      rw [trimEnd_sign]
      exact List.append_cancel_left hall
  have hfeed : '\n' ∉ comment := fun hm =>
    hclean.noFeed (hcontent ▸ List.mem_append_right _ hm)
  refine ⟨?_, _, _, hcut', by rw [htrim, htrim'], ?_⟩
  · have hfeed' : '\n' ∉ Text.trimEnd (Text.trimEnd code).dropLast :=
      fun hm => hclean.noFeed (hpre.subset hm)
    split
    · simp [hfeed']
    · simp [hfeed', hfeed]
  · rw [htrim]
    intro c hc
    obtain ⟨rest, hrest⟩ := hpre
    refine hclean.bare c ?_
    rw [← hrest, List.head?_append, Option.mem_def.mp hc]
    rfl

/-- A header that was read begins with its tag. -/
lemma bare_header (hclean : r.Clean) (hstray : isStray {} r = false)
    (hheader : bracketHeader? {} r.line = some header) {h : Header}
    (hparse : parse header = some h) :
    ∀ c ∈ header.head?, Layout.isIndent c = false := by
  obtain ⟨hfeed, code, comment, hcut, heq, hbare⟩ := header_spec hclean hstray hheader
  cases hcode : Text.trimEnd code with
  | cons c w =>
    rw [heq, hcode]
    rintro _ ⟨⟩
    exact hbare c (by rw [hcode]; rfl)
  | nil =>
    obtain ⟨c, w, hcontent, hc⟩ := exists_word_of_parse hfeed hparse
    rw [heq, hcode, List.nil_append] at hcontent
    obtain ⟨-, -, rfl | ⟨⟨rest, rfl⟩, -⟩⟩ := cutComment_parts hcut
    · simp [Row.ofText] at hcontent
    · have hrow : (Row.ofText 4 (' ' :: '#' :: Text.trimEnd rest)).content =
          Text.trimEnd ('#' :: Text.trimEnd rest) := rfl
      rw [if_neg (by simp), trimEnd_sign, hrow, ← trimEnd_sign, Text.trimEnd_trimEnd,
        trimEnd_sign] at hcontent
      obtain rfl : '#' = c := (List.cons.inj hcontent).1
      exact absurd hc (by decide)

/-- A written header line without code is cut before its comment, and its parts are read as the same
header. -/
lemma exists_parts_of_headerLine {s : Spec} {h : Header} (hs : Describes s h) (hr : IsWritable h)
    (hcode : h.inlineCode = none) :
    ∃ code comment, cutComment (s.headerLine {}) = (code, comment) ∧ Text.trimEnd code ≠ [] ∧
      (∀ c ∈ (Text.trimEnd code).head?, Layout.isIndent c = false) ∧
      parse (Text.trimEnd code ++ if comment.isEmpty then [] else ' ' :: Text.trimEnd comment) =
        some { h with bracket := false } := by
  have hkinds := kinds_of_inner (inner_innerLexemes h)
  obtain ⟨sp, tail, hcut, hsp, htail⟩ :=
    (lexed_commentText hr).exists_comment (spells_commentLexemes h)
  have hcut' : cutComment (s.headerLine {}) =
      (h.tag ++ (innerParts h).flatMap ([' '] ++ ·) ++ sp, tail) := by
    have hnone : codeText h = [] := by rw [codeText, hcode]; rfl
    rw [headerLine_eq hs, hnone, List.nil_append, (lexed_inner hr).cutComment_append fun l hl =>
      ⟨(hkinds l hl).1, (hkinds l hl).2.2⟩, hcut]
  have htrim : Text.trimEnd (h.tag ++ (innerParts h).flatMap ([' '] ++ ·) ++ sp) =
      Text.trimEnd (h.tag ++ (innerParts h).flatMap ([' '] ++ ·)) :=
    Text.trimEnd_append_of_blank fun c hc => Layout.isBlank_of_isIndent (hsp c hc)
  refine ⟨_, _, hcut', ?_, ?_, ?_⟩
  · rw [htrim]
    obtain ⟨c, w, hcw⟩ := List.exists_cons_of_ne_nil hr.tag.1
    have hc : isWordChar c = true := hr.tag.2 c (hcw ▸ List.mem_cons_self)
    rw [hcw, List.cons_append, Text.trimEnd_cons, not_blank_of_word hc, Bool.and_false]
    simp
  · intro c hc
    refine bare_headerLine hs hr c ?_
    obtain ⟨rest, hrest⟩ :=
      Text.trimEnd_isPrefix (h.tag ++ (innerParts h).flatMap ([' '] ++ ·) ++ sp)
    rw [(cutComment_parts hcut').1, ← hrest, List.append_assoc, List.head?_append,
      Option.mem_def.mp hc]
    rfl
  · have htail' : Lexed (if tail.isEmpty then [] else ' ' :: Text.trimEnd tail)
        (commentLexemes h) := by
      obtain ⟨-, -, rfl | ⟨⟨rest, rfl⟩, -⟩⟩ := cutComment_parts hcut'
      · exact htail
      · have hlexed := htail.trimEnd
        rw [if_neg (by simp)] at hlexed ⊢
        rwa [← List.singleton_append, Text.trimEnd_append_cons _ (by decide), ← trimEnd_sign]
          at hlexed
    have hall := (lexed_inner hr).trimEnd.append (fun l hl => (hkinds l hl).2) htail' (by
      intro c hc
      split at hc
      · simp at hc
      · obtain rfl : ' ' = c := by simpa using hc
        decide)
    have hspells := spells_headerLine h
    have hnone : codeLexemes h = [] := by rw [codeLexemes, hcode]; rfl
    rw [hnone, List.nil_append] at hspells
    rw [htrim]
    exact parse_eq_some_iff.mpr ⟨_, lexemes_eq_some_iff.mpr hall, hspells⟩

/-- A header that cannot be read is kept, and so is its bracket. -/
lemma reopens_unread (hclean : r.Clean) (hstray : isStray {} r = false)
    (hheader : bracketHeader? {} r.line = some header) (hparse : parse header = none)
    (hopens : (bracketHeader? {} (headRow (Spec.ofHeader {} header true)).line).isSome =
      (Spec.ofHeader {} header true).hasBracket) :
    Reopens (Spec.ofHeader {} header true) := by
  obtain ⟨hfeed, code, comment, hcut, heq, hbare⟩ := header_spec hclean hstray hheader
  obtain ⟨hkept, hbracket⟩ := header_ofHeader hparse true
  have hline : (Spec.ofHeader {} header true).headerLine {} = header := by
    rw [Spec.headerLine, hkept, Option.getD_some]
  rw [← hline] at hcut hfeed
  have hne : Text.trimEnd code ≠ [] := by
    intro hnil
    rw [headRow, openingLine_eq hbracket hcut, bracketHeader?_opened_of_nil hcut hnil, hbracket]
      at hopens
    simp at hopens
  obtain ⟨hnofeed, hindent, hnotstray, hagain⟩ := headRow_opened hbracket hfeed hcut hne hbare
  rw [← heq] at hagain
  refine ⟨hnofeed, hindent, hnotstray, hopens, ?_⟩
  rw [hagain, hbracket]
  rfl

/-- The head of a bracket is written as the head of the same element, if it opens a bracket exactly
where the element has one. -/
theorem reopens_bracket (hclean : r.Clean) (hstray : isStray {} r = false)
    (hheader : bracketHeader? {} r.line = some header)
    (hopens : (bracketHeader? {} (headRow (Spec.ofHeader {} header true)).line).isSome =
      (Spec.ofHeader {} header true).hasBracket) :
    Reopens (Spec.ofHeader {} header true) := by
  cases hparse : parse header with
  | none => exact reopens_unread hclean hstray hheader hparse hopens
  | some h =>
    have hfeed := (header_spec hclean hstray hheader).1
    have hhead := bare_header hclean hstray hheader hparse
    have hsays := describes_ofHeader hparse hhead true
    have hr := isReadable_of_parse hfeed hparse
    have hbracket := hasBracket_ofHeader hparse true
    cases hcode : h.inlineCode with
    | some c =>
      rw [hcode, Option.isNone_some, Bool.and_false] at hbracket
      obtain ⟨hnofeed, hindent, hnotstray, hagain⟩ := headRow_plain hbracket hsays hr
      have hnone : bracketHeader? {} (headRow (Spec.ofHeader {} header true)).line = none := by
        rw [hbracket] at hopens
        simpa using hopens
      refine ⟨hnofeed, hindent, hnotstray, hopens, ?_⟩
      rw [hnone, Option.getD_none]
      exact over_ofHeader hagain hparse (Row.clean_ofText 4 hnofeed).bare hhead rfl _ _
    | none =>
      rw [hcode, Option.isNone_none, Bool.true_or, Bool.true_and] at hbracket
      obtain ⟨code, comment, hcut, hne, hbare, hagain⟩ :=
        exists_parts_of_headerLine hsays hr.toIsWritable hcode
      obtain ⟨hnofeed, hindent, hnotstray, hopened⟩ :=
        headRow_opened hbracket (feed_notMem_headerLine hsays hr) hcut hne hbare
      refine ⟨hnofeed, hindent, hnotstray, hopens, ?_⟩
      rw [hopened, Option.getD_some]
      refine over_ofHeader hagain hparse ?_ hhead rfl _ _
      rwa [List.head?_append_of_ne_nil _ hne]

end Bracket

end Header

end TaggedOutline
