import Mathlib.Data.List.DropRight
import TaggedOutline.Body

/-!
# Rows

What the reading of a body sees of a line is its column and its content; the place of the line among
the others is never looked at.  A `Row` is a line without its place.  `Layout.map_row_lines` says
that the scanner of lines gives the rows of the pieces between line feeds, each by itself, and
`Text.rows_unlines` that clean rows are read back from their written form.
-/

namespace TaggedOutline

/-! ## Runs -/

section Runs

variable {α : Type} {p : α → Bool} {w rest : List α}

/-- A list begins with a run of elements that pass a test, and after the run none follows. -/
lemma exists_run (p : α → Bool) (l : List α) :
    ∃ w rest, l = w ++ rest ∧ (∀ a ∈ w, p a = true) ∧ ∀ a ∈ rest.head?, p a = false := by
  refine ⟨l.takeWhile p, l.dropWhile p, List.takeWhile_append_dropWhile.symm,
    fun a ha => List.mem_takeWhile_imp ha, fun a ha => ?_⟩
  have hnot := List.head?_dropWhile_not p l
  rw [Option.mem_def.mp ha] at hnot
  simpa using hnot

lemma takeWhile_run (hw : ∀ a ∈ w, p a = true) (hrest : ∀ a ∈ rest.head?, p a = false) :
    (w ++ rest).takeWhile p = w := by
  rw [List.takeWhile_append_of_pos hw]
  cases rest with
  | nil => exact List.append_nil w
  | cons a rest => rw [List.takeWhile_cons_of_neg (by simp [hrest a rfl]), List.append_nil]

lemma dropWhile_run (hw : ∀ a ∈ w, p a = true) (hrest : ∀ a ∈ rest.head?, p a = false) :
    (w ++ rest).dropWhile p = rest := by
  rw [List.dropWhile_append_of_pos hw]
  cases rest with
  | nil => rfl
  | cons a rest => exact List.dropWhile_cons_of_neg (by simp [hrest a rfl])

end Runs

/-! ## Lines without their places -/

/-- A line of a body without its place: the column and the content. -/
structure Row where
  indent : Nat
  content : Text
deriving DecidableEq, Repr

/-- A line without its place. -/
def Layout.Line.row (l : Layout.Line) : Row := ⟨l.indent, l.content⟩

namespace Row

/-- Whether the row has no content. -/
def isBlank (r : Row) : Bool := r.content.isEmpty

/-- The row as a line; no reading of a single line depends on the place. -/
def line (r : Row) : Layout.Line := ⟨r.indent, r.content, 0⟩

/-- The row as it is written, behind as many spaces as its column says. -/
def text (r : Row) : Text := List.replicate r.indent ' ' ++ r.content

/-- The row of a text without line feeds. -/
def ofText (tabWidth : Nat) (t : Text) : Row :=
  let content := Text.trimEnd (t.dropWhile Layout.isIndent)
  ⟨if content.isEmpty then 0 else Layout.columns tabWidth (t.takeWhile Layout.isIndent), content⟩

/-- The row with a column taken off.  A row before that column stands at the head of its line. -/
def outdent (column : Nat) (r : Row) : Row :=
  if r.isBlank then ⟨0, []⟩ else ⟨r.indent - column, r.content⟩

/-- A row as the scanner makes them: its content is one line without blanks at its end and without
indentation, and a row without content stands at the head of its line. -/
structure Clean (r : Row) : Prop where
  noFeed : '\n' ∉ r.content
  trimmed : Text.trimEnd r.content = r.content
  bare : ∀ c ∈ r.content.head?, Layout.isIndent c = false
  flush : r.content = [] → r.indent = 0

@[simp] lemma isBlank_line (r : Row) : r.line.isBlank = r.isBlank := rfl

@[simp] lemma row_line (r : Row) : r.line.row = r := rfl

lemma isBlank_iff {r : Row} : r.isBlank = true ↔ r.content = [] := by
  simp [isBlank]

@[simp] lemma content_outdent (column : Nat) (r : Row) :
    (r.outdent column).content = r.content := by
  unfold outdent
  split
  · rename_i h
    exact (isBlank_iff.mp h).symm
  · rfl

@[simp] lemma isBlank_outdent (column : Nat) (r : Row) :
    (r.outdent column).isBlank = r.isBlank := by
  simp [isBlank]

lemma indent_outdent {column : Nat} {r : Row} (h : r.isBlank = false) :
    (r.outdent column).indent = r.indent - column := by
  simp [outdent, h]

lemma Clean.outdent {r : Row} (h : r.Clean) (column : Nat) : (r.outdent column).Clean where
  noFeed := by simpa using h.noFeed
  trimmed := by simpa using h.trimmed
  bare := by simpa using h.bare
  flush := by
    intro he
    have hb : r.isBlank = true := by simpa [isBlank_iff] using he
    simp [Row.outdent, hb]

/-- The content of a row by itself is a row at the head of a line. -/
lemma Clean.content {r : Row} (h : r.Clean) : (⟨0, r.content⟩ : Row).Clean :=
  ⟨h.noFeed, h.trimmed, h.bare, fun _ => rfl⟩

end Row

/-! ## Trimming -/

namespace Text

lemma trimEnd_append_of_blank {t s : Text} (h : ∀ c ∈ s, isBlank c = true) :
    trimEnd (t ++ s) = trimEnd t := by
  have hs : ∀ c ∈ s.reverse, isBlank c = true := fun c hc => h c (List.mem_reverse.mp hc)
  simp only [trimEnd, List.reverse_append]
  rw [List.dropWhile_append_of_pos hs]

lemma trimEnd_eq_rdropWhile (t : Text) : trimEnd t = t.rdropWhile isBlank := rfl

lemma trimEnd_isPrefix (t : Text) : trimEnd t <+: t := List.rdropWhile_prefix isBlank t

@[simp] lemma trimEnd_trimEnd (t : Text) : trimEnd (trimEnd t) = trimEnd t :=
  List.rdropWhile_idempotent isBlank t

/-- A text that ends with a character that is not blank is left as it is. -/
lemma trimEnd_append_singleton {t : Text} {c : Char} (h : isBlank c = false) :
    trimEnd (t ++ [c]) = t ++ [c] := by
  simp [trimEnd, h]

lemma trimEnd_eq_self_iff {t : Text} :
    trimEnd t = t ↔ ∀ h : t ≠ [], isBlank (t.getLast h) = false := by
  rw [trimEnd_eq_rdropWhile, List.rdropWhile_eq_self_iff]
  simp

/-- What trimming takes off is blank. -/
lemma exists_append_trimEnd (t : Text) :
    ∃ s, (∀ c ∈ s, isBlank c = true) ∧ t = trimEnd t ++ s := by
  refine ⟨(t.reverse.takeWhile isBlank).reverse, ?_, ?_⟩
  · intro c hc
    exact List.mem_takeWhile_imp (List.mem_reverse.mp hc)
  · rw [trimEnd, ← List.reverse_append, List.takeWhile_append_dropWhile, List.reverse_reverse]

lemma trimEnd_cons (c : Char) (t : Text) :
    trimEnd (c :: t) = if (trimEnd t).isEmpty && isBlank c then [] else c :: trimEnd t := by
  rw [trimEnd, trimEnd, List.reverse_cons, List.dropWhile_append]
  cases h : t.reverse.dropWhile isBlank with
  | nil => cases hc : isBlank c <;> simp [hc]
  | cons d s => simp

/-- Trimming goes no further than to a character that is not blank. -/
lemma trimEnd_append_cons (s : Text) {c : Char} (hc : isBlank c = false) (t : Text) :
    trimEnd (s ++ c :: t) = s ++ c :: trimEnd t := by
  induction s with
  | nil => simp [trimEnd_cons, hc]
  | cons d s ih => simp [trimEnd_cons, ih]

lemma trimEnd_append {s : Text} (hne : s ≠ []) (hs : isBlank (s.getLast hne) = false) (t : Text) :
    trimEnd (s ++ t) = s ++ trimEnd t := by
  have hsplit : s = s.dropLast ++ [s.getLast hne] := (List.dropLast_append_getLast hne).symm
  rw [hsplit, List.append_assoc, List.append_assoc]
  exact trimEnd_append_cons _ hs t

@[simp] lemma trim_trimEnd (t : Text) : trim (trimEnd t) = trim t := by
  unfold trim trimStart
  induction t with
  | nil => rfl
  | cons c t ih =>
    rw [trimEnd_cons]
    by_cases hc : isBlank c = true
    · rw [List.dropWhile_cons_of_pos hc, ← ih]
      cases hempty : (trimEnd t).isEmpty with
      | true => simp [hc, List.isEmpty_iff.mp hempty]
      | false => simp [List.dropWhile_cons_of_pos hc]
    · rw [List.dropWhile_cons_of_neg hc]
      simp [hc, trimEnd_cons]

/-! ## Pieces between line feeds -/

lemma lines_ne_nil {t : Text} (h : t ≠ []) : lines t ≠ [] := by
  cases t with
  | nil => contradiction
  | cons c t =>
    rw [lines]
    split
    · simp
    · split <;> simp

lemma lines_of_notMem {t : Text} (hne : t ≠ []) (h : '\n' ∉ t) : lines t = [t] := by
  induction t with
  | nil => contradiction
  | cons c t ih =>
    obtain ⟨hc, ht⟩ := not_or.mp (fun hm => h (List.mem_cons.mpr hm))
    have hc' : c ≠ '\n' := fun e => hc e.symm
    cases t with
    | nil => simp [lines, hc']
    | cons d t => rw [lines, if_neg hc', ih (List.cons_ne_nil d t) ht]

lemma feed_notMem_of_mem_lines {t l : Text} (h : l ∈ lines t) : '\n' ∉ l := by
  induction t generalizing l with
  | nil => simp at h
  | cons c t ih =>
    rw [lines] at h
    split at h
    · rcases List.mem_cons.mp h with rfl | h
      · simp
      · exact ih h
    · rename_i hc
      have hc' : '\n' ≠ c := fun e => hc e.symm
      split at h
      · simp_all
      · rename_i line more heq
        rcases List.mem_cons.mp h with rfl | h
        · have := ih (heq ▸ List.mem_cons_self : line ∈ lines t)
          simp [hc', this]
        · exact ih (heq ▸ List.mem_cons_of_mem _ h)

lemma length_lines_le (t : Text) : (lines t).length ≤ t.length := by
  induction t with
  | nil => simp
  | cons c t ih =>
    rw [lines]
    split
    · simpa using ih
    · split
      · simp
      · rename_i heq
        rw [heq] at ih
        simp only [List.length_cons] at ih ⊢
        omega

end Text

/-! ## The scanner of lines -/

namespace Layout

lemma isBlank_of_isIndent {c : Char} (h : isIndent c = true) : Text.isBlank c = true := by
  simp only [isIndent, Bool.or_eq_true, decide_eq_true_eq] at h
  rcases h with rfl | rfl <;> decide

lemma columns_append (tabWidth : Nat) (s : Text) (c : Char) :
    columns tabWidth (s ++ [c]) = nextColumn tabWidth (columns tabWidth s) c := by
  simp [columns]

lemma columns_replicate (tabWidth n : Nat) :
    columns tabWidth (List.replicate n ' ') = n := by
  induction n with
  | zero => rfl
  | succ n ih =>
    rw [List.replicate_succ', columns_append, ih]
    simp [nextColumn]

namespace Reading

/-- What a reading holds of the current line is what the characters `p` of it say. -/
structure Tracks (tabWidth : Nat) (r : Reading) (p : Text) : Prop where
  begun : r.begun = !p.isEmpty
  column : r.column = columns tabWidth (p.takeWhile isIndent)
  content : r.content = (p.dropWhile isIndent).reverse

lemma Tracks.nil (tabWidth : Nat) (finished : List Line) :
    Tracks tabWidth { finished } [] :=
  ⟨rfl, rfl, rfl⟩

lemma Tracks.take {tabWidth : Nat} {r : Reading} {p : Text} (h : Tracks tabWidth r p) {c : Char}
    (hc : c ≠ '\n') : Tracks tabWidth (r.take tabWidth c) (p ++ [c]) := by
  have hempty : r.content.isEmpty = p.all isIndent := by
    rw [h.content, Bool.eq_iff_iff]
    simp [List.dropWhile_eq_nil_iff]
  by_cases hp : p.all isIndent = true
  · have hp' : ∀ a ∈ p, isIndent a = true := List.all_eq_true.mp hp
    have hcont : r.content = [] := List.isEmpty_iff.mp (hempty.trans hp)
    have htake : p.takeWhile isIndent = p := List.takeWhile_eq_self_iff.mpr hp'
    by_cases hi : isIndent c = true
    · refine ⟨?_, ?_, ?_⟩
      · simp [Reading.take, hc, hcont, hi]
      · rw [List.takeWhile_append_of_pos hp']
        simp [Reading.take, hc, hcont, hi, columns_append, h.column, htake]
      · rw [List.dropWhile_append_of_pos hp']
        simp [Reading.take, hc, hcont, hi]
    · refine ⟨?_, ?_, ?_⟩
      · simp [Reading.take, hc, hi]
      · rw [List.takeWhile_append_of_pos hp']
        simp [Reading.take, hc, hi, h.column, htake]
      · rw [List.dropWhile_append_of_pos hp']
        simp [Reading.take, hc, hcont, hi]
  · have hcont : r.content.isEmpty = false := by
      rw [hempty]
      exact Bool.eq_false_iff.mpr hp
    have hdrop : (p.dropWhile isIndent).isEmpty = false := by
      rw [h.content] at hcont
      simpa using hcont
    have htake : (p.takeWhile isIndent).length ≠ p.length := by
      intro hlen
      have hsum := congrArg List.length (List.takeWhile_append_dropWhile (p := isIndent) (l := p))
      rw [List.length_append, hlen] at hsum
      have hz : p.dropWhile isIndent = [] := List.eq_nil_of_length_eq_zero (by omega)
      simp [hz] at hdrop
    refine ⟨?_, ?_, ?_⟩
    · simp [Reading.take, hc, hcont]
    · simp [Reading.take, hc, hcont, h.column, List.takeWhile_append, htake]
    · simp [Reading.take, hc, h.content, List.dropWhile_append, hdrop]

lemma Tracks.row_endLine {tabWidth : Nat} {r : Reading} {p : Text} (h : Tracks tabWidth r p) :
    r.endLine.finished.map Line.row = Row.ofText tabWidth p :: r.finished.map Line.row := by
  have hcontent : (r.content.dropWhile Text.isBlank).reverse =
      Text.trimEnd (p.dropWhile isIndent) := by
    rw [h.content, Text.trimEnd]
  simp only [endLine, hcontent, List.map_cons, Line.row, Row.ofText, h.column]

end Reading

/-- The scanner reads each piece between line feeds by itself. -/
theorem map_row_lines (tabWidth : Nat) (source : Text) :
    (lines tabWidth source).map Line.row = (Text.lines source).map (Row.ofText tabWidth) := by
  -- the characters `p` of the current line are those read since the last line feed
  have main : ∀ (s : Text) (r : Reading) (p : Text), '\n' ∉ p → Reading.Tracks tabWidth r p →
      (s.foldl (Reading.take tabWidth) r).close.map Line.row =
        r.finished.reverse.map Line.row ++ (Text.lines (p ++ s)).map (Row.ofText tabWidth) := by
    intro s
    induction s with
    | nil =>
      intro r p hp h
      cases p with
      | nil =>
        have hb : r.begun = false := by simpa using h.begun
        simp [Reading.close, hb]
      | cons a p =>
        have hb : r.begun = true := by simpa using h.begun
        have hlines : Text.lines (a :: p) = [a :: p] :=
          Text.lines_of_notMem (List.cons_ne_nil a p) hp
        simp [Reading.close, hb, hlines, h.row_endLine]
    | cons c s ih =>
      intro r p hp h
      rw [List.foldl_cons]
      by_cases hc : c = '\n'
      · subst hc
        have htake : r.take tabWidth '\n' = r.endLine := by simp [Reading.take]
        rw [htake, ih r.endLine [] (by simp) (Reading.Tracks.nil tabWidth _),
          Text.lines_append_newline hp, List.map_reverse, h.row_endLine]
        simp
      · have hp' : '\n' ∉ p ++ [c] := by
          simp only [List.mem_append, List.mem_singleton, not_or]
          exact ⟨hp, fun e => hc e.symm⟩
        rw [ih _ _ hp' (h.take hc)]
        have hfin : (r.take tabWidth c).finished = r.finished := by
          unfold Reading.take
          split
          · contradiction
          · split <;> rfl
        rw [hfin, List.append_assoc, List.singleton_append]
  have := main source {} [] (by simp) (Reading.Tracks.nil tabWidth [])
  simpa [lines] using this

end Layout

/-! ## The rows of a text -/

namespace Row

lemma clean_ofText (tabWidth : Nat) {t : Text} (h : '\n' ∉ t) : (ofText tabWidth t).Clean where
  noFeed := by
    intro hm
    have hdrop := (Text.trimEnd_isPrefix _).subset hm
    exact h ((List.dropWhile_suffix _).subset hdrop)
  trimmed := Text.trimEnd_trimEnd _
  bare := by
    intro c hc
    obtain ⟨rest, hrest⟩ := Text.trimEnd_isPrefix (t.dropWhile Layout.isIndent)
    cases hcontent : Text.trimEnd (t.dropWhile Layout.isIndent) with
    | nil => simp [ofText, hcontent] at hc
    | cons a s =>
      have hac : a = c := by simpa [ofText, hcontent] using hc
      rw [hcontent, List.cons_append] at hrest
      have := List.head?_dropWhile_not Layout.isIndent t
      rw [← hrest] at this
      simpa [hac] using this
  flush := by
    intro he
    have he' : Text.trimEnd (t.dropWhile Layout.isIndent) = [] := he
    simp [ofText, he']

/-- A clean row is the row of its written form. -/
lemma ofText_text (tabWidth : Nat) {r : Row} (h : r.Clean) : ofText tabWidth r.text = r := by
  obtain ⟨indent, content⟩ := r
  cases content with
  | nil =>
    obtain rfl : indent = 0 := h.flush rfl
    rfl
  | cons c content =>
    have hspaces : ∀ a ∈ List.replicate indent ' ', Layout.isIndent a = true := by
      intro a ha
      rw [List.eq_of_mem_replicate ha]
      rfl
    have hdrop : (List.replicate indent ' ' ++ c :: content).dropWhile Layout.isIndent =
        c :: content := dropWhile_run hspaces h.bare
    have htake : (List.replicate indent ' ' ++ c :: content).takeWhile Layout.isIndent =
        List.replicate indent ' ' := takeWhile_run hspaces h.bare
    have htrim : Text.trimEnd (c :: content) = c :: content := h.trimmed
    simp [ofText, text, hdrop, htake, htrim, Layout.columns_replicate]

lemma feed_notMem_text {r : Row} (h : r.Clean) : '\n' ∉ r.text := by
  simp [text, h.noFeed]

end Row

namespace Text

/-- The rows of a text. -/
def rows (tabWidth : Nat) (t : Text) : List Row := (lines t).map (Row.ofText tabWidth)

lemma clean_of_mem_rows {tabWidth : Nat} {t : Text} {r : Row} (h : r ∈ rows tabWidth t) :
    r.Clean := by
  obtain ⟨l, hl, rfl⟩ := List.mem_map.mp h
  exact Row.clean_ofText tabWidth (feed_notMem_of_mem_lines hl)

lemma length_rows_le (tabWidth : Nat) (t : Text) : (rows tabWidth t).length ≤ t.length := by
  simpa [rows] using length_lines_le t

/-- Clean rows are read back from their written form. -/
theorem rows_unlines (tabWidth : Nat) {rs : List Row} (h : ∀ r ∈ rs, r.Clean) :
    rows tabWidth (unlines (rs.map Row.text)) = rs := by
  have hfeed : ∀ l ∈ rs.map Row.text, '\n' ∉ l := by
    intro l hl
    obtain ⟨r, hr, rfl⟩ := List.mem_map.mp hl
    exact Row.feed_notMem_text (h r hr)
  rw [rows, lines_unlines hfeed, List.map_map]
  conv_rhs => rw [← List.map_id rs]
  exact List.map_congr_left fun r hr => Row.ofText_text tabWidth (h r hr)

end Text

end TaggedOutline
