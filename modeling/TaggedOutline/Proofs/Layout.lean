import TaggedOutline.Proofs.Blocks

/-!
# Scanned lines

The scanner of lines goes through a source character by character and carries along what it has
read of the current line.  What it gives can be said without that state: the source is cut at its
line feeds, and each piece is a line by itself (`Layout.lines_of_pieces`).

The lines of a body are written out behind spaces and scanned once more on every level.  A scanned
line behind any number of spaces is scanned to the same content at that column, so nothing is lost
on the way down (`Layout.lines_reindented`).
-/

namespace TaggedOutline

/-! ## Pieces -/

namespace Text

/-- Some pieces, but for a last one without characters. -/
def dropEmptyLast (ps : List Text) : List Text :=
  if ps.getLast? = some [] then ps.dropLast else ps

/-- The pieces of a text between its line feeds, but for a last one without characters. -/
def pieces (t : Text) : List Text := dropEmptyLast (t.splitOn '\n')

lemma dropEmptyLast_cons_cons (p q : Text) (ps : List Text) :
    dropEmptyLast (p :: q :: ps) = p :: dropEmptyLast (q :: ps) := by
  rw [dropEmptyLast, dropEmptyLast, List.getLast?_cons_cons, List.dropLast_cons_cons]
  split <;> rfl

/-- The lines of a text are its pieces. -/
lemma lines_eq_pieces (t : Text) : lines t = pieces t := by
  induction t with
  | nil => rfl
  | cons c t ih =>
    obtain ⟨p, ps, hcut⟩ := List.exists_cons_of_ne_nil (List.splitOn_ne_nil '\n' t)
    rw [pieces, hcut] at ih
    rw [lines, ih, pieces, List.splitOn_cons_eq_if_modifyHead, hcut]
    by_cases hc : c = '\n'
    · rw [if_pos hc, if_pos (beq_iff_eq.mpr hc), dropEmptyLast_cons_cons]
    · rw [if_neg hc, if_neg (by simpa using hc), List.modifyHead_cons]
      cases ps with
      | nil => cases p <;> simp [dropEmptyLast]
      | cons q ps => rw [dropEmptyLast_cons_cons, dropEmptyLast_cons_cons]

end Text

namespace Layout

/-! ## Places -/

/-- The places of lines are counted from zero. -/
def IsNumbered (ls : List Line) : Prop := ls.map Line.number = List.range ls.length

namespace IsNumbered

variable {ls ls' : List Line}

lemma number_getElem (h : IsNumbered ls) {i : Nat} (hi : i < ls.length) : ls[i].number = i := by
  have hnumber := congrArg (·[i]?) h
  simpa [hi] using hnumber

/-- Numbered lines are known by their rows. -/
lemma eq_of_map_row_eq (h : IsNumbered ls) (h' : IsNumbered ls')
    (hrows : ls.map Line.row = ls'.map Line.row) : ls = ls' := by
  have hlength : ls.length = ls'.length := by simpa using congrArg List.length hrows
  refine List.ext_getElem hlength fun i hi hi' => ?_
  have hnumber : ls[i].number = ls'[i].number :=
    (h.number_getElem hi).trans (h'.number_getElem hi').symm
  have hrow : ls[i].row = ls'[i].row := by simpa [hi, hi'] using congrArg (·[i]?) hrows
  obtain ⟨hindent, hcontent⟩ := Row.mk.inj hrow
  generalize ls[i] = l at hnumber hindent hcontent ⊢
  generalize ls'[i] = l' at hnumber hindent hcontent ⊢
  cases l
  cases l'
  simp only [Line.mk.injEq]
  exact ⟨hindent, hcontent, hnumber⟩

lemma append_singleton (h : IsNumbered ls) (indent : Nat) (content : Text) :
    IsNumbered (ls ++ [⟨indent, content, ls.length⟩]) := by
  rw [IsNumbered, List.map_append, h, List.length_append, List.length_singleton, List.range_succ]
  rfl

lemma map (h : IsNumbered ls) {f : Line → Line} (hf : ∀ l, (f l).number = l.number) :
    IsNumbered (ls.map f) := by
  rw [IsNumbered, List.map_map, List.length_map, ← h]
  exact List.map_congr_left fun l _ => hf l

lemma zipIdx {α : Type} (as : List α) {f : α × Nat → Line} (hf : ∀ p, (f p).number = p.2) :
    IsNumbered (as.zipIdx.map f) := by
  have hnumber : Line.number ∘ f = Prod.snd := funext hf
  rw [IsNumbered, List.map_map, hnumber, List.length_map, List.length_zipIdx, List.zipIdx_map_snd,
    List.range_eq_range']

end IsNumbered

namespace Reading

variable {r : Reading}

lemma isNumbered_endLine (h : IsNumbered r.finished.reverse) :
    IsNumbered r.endLine.finished.reverse := by
  have hmore := h.append_singleton
  rw [List.length_reverse] at hmore
  simpa [endLine] using hmore _ _

lemma isNumbered_take (h : IsNumbered r.finished.reverse) (tabWidth : Nat) (c : Char) :
    IsNumbered (r.take tabWidth c).finished.reverse := by
  rw [take]
  split
  · exact isNumbered_endLine h
  · split <;> exact h

lemma isNumbered_foldl (h : IsNumbered r.finished.reverse) (tabWidth : Nat) (t : Text) :
    IsNumbered (t.foldl (take tabWidth) r).finished.reverse := by
  induction t generalizing r with
  | nil => exact h
  | cons c t ih => exact ih (isNumbered_take h tabWidth c)

lemma isNumbered_close (h : IsNumbered r.finished.reverse) : IsNumbered r.close := by
  rw [close]
  split
  · exact isNumbered_endLine h
  · exact h

end Reading

lemma isNumbered_lines (tabWidth : Nat) (source : Text) : IsNumbered (lines tabWidth source) := by
  have hnone : IsNumbered ({} : Reading).finished.reverse := rfl
  exact Reading.isNumbered_close (Reading.isNumbered_foldl hnone tabWidth source)

/-! ## Lines and pieces -/

/-- The scanner gives the pieces of a source between its line feeds, in order and counted from zero,
each by itself: what a piece has before its first character that is neither a space nor a tab is
measured, what follows without blanks at its end is the content, and without content there is no
indentation.  So a source up to a line feed and the source behind it are scanned by themselves,
places apart. -/
theorem lines_of_pieces (tabWidth : Nat) :
    (∀ source, lines tabWidth source = (Text.pieces source).zipIdx.map fun (piece, number) =>
      let content := Text.trimEnd (piece.dropWhile isIndent)
      { indent := if content.isEmpty then 0 else columns tabWidth (piece.takeWhile isIndent)
        content, number }) ∧
    ∀ x y, (lines tabWidth (x ++ '\n' :: y)).map Line.row =
      (lines tabWidth (x ++ ['\n'])).map Line.row ++ (lines tabWidth y).map Line.row := by
  refine ⟨fun source => ?_, fun x y => ?_⟩
  · apply (isNumbered_lines tabWidth source).eq_of_map_row_eq (.zipIdx _ fun _ => rfl)
    have hpieces := List.zipIdx_map_fst 0 (Text.pieces source)
    rw [map_row_lines, Text.lines_eq_pieces, List.map_map]
    conv_lhs => rw [← hpieces, List.map_map]
    rfl
  · have hfeed : ∀ c ∈ (x ++ ['\n']).getLast?, c = '\n' := by simp
    have hsplit : x ++ '\n' :: y = (x ++ ['\n']) ++ y := by simp
    rw [map_row_lines, map_row_lines, map_row_lines, hsplit, Text.lines_append hfeed,
      List.map_append]

/-! ## Lines that are written out -/

/-- The line at a column; a blank line stays where it is. -/
def Line.atColumn (column : Nat) (l : Line) : Line :=
  if l.isBlank then l else { l with indent := column }

section Indented

variable {l : Line} {ls : List Line}

lemma Line.number_atColumn (column : Nat) (l : Line) : (l.atColumn column).number = l.number := by
  rw [atColumn]
  split <;> rfl

lemma Line.atColumn_indent (l : Line) : l.atColumn l.indent = l := by
  rw [atColumn]
  split <;> rfl

lemma Line.feed_notMem_indented (h : l.row.Clean) (column : Nat) : '\n' ∉ l.indented column := by
  have hcontent : '\n' ∉ l.content := h.noFeed
  simp [indented, hcontent]

/-- What is written of a line gives its row back, whatever the column and the width of tabs. -/
lemma ofText_indented (tabWidth column : Nat) (h : l.row.Clean) :
    Row.ofText tabWidth (l.indented column) = (l.atColumn column).row := by
  rw [Line.atColumn]
  split
  · next hblank =>
    have hcontent : l.content = [] := List.isEmpty_iff.mp hblank
    have hindent : l.indent = 0 := h.flush hcontent
    have hspaces : (l.indented column).dropWhile isIndent = [] := by
      rw [List.dropWhile_eq_nil_iff, Line.indented, hcontent, List.append_nil]
      intro c hc
      rw [List.eq_of_mem_replicate hc]
      rfl
    simp [Row.ofText, hspaces, Line.row, hcontent, hindent]
  · next hblank =>
    have hclean : (⟨column, l.content⟩ : Row).Clean :=
      ⟨h.noFeed, h.trimmed, h.bare, fun hcontent => absurd (List.isEmpty_iff.mpr hcontent) hblank⟩
    exact Row.ofText_text tabWidth hclean

lemma clean_of_mem_lines {tabWidth : Nat} {source : Text} (h : l ∈ lines tabWidth source) :
    l.row.Clean := by
  have hrow := List.mem_map_of_mem (f := Line.row) h
  rw [map_row_lines] at hrow
  exact Text.clean_of_mem_rows hrow

/-- Lines that are written out at any columns are scanned to the same lines at these columns. -/
lemma lines_unlines_indented (hplaces : IsNumbered ls) (hclean : ∀ l ∈ ls, l.row.Clean)
    (tabWidth : Nat) (columnOf : Line → Nat) :
    lines tabWidth (Text.unlines (ls.map fun l => l.indented (columnOf l))) =
      ls.map fun l => l.atColumn (columnOf l) := by
  apply (isNumbered_lines _ _).eq_of_map_row_eq (hplaces.map fun l => l.number_atColumn _)
  have hfeed : ∀ t ∈ ls.map fun l => l.indented (columnOf l), '\n' ∉ t :=
    List.forall_mem_map.mpr fun l hl => Line.feed_notMem_indented (hclean l hl) _
  rw [map_row_lines, Text.lines_unlines hfeed, List.map_map, List.map_map]
  exact List.map_congr_left fun l hl => ofText_indented tabWidth _ (hclean l hl)

/-- A line with content is scanned back at any column. -/
lemma lines_indented (hclean : l.row.Clean) (hblank : l.isBlank = false)
    (tabWidth column : Nat) : lines tabWidth (l.indented column) = [⟨column, l.content, 0⟩] := by
  have hne : l.indented column ≠ [] := by
    have hcontent : l.content ≠ [] := List.isEmpty_eq_false_iff.mp hblank
    simp [Line.indented, hcontent]
  have hplace : IsNumbered [⟨column, l.content, 0⟩] := rfl
  apply (isNumbered_lines _ _).eq_of_map_row_eq hplace
  rw [map_row_lines, Text.lines_of_notMem hne (Line.feed_notMem_indented hclean column),
    List.map_singleton, ofText_indented tabWidth column hclean, Line.atColumn, hblank]
  rfl

end Indented

/-- The lines of a source, each written out at its column, are scanned back as they are, whatever
the widths of tabs.  Written out at any other columns they are scanned to the same contents at the
same places, a line with content at its new column and a blank line at the head of its line; and so
is a line with content by itself. -/
theorem lines_reindented (tabWidth width : Nat) (source : Text) :
    let ls := lines tabWidth source
    lines width (Text.unlines (ls.map fun l => l.indented l.indent)) = ls ∧
    (∀ columnOf : Line → Nat,
      lines width (Text.unlines (ls.map fun l => l.indented (columnOf l))) =
        ls.map fun l => if l.isBlank then l else { l with indent := columnOf l }) ∧
    ∀ l ∈ ls, l.isBlank = false → ∀ column,
      lines width (l.indented column) = [⟨column, l.content, 0⟩] := by
  intro ls
  have hplaces : IsNumbered ls := isNumbered_lines tabWidth source
  have hclean : ∀ l ∈ ls, l.row.Clean := fun _ hl => clean_of_mem_lines hl
  have hany := lines_unlines_indented hplaces hclean width
  refine ⟨?_, hany, fun l hl hblank => lines_indented (hclean l hl) hblank width⟩
  rw [hany Line.indent]
  simp only [Line.atColumn_indent, List.map_id']

/-- Tabs, carriage returns and blanks at the ends of lines are not written out again.  A blank that
is neither a space nor a tab belongs to the content. -/
theorem lines_reindented_in_sample :
    let ls := lines 4 "\ta\r\n \r\n\u00a0b c \n  d".toList
    ls = [⟨4, "a".toList, 0⟩, ⟨0, [], 1⟩, ⟨0, "\u00a0b c".toList, 2⟩, ⟨2, "d".toList, 3⟩] ∧
      lines 8 "    a\n\n\u00a0b c\n  d\n".toList = ls ∧
        lines 8 " \u00a0b c".toList = [⟨1, "\u00a0b c".toList, 0⟩] := by
  intro ls
  have hls : ls = [⟨4, "a".toList, 0⟩, ⟨0, [], 1⟩, ⟨0, "\u00a0b c".toList, 2⟩,
      ⟨2, "d".toList, 3⟩] := by
    decide +kernel
  have hmem : ⟨0, "\u00a0b c".toList, 2⟩ ∈ ls := by
    rw [hls]
    decide
  obtain ⟨hback, -, hline⟩ := lines_reindented 4 8 "\ta\r\n \r\n\u00a0b c \n  d".toList
  refine ⟨hls, ?_, hline _ hmem rfl 1⟩
  exact (congrArg (lines 8) (by decide +kernel)).trans hback

end Layout

end TaggedOutline
