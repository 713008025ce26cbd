import TaggedOutline.Proofs.Cut

/-!
# Blocks one behind the other

A line of content at the head of its line closes an indented element and ends the text before it,
just as the end of a source does.  So a source that begins with such a line is read as if nothing
stood before it, unless a bracket is still open there: `Body.parse_append` is the main statement.
-/

namespace TaggedOutline

/-! ## Lines of two sources -/

namespace Text

/-- Behind a line feed a new line begins. -/
lemma lines_append {a : Text} (ha : ∀ c ∈ a.getLast?, c = '\n') (b : Text) :
    lines (a ++ b) = lines a ++ lines b := by
  induction a with
  | nil => rfl
  | cons c a ih =>
    have hmore : ∀ d ∈ a.getLast?, d = '\n' := by
      intro d hd
      refine ha d ?_
      rw [List.getLast?_cons, Option.mem_def.mp hd]
      rfl
    rw [List.cons_append, lines, lines, ih hmore]
    by_cases hc : c = '\n'
    · rw [if_pos hc, if_pos hc, List.cons_append]
    · have hne : a ≠ [] := by
        rintro rfl
        exact hc (ha c rfl)
      obtain ⟨line, more, hlines⟩ := List.exists_cons_of_ne_nil (lines_ne_nil hne)
      rw [if_neg hc, if_neg hc, hlines]
      rfl

end Text

namespace Layout

namespace Reading

/-- A line that is finished stays as it is. -/
lemma finished_suffix_foldl (tabWidth : Nat) (t : Text) (r : Reading) :
    r.finished <:+ (t.foldl (take tabWidth) r).finished := by
  induction t generalizing r with
  | nil => exact List.suffix_rfl
  | cons c t ih =>
    have hstep : r.finished <:+ (r.take tabWidth c).finished := by
      unfold take
      split
      · exact List.suffix_cons _ _
      · split <;> exact List.suffix_rfl
    exact hstep.trans (ih _)

/-- Behind a line feed no line has begun. -/
lemma begun_foldl {a : Text} (ha : ∀ c ∈ a.getLast?, c = '\n') (tabWidth : Nat) :
    (a.foldl (take tabWidth) {}).begun = false := by
  cases a using List.reverseRecOn with
  | nil => rfl
  | append_singleton a c =>
    obtain rfl : c = '\n' := ha c (by simp)
    rw [List.foldl_append, List.foldl_cons, List.foldl_nil, take, if_pos rfl]
    rfl

lemma finished_reverse_isPrefix_close (r : Reading) : r.finished.reverse <+: r.close := by
  rw [close, List.reverse_prefix]
  split
  · exact List.suffix_cons _ _
  · exact List.suffix_rfl

end Reading

/-- The lines of a source whose last line is ended are lines of every longer source. -/
lemma lines_isPrefix_append {a : Text} (ha : ∀ c ∈ a.getLast?, c = '\n') (tabWidth : Nat)
    (b : Text) : lines tabWidth a <+: lines tabWidth (a ++ b) := by
  have hlines : lines tabWidth a = (a.foldl (Reading.take tabWidth) {}).finished.reverse := by
    rw [lines, Reading.close, Reading.begun_foldl ha, if_neg Bool.false_ne_true]
  rw [hlines, lines, List.foldl_append]
  exact (List.reverse_prefix.mpr (Reading.finished_suffix_foldl tabWidth b _)).trans
    (Reading.finished_reverse_isPrefix_close _)

/-- What follows a source whose last line is ended is scanned by itself, places apart. -/
lemma exists_lines_append {a : Text} (ha : ∀ c ∈ a.getLast?, c = '\n') (tabWidth : Nat)
    (b : Text) :
    ∃ ls, lines tabWidth (a ++ b) = lines tabWidth a ++ ls ∧
      ls.map Line.row = Text.rows tabWidth b := by
  obtain ⟨ls, hls⟩ := lines_isPrefix_append ha tabWidth b
  refine ⟨ls, hls.symm, ?_⟩
  have hrows := congrArg (List.map Line.row) hls
  rw [List.map_append, map_row_lines, map_row_lines, Text.lines_append ha, List.map_append] at hrows
  exact List.append_cancel_left hrows

end Layout

/-! ## Bodies of two sources -/

namespace Body

open Layout (Line)

variable {s : LayoutSettings}

/-- The state after the lines of a source. -/
def State.after (s : LayoutSettings) (source : Text) : State :=
  (Layout.lines s.tabWidth source).foldl (State.line s) {}

/-- A row that opens something opens the first element. -/
lemma exists_cut_cons {r : Row} (h : isStray s r = false) (rows : List Row) :
    ∃ header body bracket items, cut s (r :: rows) = .tag header body bracket :: items := by
  cases hheader : bracketHeader? s r.line with
  | some header => exact ⟨_, _, _, _, cut_bracket h hheader rows⟩
  | none => exact ⟨_, _, _, _, cut_indented h hheader rows⟩

/-- Lines of text before a row that opens something are a text of their own. -/
lemma foldr_consText_cut {rows : List Row} (h : ∀ r ∈ rows.head?, isStray s r = false)
    (lines : List Text) :
    lines.foldr consText (cut s rows) =
      (if lines.isEmpty then [] else [.text lines]) ++ cut s rows := by
  cases rows with
  | nil => rw [cut_nil, List.append_nil, foldr_consText_nil]
  | cons r rows =>
    obtain ⟨header, body, bracket, items, hcut⟩ := exists_cut_cons (h r rfl) rows
    rw [hcut, foldr_consText_tag]

/-- Closing what is open is done once. -/
lemma current_closeTag (st : State) : (st.closeTag s).current = none := by
  unfold State.closeTag
  split
  · assumption
  · rfl

/-- A row of content at the head of a line closes what is open, if that is no bracket. -/
lemma finishFrom_closeTag {st : State} (hopen : ∀ o ∈ st.current, o.bracket = false)
    {ls : List Line}
    (hls : ∀ r ∈ (ls.map Line.row).head?, r.indent = 0 ∧ isStray s r = false) :
    finishFrom s st ls = finishFrom s (st.closeTag s) ls := by
  cases hst : st.current with
  | none => rw [State.closeTag, hst]
  | some o =>
    refine finishFrom_closed (hopen o hst) hst fun l hl => ?_
    obtain ⟨hindent, hstray⟩ := hls l.row (by rw [List.head?_map, Option.mem_def.mp hl]; rfl)
    have hquiet : isQuiet s l.row = false := (Bool.or_eq_false_iff.mp hstray).1
    have hindent' : l.indent = 0 := hindent
    simp [hquiet, hindent']

/-- Lines that begin with content at the head of a line are read by themselves, unless they begin in
a bracket. -/
lemma finishFrom_block {st : State} (hopen : ∀ o ∈ st.current, o.bracket = false)
    {ls : List Line} (hclean : ∀ r ∈ ls.map Line.row, r.Clean)
    (hls : ∀ r ∈ (ls.map Line.row).head?, r.indent = 0 ∧ isStray s r = false) :
    finishFrom s st ls = st.finish s ++ (cut s (ls.map Line.row)).map Item.written := by
  have hflush : ∀ l ∈ ls, l.isBlank = true → l.indent = 0 := fun l hl hblank =>
    (hclean l.row (List.mem_map_of_mem hl)).flush (Row.isBlank_iff.mp hblank)
  rw [finishFrom_closeTag hopen hls, State.finish]
  have hnone := current_closeTag (s := s) st
  generalize st.closeTag s = closed at hnone
  obtain ⟨items, fragment, current⟩ := closed
  obtain rfl : current = none := hnone
  rw [finishFrom_eq_cut s items fragment hflush, items_endFragment,
    foldr_consText_cut fun r hr => (hls r hr).2, List.map_append, List.append_assoc]

/-- A source is read by itself behind another one if that is empty or ends with a line feed and not
within a bracket, and if it begins with a line of content at the head of the line that is not a
closing bracket. -/
theorem parse_append (s : LayoutSettings) {a b : Text} (ha : a = [] ∨ a.getLast? = some '\n')
    (hopen : ∀ o ∈ (State.after s a).current, o.bracket = false)
    (hb : ∀ l ∈ (Layout.lines s.tabWidth b).head?, l.indent = 0 ∧ isStray s l.row = false) :
    parse s (a ++ b) = parse s a ++ parse s b := by
  have hend : ∀ c ∈ a.getLast?, c = '\n' := by
    rcases ha with rfl | hlast
    · simp
    · exact fun c hc => (Option.some.inj (hlast.symm.trans hc)).symm
  obtain ⟨ls, hlines, hrows⟩ := Layout.exists_lines_append hend s.tabWidth b
  have hclean : ∀ r ∈ ls.map Line.row, r.Clean := by
    rw [hrows]
    exact fun r hr => Text.clean_of_mem_rows hr
  have hfirst : ∀ r ∈ (ls.map Line.row).head?, r.indent = 0 ∧ isStray s r = false := by
    rw [hrows, Text.rows, ← Layout.map_row_lines, List.head?_map]
    intro r hr
    obtain ⟨l, hl, rfl⟩ := Option.map_eq_some_iff.mp hr
    exact hb l hl
  calc parse s (a ++ b)
      = finishFrom s (State.after s a) ls := by
        rw [parse, hlines, List.foldl_append]
        rfl
    _ = (State.after s a).finish s ++ (cut s (ls.map Line.row)).map Item.written :=
        finishFrom_block hopen hclean hfirst
    _ = parse s a ++ parse s b := by
        rw [hrows, ← parse_eq_cut]
        rfl

/-- An element that holds a comment and a blank line, and behind it one that opens a bracket. -/
theorem parse_append_at_bracket :
    let a := "x\n  y\n # z\n  # held\n\n".toList
    let b := "b \x7b\n  # c\n\x7d\n".toList
    a.getLast? = some '\n' ∧ (∀ o ∈ (State.after {} a).current, o.bracket = false) ∧
      (∀ l ∈ (Layout.lines 4 b).head?, l.indent = 0 ∧ isStray {} l.row = false) ∧
      parse {} (a ++ b) = parse {} a ++ parse {} b := by
  intro a b
  have ha : a.getLast? = some '\n' := by decide
  have hopen : ∀ o ∈ (State.after {} a).current, o.bracket = false := by decide +kernel
  have hb : ∀ l ∈ (Layout.lines 4 b).head?, l.indent = 0 ∧ isStray {} l.row = false := by
    decide +kernel
  exact ⟨ha, hopen, hb, parse_append {} (.inr ha) hopen hb⟩

end Body

end TaggedOutline
