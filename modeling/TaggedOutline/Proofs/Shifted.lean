import TaggedOutline.Proofs.Normal
import TaggedOutline.Proofs.Written

/-!
# Sources further to the right

The columns of a body matter only against each other.  If every line of a source stands `k` spaces
further to the right, the items stay what they were: `Body.parse_indentLines` is the main statement.
Behind a tab the number of spaces has to reach a stop of the tabs, or the lines do not move alike.

A row without content has no column to move, so each of the functions that `Body.cut` is made of is
followed through rows that move only where they have content (`Row.shift`).
-/

namespace TaggedOutline

/-! ## Lines behind spaces -/

namespace Text

/-- The rest of a text, with `k` spaces before every line that begins in it; the flag says whether
one begins at once. -/
def indentFrom (k : Nat) : Bool → Text → Text
  | _, [] => []
  | true, c :: rest => List.replicate k ' ' ++ c :: indentFrom k (c == '\n') rest
  | false, c :: rest => c :: indentFrom k (c == '\n') rest

/-- The text with `k` spaces before every line. -/
def indentLines (k : Nat) (t : Text) : Text := indentFrom k true t

/-- What stands before a text stands before its first line. -/
lemma lines_append_of_lines_cons {p t line : Text} {more : List Text} (hp : '\n' ∉ p)
    (h : lines t = line :: more) : lines (p ++ t) = (p ++ line) :: more := by
  induction p with
  | nil => exact h
  | cons c p ih =>
    obtain ⟨hc, hmore⟩ := not_or.mp (fun hm => hp (List.mem_cons.mpr hm))
    rw [List.cons_append, lines, if_neg fun he => hc he.symm, ih hmore]
    rfl

/-- Every line stands behind the spaces, but not the rest of a line that has begun. -/
lemma lines_indentFrom (k : Nat) (t : Text) :
    lines (indentFrom k true t) = (lines t).map (List.replicate k ' ' ++ ·) ∧
      ∀ line more, lines t = line :: more →
        lines (indentFrom k false t) = line :: more.map (List.replicate k ' ' ++ ·) := by
  -- both at once: a line feed leads from the second to the first
  induction t with
  | nil => exact ⟨rfl, by simp⟩
  | cons c t ih =>
    obtain ⟨hbegins, hgoes⟩ := ih
    have hinside : ∀ line more, lines (c :: t) = line :: more →
        lines (indentFrom k false (c :: t)) = line :: more.map (List.replicate k ' ' ++ ·) := by
      intro line more h
      rw [lines] at h
      rw [indentFrom, lines]
      by_cases hc : c = '\n'
      · rw [if_pos hc] at h ⊢
        obtain ⟨rfl, rfl⟩ := List.cons.inj h
        rw [hc, beq_self_eq_true, hbegins]
      · rw [if_neg hc] at h ⊢
        rw [beq_false_of_ne hc]
        cases hlines : lines t with
        | nil =>
          have ht : t = [] := by
            by_contra hne
            exact lines_ne_nil hne hlines
          rw [hlines] at h
          obtain ⟨rfl, rfl⟩ := List.cons.inj h
          rw [ht]
          rfl
        | cons first rest =>
          rw [hlines] at h
          obtain ⟨rfl, rfl⟩ := List.cons.inj h
          rw [hgoes first rest hlines]
    refine ⟨?_, hinside⟩
    obtain ⟨line, more, hlines⟩ := List.exists_cons_of_ne_nil (lines_ne_nil (List.cons_ne_nil c t))
    have hspaces : '\n' ∉ List.replicate k ' ' := fun hm =>
      absurd (List.eq_of_mem_replicate hm) (by decide)
    have hfirst : indentFrom k true (c :: t) =
        List.replicate k ' ' ++ indentFrom k false (c :: t) := rfl
    rw [hfirst, lines_append_of_lines_cons hspaces (hinside line more hlines), hlines,
      List.map_cons]

/-- A blank line moves too, and a line that is not ended stays so. -/
example : indentLines 2 "a\n\n b".toList = "  a\n  \n   b".toList := by decide

/-- Rows of lines behind spaces are further to the right. -/
lemma rows_indentLines {tabWidth k : Nat} {t : Text}
    (h : max tabWidth 1 ∣ k ∨ ∀ line ∈ lines t, '\t' ∉ line.takeWhile Layout.isIndent) :
    rows tabWidth (indentLines k t) = (rows tabWidth t).map (Row.shift k) := by
  rw [rows, rows, indentLines, (lines_indentFrom k t).1, List.map_map, List.map_map]
  exact List.map_congr_left fun line hline =>
    Row.ofText_indented (h.imp_right fun htab => htab line hline)

end Text

/-! ## Rows further to the right -/

namespace Row

/-- Rows keep their distances. -/
lemma outdent_add_shift (column k : Nat) (r : Row) :
    (r.shift k).outdent (column + k) = r.outdent column := by
  unfold outdent
  rw [isBlank_shift, content_shift]
  cases hblank : r.isBlank with
  | true => rfl
  | false => simp [indent_shift hblank, Nat.add_sub_add_right]

lemma map_outdent_add_shift (column k : Nat) (rows : List Row) :
    (rows.map (shift k)).map (outdent (column + k)) = rows.map (outdent column) := by
  rw [List.map_map]
  exact List.map_congr_left fun r _ => outdent_add_shift column k r

/-- A clean row without content stays where it is. -/
lemma Clean.shift_of_blank {r : Row} (h : r.Clean) (hblank : r.isBlank = true) (k : Nat) :
    r.shift k = r := by
  rw [Row.shift_of_blank hblank, ← Row.shift_of_blank hblank 0, shift_zero h]

end Row

namespace Body

variable {s : LayoutSettings} {rows : List Row}

@[simp] lemma isComment_shift (k : Nat) (r : Row) :
    isComment s (r.shift k).line = isComment s r.line := by
  simp [isComment, Row.line]

@[simp] lemma isStray_shift (k : Nat) (r : Row) : isStray s (r.shift k) = isStray s r := by
  simp [isStray]

@[simp] lemma bracketHeader?_shift (k : Nat) (r : Row) :
    bracketHeader? s (r.shift k).line = bracketHeader? s r.line :=
  bracketHeader?_congr s (Row.content_shift k r)

@[simp] lemma opens_shift (k : Nat) (r : Row) : opens s (r.shift k) = opens s r := by
  simp [opens]

lemma depthAfter_shift (depth k : Nat) (r : Row) :
    depthAfter s depth (r.shift k) = depthAfter s depth r := by
  rw [depthAfter, depthAfter, Row.content_shift, opens_shift]

lemma isLoose_shift (column k : Nat) (r : Row) :
    isLoose s (column + k) (r.shift k) = isLoose s column r := by
  cases hblank : r.isBlank with
  | true => rw [isLoose_of_blank hblank, isLoose_of_blank (by simpa using hblank)]
  | false =>
    rw [isLoose, isLoose, Row.isQuiet_shift, isComment_shift, Row.indent_shift hblank]
    simp

lemma closes_shift {r : Row} (hr : r.Clean) (column depth k : Nat) :
    closes s (column + k) depth (r.shift k) = closes s column depth r := by
  cases hblank : r.isBlank with
  | true =>
    have hindent : r.indent = 0 := hr.flush (Row.isBlank_iff.mp hblank)
    rw [hr.shift_of_blank hblank, closes, closes, hindent]
    simp
  | false =>
    rw [closes, closes, Row.content_shift, Row.indent_shift hblank]
    simp

/-! ## Indented elements -/

lemma region_shift (column k : Nat) (rows : List Row) :
    region s (column + k) (rows.map (Row.shift k)) = (region s column rows).map (Row.shift k) := by
  have htakes : ((fun r : Row => isQuiet s r || decide (column + k < r.indent)) ∘ Row.shift k) =
      fun r : Row => isQuiet s r || decide (column < r.indent) := by
    funext r
    cases hblank : r.isBlank with
    | true => simp [isQuiet, hblank]
    | false => simp [Row.indent_shift hblank]
  rw [region, region, List.takeWhile_map, htakes]

lemma settle_shift (k : Nat) (rows : List Row) :
    settle s (rows.map (Row.shift k)) = (settle s rows).map (Row.shift k) := by
  rw [settle, settle, Row.contentColumn?_shift]
  cases contentColumn? s rows with
  | none => rfl
  | some column =>
    have hloose : isLoose s (column + k) ∘ Row.shift k = isLoose s column :=
      funext fun r => isLoose_shift column k r
    rw [Option.map_some]
    simp only [rdropWhile_map, hloose]

lemma owned_shift (column k : Nat) (rows : List Row) :
    owned s (column + k) (rows.map (Row.shift k)) = (owned s column rows).map (Row.shift k) := by
  rw [owned, region_shift, settle_shift, owned]

/-- The body of an indented element stays as it is. -/
lemma outdent_owned_shift (column k : Nat) (rows : List Row) :
    let body := owned s column rows
    (body.map (Row.shift k)).map
        (Row.outdent ((contentColumn? s (body.map (Row.shift k))).getD 0)) =
      body.map (Row.outdent ((contentColumn? s body).getD 0)) := by
  intro body
  rw [Row.contentColumn?_shift]
  cases hcolumn : contentColumn? s body with
  | none =>
    have hnone : body = [] := owned_eq_nil hcolumn
    rw [hnone]
    rfl
  | some c => exact Row.map_outdent_add_shift c k body

/-! ## Brackets -/

lemma enclosed_shift (hclean : ∀ r ∈ rows, r.Clean) (column depth k : Nat) :
    enclosed s (column + k) depth (rows.map (Row.shift k)) =
      ((enclosed s column depth rows).1.map (Row.shift k),
        (enclosed s column depth rows).2.map (Row.shift k)) := by
  induction rows generalizing depth with
  | nil => rfl
  | cons r rows ih =>
    obtain ⟨hr, hmore⟩ := List.forall_mem_cons.mp hclean
    rw [List.map_cons, enclosed, enclosed, closes_shift hr, depthAfter_shift, ih hmore]
    split
    · rfl
    · rfl

lemma headColumn_shift (h : ∃ r ∈ rows, r.isBlank = false) (k : Nat) :
    headColumn (rows.map (Row.shift k)) = headColumn rows + k := by
  obtain ⟨r, hr, hblank⟩ := exists_find?_of_full h
  have hfirst : (fun r : Row => !r.isBlank) ∘ Row.shift k = fun r => !r.isBlank :=
    funext fun r => by simp
  rw [headColumn, headColumn, List.find?_map, hfirst, hr]
  exact Row.indent_shift hblank

/-- The body of a bracket stays as it is, and what is behind the bracket moves. -/
lemma enclosed_headColumn_shift (hclean : ∀ r ∈ rows, r.Clean) (k : Nat) :
    let moved := rows.map (Row.shift k)
    (enclosed s (headColumn moved) 0 moved).1.map (Row.outdent (headColumn moved)) =
        (enclosed s (headColumn rows) 0 rows).1.map (Row.outdent (headColumn rows)) ∧
      (enclosed s (headColumn moved) 0 moved).2 =
        (enclosed s (headColumn rows) 0 rows).2.map (Row.shift k) := by
  intro moved
  by_cases hfull : ∃ r ∈ rows, r.isBlank = false
  · rw [headColumn_shift hfull, enclosed_shift hclean]
    exact ⟨Row.map_outdent_add_shift _ k _, rfl⟩
  · have hstays : ∀ part : List Row, (∀ r ∈ part, r ∈ rows) → part.map (Row.shift k) = part := by
      intro part hpart
      conv_rhs => rw [← List.map_id part]
      refine List.map_congr_left fun r hr => (hclean r (hpart r hr)).shift_of_blank ?_ k
      by_contra hblank
      exact hfull ⟨r, hpart r hr, Bool.eq_false_iff.mpr hblank⟩
    have hmoved : moved = rows := hstays rows fun _ hr => hr
    rw [hmoved]
    exact ⟨rfl, (hstays _ fun _ hr => (enclosed_suffix s _ _ rows).subset hr).symm⟩

/-! ## Bodies -/

/-- Rows further to the right are cut into the same items. -/
lemma cut_shift (hclean : ∀ r ∈ rows, r.Clean) (k : Nat) :
    cut s (rows.map (Row.shift k)) = cut s rows := by
  induction rows using cut.induct s with
  | case1 => rfl
  | case2 r rows hr ih =>
    obtain ⟨-, hmore⟩ := List.forall_mem_cons.mp hclean
    rw [List.map_cons, cut_stray ((isStray_shift k r).trans hr), cut_stray hr, Row.content_shift,
      ih hmore]
  | case3 r rows hr header hheader column ih =>
    obtain ⟨-, hmore⟩ := List.forall_mem_cons.mp hclean
    have hstray : isStray s r = false := by simpa using hr
    obtain ⟨hbody, hrest⟩ := enclosed_headColumn_shift (s := s) hmore k
    rw [List.map_cons, cut_bracket ((isStray_shift k r).trans hstray)
      ((bracketHeader?_shift k r).trans hheader), cut_bracket hstray hheader, hbody, hrest,
      ih fun q hq => hmore q ((enclosed_suffix s _ _ rows).subset hq)]
  | case4 r rows hr hheader body ih =>
    obtain ⟨-, hmore⟩ := List.forall_mem_cons.mp hclean
    have hstray : isStray s r = false := by simpa using hr
    have hblank : r.isBlank = false :=
      (Bool.or_eq_false_iff.mp (Bool.or_eq_false_iff.mp hstray).1).1
    rw [List.map_cons, cut_indented ((isStray_shift k r).trans hstray)
      ((bracketHeader?_shift k r).trans hheader), cut_indented hstray hheader,
      Row.indent_shift hblank, owned_shift, outdent_owned_shift, Row.content_shift,
      List.length_map, ← List.map_drop, ih fun q hq => hmore q (List.mem_of_mem_drop hq)]

/-- A source is read as before if every line of it stands `k` spaces further to the right, where `k`
is a multiple of the tab width or no line has a tab in its indentation. -/
theorem parse_indentLines (s : LayoutSettings) (source : Text) {k : Nat}
    (hk : max s.tabWidth 1 ∣ k ∨
      ∀ line ∈ Text.lines source, '\t' ∉ line.takeWhile Layout.isIndent) :
    parse s (Text.indentLines k source) = parse s source := by
  rw [parse_eq_cut, parse_eq_cut, Text.rows_indentLines hk,
    cut_shift fun r hr => Text.clean_of_mem_rows hr]

/-- Tabs behind eight spaces, and three spaces where there is no tab. -/
theorem parse_indentLines_in_sample :
    let tabs := "a\n \tb\n\n\t  # c\nd \x7b\n # e\n\t\x7d\n\x7d\n".toList
    let spaces := "\n  a\n # b\n    c\n   d\n".toList
    (max ({} : LayoutSettings).tabWidth 1 ∣ 8 ∧
      parse {} (Text.indentLines 8 tabs) = parse {} tabs) ∧
    (∀ line ∈ Text.lines spaces, '\t' ∉ line.takeWhile Layout.isIndent) ∧
      parse {} (Text.indentLines 3 spaces) = parse {} spaces := by
  intro tabs spaces
  have hstops : max ({} : LayoutSettings).tabWidth 1 ∣ 8 := by decide
  have hspaces : ∀ line ∈ Text.lines spaces, '\t' ∉ line.takeWhile Layout.isIndent := by
    decide +kernel
  exact ⟨⟨hstops, parse_indentLines {} tabs (.inl hstops)⟩, hspaces,
    parse_indentLines {} spaces (.inr hspaces)⟩

end Body

end TaggedOutline
