import TaggedOutline.Proofs.Depth

/-!
# Bracket bodies by themselves

Which lines an element with a bracket owns is decided by a counter alone: it goes up at a line that
opens a bracket and down at one that closes a bracket, and it looks at no column.  Columns matter
for the line that closes the element, which may not be deeper than the first line of the body, and
for what is taken off the lines of the body.  `Body.parse_nested` is the main statement: an element
whose lines are nested in this sense is read from these lines, and what follows is read by itself.
-/

namespace TaggedOutline

namespace Body

variable {s : LayoutSettings}

/-! ## The counter -/

/-- The number of brackets that are open after some rows, from a number that is open before them.
There is none if a row closes a bracket while none is open. -/
def openAfter? (s : LayoutSettings) : Nat → List Row → Option Nat
  | depth, [] => some depth
  | depth, r :: rows =>
    if r.content = s.closeBracket then
      if depth = 0 then none else openAfter? s (depth - 1) rows
    else openAfter? s (if opens s r then depth + 1 else depth) rows

/-- Rows are nested if each closing one closes a bracket that was opened among them and each bracket
that is opened among them is closed. -/
def IsNested (s : LayoutSettings) (rows : List Row) : Prop := openAfter? s 0 rows = some 0

instance (s : LayoutSettings) (rows : List Row) : Decidable (IsNested s rows) :=
  inferInstanceAs (Decidable (openAfter? s 0 rows = some 0))

/-- Where the counter goes through, a bracket around the rows takes them all, whatever its column,
and counts the same. -/
lemma enclosed_of_openAfter? {depth after : Nat} {rows : List Row}
    (h : openAfter? s depth rows = some after) (column : Nat) :
    enclosed s column depth rows = (rows, []) ∧ depthFrom s depth rows = after := by
  induction rows generalizing depth with
  | nil => exact ⟨rfl, Option.some.inj h⟩
  | cons r rows ih =>
    by_cases hclose : r.content = s.closeBracket
    · rw [openAfter?, if_pos hclose] at h
      split at h
      · simp at h
      · rename_i hopen
        have hdepth : depthAfter s depth r = depth - 1 := by simp [depthAfter, hclose]
        obtain ⟨htake, hafter⟩ := ih h
        rw [enclosed, if_neg (by simp [closes, hopen]), depthFrom_cons, hdepth, htake]
        exact ⟨rfl, hafter⟩
    · rw [openAfter?, if_neg hclose] at h
      have hdepth : depthAfter s depth r = if opens s r then depth + 1 else depth := by
        simp [depthAfter, hclose]
      obtain ⟨htake, hafter⟩ := ih h
      rw [enclosed, if_neg (by simp [closes, hclose]), depthFrom_cons, hdepth, htake]
      exact ⟨rfl, hafter⟩

/-! ## The column of a body -/

/-- A column that is not deeper than the first row of content is not deeper than the body, also
where rows follow: without content in front of it the closing row itself fixes the column. -/
lemma le_headColumn_append {close : Row} {rows : List Row} (hcontent : close.isBlank = false)
    (h : ∀ first ∈ rows.find? fun q => !q.isBlank, close.indent ≤ first.indent)
    (rest : List Row) : close.indent ≤ headColumn (rows ++ close :: rest) := by
  rw [headColumn, List.find?_append]
  cases hfirst : rows.find? fun q => !q.isBlank with
  | some first => exact h first hfirst
  | none => simp [hcontent]

/-- The rows of a body are written alike from the column of the body alone and from that of the body
with the rows behind it. -/
lemma map_outdent_headColumn_append (rows rows' : List Row) :
    rows.map (Row.outdent (headColumn (rows ++ rows'))) =
      rows.map (Row.outdent (headColumn rows)) := by
  by_cases hfull : ∃ q ∈ rows, q.isBlank = false
  · rw [headColumn_append hfull]
  · refine List.map_congr_left fun q hq => ?_
    have hblank : q.isBlank = true := by
      by_contra hcontent
      exact hfull ⟨q, hq, Bool.eq_false_iff.mpr hcontent⟩
    simp [Row.outdent, hblank]

/-! ## The element -/

/-- A row that opens a bracket is not stray, unless it is the closing bracket too. -/
lemma isStray_of_opens {r : Row} (h : opens s r = true) (hclose : r.content ≠ s.closeBracket) :
    isStray s r = false := by
  have hquiet : isQuiet s r = false := by
    by_contra hquiet
    rw [opens_of_isQuiet (Bool.not_eq_false _ ▸ hquiet)] at h
    exact Bool.false_ne_true h
  simp [isStray, hquiet, hclose]

/-- An element with a bracket owns the nested rows up to a closing one that is not deeper than the
first of them. -/
lemma cut_nested {r close : Row} {rows : List Row} {header : Text} (hstray : isStray s r = false)
    (hheader : bracketHeader? s r.line = some header) (hrows : IsNested s rows)
    (hclose : close.content = s.closeBracket) (hcontent : close.isBlank = false)
    (hcolumn : ∀ first ∈ rows.find? fun q => !q.isBlank, close.indent ≤ first.indent)
    (rest : List Row) :
    cut s (r :: (rows ++ close :: rest)) =
      .tag header (rows.map (Row.outdent (headColumn rows))) true :: cut s rest := by
  obtain ⟨htake, hdepth⟩ :=
    enclosed_of_openAfter? hrows (headColumn (rows ++ close :: rest))
  have hcloses :
      closes s (headColumn (rows ++ close :: rest)) (depthFrom s 0 rows) close = true := by
    simpa [closes, hclose, hdepth] using le_headColumn_append hcontent hcolumn rest
  rw [cut_bracket hstray hheader, enclosed_closed htake hcloses, map_outdent_headColumn_append]

/-- Read with the default settings, a line that opens a bracket owns the lines behind it up to a
closing bracket that is not deeper than the first line of content among them, wherever the others
stand, provided that they are nested.  Each line of the body is written without the column of that
first one, and the lines behind the closing bracket are read by themselves. -/
theorem parse_nested {source rest header : Text} {r close : Row} {rows : List Row}
    (hlines : Text.rows 4 source = r :: (rows ++ close :: Text.rows 4 rest))
    (hheader : bracketHeader? {} r.line = some header) (hrows : IsNested {} rows)
    (hclose : close.content = LayoutSettings.closeBracket {})
    (hcolumn : ∀ first ∈ rows.find? fun q => !q.isBlank, close.indent ≤ first.indent) :
    parse {} source =
      .tag header (Text.unlines (rows.map fun q => (q.outdent (headColumn rows)).text)) true ::
        parse {} rest := by
  have hbrace : r.content ≠ LayoutSettings.closeBracket {} := by
    intro hbrace
    have hnone : bracketHeader? {} r.line = bracketHeader? {} ⟨0, ['\x7d'], 0⟩ :=
      bracketHeader?_congr {} hbrace
    rw [hheader] at hnone
    exact Option.some_ne_none header (hnone.trans (by decide))
  have hstray : isStray {} r = false :=
    isStray_of_opens (by rw [opens, hheader, Option.isSome_some]) hbrace
  have hcontent : close.isBlank = false := by simp [Row.isBlank, hclose]
  rw [parse_eq_cut, parse_eq_cut, hlines,
    cut_nested hstray hheader hrows hclose hcontent hcolumn, List.map_cons, Item.written,
    List.map_map]
  rfl

/-- The lines of the body stand before and behind its column and also before the header, with
brackets that are quoted, commented out and nested; a blank line and a comment come first. -/
theorem parse_nested_across_columns :
    let body : List Row :=
      [⟨0, []⟩, ⟨4, "# b \x7b".toList⟩, ⟨0, "x \"\x7b\"".toList⟩, ⟨0, "y 1 \x7b # \x7d".toList⟩,
        ⟨6, "z".toList⟩, ⟨6, "\x7d".toList⟩, ⟨1, "w \x7bx\x7d".toList⟩]
    let source :=
      ("  a \"\x7b\" \x7b # c\n\n    # b \x7b\nx \"\x7b\"\ny 1 \x7b # \x7d\n\t  z\n" ++
        "      \x7d\n w \x7bx\x7d\n  \x7d \n     d\n   e").toList
    Text.rows 4 source = ⟨2, "a \"\x7b\" \x7b # c".toList⟩ ::
        (body ++ ⟨2, "\x7d".toList⟩ :: Text.rows 4 "     d\n   e".toList) ∧
      IsNested {} body ∧
      parse {} source = .tag "a \"\x7b\" # c".toList
        "\n# b \x7b\nx \"\x7b\"\ny 1 \x7b # \x7d\n  z\n  \x7d\nw \x7bx\x7d\n".toList true ::
          parse {} "     d\n   e".toList := by
  intro body source
  have hlines : Text.rows 4 source = ⟨2, "a \"\x7b\" \x7b # c".toList⟩ ::
      (body ++ ⟨2, "\x7d".toList⟩ :: Text.rows 4 "     d\n   e".toList) := by decide +kernel
  have hbody : IsNested {} body := by decide +kernel
  exact ⟨hlines, hbody, parse_nested hlines (by decide +kernel) hbody rfl (by decide)⟩

end Body

end TaggedOutline
