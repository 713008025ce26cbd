import Mathlib.Data.List.Forall2
import TaggedOutline.Proofs.Depth

/-!
# Accounting for lines

The items of a body account for its lines: each line goes into exactly one item, and the lines stay
in order.  A `Body.Part` is what one item accounts for, and `Body.Part.Makes` says how the item is
made of it.  `Body.parse_accounts` is the main statement.
-/

namespace TaggedOutline

namespace Body

open Layout (Line)

/-- The rows that one item of a body accounts for. -/
inductive Part where
  /-- The rows of a text. -/
  | text (rows : List Row)
  /-- The header of an indented element, and its body. -/
  | element (head : Row) (body : List Row)
  /-- The row that opens a bracket, the body, and the row that closes it, if one does. -/
  | bracket (head : Row) (body : List Row) (close : Option Row)
deriving DecidableEq, Repr

namespace Part

/-- All rows of a part, in order. -/
def rows : Part → List Row
  | text rows => rows
  | element head body => head :: body
  | bracket head body close => head :: body ++ close.toList

/-- Whether the part is a bracket with a row that closes it. -/
def isClosed : Part → Bool
  | bracket _ _ close => close.isSome
  | _ => false

/-- Whether the part is a bracket without such a row. -/
def isUnclosed : Part → Bool
  | bracket _ _ close => close.isNone
  | _ => false

/-- The contents of the rows, with the header in place of the row that opens a bracket. -/
def contents (s : LayoutSettings) : Part → List Text
  | text rows => rows.map Row.content
  | element head body => head.content :: body.map Row.content
  | bracket head body close =>
    (bracketHeader? s head.line).getD head.content ::
      (body.map Row.content ++ close.toList.map Row.content)

end Part

/-- The lines of an item: of an element the header, the lines of the body without the spaces at
their head, and the closing bracket of a closed one. -/
def listing (s : LayoutSettings) (closed : Bool) : BodyItem → List Text
  | .tag header body _ =>
    header :: ((Text.lines body).map (List.dropWhile (· == ' ')) ++
      if closed then [s.closeBracket] else [])
  | .text t => Text.lines t

/-- A line of a body with a column is a row: it has its content, behind as many spaces as the row
stands behind the column. -/
structure Places (column : Nat) (r : Row) (line : Text) : Prop where
  content : line.dropWhile (· == ' ') = r.content
  spaces : r.isBlank = false → (line.takeWhile (· == ' ')).length = r.indent - column

/-- The item that is made of a part. -/
inductive Part.Makes (s : LayoutSettings) : Part → BodyItem → Prop
  | text {rows : List Row} {t : Text} (hlines : Text.lines t = rows.map Row.content) :
      Makes s (.text rows) (.text t)
  | element {head : Row} {body : List Row} {t : Text} (hhead : bracketHeader? s head.line = none)
      (hbody : List.Forall₂ (Places ((contentColumn? s body).getD 0)) body (Text.lines t)) :
      Makes s (.element head body) (.tag head.content t false)
  | bracket {head : Row} {body : List Row} {close : Option Row} {header t : Text}
      (hhead : bracketHeader? s head.line = some header)
      (hbody : List.Forall₂ (Places (headColumn body)) body (Text.lines t))
      (hclose : ∀ r ∈ close, r.content = s.closeBracket) :
      Makes s (.bracket head body close) (.tag header t true)

/-! ## Bodies -/

lemma places_outdent {r : Row} (hr : r.Clean) (column : Nat) :
    Places column r (r.outdent column).text := by
  cases hblank : r.isBlank with
  | true =>
    have hempty : r.content = [] := Row.isBlank_iff.mp hblank
    refine ⟨?_, fun h => absurd hblank (by simp [h])⟩
    simp [Row.outdent, hblank, Row.text, hempty]
  | false =>
    have hspaces : ∀ a ∈ List.replicate (r.indent - column) ' ', (a == ' ') = true := by
      intro a ha
      rw [List.eq_of_mem_replicate ha]
      rfl
    have htext : (r.outdent column).text =
        List.replicate (r.indent - column) ' ' ++ r.content := by
      simp [Row.outdent, hblank, Row.text]
    have hbare : ∀ c ∈ r.content.head?, (c == ' ') = false := by
      intro c hc
      have hindent := hr.bare c hc
      simp only [Layout.isIndent, Bool.or_eq_false_iff, decide_eq_false_iff_not] at hindent
      exact beq_false_of_ne hindent.1
    rw [htext]
    refine ⟨dropWhile_run hspaces hbare, fun _ => ?_⟩
    rw [takeWhile_run hspaces hbare, List.length_replicate]

/-- The lines of a body are its rows. -/
lemma places_body {body : List Row} (h : ∀ r ∈ body, r.Clean) (column : Nat) :
    List.Forall₂ (Places column) body
      (Text.lines (Text.unlines ((body.map (Row.outdent column)).map Row.text))) := by
  have hfeed : ∀ l ∈ (body.map (Row.outdent column)).map Row.text, '\n' ∉ l := by
    intro l hl
    obtain ⟨q, hq, rfl⟩ := List.mem_map.mp hl
    obtain ⟨r, hr, rfl⟩ := List.mem_map.mp hq
    exact Row.feed_notMem_text ((h r hr).outdent column)
  rw [Text.lines_unlines hfeed, List.map_map, List.forall₂_map_right_iff, List.forall₂_same]
  exact fun r hr => places_outdent (h r hr) column

/-- The column of a bracket is fixed by its body, if there is anything to fix it for. -/
lemma map_outdent_headColumn (body rest : List Row) :
    body.map (Row.outdent (headColumn (body ++ rest))) =
      body.map (Row.outdent (headColumn body)) := by
  by_cases hsome : ∃ r ∈ body, r.isBlank = false
  · rw [headColumn_append hsome]
  · apply List.map_congr_left
    intro r hr
    have hblank : r.isBlank = true := by
      by_contra h
      exact hsome ⟨r, hr, by simpa using h⟩
    rw [Row.outdent, Row.outdent, if_pos hblank, if_pos hblank]

/-! ## Parts of rows -/

lemma Part.Makes.listing_eq {s : LayoutSettings} {part : Part} {item : BodyItem}
    (h : part.Makes s item) : listing s part.isClosed item = part.contents s := by
  have hbody : ∀ {column : Nat} {body : List Row} {lines : List Text},
      List.Forall₂ (Places column) body lines →
        lines.map (List.dropWhile (· == ' ')) = body.map Row.content := by
    intro column body lines hs
    induction hs with
    | nil => rfl
    | cons hr _ ih => rw [List.map_cons, List.map_cons, hr.content, ih]
  cases h with
  | text hlines => exact hlines
  | element hhead hplaces =>
    simp [listing, Part.contents, Part.isClosed, hbody hplaces]
  | @bracket head body close header t hhead hplaces hclose =>
    cases close with
    | none => simp [listing, Part.contents, Part.isClosed, hbody hplaces, hhead]
    | some r =>
      simp [listing, Part.contents, Part.isClosed, hbody hplaces, hhead, hclose r rfl]

/-- The parts with one more row of text before them. -/
def Part.consRow (r : Row) : List Part → List Part
  | .text rows :: parts => .text (r :: rows) :: parts
  | parts => .text [r] :: parts

lemma rows_consRow (r : Row) (parts : List Part) :
    (Part.consRow r parts).flatMap Part.rows = r :: parts.flatMap Part.rows := by
  unfold Part.consRow
  split
  · rfl
  · rfl

lemma makes_consRow {s : LayoutSettings} {r : Row} (hr : r.Clean) {parts : List Part}
    {items : List Item} (h : List.Forall₂ (Part.Makes s) parts (items.map Item.written)) :
    List.Forall₂ (Part.Makes s) (Part.consRow r parts)
      ((consText r.content items).map Item.written) := by
  have hlines : ∀ lines : List Text,
      Text.lines (Text.unlines (r.content :: lines)) =
        r.content :: Text.lines (Text.unlines lines) := by
    intro lines
    rw [Text.unlines_cons, Text.lines_append_newline hr.noFeed]
  have hsingle : Part.Makes s (.text [r]) (.text (Text.unlines [r.content])) := by
    apply Part.Makes.text
    rw [hlines]
    rfl
  cases items with
  | nil =>
    cases h
    exact .cons hsingle .nil
  | cons item items =>
    cases h with
    | cons hitem hitems =>
      cases item with
      | text lines =>
        cases hitem with
        | text hrows =>
          refine .cons (.text ?_) hitems
          rw [hlines, hrows]
          rfl
      | tag header body bracket =>
        cases hitem with
        | element hhead hbody => exact .cons hsingle (.cons (.element hhead hbody) hitems)
        | bracket hhead hbody hclose =>
          exact .cons hsingle (.cons (.bracket hhead hbody hclose) hitems)

/-- All but the last of some parts with one before them. -/
lemma mem_dropLast_cons {part first : Part} {parts : List Part}
    (h : part ∈ (first :: parts).dropLast) :
    (part = first ∧ parts ≠ []) ∨ part ∈ parts.dropLast := by
  cases parts with
  | nil => simp at h
  | cons second parts =>
    rw [List.dropLast_cons_of_ne_nil (List.cons_ne_nil second parts)] at h
    rcases List.mem_cons.mp h with h | h
    · exact .inl ⟨h, List.cons_ne_nil second parts⟩
    · exact .inr h

lemma unclosed_consRow {r : Row} {parts : List Part}
    (h : ∀ part ∈ parts.dropLast, part.isUnclosed = false) :
    ∀ part ∈ (Part.consRow r parts).dropLast, part.isUnclosed = false := by
  intro part hpart
  unfold Part.consRow at hpart
  split at hpart
  · rename_i rows more
    rcases mem_dropLast_cons hpart with ⟨rfl, -⟩ | hmore
    · rfl
    · cases more with
      | nil => simp at hmore
      | cons second more =>
        exact h part (by simpa [List.dropLast] using .inr hmore)
  · rcases mem_dropLast_cons hpart with ⟨rfl, -⟩ | hparts
    · rfl
    · exact h part hparts

/-- A bracket takes its body from the front of the rows, and the row behind it closes it. -/
lemma exists_close (s : LayoutSettings) (column : Nat) (rows : List Row) :
    ∃ close : Option Row,
      rows = (enclosed s column 0 rows).1 ++ close.toList ++ (enclosed s column 0 rows).2 ∧
        (∀ r ∈ close, r.content = s.closeBracket) ∧
        (close = none → (enclosed s column 0 rows).2 = []) := by
  rcases enclosed_cases s column 0 rows with h | ⟨before, r, behind, rfl, hbefore, hr⟩
  · exact ⟨none, by simp [h], by simp, fun _ => by rw [h]⟩
  · have hclose : r.content = s.closeBracket := by
      simp only [closes, Bool.and_eq_true, beq_iff_eq] at hr
      exact hr.1.1
    rw [enclosed_closed hbefore hr]
    exact ⟨some r, by simp, by simpa using hclose, by simp⟩

/-- The rows of a body are those of parts that its items are made of. -/
lemma exists_parts (s : LayoutSettings) {rows : List Row} (h : ∀ r ∈ rows, r.Clean) :
    ∃ parts : List Part, parts.flatMap Part.rows = rows ∧
      List.Forall₂ (Part.Makes s) parts ((cut s rows).map Item.written) ∧
      ∀ part ∈ parts.dropLast, part.isUnclosed = false := by
  induction rows using cut.induct s with
  | case1 => exact ⟨[], rfl, by simp, by simp⟩
  | case2 r rows hstray ih =>
    obtain ⟨parts, hrows, hmakes, hlast⟩ := ih fun q hq => h q (List.mem_cons_of_mem _ hq)
    rw [cut_stray hstray]
    refine ⟨Part.consRow r parts, ?_, makes_consRow (h r List.mem_cons_self) hmakes,
      unclosed_consRow hlast⟩
    rw [rows_consRow, hrows]
  | case3 r rows hstray header hheader column ih =>
    have hclean : ∀ q ∈ rows, q.Clean := fun q hq => h q (List.mem_cons_of_mem _ hq)
    obtain ⟨close, hsplit, hclose, hnone⟩ := exists_close s column rows
    obtain ⟨parts, hrows, hmakes, hlast⟩ :=
      ih fun q hq => hclean q ((enclosed_suffix s column 0 rows).subset hq)
    rw [cut_bracket (Bool.eq_false_iff.mpr hstray) hheader]
    refine ⟨.bracket r (enclosed s column 0 rows).1 close :: parts, ?_,
      .cons (.bracket hheader ?_ hclose) hmakes, ?_⟩
    · rw [List.flatMap_cons, hrows, Part.rows]
      conv_rhs => rw [hsplit]
      simp
    -- the column is read off all rows behind the header, but outdents the body as its own would
    · have hcolumn : column =
          headColumn ((enclosed s column 0 rows).1 ++
            (close.toList ++ (enclosed s column 0 rows).2)) := by
        rw [← List.append_assoc, ← hsplit]
      have hbody : ∀ q ∈ (enclosed s column 0 rows).1, q.Clean := fun q hq =>
        hclean q ((enclosed_isPrefix s column 0 rows).subset hq)
      have hplaces := places_body hbody (headColumn (enclosed s column 0 rows).1)
      rw [← map_outdent_headColumn _ (close.toList ++ (enclosed s column 0 rows).2),
        ← hcolumn] at hplaces
      exact hplaces
    · intro part hpart
      rcases mem_dropLast_cons hpart with ⟨rfl, hne⟩ | hpart
      · cases close with
        | some q => rfl
        -- a bracket that is not closed takes all rows, so nothing stands behind it
        | none =>
          rw [hnone rfl, cut_nil] at hmakes
          cases hmakes
          exact absurd rfl hne
      · exact hlast part hpart
  | case4 r rows hstray hheader body ih =>
    have hclean : ∀ q ∈ rows, q.Clean := fun q hq => h q (List.mem_cons_of_mem _ hq)
    obtain ⟨parts, hrows, hmakes, hlast⟩ :=
      ih fun q hq => hclean q ((List.drop_suffix _ _).subset hq)
    rw [cut_indented (Bool.eq_false_iff.mpr hstray) hheader]
    refine ⟨.element r body :: parts, ?_, .cons (.element hheader ?_) hmakes, ?_⟩
    · rw [List.flatMap_cons, hrows, Part.rows, List.cons_append,
        List.prefix_iff_eq_append.mp (owned_isPrefix s r.indent rows)]
    · exact places_body (fun q hq => hclean q ((owned_isPrefix s r.indent rows).subset hq)) _
    · intro part hpart
      rcases mem_dropLast_cons hpart with ⟨rfl, -⟩ | hpart
      · rfl
      · exact hlast part hpart

/-- The reading of a body loses no line, takes none twice and leaves them in order: the lines are
those of parts that the items are made of, and the items list the contents of these, with the header
in place of the line that opens a bracket.  Only a bracket at the very end is not closed. -/
theorem parse_accounts (s : LayoutSettings) (source : Text) :
    ∃ parts : List Part,
      parts.flatMap Part.rows = (Layout.lines s.tabWidth source).map Line.row ∧
      List.Forall₂ (Part.Makes s) parts (parse s source) ∧
      (List.zipWith (fun part item => listing s part.isClosed item) parts
        (parse s source)).flatten = parts.flatMap (Part.contents s) ∧
      ∀ part ∈ parts.dropLast, part.isUnclosed = false := by
  have hclean : ∀ r ∈ (Layout.lines s.tabWidth source).map Line.row, r.Clean := by
    rw [Layout.map_row_lines]
    exact fun r hr => Text.clean_of_mem_rows hr
  obtain ⟨parts, hrows, hmakes, hlast⟩ := exists_parts s hclean
  have hparse : parse s source =
      (cut s ((Layout.lines s.tabWidth source).map Line.row)).map Item.written := by
    rw [parse_eq_cut, Layout.map_row_lines, Text.rows]
  rw [← hparse] at hmakes
  refine ⟨parts, hrows, hmakes, ?_, hlast⟩
  generalize parse s source = items at hmakes
  clear hrows hlast hparse hclean
  induction hmakes with
  | nil => rfl
  | cons hpart _ ih =>
    rw [List.zipWith_cons_cons, List.flatten_cons, List.flatMap_cons, hpart.listing_eq, ih]

end Body

end TaggedOutline
