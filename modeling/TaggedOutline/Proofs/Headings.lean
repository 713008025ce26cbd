import Mathlib.Order.Bounds.Basic
import TaggedOutline.Proofs.Account
import TaggedOutline.Proofs.Indentation

/-!
# Which lines are headers

The reading of a body compares a line with the open element only and forgets its column when it is
closed.  Where no line opens or closes a bracket this comes to a rule on the lines alone, however
they are indented: a line of content is a header if no earlier line of content is before it, and any
other stands in the body of the last header before it.  `Body.headings_of_indentation` is the main
statement.

The rule is read off the parts that the items are made of (`Body.Accounts`).  They are terraces:
what is in the body of an element is deeper than its header, and no header is deeper than one before
it.
-/

namespace TaggedOutline

namespace Body

variable {s : LayoutSettings} {rows : List Row} {items : List BodyItem} {parts : List Part}
  {i j k : Nat} {r q : Row}

/-! ## Accounts -/

/-- The rows are those of parts that the items are made of. -/
structure Accounts (s : LayoutSettings) (rows : List Row) (items : List BodyItem)
    (parts : List Part) : Prop where
  rows_eq : parts.flatMap Part.rows = rows
  makes : List.Forall₂ (Part.Makes s) parts items

/-- An item tells how many of the first rows its part has, if no row opens a bracket. -/
lemma Part.Makes.unique {part part' : Part} {item : BodyItem} {more more' : List Row}
    (h : part.Makes s item) (h' : part'.Makes s item)
    (hrows : part.rows ++ more = part'.rows ++ more')
    (hopen : ∀ r ∈ part.rows ++ more, bracketHeader? s r.line = none) :
    part = part' ∧ more = more' := by
  cases h with
  | @text rows t hlines =>
    cases h' with
    | @text rows' t hlines' =>
      have hlength : rows.length = rows'.length := by
        simpa using congrArg List.length (hlines.symm.trans hlines')
      obtain ⟨hsame, hmore⟩ := List.append_inj hrows hlength
      have hsame' : rows = rows' := hsame
      exact ⟨by rw [hsame'], hmore⟩
  | @element head body t hhead hbody =>
    generalize head.content = header at h'
    cases h' with
    | @element head' body' t hhead' hbody' =>
      have hlength : (head :: body).length = (head' :: body').length := by
        rw [List.length_cons, List.length_cons, hbody.length_eq, hbody'.length_eq]
      obtain ⟨hsame, hmore⟩ := List.append_inj hrows hlength
      obtain ⟨rfl, rfl⟩ := List.cons.inj hsame
      exact ⟨rfl, hmore⟩
  | @bracket head body close header t hhead =>
    have hnone := hopen head (by simp [Part.rows])
    rw [hhead] at hnone
    contradiction

/-- Where no row opens a bracket there is one account only. -/
lemma Accounts.unique {parts' : List Part} (h : Accounts s rows items parts)
    (h' : Accounts s rows items parts') (hopen : ∀ r ∈ rows, bracketHeader? s r.line = none) :
    parts = parts' := by
  obtain ⟨rfl, hmakes⟩ := h
  obtain ⟨hrows, hmakes'⟩ := h'
  induction hmakes generalizing parts' with
  | nil =>
    cases hmakes'
    rfl
  | cons hpart _ ih =>
    cases hmakes' with
    | cons hpart' hmore' =>
      simp only [List.flatMap_cons] at hrows hopen
      obtain ⟨rfl, hmore⟩ := hpart.unique hpart' hrows.symm hopen
      rw [ih (fun r hr => hopen r (List.mem_append_right _ hr)) hmore.symm hmore']

/-! ## Terraces -/

/-- The header of a part, if it has one. -/
def Part.head? : Part → Option Row
  | .text _ => none
  | .element head _ => some head
  | .bracket head _ _ => some head

/-- A part without brackets: quiet rows, or a header with a body all content of which is deeper. -/
inductive Part.IsTerrace (s : LayoutSettings) : Part → Prop
  | text {rows : List Row} (hrows : ∀ r ∈ rows, isQuiet s r = true) : IsTerrace s (.text rows)
  | element {head : Row} {body : List Row} (hhead : isQuiet s head = false)
      (hbody : ∀ q ∈ body, isQuiet s q = false → head.indent < q.indent) :
      IsTerrace s (.element head body)

/-- Parts without brackets, none with a header deeper than one before it. -/
structure AreTerraces (s : LayoutSettings) (parts : List Part) : Prop where
  each : ∀ part ∈ parts, part.IsTerrace s
  descend : (parts.filterMap Part.head?).Pairwise fun r q => q.indent ≤ r.indent

lemma heads_consRow (r : Row) (parts : List Part) :
    (Part.consRow r parts).filterMap Part.head? = parts.filterMap Part.head? := by
  unfold Part.consRow
  split <;> rfl

lemma AreTerraces.consRow (h : AreTerraces s parts) (hr : isQuiet s r = true) :
    AreTerraces s (Part.consRow r parts) where
  each := by
    unfold Part.consRow
    split
    · rename_i rows more
      obtain ⟨hfirst, hmore⟩ := List.forall_mem_cons.mp h.each
      cases hfirst with
      | text hrows =>
        exact List.forall_mem_cons.mpr ⟨.text (List.forall_mem_cons.mpr ⟨hr, hrows⟩), hmore⟩
    · exact List.forall_mem_cons.mpr ⟨.text (by simpa using hr), h.each⟩
  descend := by
    rw [heads_consRow]
    exact h.descend

/-- A header with the rows that it owns stands above terraces that are not deeper. -/
lemma AreTerraces.cons_owned (h : AreTerraces s parts) (hr : isQuiet s r = false)
    (hheads : ∀ head ∈ parts.filterMap Part.head?, head.indent ≤ r.indent) (rows : List Row) :
    AreTerraces s (.element r (owned s r.indent rows) :: parts) where
  each := by
    refine List.forall_mem_cons.mpr ⟨.element hr fun q hq hloud => ?_, h.each⟩
    exact deeper_of_mem_contents_owned (List.mem_filter.mpr ⟨hq, by simp [hloud]⟩)
  descend := List.pairwise_cons.mpr ⟨hheads, h.descend⟩

/-- Rows without brackets have an account of terraces.  No header of it is deeper than a column if
the first content is not. -/
lemma exists_terraces (hclean : ∀ r ∈ rows, r.Clean)
    (hplain : ∀ r ∈ rows, bracketHeader? s r.line = none ∧ r.content ≠ s.closeBracket)
    {column : Nat} (hfirst : ∀ q ∈ (contents s rows).head?, q.indent ≤ column) :
    ∃ parts, Accounts s rows ((cut s rows).map Item.written) parts ∧ AreTerraces s parts ∧
      ∀ head ∈ parts.filterMap Part.head?, head.indent ≤ column := by
  -- the column of an element bounds the headers behind it, so it is the column for the rest
  induction rows using cut.induct s generalizing column with
  | case1 => exact ⟨[], ⟨rfl, by simp⟩, ⟨by simp, .nil⟩, by simp⟩
  | case2 r rows hstray ih =>
    obtain ⟨hr, hmore⟩ := List.forall_mem_cons.mp hclean
    obtain ⟨⟨-, hclose⟩, hplain⟩ := List.forall_mem_cons.mp hplain
    have hquiet : isQuiet s r = true := by simpa [isStray, hclose] using hstray
    rw [contents_cons_of_quiet hquiet] at hfirst
    obtain ⟨parts, haccount, hterraces, hheads⟩ := ih hmore hplain hfirst
    refine ⟨Part.consRow r parts, ⟨?_, ?_⟩, hterraces.consRow hquiet, ?_⟩
    · rw [rows_consRow, haccount.rows_eq]
    · rw [cut_stray hstray]
      exact makes_consRow hr haccount.makes
    · rwa [heads_consRow]
  | case3 r rows hstray header hheader =>
    have hnone := (hplain r List.mem_cons_self).1
    rw [hheader] at hnone
    contradiction
  | case4 r rows hstray hheader body ih =>
    obtain ⟨-, hmore⟩ := List.forall_mem_cons.mp hclean
    obtain ⟨-, hplain⟩ := List.forall_mem_cons.mp hplain
    have hstray' : isStray s r = false := by simpa using hstray
    have hquiet : isQuiet s r = false := (Bool.or_eq_false_iff.mp hstray').1
    have hle : r.indent ≤ column :=
      hfirst r (by rw [contents_cons_of_loud hquiet, List.head?_cons]; rfl)
    obtain ⟨parts, haccount, hterraces, hheads⟩ :=
      ih (fun q hq => hmore q (List.mem_of_mem_drop hq))
        (fun q hq => hplain q (List.mem_of_mem_drop hq))
        fun q hq => le_of_mem_head?_drop_owned hq
    refine ⟨.element r body :: parts, ⟨?_, ?_⟩, hterraces.cons_owned hquiet hheads rows, ?_⟩
    · rw [List.flatMap_cons, haccount.rows_eq, Part.rows, List.cons_append,
        List.prefix_iff_eq_append.mp (owned_isPrefix s r.indent rows)]
    · rw [cut_indented hstray' hheader]
      exact .cons (.element hheader (places_body
        (fun q hq => hmore q ((owned_isPrefix s r.indent rows).subset hq)) _)) haccount.makes
    · exact List.forall_mem_cons.mpr ⟨hle, fun head hhead => (hheads head hhead).trans hle⟩

/-! ## Places in an account -/

/-- The row at a place is the header of an indented element. -/
def HeadAt (parts : List Part) (j : Nat) : Prop :=
  ∃ front head body back, parts = front ++ .element head body :: back ∧
    (front.flatMap Part.rows).length = j

/-- The row at a place `j` is in the body of the element with the header at `i`. -/
def BodyAt (parts : List Part) (i j : Nat) : Prop :=
  ∃ front head body back, parts = front ++ .element head body :: back ∧
    (front.flatMap Part.rows).length = i ∧ i < j ∧ j ≤ i + body.length

/-- Every row is in one of the parts. -/
lemma exists_part (h : (parts.flatMap Part.rows)[j]? = some r) :
    ∃ front part back i, parts = front ++ part :: back ∧
      (front.flatMap Part.rows).length + i = j ∧ part.rows[i]? = some r := by
  induction parts generalizing j with
  | nil => simp at h
  | cons part parts ih =>
    rw [List.flatMap_cons] at h
    by_cases hj : j < part.rows.length
    · rw [List.getElem?_append_left hj] at h
      exact ⟨[], part, parts, j, rfl, by simp, h⟩
    · rw [List.getElem?_append_right (by omega)] at h
      obtain ⟨front, found, back, i, rfl, hlength, hr⟩ := ih h
      refine ⟨part :: front, found, back, i, rfl, ?_, hr⟩
      rw [List.flatMap_cons, List.length_append]
      omega

/-- The header of an element stands at its place. -/
lemma getElem?_head {front back : List Part} {head : Row} {body : List Row} :
    ((front ++ Part.element head body :: back).flatMap Part.rows)[
      (front.flatMap Part.rows).length]? = some head := by
  rw [List.flatMap_append, List.flatMap_cons, List.getElem?_append_right (Nat.le_refl _)]
  simp [Part.rows]

/-- A body is behind its header. -/
lemma BodyAt.lt (h : BodyAt parts i j) : i < j := by
  obtain ⟨-, -, -, -, -, -, hij, -⟩ := h
  exact hij

/-- No row in a body is a header. -/
lemma BodyAt.not_headAt (h : BodyAt parts i j) (hik : i < k) (hkj : k ≤ j) : ¬HeadAt parts k := by
  obtain ⟨front, head, body, back, rfl, rfl, -, hj⟩ := h
  rintro ⟨front', head', body', back', hparts, rfl⟩
  have hbody : (Part.element head body).rows.length = body.length + 1 := rfl
  rcases List.append_eq_append_iff.mp hparts with ⟨more, rfl, hrest⟩ | ⟨more, rfl, hrest⟩
  · cases more with
    | nil => simp at hik
    | cons part more =>
      obtain ⟨rfl, -⟩ := List.cons.inj hrest
      rw [List.flatMap_append, List.flatMap_cons, List.length_append, List.length_append] at hkj
      omega
  · rw [List.flatMap_append, List.length_append] at hik
    omega

namespace AreTerraces

variable (h : AreTerraces s parts)
include h

/-- A row of content is a header, or it is deeper than the header whose body it is in. -/
lemma headAt_or_bodyAt (hr : (parts.flatMap Part.rows)[j]? = some r)
    (hloud : isQuiet s r = false) :
    HeadAt parts j ∨ ∃ i head, BodyAt parts i j ∧ HeadAt parts i ∧
      (parts.flatMap Part.rows)[i]? = some head ∧ isQuiet s head = false ∧
        head.indent < r.indent := by
  obtain ⟨front, part, back, n, rfl, rfl, hpart⟩ := exists_part hr
  have hmem := List.mem_of_getElem? hpart
  cases h.each part (by simp) with
  | text hrows =>
    rw [hrows r hmem] at hloud
    contradiction
  | @element head body hhead hbody =>
    cases n with
    | zero => exact .inl ⟨front, head, body, back, rfl, rfl⟩
    | succ n =>
      have hin : body[n]? = some r := hpart
      obtain ⟨hn, -⟩ := List.getElem?_eq_some_iff.mp hin
      exact .inr ⟨_, head, ⟨front, head, body, back, rfl, rfl, by omega, by omega⟩,
        ⟨front, head, body, back, rfl, rfl⟩, getElem?_head, hhead,
        hbody r (List.mem_of_getElem? hin) hloud⟩

/-- No content before a header is before it. -/
lemma le_of_headAt (hhead : HeadAt parts j) (hr : (parts.flatMap Part.rows)[j]? = some r)
    (hij : i < j) (hq : (parts.flatMap Part.rows)[i]? = some q) (hloud : isQuiet s q = false) :
    r.indent ≤ q.indent := by
  obtain ⟨front, head, body, back, rfl, rfl⟩ := hhead
  obtain rfl : head = r := Option.some.inj (getElem?_head.symm.trans hr)
  rw [List.flatMap_append, List.getElem?_append_left hij] at hq
  obtain ⟨part, hpart, hmem⟩ := List.mem_flatMap.mp (List.mem_of_getElem? hq)
  have hdescend := h.descend
  rw [List.filterMap_append, List.pairwise_append] at hdescend
  cases h.each part (List.mem_append_left _ hpart) with
  | text hrows =>
    rw [hrows q hmem] at hloud
    contradiction
  | @element head' body' hhead' hbody' =>
    have hle : head.indent ≤ head'.indent :=
      hdescend.2.2 head' (List.mem_filterMap.mpr ⟨_, hpart, rfl⟩) head (by simp [Part.head?])
    rcases List.mem_cons.mp hmem with rfl | hin
    · exact hle
    · exact hle.trans (hbody' q hin hloud).le

/-- A row of content is a header exactly if no earlier content is before it. -/
lemma headAt_iff (hr : (parts.flatMap Part.rows)[j]? = some r) (hloud : isQuiet s r = false) :
    HeadAt parts j ↔ ∀ i < j, ∀ q ∈ (parts.flatMap Part.rows)[i]?, isQuiet s q = false →
      r.indent ≤ q.indent := by
  constructor
  · intro hhead i hij q hq hq'
    exact h.le_of_headAt hhead hr hij hq hq'
  · intro hmin
    rcases h.headAt_or_bodyAt hr hloud with hhead | ⟨i, head, hbody, -, hi, hquiet, hlt⟩
    · exact hhead
    · exact absurd (hmin i hbody.lt head hi hquiet) (Nat.not_le_of_gt hlt)

/-- A row of content that is no header is in the body of the last header before it. -/
lemma exists_bodyAt (hr : (parts.flatMap Part.rows)[j]? = some r) (hloud : isQuiet s r = false)
    (hnot : ¬HeadAt parts j) :
    ∃ i, IsGreatest {k | HeadAt parts k ∧ k < j} i ∧ BodyAt parts i j := by
  obtain ⟨i, -, hbody, hhead, -⟩ := (h.headAt_or_bodyAt hr hloud).resolve_left hnot
  refine ⟨i, ⟨⟨hhead, hbody.lt⟩, fun k hk => ?_⟩, hbody⟩
  by_contra hik
  exact hbody.not_headAt (Nat.lt_of_not_le hik) hk.2.le hk.1

end AreTerraces

/-- Where no line opens or closes a bracket, the items of a body have one account, and in it a line
of content is a header exactly if its column is at most that of every earlier line of content.  Any
other line of content is in the body of the last header before it. -/
theorem headings_of_indentation (s : LayoutSettings) (source : Text)
    (hplain : ∀ l ∈ Layout.lines s.tabWidth source,
      bracketHeader? s l = none ∧ l.content ≠ s.closeBracket) :
    let rows := (Layout.lines s.tabWidth source).map Layout.Line.row
    ∃ parts, Accounts s rows (parse s source) parts ∧
      (∀ parts', Accounts s rows (parse s source) parts' → parts' = parts) ∧
      ∀ j r, rows[j]? = some r → isQuiet s r = false →
        (HeadAt parts j ↔
          ∀ i < j, ∀ q ∈ rows[i]?, isQuiet s q = false → r.indent ≤ q.indent) ∧
        (¬HeadAt parts j →
          ∃ i, IsGreatest {k | HeadAt parts k ∧ k < j} i ∧ BodyAt parts i j) := by
  intro rows
  have hrows : rows = Text.rows s.tabWidth source := Layout.map_row_lines s.tabWidth source
  have hclean : ∀ r ∈ rows, r.Clean := by
    rw [hrows]
    exact fun r hr => Text.clean_of_mem_rows hr
  have hflat : ∀ r ∈ rows, bracketHeader? s r.line = none ∧ r.content ≠ s.closeBracket := by
    intro r hr
    obtain ⟨l, hl, rfl⟩ := List.mem_map.mp hr
    exact hplain l hl
  have hfirst : ∀ q ∈ (contents s rows).head?,
      q.indent ≤ ((contents s rows).head?.map Row.indent).getD 0 := by
    intro q hq
    rw [Option.mem_def.mp hq]
    exact Nat.le_refl _
  obtain ⟨parts, haccount, hterraces, -⟩ := exists_terraces hclean hflat hfirst
  have hparse : parse s source = (cut s rows).map Item.written := by rw [parse_eq_cut, hrows]
  rw [hparse]
  refine ⟨parts, haccount, fun parts' h => h.unique haccount fun r hr => (hflat r hr).1,
    fun j r hr hloud => ?_⟩
  rw [← haccount.rows_eq] at hr ⊢
  exact ⟨hterraces.headAt_iff hr hloud, hterraces.exists_bodyAt hr hloud⟩

/-- Lines that are less and less indented, with deeper ones, a comment and a blank line between. -/
def terracedSample : Text :=
  "      a\n # c\n       b\n    d\n\n\te\n     f\n   # g\n    h\n i\n".toList

theorem headings_of_indentation_in_sample :
    (∀ l ∈ Layout.lines 4 terracedSample, bracketHeader? {} l = none ∧ l.content ≠ ['\x7d']) ∧
      ∃ parts, Accounts {} ((Layout.lines 4 terracedSample).map Layout.Line.row)
        (parse {} terracedSample) parts ∧ HeadAt parts 5 ∧ BodyAt parts 5 6 := by
  have hplain : ∀ l ∈ Layout.lines 4 terracedSample,
      bracketHeader? {} l = none ∧ l.content ≠ ['\x7d'] := by decide +kernel
  obtain ⟨parts, haccount, -, hlines⟩ := headings_of_indentation {} terracedSample hplain
  obtain ⟨hfive, -⟩ := hlines 5 ⟨4, ['e']⟩ (by decide +kernel) (by decide +kernel)
  obtain ⟨hsix, hbody⟩ := hlines 6 ⟨5, ['f']⟩ (by decide +kernel) (by decide +kernel)
  have hhead : HeadAt parts 5 := hfive.mpr (by decide +kernel)
  have hnot : ¬HeadAt parts 6 := fun h => absurd (hsix.mp h) (by decide +kernel)
  obtain ⟨i, ⟨⟨-, hi⟩, hlast⟩, hin⟩ := hbody hnot
  have hle : 5 ≤ i := hlast ⟨hhead, by omega⟩
  obtain rfl : i = 5 := by omega
  exact ⟨hplain, parts, haccount, hhead, hin⟩

end Body

end TaggedOutline
