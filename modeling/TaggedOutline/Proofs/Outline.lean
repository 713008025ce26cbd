import TaggedOutline.Proofs.Cut
import TaggedOutline.Tree.Written

/-!
# Outlines

`outline` reads the rows of a body into descriptions, level by level: each element that `Body.cut`
finds is described by its header, and its own rows are read in the same way unless the element keeps
its body.  `Spec.document` is the description of a whole source.  No tree stands between the source
and the description; that a build makes the same is said in `Proofs.Build`.
-/

namespace TaggedOutline

namespace Spec

mutual

/-- The sketch of a description. -/
def sketch : Spec → Sketch
  | ⟨tag, _, _, name, aliases, params, _, _, _, _, _, _, _, children⟩ =>
    ⟨tag, name.toList ++ aliases, params, childSketches children⟩

/-- The sketches of the elements among the children. -/
def childSketches : List (Child Spec) → List Sketch
  | [] => []
  | child :: children => childSketch child ++ childSketches children

/-- The sketch of a child that is an element. -/
def childSketch : Child Spec → List Sketch
  | .text _ => []
  | .node s => [s.sketch]

end

/-- A description with what its header line says; a line that cannot be read is kept. -/
def withHeader (s : Spec) (header : Text) : Spec :=
  match Header.parse header with
  | some h =>
    { s with
      name := h.names.head?
      aliases := h.names.tail
      params := h.params.entries
      options := h.options.entries
      label := h.label
      parser := h.parser
      inlineCode := h.inlineCode
      bracket := s.bracket || h.bracket
      comment := h.comment }
  | none => { s with header := some header }

/-- The description of an element by its header line alone. -/
def ofHeader (st : Settings) (header : Text) (bracket : Bool) : Spec :=
  let (tag, suppressed) := Header.splitMarker st.layout.suppressMarker (Node.rawTag header)
  ({ tag, suppressed, bracket } : Spec).withHeader header

/-- Whether an element keeps its body as it is. -/
def keepsBody (st : Settings) (s : Spec) : Bool :=
  s.suppressed || s.inlineCode.isSome || st.layout.isFreeform s.tag

/-- The rows of a body as one text, if there are any. -/
def bodyText (rows : List Row) : Option Text :=
  if rows.isEmpty then none else some (Text.unlines (rows.map Row.text))

end Spec

/-! ## Bodies of items -/

namespace Body

/-- The body of an item is a part of the rows with a column taken off. -/
lemma exists_sublist_of_mem_cut {s : LayoutSettings} {rows body : List Row} {header : Text}
    {bracket : Bool} (h : Item.tag header body bracket ∈ cut s rows) :
    ∃ (column : Nat) (inner : List Row), body = inner.map (Row.outdent column) ∧
      inner.Sublist rows ∧ inner.length < rows.length := by
  have hstray : ∀ (line : Text) (items : List Item),
      Item.tag header body bracket ∈ consText line items →
        Item.tag header body bracket ∈ items := by
    intro line items hm
    cases items with
    | nil => simp [consText] at hm
    | cons item items => cases item <;> simp_all [consText]
  -- the item is the one at the head, whose body is `first`, or one of those in `rest`
  have hhead : ∀ {r : Row} {rows first rest : List Row} {items : List Item} {header' : Text}
      {column : Nat} {bracket' : Bool}, first.Sublist rows → rest.Sublist rows →
      Item.tag header body bracket ∈
        .tag header' (first.map (Row.outdent column)) bracket' :: items →
      (Item.tag header body bracket ∈ items → ∃ (column : Nat) (inner : List Row),
        body = inner.map (Row.outdent column) ∧ inner.Sublist rest ∧ inner.length < rest.length) →
      ∃ (column : Nat) (inner : List Row), body = inner.map (Row.outdent column) ∧
        inner.Sublist (r :: rows) ∧ inner.length < (r :: rows).length := by
    intro r rows first rest items header' column bracket' hfirst hrest h ih
    rcases List.mem_cons.mp h with h | h
    · obtain ⟨rfl, rfl, rfl⟩ := Item.tag.inj h
      exact ⟨_, _, rfl, hfirst.cons r, Nat.lt_succ_of_le hfirst.length_le⟩
    · obtain ⟨column, inner, hbody, hsub, hlen⟩ := ih h
      exact ⟨column, inner, hbody, (hsub.trans hrest).cons r,
        Nat.lt_succ_of_lt (Nat.lt_of_lt_of_le hlen hrest.length_le)⟩
  induction rows using cut.induct s with
  | case1 => simp at h
  | case2 r rows hr ih =>
    rw [cut_stray hr] at h
    obtain ⟨column, inner, hbody, hsub, hlen⟩ := ih (hstray _ _ h)
    exact ⟨column, inner, hbody, hsub.cons r, Nat.lt_succ_of_lt hlen⟩
  | case3 r rows hr head hbracket column ih =>
    rw [cut_bracket (by simpa using hr) hbracket] at h
    obtain ⟨close, -, hrows⟩ := enclosed_append s (headColumn rows) 0 rows
    have hfirst : (enclosed s (headColumn rows) 0 rows).1.Sublist rows := by
      conv_rhs => rw [← hrows, List.append_assoc]
      exact List.sublist_append_left _ _
    have hrest : (enclosed s (headColumn rows) 0 rows).2.Sublist rows := by
      conv_rhs => rw [← hrows]
      exact List.sublist_append_right _ _
    exact hhead hfirst hrest h ih
  | case4 r rows hr hbracket _ ih =>
    rw [cut_indented (by simpa using hr) hbracket] at h
    exact hhead (owned_isPrefix s r.indent rows).sublist (List.drop_sublist _ _) h ih

lemma length_lt_of_mem_cut {s : LayoutSettings} {rows body : List Row} {header : Text}
    {bracket : Bool} (h : Item.tag header body bracket ∈ cut s rows) :
    body.length < rows.length := by
  obtain ⟨column, inner, rfl, -, hlen⟩ := exists_sublist_of_mem_cut h
  simpa using hlen

lemma clean_of_mem_cut {s : LayoutSettings} {rows body : List Row} {header : Text}
    {bracket : Bool} (h : Item.tag header body bracket ∈ cut s rows)
    (hrows : ∀ r ∈ rows, r.Clean) : ∀ r ∈ body, r.Clean := by
  obtain ⟨column, inner, rfl, hsub, -⟩ := exists_sublist_of_mem_cut h
  intro r hr
  obtain ⟨q, hq, rfl⟩ := List.mem_map.mp hr
  exact (hrows q (hsub.subset hq)).outdent column

lemma length_lt_of_mem_parse {s : LayoutSettings} {source header body : Text} {bracket : Bool}
    (h : BodyItem.tag header body bracket ∈ parse s source) :
    (Text.rows s.tabWidth body).length < (Text.rows s.tabWidth source).length := by
  rw [parse_eq_cut] at h
  obtain ⟨item, hm, hitem⟩ := List.mem_map.mp h
  cases item with
  | text lines => simp [Item.written] at hitem
  | tag header' rows bracket' =>
    obtain ⟨rfl, rfl, rfl⟩ := BodyItem.tag.inj hitem
    rw [Text.rows_unlines _ (clean_of_mem_cut hm fun r hr => Text.clean_of_mem_rows hr)]
    exact length_lt_of_mem_cut hm

end Body

/-! ## Reading -/

/-- A description with what is read of its body, or with the body itself if it keeps that. -/
def Spec.fill (st : Settings) (s : Spec) (body : List Row) (children : List (Child Spec)) : Spec :=
  if s.keepsBody st then { s with body := Spec.bodyText body } else { s with children }

/-- What is read of the rows of a body. -/
def outline (st : Settings) (rows : List Row) : List (Child Spec) :=
  (Body.cut st.layout rows).attach.map fun
    | ⟨.text lines, _⟩ => .text (Text.unlines lines)
    | ⟨.tag header body bracket, h⟩ =>
      have := Body.length_lt_of_mem_cut h
      .node ((Spec.ofHeader st header bracket).fill st body (outline st body))
termination_by rows.length

/-- What is read of an item. -/
def Body.Item.child (st : Settings) : Body.Item → Child Spec
  | .text lines => .text (Text.unlines lines)
  | .tag header body bracket =>
    .node ((Spec.ofHeader st header bracket).fill st body (outline st body))

lemma outline_eq (st : Settings) (rows : List Row) :
    outline st rows = (Body.cut st.layout rows).map (Body.Item.child st) := by
  rw [outline]
  conv_rhs => rw [← List.attach_map_subtype_val (Body.cut st.layout rows), List.map_map]
  refine List.map_congr_left ?_
  rintro ⟨item, h⟩ -
  cases item with
  | text lines => rfl
  | tag header body bracket => rfl

/-- The description of a source. -/
def Spec.document (st : Settings) (source : Text) : Spec where
  tag := st.rootTag
  children := outline st (Text.rows st.layout.tabWidth source)

/-! ## Shapes -/

/-- The sketches of the elements that the rows of a body make. -/
def shape (st : Settings) (rows : List Row) : List Sketch := Spec.childSketches (outline st rows)

/-- The sketch of an element with given sketches of what its body makes. -/
def Spec.over (st : Settings) (s : Spec) (below : List Sketch) : Sketch :=
  ⟨s.tag, s.name.toList ++ s.aliases, s.params, if s.keepsBody st then [] else below⟩

lemma Spec.over_congr {st : Settings} {s : Spec} {below below' : List Sketch}
    (h : s.keepsBody st = false → below = below') : s.over st below = s.over st below' := by
  unfold Spec.over
  cases hkeeps : s.keepsBody st with
  | true => rfl
  | false => rw [h hkeeps]

lemma Spec.sketch_document (st : Settings) (source : Text) :
    (Spec.document st source).sketch =
      ⟨st.rootTag, [], [], shape st (Text.rows st.layout.tabWidth source)⟩ := rfl

lemma Spec.children_ofHeader (st : Settings) (header : Text) (bracket : Bool) :
    (Spec.ofHeader st header bracket).children = [] := by
  unfold Spec.ofHeader Spec.withHeader
  simp only
  split <;> rfl

lemma Spec.sketch_fill (st : Settings) {s : Spec} (hs : s.children = []) (body : List Row)
    (children : List (Child Spec)) :
    (s.fill st body children).sketch = s.over st (Spec.childSketches children) := by
  unfold Spec.fill Spec.over
  split
  · rw [Spec.sketch, hs]
    rfl
  · rw [Spec.sketch]

section Shape

variable {st : Settings} {r : Row}

lemma childSketches_consText (line : Text) (items : List Body.Item) :
    Spec.childSketches ((Body.consText line items).map (Body.Item.child st)) =
      Spec.childSketches (items.map (Body.Item.child st)) := by
  cases items with
  | nil => rfl
  | cons item items => cases item <;> rfl

lemma childSketches_tag (header : Text) (body : List Row) (bracket : Bool)
    (children : List (Child Spec)) :
    Spec.childSketches ((Body.Item.tag header body bracket).child st :: children) =
      (Spec.ofHeader st header bracket).over st (shape st body) :: Spec.childSketches children := by
  rw [Spec.childSketches, Body.Item.child, Spec.childSketch,
    Spec.sketch_fill st (Spec.children_ofHeader st _ _)]
  rfl

@[simp] lemma shape_nil : shape st [] = [] := by
  rw [shape, outline_eq, Body.cut_nil]
  rfl

lemma shape_stray (h : Body.isStray st.layout r = true) (rows : List Row) :
    shape st (r :: rows) = shape st rows := by
  rw [shape, shape, outline_eq, outline_eq, Body.cut_stray h, childSketches_consText]

lemma shape_stray_append {quiet : List Row} (h : ∀ r ∈ quiet, Body.isStray st.layout r = true)
    (rows : List Row) : shape st (quiet ++ rows) = shape st rows := by
  induction quiet with
  | nil => rfl
  | cons r quiet ih =>
    rw [List.cons_append, shape_stray (h r List.mem_cons_self),
      ih fun q hq => h q (List.mem_cons_of_mem _ hq)]

lemma shape_eq_nil {quiet : List Row} (h : ∀ r ∈ quiet, Body.isStray st.layout r = true) :
    shape st quiet = [] := by
  rw [← List.append_nil quiet, shape_stray_append h, shape_nil]

lemma shape_bracket (h : Body.isStray st.layout r = false) {header : Text}
    (hr : Body.bracketHeader? st.layout r.line = some header) (rows : List Row) :
    shape st (r :: rows) =
      (Spec.ofHeader st header true).over st (shape st
        ((Body.enclosed st.layout (Body.headColumn rows) 0 rows).1.map
          (Row.outdent (Body.headColumn rows)))) ::
        shape st (Body.enclosed st.layout (Body.headColumn rows) 0 rows).2 := by
  rw [shape, outline_eq, Body.cut_bracket h hr, List.map_cons, childSketches_tag, shape, shape,
    ← outline_eq]

lemma shape_indented (h : Body.isStray st.layout r = false)
    (hr : Body.bracketHeader? st.layout r.line = none) (rows : List Row) :
    shape st (r :: rows) =
      (Spec.ofHeader st r.content false).over st (shape st
        ((Body.owned st.layout r.indent rows).map
          (Row.outdent ((Body.contentColumn? st.layout (Body.owned st.layout r.indent rows)).getD
            0)))) ::
        shape st (Body.beyond st.layout r.indent rows) := by
  have hrest : shape st (rows.drop (Body.owned st.layout r.indent rows).length) =
      shape st (Body.beyond st.layout r.indent rows) := by
    rw [Body.drop_owned st.layout r.indent (Body.region_append_beyond st.layout r.indent rows)]
    exact shape_stray_append (fun q hq =>
      Body.isStray_of_isQuiet (Body.isQuiet_of_mem_drop_settle hq)) _
  rw [← hrest, shape, outline_eq, Body.cut_indented h hr, List.map_cons, childSketches_tag,
    ← outline_eq]
  rfl

end Shape

end TaggedOutline
