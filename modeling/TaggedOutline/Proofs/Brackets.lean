import TaggedOutline.Proofs.Build
import TaggedOutline.Proofs.Depth
import TaggedOutline.Proofs.Header.Opening

/-!
# Round trips with brackets

What is read, written and read again has the same sketch if every element with a bracket is written
as one (`Spec.IsClosed`): its head has to open the bracket, and only the row behind its body may
close it.  A closing bracket that was read as text is written as it stands, and inside a bracket it
closes that.  `Setup.round_trip_sketch` is the main statement.
-/

namespace TaggedOutline

open Header (Reopens headRow)

/-! ## Rows that go on at the head of the line -/

namespace Body

variable {st : Settings} {r : Row} {rows rows' : List Row}

/-- What comes first stands at the head of its line, up to the first content. -/
def Flush (rows : List Row) : Prop :=
  ∀ r ∈ region {} 0 rows, isQuiet {} r = true ∧ r.indent = 0

lemma flush_nil : Flush [] := by
  simp [Flush, region]

lemma flush_cons (hindent : r.indent = 0) (h : Flush rows) : Flush (r :: rows) := by
  unfold Flush region
  by_cases hquiet : isQuiet {} r = true
  · rw [List.takeWhile_cons_of_pos (by simp [hquiet])]
    exact List.forall_mem_cons.mpr ⟨⟨hquiet, hindent⟩, h⟩
  · rw [List.takeWhile_cons_of_neg (by simp [hquiet, hindent])]
    simp

lemma flush_cons_of_loud (hindent : r.indent = 0) (hloud : isQuiet {} r = false)
    (rows : List Row) : Flush (r :: rows) := by
  unfold Flush region
  rw [List.takeWhile_cons_of_neg (by simp [hloud, hindent])]
  simp

lemma flush_append (h : ∀ r ∈ rows, r.indent = 0) (h' : Flush rows') : Flush (rows ++ rows') := by
  induction rows with
  | nil => exact h'
  | cons r rows ih =>
    obtain ⟨hr, hrows⟩ := List.forall_mem_cons.mp h
    exact flush_cons hr (ih hrows)

/-- The first row of some kind stands at the head of its line, if no content comes before it. -/
lemma Flush.indent_find? (h : Flush rows) {p : Row → Bool}
    (hp : ∀ r, isQuiet {} r = false → p r = true) (hfirst : rows.find? p = some r) :
    r.indent = 0 := by
  induction rows with
  | nil => simp at hfirst
  | cons q rows ih =>
    have hhead : q.indent = 0 := by
      by_cases hquiet : isQuiet {} q = true
      · exact (h q (by simp [region, hquiet])).2
      · by_contra hindent
        have hloud := (h q (by simp [region, Nat.pos_of_ne_zero hindent])).1
        exact hquiet hloud
    by_cases hq : p q = true
    · rw [List.find?_cons_of_pos hq] at hfirst
      rwa [← Option.some.inj hfirst]
    · have hquiet : isQuiet {} q = true := by
        by_contra hloud
        exact hq (hp q (Bool.eq_false_iff.mpr hloud))
      rw [List.find?_cons_of_neg hq] at hfirst
      refine ih (fun x hx => h x ?_) hfirst
      unfold region at hx ⊢
      rw [List.takeWhile_cons_of_pos (by simp [hquiet])]
      exact List.mem_cons_of_mem q hx

lemma Flush.shape_beyond (h : Flush rows) : shape {} (beyond {} 0 rows) = shape {} rows := by
  conv_rhs => rw [← region_append_beyond {} 0 rows]
  exact (shape_stray_append (fun r hr => isStray_of_isQuiet (h r hr).1) _).symm

/-! ## Elements that are written one level deeper -/

lemma Flush.contentColumn?_shift (h : Flush rows) {column : Nat}
    (hcolumn : contentColumn? {} (rows.map (Row.shift 4)) = some column) : column = 4 := by
  rw [Row.contentColumn?_shift] at hcolumn
  obtain ⟨indent, hindent, rfl⟩ := Option.map_eq_some_iff.mp hcolumn
  obtain ⟨r, hr, rfl⟩ := Option.map_eq_some_iff.mp hindent
  rw [h.indent_find? (fun q hq => by simpa using hq) hr]

/-- What settles of rows one level deeper has their shape. -/
lemma shape_settle_shift (hclean : ∀ r ∈ rows, r.Clean) (h : Flush rows) :
    shape {} ((settle {} (rows.map (Row.shift 4))).map
      (Row.outdent ((contentColumn? {} (rows.map (Row.shift 4))).getD 0))) = shape {} rows := by
  cases hcolumn : contentColumn? {} (rows.map (Row.shift 4)) with
  | none =>
    have hquiet : ∀ r ∈ rows, isStray {} r = true := fun r hr => isStray_of_isQuiet (by
      simpa using forall_quiet_of_contentColumn?_eq_none hcolumn _ (List.mem_map_of_mem hr))
    have hnone : settle {} (rows.map (Row.shift 4)) = [] := by
      rw [settle, hcolumn]
    rw [hnone, List.map_nil, shape_nil, shape_eq_nil hquiet]
  | some column =>
    obtain rfl := h.contentColumn?_shift hcolumn
    have hloose : ∀ r ∈ (rows.map (Row.shift 4)).drop (settle {} (rows.map (Row.shift 4))).length,
        isStray ({} : Settings).layout r = true := fun r hr =>
      isStray_of_isQuiet (isQuiet_of_mem_drop_settle hr)
    rw [Option.getD_some, ← StraysVanish.outdent (straysVanish {} _) (Nat.le_refl _) hloose 4,
      settle_append_drop, Row.map_outdent_shift hclean]

/-- The shape of an element without a bracket, as it is written. -/
lemma shape_written_plain (hstray : isStray {} r = false)
    (hplain : bracketHeader? {} r.line = none) (hindent : r.indent = 0)
    (hclean : ∀ q ∈ rows, q.Clean) (hrest : Flush rows') :
    ∃ below, (Flush rows → below = shape {} rows) ∧
      shape {} (r :: (rows.map (Row.shift 4) ++ rows')) =
        (Spec.ofHeader {} r.content false).over {} below :: shape {} rows' := by
  have hnothing : beyond {} 0 (rows.map (Row.shift 4)) = [] :=
    List.dropWhile_eq_nil_iff.mpr fun q hq => Row.deep_of_mem_shift hq
  obtain ⟨hregion, hbeyond⟩ := region_append_of_beyond_nil hnothing rows'
  have hquiet : ∀ q ∈ region {} 0 rows', isStray {} q = true := fun q hq =>
    isStray_of_isQuiet (hrest q hq).1
  have hshape := @shape_indented {} r hstray hplain (rows.map (Row.shift 4) ++ rows')
  rw [hindent, hbeyond, hrest.shape_beyond, contentColumn?_owned, owned, hregion] at hshape
  refine ⟨_, fun hflush => ?_, hshape⟩
  exact (shape_settle_append (straysVanish {} _) hquiet).trans (shape_settle_shift hclean hflush)

/-- The rows of a bracket one level deeper have the shape that they have at the head of the line. -/
lemma shape_outdent_headColumn (hclean : ∀ q ∈ rows, q.Clean) (h : Flush rows) (rest : List Row) :
    shape {} ((rows.map (Row.shift 4)).map
      (Row.outdent (headColumn (rows.map (Row.shift 4) ++ rest)))) = shape {} rows := by
  by_cases hfull : ∃ q ∈ rows, q.isBlank = false
  · have hfull' : ∃ q ∈ rows.map (Row.shift 4), q.isBlank = false := by
      obtain ⟨q, hq, hblank⟩ := hfull
      exact ⟨q.shift 4, List.mem_map_of_mem hq, by simpa using hblank⟩
    have hcolumn : headColumn (rows.map (Row.shift 4)) = 4 := by
      obtain ⟨q, hq⟩ : ∃ q, rows.find? (fun q => !q.isBlank) = some q := by
        rw [← Option.isSome_iff_exists, List.find?_isSome]
        simpa using hfull
      have hblank : q.isBlank = false := by simpa using List.find?_some hq
      have hindent : q.indent = 0 := by
        refine h.indent_find? (fun x hx => ?_) hq
        simpa using (Bool.or_eq_false_iff.mp hx).1
      have hfind : (rows.map (Row.shift 4)).find? (fun q => !q.isBlank) = some (q.shift 4) := by
        have hsame : (fun q : Row => !q.isBlank) ∘ Row.shift 4 = fun q => !q.isBlank :=
          funext fun q => congrArg not (Row.isBlank_shift 4 q)
        rw [List.find?_map, hsame, hq, Option.map_some]
      rw [headColumn, hfind, Option.map_some, Option.getD_some, Row.indent_shift hblank, hindent]
    rw [headColumn_append hfull', hcolumn, Row.map_outdent_shift hclean]
  · have hquiet : ∀ q ∈ rows, isStray {} q = true := fun q hq => isStray_of_isQuiet (by
      by_contra hloud
      exact hfull ⟨q, hq, (Bool.or_eq_false_iff.mp (Bool.eq_false_iff.mpr hloud)).1⟩)
    refine Eq.trans (shape_eq_nil fun q hq => ?_) (shape_eq_nil hquiet).symm
    obtain ⟨x, hx, rfl⟩ := List.mem_map.mp hq
    obtain ⟨y, hy, rfl⟩ := List.mem_map.mp hx
    simpa [isStray] using hquiet y hy

/-- A bracket that is closed by the row behind its body is so before any other rows. -/
lemma enclosed_append_of_closed {column : Nat} {close : Row}
    (h : enclosed {} column 0 (rows ++ [close]) = (rows, [])) (rest : List Row) :
    enclosed {} column 0 (rows ++ close :: rest) = (rows, rest) := by
  rcases enclosed_cases {} column 0 (rows ++ [close]) with
    hall | ⟨before, q, behind, hrows, hbefore, hq⟩
  · have hlength := congrArg (fun taken => taken.1.length) (hall.symm.trans h)
    simp at hlength
  · have hclosed := enclosed_closed hbefore hq behind
    rw [← hrows, h] at hclosed
    obtain ⟨rfl, rfl⟩ := Prod.mk.inj hclosed
    obtain rfl : close = q := by simpa using hrows
    exact enclosed_closed hbefore hq rest

/-- The shape of an element with a bracket, as it is written. -/
lemma shape_written_bracket (hstray : isStray {} r = false) {header : Text}
    (hheader : bracketHeader? {} r.line = some header) (hclean : ∀ q ∈ rows, q.Clean) {close : Row}
    (hclose : close.isBlank = false)
    (hclosed : enclosed {} (headColumn (rows.map (Row.shift 4) ++ [close])) 0
      (rows.map (Row.shift 4) ++ [close]) = (rows.map (Row.shift 4), [])) :
    ∃ below, (Flush rows → below = shape {} rows) ∧
      shape {} (r :: (rows.map (Row.shift 4) ++ close :: rows')) =
        (Spec.ofHeader {} header true).over {} below :: shape {} rows' := by
  have hcolumn : headColumn (rows.map (Row.shift 4) ++ close :: rows') =
      headColumn (rows.map (Row.shift 4) ++ [close]) := by
    have hfull : ∃ q ∈ rows.map (Row.shift 4) ++ [close], q.isBlank = false :=
      ⟨close, by simp, hclose⟩
    rw [← headColumn_append hfull rows', List.append_assoc, List.singleton_append]
  have hshape :=
    @shape_bracket {} r hstray header hheader (rows.map (Row.shift 4) ++ close :: rows')
  rw [hcolumn, enclosed_append_of_closed hclosed rows'] at hshape
  exact ⟨_, fun hflush => shape_outdent_headColumn hclean hflush _, hshape⟩

/-! ## Items that are made of rows -/

/-- An item is made of clean rows: a text of rows that open nothing, an element of its head and of
the rows of its body. -/
def Item.IsMade : Item → Prop
  | .text lines => ∀ line ∈ lines, ∃ r : Row, r.Clean ∧ isStray {} r = true ∧ r.content = line
  | .tag header body bracket => (∀ q ∈ body, q.Clean) ∧ ∃ r : Row, r.Clean ∧ isStray {} r = false ∧
      if bracket then bracketHeader? {} r.line = some header
      else bracketHeader? {} r.line = none ∧ r.content = header

lemma isMade_consText {items : List Item} (hclean : r.Clean) (hstray : isStray {} r = true)
    (h : ∀ item ∈ items, item.IsMade) : ∀ item ∈ consText r.content items, item.IsMade := by
  have hone : ∃ q : Row, q.Clean ∧ isStray {} q = true ∧ q.content = r.content :=
    ⟨r, hclean, hstray, rfl⟩
  cases items with
  | nil => simpa [consText, Item.IsMade] using hone
  | cons item items =>
    obtain ⟨hitem, hitems⟩ := List.forall_mem_cons.mp h
    cases item with
    | tag => exact List.forall_mem_cons.mpr ⟨by simpa [Item.IsMade] using hone, h⟩
    | text lines =>
      refine List.forall_mem_cons.mpr ⟨fun line hline => ?_, hitems⟩
      rcases List.mem_cons.mp hline with rfl | hline
      · exact hone
      · exact hitem line hline

lemma isMade_of_mem_cut (hclean : ∀ r ∈ rows, r.Clean) : ∀ item ∈ cut {} rows, item.IsMade := by
  induction rows using cut.induct {} with
  | case1 => simp
  | case2 r rows hr ih =>
    obtain ⟨hfirst, hmore⟩ := List.forall_mem_cons.mp hclean
    rw [cut_stray hr]
    exact isMade_consText hfirst hr (ih hmore)
  | case3 r rows hr head hhead column ih =>
    have hstray : isStray {} r = false := by simpa using hr
    obtain ⟨hfirst, hmore⟩ := List.forall_mem_cons.mp hclean
    rw [cut_bracket hstray hhead]
    refine List.forall_mem_cons.mpr ⟨⟨fun q hq => ?_, r, hfirst, hstray, hhead⟩,
      ih fun q hq => hmore q ((enclosed_suffix _ _ _ rows).subset hq)⟩
    obtain ⟨x, hx, rfl⟩ := List.mem_map.mp hq
    exact (hmore x ((enclosed_isPrefix _ _ _ rows).subset hx)).outdent _
  | case4 r rows hr hhead _ ih =>
    have hstray : isStray {} r = false := by simpa using hr
    obtain ⟨hfirst, hmore⟩ := List.forall_mem_cons.mp hclean
    rw [cut_indented hstray hhead]
    refine List.forall_mem_cons.mpr ⟨⟨fun q hq => ?_, r, hfirst, hstray, hhead, rfl⟩,
      ih fun q hq => hmore q (List.mem_of_mem_drop hq)⟩
    obtain ⟨x, hx, rfl⟩ := List.mem_map.mp hq
    exact (hmore x ((owned_isPrefix _ _ rows).subset hx)).outdent _

end Body

/-! ## Elements that are closed -/

namespace Spec

open Body (bracketHeader? isStray enclosed headColumn Flush)

/-- An element is written as one with the same bracket: its head opens the bracket, and of the rows
that are written in it only the last one closes it. -/
structure IsClosed (s : Spec) : Prop where
  opens : (bracketHeader? {} (headRow s).line).isSome = s.hasBracket
  closes : s.hasBracket = true →
    enclosed {} (headColumn (s.bodyRows 4 ++ s.closingRows 0)) 0
      (s.bodyRows 4 ++ s.closingRows 0) = (s.bodyRows 4, [])

instance (s : Spec) : Decidable s.IsClosed :=
  decidable_of_iff ((bracketHeader? {} (headRow s).line).isSome = s.hasBracket ∧
      (s.hasBracket = true → enclosed {} (headColumn (s.bodyRows 4 ++ s.closingRows 0)) 0
        (s.bodyRows 4 ++ s.closingRows 0) = (s.bodyRows 4, [])))
    ⟨fun ⟨hopens, hcloses⟩ => ⟨hopens, hcloses⟩, fun h => ⟨h.opens, h.closes⟩⟩

/-- Children are written so that they are read with the same sketches. -/
structure Resketches (children : List (Child Spec)) : Prop where
  isLine : EveryIn IsLine children
  flush : Flush (childrenRows 0 children)
  shape : shape {} (childrenRows 0 children) = childSketches children

section Element

variable {header : Text} {body rest : List Row} {bracket : Bool}

lemma reopens_of_isMade (hmade : (Body.Item.tag header body bracket).IsMade)
    (hopens : (bracketHeader? {} (headRow (ofHeader {} header bracket)).line).isSome =
      (ofHeader {} header bracket).hasBracket) : Reopens (ofHeader {} header bracket) := by
  obtain ⟨-, r, hclean, hstray, hhead⟩ := hmade
  cases bracket with
  | true => exact Header.reopens_bracket hclean hstray hhead hopens
  | false =>
    obtain ⟨hplain, rfl⟩ := hhead
    exact Header.reopens_plain hclean hstray hplain

/-- An element that was read is written so that it is read with the same sketch. -/
lemma shape_rows_fill (hmade : (Body.Item.tag header body bracket).IsMade)
    (hclosed : ((ofHeader {} header bracket).fill {} body (outline {} body)).IsClosed)
    (hbody : (ofHeader {} header bracket).keepsBody {} = false → Resketches (outline {} body))
    (hrest : Flush rest) :
    shape {} (rows 0 ((ofHeader {} header bracket).fill {} body (outline {} body)) ++ rest) =
      ((ofHeader {} header bracket).fill {} body (outline {} body)).sketch :: shape {} rest := by
  obtain ⟨hopens, hcloses⟩ := hclosed
  have hclean := hmade.1
  rw [rows_fill header bracket hclean 0, sketch_fill {} (children_ofHeader {} header bracket)]
  rw [headRow, openingLine_fill, hasBracket_fill] at hopens
  rw [bodyRows_fill header bracket hclean, closingRows, hasBracket_fill] at hcloses
  have hreopens := reopens_of_isMade hmade hopens
  generalize ofHeader {} header bracket = s at hopens hcloses hbody hreopens ⊢
  have hagain : ∀ q ∈ s.bodyAgain body, q.Clean := by
    unfold bodyAgain
    cases hkeeps : s.keepsBody {} with
    | true => simpa using hclean
    | false => simpa using clean_childrenRows (hbody hkeeps).isLine
  have hbelow (below : List Sketch) (h : Flush (s.bodyAgain body) →
      below = shape {} (s.bodyAgain body)) : s.over {} below = s.over {} (shape {} body) := by
    refine over_congr fun hkeeps => ?_
    rw [bodyAgain, hkeeps, if_neg Bool.false_ne_true] at h
    exact (h (hbody hkeeps).flush).trans (hbody hkeeps).shape
  have hsame := hreopens.same
  rw [wrapRows, Nat.zero_add, closingRows]
  change shape {} ((headRow s).shift 0 :: _ ++ rest) = _
  rw [Row.shift_zero hreopens.clean]
  -- the opening line is read with a bracket if and only if it was written with one
  cases hb : s.hasBracket with
  | false =>
    have hplain : bracketHeader? {} (headRow s).line = none := by
      have hopens := hreopens.opens
      rw [hb] at hopens
      simpa using hopens
    obtain ⟨below, hflush, hshape⟩ :=
      Body.shape_written_plain hreopens.stray hplain hreopens.indent hagain hrest
    rw [hplain, hb, Option.getD_none] at hsame
    rw [if_neg Bool.false_ne_true, List.append_nil, List.cons_append, hshape, hsame,
      hbelow below hflush]
    rfl
  | true =>
    obtain ⟨again, hheader⟩ : ∃ again, bracketHeader? {} (headRow s).line = some again := by
      rw [← Option.isSome_iff_exists, hreopens.opens, hb]
    rw [hb, if_pos rfl] at hcloses
    obtain ⟨below, hflush, hshape⟩ :=
      Body.shape_written_bracket hreopens.stray hheader hagain rfl (hcloses rfl)
    rw [hheader, hb, Option.getD_some] at hsame
    rw [if_pos rfl, List.cons_append, List.append_assoc, List.singleton_append, hshape, hsame,
      hbelow below hflush]
    rfl

/-- What is written of it begins with its head. -/
lemma flush_rows_fill (hclean : ∀ q ∈ body, q.Clean)
    (h : Reopens (ofHeader {} header bracket)) :
    Flush (rows 0 ((ofHeader {} header bracket).fill {} body (outline {} body)) ++ rest) := by
  rw [rows_fill header bracket hclean 0, wrapRows, List.cons_append]
  change Flush ((headRow (ofHeader {} header bracket)).shift 0 :: _)
  rw [Row.shift_zero h.clean]
  exact Body.flush_cons_of_loud h.indent (Bool.or_eq_false_iff.mp h.stray).1 _

end Element

namespace Resketches

lemma text {lines : List Text} {children : List (Child Spec)}
    (hmade : (Body.Item.text lines).IsMade) (h : Resketches children) :
    Resketches ((Body.Item.text lines).child {} :: children) := by
  have hrows : childRows 0 ((Body.Item.text lines).child {}) =
      lines.map fun line => (⟨0, line⟩ : Row) := by
    apply textRows_lines
    intro line hline
    obtain ⟨r, hclean, -, rfl⟩ := hmade line hline
    exact hclean.content
  have hstray : ∀ r ∈ lines.map (fun line => (⟨0, line⟩ : Row)), isStray {} r = true := by
    intro r hr
    obtain ⟨line, hline, rfl⟩ := List.mem_map.mp hr
    obtain ⟨q, -, hq, rfl⟩ := hmade line hline
    exact hq
  refine ⟨⟨trivial, h.isLine⟩, ?_, ?_⟩
  · rw [childrenRows, hrows]
    apply Body.flush_append _ h.flush
    intro r hr
    obtain ⟨line, -, rfl⟩ := List.mem_map.mp hr
    rfl
  · rw [childrenRows, hrows, shape_stray_append hstray, h.shape]
    rfl

lemma tag {header : Text} {body : List Row} {bracket : Bool} {children : List (Child Spec)}
    (hmade : (Body.Item.tag header body bracket).IsMade)
    (hclosed : ((ofHeader {} header bracket).fill {} body (outline {} body)).IsClosed)
    (hbody : (ofHeader {} header bracket).keepsBody {} = false → Resketches (outline {} body))
    (h : Resketches children) :
    Resketches ((Body.Item.tag header body bracket).child {} :: children) := by
  have hopens := hclosed.opens
  rw [headRow, openingLine_fill, hasBracket_fill] at hopens
  have hreopens := reopens_of_isMade hmade hopens
  refine ⟨⟨every_isLine_fill hreopens.isLine fun hkeeps => (hbody hkeeps).isLine, h.isLine⟩, ?_, ?_⟩
  · rw [childrenRows, Body.Item.child, childRows]
    exact flush_rows_fill hmade.1 hreopens
  · rw [childrenRows, Body.Item.child, childRows, shape_rows_fill hmade hclosed hbody h.flush,
      h.shape]
    rfl

/-- Items are written so that they are read with the same sketches, if their bodies are. -/
lemma items {items : List Body.Item} (hmade : ∀ item ∈ items, item.IsMade)
    (hclosed : EveryIn IsClosed (items.map (Body.Item.child {})))
    (hbodies : ∀ header body bracket, Body.Item.tag header body bracket ∈ items →
      EveryIn IsClosed (outline {} body) → Resketches (outline {} body)) :
    Resketches (items.map (Body.Item.child {})) := by
  induction items with
  | nil => exact ⟨trivial, Body.flush_nil, shape_nil⟩
  | cons item items ih =>
    obtain ⟨hitem, hmore⟩ := List.forall_mem_cons.mp hmade
    have h := ih hmore hclosed.2 fun header body bracket hm =>
      hbodies header body bracket (List.mem_cons_of_mem _ hm)
    cases item with
    | text lines => exact .text hitem h
    | tag header body bracket =>
      obtain ⟨hhere, hin⟩ := every_iff.mp hclosed.1
      refine .tag hitem hhere (fun hkeeps => ?_) h
      rw [fill, hkeeps, if_neg Bool.false_ne_true] at hin
      exact hbodies header body bracket List.mem_cons_self hin

end Resketches

/-- Rows are written so that they are read with the same shape, if every element is closed. -/
lemma resketches {rows : List Row} (hclean : ∀ r ∈ rows, r.Clean)
    (hclosed : EveryIn IsClosed (outline {} rows)) : Resketches (outline {} rows) := by
  induction hn : rows.length using Nat.strong_induction_on generalizing rows with
  | _ n ih =>
    subst hn
    have hmade := Body.isMade_of_mem_cut hclean
    rw [outline_eq] at hclosed ⊢
    exact .items hmade hclosed fun header body bracket hm hin =>
      ih body.length (Body.length_lt_of_mem_cut hm) (hmade _ hm).1 hin rfl

end Spec

namespace Setup

/-- A document is built of what it is written as with the same sketch, if every element in it is
closed. -/
theorem round_trip_sketch {source : Text} {t : Tree Handler} (ht : Builds {} source t)
    (hclosed : ∀ s, t.toSpec? Tree.root = some s → Spec.EveryIn Spec.IsClosed s.children) :
    ∃ t' sketch, Builds {} (t.serialize {} Tree.root) t' ∧ t.sketch? Tree.root = some sketch ∧
      t'.sketch? Tree.root = some sketch := by
  obtain ⟨t₀, ht₀, hspec, hsketch⟩ := builds_document {} rfl source
  obtain rfl := ht.unique ht₀
  obtain ⟨t', hbuilds', -, hsketch'⟩ := builds_document {} rfl (t.serialize {} Tree.root)
  have hreturns := Spec.resketches (fun r hr => Text.clean_of_mem_rows hr) (hclosed _ hspec)
  have hrows : Text.rows 4 (t.serialize {} Tree.root) =
      Spec.childrenRows 0 (outline {} (Text.rows 4 source)) := by
    rw [Tree.serialize_document hspec, Spec.rows_writeChildren hreturns.isLine]
  have hshape : shape {} (Text.rows 4 (t.serialize {} Tree.root)) =
      shape {} (Text.rows 4 source) := by
    rw [hrows]
    exact hreturns.shape
  refine ⟨t', _, hbuilds', hsketch, ?_⟩
  rw [hsketch', Spec.sketch_document, Spec.sketch_document]
  exact congrArg (fun shape => some (Sketch.mk _ _ _ shape)) hshape

/-- Brackets in brackets, with a body that is kept and opens one, a text that closes it, and closing
brackets where no bracket is open. -/
def bracketSample : Text :=
  ("a \x7b # c\n\n    # d\n  b\n    c (k) \x7b\n      !e\n        f \x7b\n    \x7d\n" ++
    "      g\n    \x7d\n  \x7d\n\x7d\nh\n  \x7d\n  i\n").toList

theorem round_trip_sketch_in_sample :
    ∃ t t' sketch, Builds {} bracketSample t ∧ Builds {} (t.serialize {} Tree.root) t' ∧
      t.sketch? Tree.root = some sketch ∧ t'.sketch? Tree.root = some sketch := by
  obtain ⟨t, ht, hspec, -⟩ := builds_document {} rfl bracketSample
  have hclosed : Spec.EveryIn Spec.IsClosed (Spec.document {} bracketSample).children := by
    decide +kernel
  obtain ⟨t', sketch, h⟩ := round_trip_sketch ht fun s hs => by
    rw [hspec] at hs
    rwa [← Option.some.inj hs]
  exact ⟨t, t', sketch, ht, h⟩

/-- A closing bracket that is deeper than the comment at the head of its bracket is text; where it
is written it stands at the column of that comment and closes the bracket. -/
theorem text_closes_bracket :
    ∃ source t t', Builds {} source t ∧ Builds {} (t.serialize {} Tree.root) t' ∧
      t'.sketch? Tree.root ≠ t.sketch? Tree.root := by
  obtain ⟨t, ht, hspec, hsketch⟩ :=
    builds_document {} rfl "outer \x7b\n# comment\n   \x7d\nb\n\x7d\n".toList
  obtain ⟨t', ht', -, hsketch'⟩ := builds_document {} rfl (t.serialize {} Tree.root)
  refine ⟨_, t, t', ht, ht', fun he => ?_⟩
  rw [Tree.serialize_document hspec] at hsketch'
  rw [hsketch, hsketch'] at he
  have hlength := congrArg (fun s => s.children.length) (Option.some.inj he)
  revert hlength
  decide +kernel

end Setup

end TaggedOutline
