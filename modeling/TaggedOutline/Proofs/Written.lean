import TaggedOutline.Proofs.Outline

/-!
# The rows of written outlines

A description is written as text, and the text is read back as rows.  `Spec.rows` gives these rows
from the description itself, with the settings of the library; `Spec.rows_writeChildren` says that
they are the rows of the written text.
-/

namespace TaggedOutline

/-! ## Rows further to the right -/

namespace Layout

/-- Spaces up to a stop of the tabs move the columns of what follows them, and where there is no tab
any number of spaces does. -/
lemma foldl_nextColumn {tabWidth k : Nat} {t : Text} (h : max tabWidth 1 ∣ k ∨ '\t' ∉ t)
    (column : Nat) :
    t.foldl (nextColumn tabWidth) (k + column) = k + t.foldl (nextColumn tabWidth) column := by
  induction t generalizing column with
  | nil => rfl
  | cons c t ih =>
    have hnext : nextColumn tabWidth (k + column) c = k + nextColumn tabWidth column c := by
      simp only [nextColumn]
      split
      · rename_i hc
        obtain ⟨stops, rfl⟩ : max tabWidth 1 ∣ k := h.resolve_right (by simp [hc])
        have hwidth : 0 < max tabWidth 1 := by omega
        rw [Nat.mul_add_div hwidth, Nat.add_assoc, Nat.add_mul, Nat.mul_comm stops]
      · exact Nat.add_assoc k column 1
    rw [List.foldl_cons, List.foldl_cons, hnext,
      ih (h.imp_right fun ht hm => ht (List.mem_cons_of_mem c hm))]

end Layout

namespace Row

/-- The row further to the right. -/
def shift (column : Nat) (r : Row) : Row :=
  if r.isBlank then ⟨0, []⟩ else ⟨r.indent + column, r.content⟩

@[simp] lemma content_shift (column : Nat) (r : Row) : (r.shift column).content = r.content := by
  unfold shift
  split
  · rename_i h
    exact (isBlank_iff.mp h).symm
  · rfl

@[simp] lemma isBlank_shift (column : Nat) (r : Row) : (r.shift column).isBlank = r.isBlank := by
  simp [isBlank]

lemma indent_shift {column : Nat} {r : Row} (h : r.isBlank = false) :
    (r.shift column).indent = r.indent + column := by
  simp [shift, h]

lemma shift_of_blank {r : Row} (h : r.isBlank = true) (column : Nat) :
    r.shift column = ⟨0, []⟩ := by
  simp [shift, h]

lemma shift_shift (column k : Nat) (r : Row) :
    (r.shift column).shift k = r.shift (column + k) := by
  cases hr : r.isBlank with
  | true => simp [shift, isBlank, isBlank_iff.mp hr]
  | false =>
    have hne : ¬r.content = [] := fun he => by simp [isBlank_iff.mpr he] at hr
    simp [shift, isBlank, hne, Nat.add_assoc]

/-- What is taken off a row further to the right. -/
lemma outdent_shift {r : Row} (h : r.Clean) (column : Nat) :
    (r.shift column).outdent column = r := by
  cases hr : r.isBlank with
  | true =>
    have hcontent := isBlank_iff.mp hr
    obtain ⟨indent, content⟩ := r
    obtain rfl : content = [] := hcontent
    obtain rfl : indent = 0 := h.flush rfl
    rfl
  | false =>
    have hne : ¬r.content = [] := fun he => by simp [isBlank_iff.mpr he] at hr
    simp [shift, outdent, isBlank, hne]

lemma Clean.shift {r : Row} (h : r.Clean) (column : Nat) : (r.shift column).Clean where
  noFeed := by simpa using h.noFeed
  trimmed := by simpa using h.trimmed
  bare := by simpa using h.bare
  flush := by
    intro he
    have hb : r.isBlank = true := by simpa [isBlank_iff] using he
    simp [Row.shift, hb]

lemma shift_zero {r : Row} (h : r.Clean) : r.shift 0 = r := by
  cases hr : r.isBlank with
  | true =>
    have hsame := outdent_shift h 0
    rwa [outdent, isBlank_shift, if_pos hr, ← shift_of_blank hr 0] at hsame
  | false => simp [shift, hr]

@[simp] lemma isQuiet_shift (s : LayoutSettings) (column : Nat) (r : Row) :
    Body.isQuiet s (r.shift column) = Body.isQuiet s r := by
  simp [Body.isQuiet, Body.isComment, line]

lemma map_outdent_shift {rows : List Row} (h : ∀ r ∈ rows, r.Clean) (column : Nat) :
    (rows.map (shift column)).map (outdent column) = rows := by
  rw [List.map_map]
  conv_rhs => rw [← List.map_id rows]
  exact List.map_congr_left fun r hr => outdent_shift (h r hr) column

lemma map_outdent_zero {rows : List Row} (h : ∀ r ∈ rows, r.Clean) :
    rows.map (outdent 0) = rows := by
  conv_rhs => rw [← List.map_id rows]
  refine List.map_congr_left fun r hr => ?_
  conv_lhs => rw [← shift_zero (h r hr), outdent_shift (h r hr)]
  rfl

/-- Columns that are taken off one after the other. -/
lemma map_outdent_outdent (column k : Nat) (rows : List Row) :
    (rows.map (outdent column)).map (outdent k) = rows.map (outdent (column + k)) := by
  rw [List.map_map]
  refine List.map_congr_left fun r _ => ?_
  rw [Function.comp_apply]
  cases hblank : r.isBlank with
  | true => rw [outdent, isBlank_outdent, if_pos hblank, outdent, if_pos hblank]
  | false =>
    have hloud : ¬r.isBlank = true := by simp [hblank]
    rw [outdent, isBlank_outdent, if_neg hloud, indent_outdent hblank,
      content_outdent, outdent, if_neg hloud, Nat.sub_sub]

/-- Rows one level deeper are all behind the head of the line. -/
lemma deep_of_mem_shift {s : LayoutSettings} {rows : List Row} {r : Row}
    (hr : r ∈ rows.map (shift 4)) : (Body.isQuiet s r || decide (0 < r.indent)) = true := by
  obtain ⟨q, -, rfl⟩ := List.mem_map.mp hr
  cases hblank : q.isBlank with
  | true => simp [Body.isQuiet, hblank]
  | false => simp [indent_shift hblank]

lemma contentColumn?_shift (s : LayoutSettings) (column : Nat) (rows : List Row) :
    Body.contentColumn? s (rows.map (shift column)) =
      (Body.contentColumn? s rows).map (· + column) := by
  rw [Body.contentColumn?, Body.contentColumn?, List.find?_map, Option.map_map, Option.map_map]
  simp only [Function.comp_def, isQuiet_shift]
  cases hfirst : rows.find? (fun r => !Body.isQuiet s r) with
  | none => rfl
  | some r =>
    have hloud : Body.isQuiet s r = false := by simpa using List.find?_some hfirst
    rw [Option.map_some, Option.map_some, indent_shift (Bool.or_eq_false_iff.mp hloud).1]

/-- A line behind more spaces is the same row further to the right. -/
lemma ofText_indented {tabWidth k : Nat} {t : Text}
    (h : max tabWidth 1 ∣ k ∨ '\t' ∉ t.takeWhile Layout.isIndent) :
    ofText tabWidth (List.replicate k ' ' ++ t) = (ofText tabWidth t).shift k := by
  have hspaces : ∀ c ∈ List.replicate k ' ', Layout.isIndent c = true := by
    intro c hc
    rw [List.eq_of_mem_replicate hc]
    rfl
  have hdrop : (List.replicate k ' ' ++ t).dropWhile Layout.isIndent =
      t.dropWhile Layout.isIndent := List.dropWhile_append_of_pos hspaces
  have htake : (List.replicate k ' ' ++ t).takeWhile Layout.isIndent =
      List.replicate k ' ' ++ t.takeWhile Layout.isIndent :=
    List.takeWhile_append_of_pos hspaces
  have hcolumns : Layout.columns tabWidth (List.replicate k ' ' ++ t.takeWhile Layout.isIndent) =
      Layout.columns tabWidth (t.takeWhile Layout.isIndent) + k := by
    have hk := Layout.columns_replicate tabWidth k
    unfold Layout.columns at hk ⊢
    rw [List.foldl_append, hk, Nat.add_comm, ← Layout.foldl_nextColumn h, Nat.add_zero]
  rw [ofText, hdrop, htake, hcolumns]
  cases hempty : (Text.trimEnd (t.dropWhile Layout.isIndent)).isEmpty with
  | true => simp [shift, isBlank, ofText, List.isEmpty_iff.mp hempty]
  | false => simp [shift, isBlank, ofText, hempty]

end Row

/-! ## Texts that are whole lines -/

/-- A text is whole lines, which are some rows. -/
def Lays (t : Text) (rows : List Row) : Prop :=
  ∃ ls : List Text, (∀ l ∈ ls, '\n' ∉ l) ∧ t = Text.unlines ls ∧ rows = ls.map (Row.ofText 4)

namespace Lays

lemma rows_eq {t : Text} {rows : List Row} (h : Lays t rows) : Text.rows 4 t = rows := by
  obtain ⟨ls, hls, rfl, rfl⟩ := h
  rw [Text.rows, Text.lines_unlines hls]

lemma nil : Lays [] [] := ⟨[], by simp, rfl, rfl⟩

lemma append {t t' : Text} {rows rows' : List Row} (h : Lays t rows) (h' : Lays t' rows') :
    Lays (t ++ t') (rows ++ rows') := by
  obtain ⟨ls, hls, rfl, rfl⟩ := h
  obtain ⟨ls', hls', rfl, rfl⟩ := h'
  refine ⟨ls ++ ls', fun l hl => ?_, by simp [Text.unlines], by simp⟩
  rcases List.mem_append.mp hl with hl | hl
  · exact hls l hl
  · exact hls' l hl

lemma line {l : Text} (hl : '\n' ∉ l) : Lays (l ++ ['\n']) [Row.ofText 4 l] :=
  ⟨[l], by simpa using hl, by simp [Text.unlines], rfl⟩

end Lays

/-! ## Lines of texts that are read -/

namespace Text

/-- A line that does not end with a carriage return is left as it is. -/
lemma dropReturns_append_newline {l : Text} (hfeed : '\n' ∉ l) (hreturn : '\r' ∉ l.getLast?)
    (t : Text) : dropReturns (l ++ '\n' :: t) = l ++ '\n' :: dropReturns t := by
  have hnewline : dropReturns ('\n' :: t) = '\n' :: dropReturns t := by
    cases t with
    | nil => rfl
    | cons d t => rw [dropReturns, if_neg (by simp)]
  induction l with
  | nil => exact hnewline
  | cons c l ih =>
    cases l with
    | nil =>
      have hc : ¬(c = '\r' ∧ '\n' = '\n') := fun h => hreturn (by simp [h.1])
      show dropReturns (c :: '\n' :: t) = _
      rw [dropReturns, if_neg hc, hnewline]
      rfl
    | cons d l =>
      have hd : ¬(c = '\r' ∧ d = '\n') := fun h => hfeed (by simp [h.2])
      have hrest := ih (fun hm => hfeed (List.mem_cons_of_mem _ hm)) (by simpa using hreturn)
      show dropReturns (c :: d :: (l ++ '\n' :: t)) = _
      rw [dropReturns, if_neg hd]
      exact congrArg (c :: ·) hrest

/-- Lines that do not end with carriage returns are written as they are. -/
lemma writtenLines_unlines {ls : List Text} (hfeed : ∀ l ∈ ls, '\n' ∉ l)
    (hreturn : ∀ l ∈ ls, '\r' ∉ l.getLast?) : writtenLines (unlines ls) = ls := by
  have hsame : dropReturns (unlines ls) = unlines ls := by
    induction ls with
    | nil => rfl
    | cons l ls ih =>
      rw [unlines_cons, dropReturns_append_newline (hfeed l List.mem_cons_self)
        (hreturn l List.mem_cons_self), ih (fun m hm => hfeed m (List.mem_cons_of_mem _ hm))
        fun m hm => hreturn m (List.mem_cons_of_mem _ hm)]
  rw [writtenLines, hsame, lines_unlines hfeed]

end Text

/-- The written form of a clean row does not end with a carriage return. -/
lemma Row.Clean.return_notMem {r : Row} (h : r.Clean) : '\r' ∉ r.text.getLast? := by
  obtain ⟨indent, content⟩ := r
  cases hcontent : content.getLast? with
  | none =>
    obtain rfl : content = [] := List.getLast?_eq_none_iff.mp hcontent
    obtain rfl : indent = 0 := h.flush rfl
    simp [Row.text]
  | some c =>
    obtain ⟨before, rfl⟩ := List.getLast?_eq_some_iff.mp hcontent
    have hne : before ++ [c] ≠ [] := by simp
    have hblank := Text.trimEnd_eq_self_iff.mp h.trimmed hne
    have hreturn : Text.isBlank '\r' = true := by decide
    intro hm
    obtain rfl : c = '\r' := by simpa [Row.text] using hm
    simp [hreturn] at hblank

namespace Spec

lemma indentation_eq (level : Nat) :
    indentation {} level = List.replicate (4 * level) ' ' := by
  induction level with
  | zero => rfl
  | succ level ih =>
    have hsplit : indentation {} (level + 1) = [' ', ' ', ' ', ' '] ++ indentation {} level := rfl
    rw [hsplit, ih, Nat.mul_succ, Nat.add_comm, List.replicate_add]
    rfl

lemma lays_indented {l : Text} (hl : '\n' ∉ l) (level : Nat) :
    Lays (indentation {} level ++ l ++ ['\n']) [(Row.ofText 4 l).shift (4 * level)] := by
  have hstops : max 4 1 ∣ 4 * level := ⟨level, rfl⟩
  rw [← Row.ofText_indented (.inl hstops), indentation_eq]
  refine Lays.line ?_
  simp [hl]

/-! ## The rows of descriptions -/

/-- The rows of a text at a column. -/
def textRows (column : Nat) (t : Text) : List Row :=
  (Text.writtenLines t).map fun line => (Row.ofText 4 line).shift column

/-- Rows that are read are written as they stand, further to the right. -/
lemma textRows_unlines {rs : List Row} (h : ∀ r ∈ rs, r.Clean) (column : Nat) :
    textRows column (Text.unlines (rs.map Row.text)) = rs.map (Row.shift column) := by
  have hlines : Text.writtenLines (Text.unlines (rs.map Row.text)) = rs.map Row.text := by
    refine Text.writtenLines_unlines (fun l hl => ?_) fun l hl => ?_
    · obtain ⟨r, hr, rfl⟩ := List.mem_map.mp hl
      exact Row.feed_notMem_text (h r hr)
    · obtain ⟨r, hr, rfl⟩ := List.mem_map.mp hl
      exact (h r hr).return_notMem
  rw [textRows, hlines, List.map_map]
  exact List.map_congr_left fun r hr => congrArg (Row.shift column) (Row.ofText_text 4 (h r hr))

/-- Lines without indentation are written as they stand. -/
lemma textRows_lines {lines : List Text} (h : ∀ line ∈ lines, (⟨0, line⟩ : Row).Clean) :
    textRows 0 (Text.unlines lines) = lines.map fun line => (⟨0, line⟩ : Row) := by
  have hclean : ∀ r ∈ lines.map (fun line => (⟨0, line⟩ : Row)), r.Clean := by
    intro r hr
    obtain ⟨line, hline, rfl⟩ := List.mem_map.mp hr
    exact h line hline
  have hrows := textRows_unlines hclean 0
  have htext : (lines.map fun line => (⟨0, line⟩ : Row)).map Row.text = lines := by
    simp [Function.comp_def, Row.text]
  have hshift : (lines.map fun line => (⟨0, line⟩ : Row)).map (Row.shift 0) =
      lines.map fun line => (⟨0, line⟩ : Row) := by
    conv_rhs => rw [← List.map_id (lines.map _)]
    exact List.map_congr_left fun r hr => Row.shift_zero (hclean r hr)
  rwa [htext, hshift] at hrows

/-- The row that closes the bracket of a description at a column, if it has one. -/
def closingRows (column : Nat) (s : Spec) : List Row :=
  if s.hasBracket then [⟨column, ['\x7d']⟩] else []

/-- The rows around those of a body. -/
def wrapRows (column : Nat) (s : Spec) (body : List Row) : List Row :=
  (Row.ofText 4 (s.openingLine {})).shift column :: (body ++ s.closingRows column)

mutual

/-- The rows of a description at a column. -/
def rows (column : Nat) : Spec → List Row
  | ⟨tag, suppressed, header, name, aliases, params, options, label, parser, inlineCode, bracket,
      comment, body, children⟩ =>
    wrapRows column
      ⟨tag, suppressed, header, name, aliases, params, options, label, parser, inlineCode, bracket,
        comment, none, []⟩
      (match children with
        | [] => (body.map (textRows (column + 4))).getD []
        | child :: children => childRows (column + 4) child ++ childrenRows (column + 4) children)

/-- The rows of children at a column. -/
def childrenRows (column : Nat) : List (Child Spec) → List Row
  | [] => []
  | child :: children => childRows column child ++ childrenRows column children

/-- The rows of a child at a column. -/
def childRows (column : Nat) : Child Spec → List Row
  | .text t => textRows column t
  | .node s => rows column s

end

mutual

/-- Every element of a description has a property. -/
def Every (p : Spec → Prop) : Spec → Prop
  | ⟨tag, suppressed, header, name, aliases, params, options, label, parser, inlineCode, bracket,
      comment, body, children⟩ =>
    p ⟨tag, suppressed, header, name, aliases, params, options, label, parser, inlineCode, bracket,
      comment, body, children⟩ ∧ EveryIn p children

/-- Every element among some children has a property. -/
def EveryIn (p : Spec → Prop) : List (Child Spec) → Prop
  | [] => True
  | child :: children => EveryAt p child ∧ EveryIn p children

/-- Every element of a child has a property. -/
def EveryAt (p : Spec → Prop) : Child Spec → Prop
  | .text _ => True
  | .node s => Every p s

end

lemma every_iff {p : Spec → Prop} {s : Spec} : Every p s ↔ p s ∧ EveryIn p s.children := by
  cases s
  rw [Every]

mutual

instance decidableEvery (p : Spec → Prop) [DecidablePred p] : ∀ s : Spec, Decidable (Every p s)
  | ⟨_, _, _, _, _, _, _, _, _, _, _, _, _, children⟩ =>
    have := decidableEveryIn p children
    inferInstanceAs (Decidable (_ ∧ EveryIn p children))

instance decidableEveryIn (p : Spec → Prop) [DecidablePred p] :
    ∀ children : List (Child Spec), Decidable (EveryIn p children)
  | [] => isTrue trivial
  | child :: children =>
    have := decidableEveryAt p child
    have := decidableEveryIn p children
    inferInstanceAs (Decidable (EveryAt p child ∧ EveryIn p children))

instance decidableEveryAt (p : Spec → Prop) [DecidablePred p] :
    ∀ child : Child Spec, Decidable (EveryAt p child)
  | .text _ => isTrue trivial
  | .node s => decidableEvery p s

end

mutual

lemma Every.mono {p q : Spec → Prop} (hpq : ∀ s, p s → q s) :
    ∀ {s : Spec}, Every p s → Every q s
  | ⟨_, _, _, _, _, _, _, _, _, _, _, _, _, _⟩, ⟨hs, hchildren⟩ =>
    ⟨hpq _ hs, EveryIn.mono hpq hchildren⟩

lemma EveryIn.mono {p q : Spec → Prop} (hpq : ∀ s, p s → q s) :
    ∀ {children : List (Child Spec)}, EveryIn p children → EveryIn q children
  | [], _ => trivial
  | .text _ :: _, ⟨_, hchildren⟩ => ⟨trivial, EveryIn.mono hpq hchildren⟩
  | .node _ :: _, ⟨hs, hchildren⟩ => ⟨Every.mono hpq hs, EveryIn.mono hpq hchildren⟩

end

/-- The header line of a description is one line. -/
def IsLine (s : Spec) : Prop := '\n' ∉ s.openingLine {}

lemma lays_writeLines (level : Nat) (t : Text) :
    Lays (writeLines {} level t) (textRows (4 * level) t) := by
  have hfeed : ∀ line ∈ Text.writtenLines t, '\n' ∉ line := fun line h =>
    Text.feed_notMem_of_mem_lines h
  rw [writeLines, textRows]
  generalize Text.writtenLines t = ls at hfeed
  induction ls with
  | nil => exact Lays.nil
  | cons line ls ih =>
    rw [List.flatMap_cons, List.map_cons]
    show Lays (_ ++ _) ([_] ++ _)
    refine Lays.append ?_ (ih fun l hl => hfeed l (List.mem_cons_of_mem _ hl))
    cases line with
    | nil => exact Lays.line (l := []) (by simp)
    | cons c line => exact lays_indented (hfeed _ List.mem_cons_self) level

lemma lays_wrap {level : Nat} {s : Spec} (hs : '\n' ∉ s.openingLine {}) {body : Text}
    {rows : List Row} (h : Lays body rows) :
    Lays (wrap {} level s body) (wrapRows (4 * level) s rows) := by
  have hclosing : Lays (s.closingLine {} level) (s.closingRows (4 * level)) := by
    unfold closingLine closingRows
    split
    · have hrow : (Row.ofText 4 ['\x7d']).shift (4 * level) = ⟨4 * level, ['\x7d']⟩ := by
        have hbrace : Row.ofText 4 ['\x7d'] = ⟨0, ['\x7d']⟩ := by decide
        simp [hbrace, Row.shift, Row.isBlank]
      exact hrow ▸ lays_indented (l := ['\x7d']) (by decide) level
    · exact Lays.nil
  have hall := (lays_indented hs level).append (h.append hclosing)
  simpa [wrap, wrapRows] using hall

/-- The rows of the body of a description at a column. -/
def bodyRows (column : Nat) (s : Spec) : List Row :=
  match s.children with
  | [] => (s.body.map (textRows column)).getD []
  | children => childrenRows column children

/-- The rows of a description are its header, its body one level deeper and the bracket that closes
it. -/
lemma rows_eq (column : Nat) (s : Spec) :
    rows column s = wrapRows column s (bodyRows (column + 4) s) := by
  cases s with
  | mk tag suppressed header name aliases params options label parser inlineCode bracket comment
      body children =>
    cases children with
    | nil => rfl
    | cons child children => rfl

mutual

lemma lays_write (level : Nat) :
    ∀ s : Spec, Every IsLine s → Lays (write {} level s) (rows (4 * level) s)
  | ⟨tag, suppressed, header, name, aliases, params, options, label, parser, inlineCode, bracket,
      comment, body, children⟩, h => by
    rw [write_eq, rows_eq]
    refine lays_wrap h.1 ?_
    match body, children, h with
    | none, [], _ => exact Lays.nil
    | some t, [], _ => exact lays_writeLines (level + 1) t
    | _, child :: children, h =>
      exact (lays_writeChild (level + 1) child h.2.1).append
        (lays_writeChildren (level + 1) children h.2.2)

lemma lays_writeChildren (level : Nat) :
    ∀ children : List (Child Spec), EveryIn IsLine children →
      Lays (writeChildren {} level children) (childrenRows (4 * level) children)
  | [], _ => Lays.nil
  | child :: children, h =>
    (lays_writeChild level child h.1).append (lays_writeChildren level children h.2)

lemma lays_writeChild (level : Nat) :
    ∀ child : Child Spec, EveryAt IsLine child →
      Lays (writeChild {} level child) (childRows (4 * level) child)
  | .text t, _ => lays_writeLines level t
  | .node s, h => lays_write level s h

end

/-- The rows of the text that some children are written as. -/
theorem rows_writeChildren {children : List (Child Spec)} (h : EveryIn IsLine children) :
    Text.rows 4 (writeChildren {} 0 children) = childrenRows 0 children :=
  (lays_writeChildren 0 children h).rows_eq

lemma clean_childrenRows {children : List (Child Spec)} (h : EveryIn IsLine children) :
    ∀ r ∈ childrenRows 0 children, r.Clean := by
  rw [← rows_writeChildren h]
  exact fun r hr => Text.clean_of_mem_rows hr

/-! ## Rows one level deeper -/

lemma shift_textRows (column k : Nat) (t : Text) :
    (textRows column t).map (Row.shift k) = textRows (column + k) t := by
  simp only [textRows, List.map_map]
  refine List.map_congr_left fun line _ => ?_
  exact Row.shift_shift column k _

lemma shift_wrapRows (column k : Nat) (s : Spec) (body : List Row) :
    (wrapRows column s body).map (Row.shift k) =
      wrapRows (column + k) s (body.map (Row.shift k)) := by
  have hclosing : (s.closingRows column).map (Row.shift k) = s.closingRows (column + k) := by
    unfold closingRows
    split
    · simp [Row.shift, Row.isBlank]
    · rfl
  rw [wrapRows, List.map_cons, List.map_append, Row.shift_shift, hclosing]
  rfl

mutual

lemma shift_rows (column k : Nat) :
    ∀ s : Spec, (rows column s).map (Row.shift k) = rows (column + k) s
  | ⟨tag, suppressed, header, name, aliases, params, options, label, parser, inlineCode, bracket,
      comment, body, children⟩ => by
    rw [rows_eq, rows_eq, shift_wrapRows, Nat.add_right_comm column k 4]
    congr 1
    match body, children with
    | none, [] => rfl
    | some t, [] => exact shift_textRows (column + 4) k t
    | _, child :: children =>
      show (childRows (column + 4) child ++
        childrenRows (column + 4) children).map (Row.shift k) = _
      rw [List.map_append, shift_childRows (column + 4) k child,
        shift_childrenRows (column + 4) k children]
      rfl

lemma shift_childrenRows (column k : Nat) :
    ∀ children : List (Child Spec),
      (childrenRows column children).map (Row.shift k) = childrenRows (column + k) children
  | [] => rfl
  | child :: children => by
    rw [childrenRows, List.map_append, shift_childRows column k child,
      shift_childrenRows column k children, childrenRows]

lemma shift_childRows (column k : Nat) :
    ∀ child : Child Spec, (childRows column child).map (Row.shift k) = childRows (column + k) child
  | .text t => shift_textRows column k t
  | .node s => shift_rows column k s

end

/-! ## What is read and written again -/

lemma body_ofHeader (st : Settings) (header : Text) (bracket : Bool) :
    (ofHeader st header bracket).body = none := by
  unfold ofHeader withHeader
  simp only
  split <;> rfl

lemma openingLine_fill (s : Spec) (body : List Row) (children : List (Child Spec)) :
    (s.fill {} body children).openingLine {} = s.openingLine {} := by
  unfold fill
  split <;> rfl

lemma hasBracket_fill (s : Spec) (body : List Row) (children : List (Child Spec)) :
    (s.fill {} body children).hasBracket = s.hasBracket := by
  unfold fill
  split <;> rfl

/-- What was read of an item is written in lines, if its head is one and its body is. -/
lemma every_isLine_fill {header : Text} {bracket : Bool} {body : List Row}
    (hline : '\n' ∉ (ofHeader {} header bracket).openingLine {})
    (hbody : (ofHeader {} header bracket).keepsBody {} = false →
      EveryIn IsLine (outline {} body)) :
    Every IsLine ((ofHeader {} header bracket).fill {} body (outline {} body)) := by
  refine every_iff.mpr ⟨?_, ?_⟩
  · rw [IsLine, openingLine_fill]
    exact hline
  · unfold fill
    split
    · rw [children_ofHeader]
      exact trivial
    · rename_i hkeeps
      exact hbody (Bool.eq_false_iff.mpr hkeeps)

/-- The rows that the body of an element is written as, from those that are read. -/
def bodyAgain (s : Spec) (body : List Row) : List Row :=
  if s.keepsBody {} then body else childrenRows 0 (outline {} body)

/-- A body is written one level deeper: as it was read if the element keeps it, and else as what was
read of it. -/
lemma bodyRows_fill (header : Text) (bracket : Bool) {body : List Row} (h : ∀ r ∈ body, r.Clean)
    (column : Nat) :
    bodyRows column ((ofHeader {} header bracket).fill {} body (outline {} body)) =
      ((ofHeader {} header bracket).bodyAgain body).map (Row.shift column) := by
  have hchildren := children_ofHeader {} header bracket
  have hbody := body_ofHeader {} header bracket
  generalize ofHeader {} header bracket = s at hchildren hbody
  cases hkeeps : s.keepsBody {} with
  | true =>
    rw [fill, bodyAgain, if_pos hkeeps, if_pos hkeeps, bodyRows]
    simp only [hchildren]
    cases body with
    | nil => rfl
    | cons r body => exact textRows_unlines h column
  | false =>
    rw [fill, bodyAgain, hkeeps, if_neg Bool.false_ne_true, if_neg Bool.false_ne_true, bodyRows,
      shift_childrenRows, Nat.zero_add]
    cases outline {} body with
    | nil => simp [hbody, childrenRows]
    | cons child children => rfl

/-- The rows of what was read of an item. -/
lemma rows_fill (header : Text) (bracket : Bool) {body : List Row} (h : ∀ r ∈ body, r.Clean)
    (column : Nat) :
    rows column ((ofHeader {} header bracket).fill {} body (outline {} body)) =
      wrapRows column (ofHeader {} header bracket)
        (((ofHeader {} header bracket).bodyAgain body).map (Row.shift (column + 4))) := by
  rw [rows_eq, bodyRows_fill header bracket h, wrapRows, wrapRows, openingLine_fill, closingRows,
    closingRows, hasBracket_fill]

/-- Of a document the children are written. -/
lemma writeBody_document (source : Text) :
    (document {} source).writeBody {} 0 =
      writeChildren {} 0 (outline {} (Text.rows 4 source)) := by
  have hchildren : (document {} source).children = outline {} (Text.rows 4 source) := rfl
  rw [writeBody, hchildren]
  cases outline {} (Text.rows 4 source) with
  | nil => rfl
  | cons child children => rfl

end Spec

/-- The written form of a tree that is a document. -/
lemma Tree.serialize_document {H : Type} {t : Tree H} {source : Text}
    (h : t.toSpec? root = some (Spec.document {} source)) :
    t.serialize {} root = Spec.writeChildren {} 0 (outline {} (Text.rows 4 source)) := by
  rw [serialize, h]
  exact Spec.writeBody_document source

end TaggedOutline
