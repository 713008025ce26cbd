import TaggedOutline.Proofs.Outline
import TaggedOutline.Proofs.Written

/-!
# Counting brackets

Inside a bracket the reading of a body counts the brackets that are open.  `Body.depthFrom` is that
count over a list of rows, and `Body.enclosed_cases` says how a bracket ends: it takes all rows, or
it is closed by the first row that can close it.  At the end of a body rows that open nothing change
no shape, whatever they close (`Body.shape_append_stray`).
-/

namespace TaggedOutline

namespace Body

/-! ## The count -/

section Count

variable {s : LayoutSettings}

/-- The number of brackets that are open after some rows. -/
def depthFrom (s : LayoutSettings) (depth : Nat) (rows : List Row) : Nat :=
  rows.foldl (depthAfter s) depth

@[simp] lemma depthFrom_nil (depth : Nat) : depthFrom s depth [] = depth := rfl

@[simp] lemma depthFrom_cons (depth : Nat) (r : Row) (rows : List Row) :
    depthFrom s depth (r :: rows) = depthFrom s (depthAfter s depth r) rows := rfl

@[simp] lemma depthFrom_append (depth : Nat) (rows rows' : List Row) :
    depthFrom s depth (rows ++ rows') = depthFrom s (depthFrom s depth rows) rows' :=
  List.foldl_append

/-! ## The end of a bracket -/

/-- A bracket that takes some rows goes on with the rows behind them. -/
lemma enclosed_append_of_eq {column depth : Nat} {rows : List Row}
    (h : enclosed s column depth rows = (rows, [])) (rows' : List Row) :
    enclosed s column depth (rows ++ rows') =
      (rows ++ (enclosed s column (depthFrom s depth rows) rows').1,
        (enclosed s column (depthFrom s depth rows) rows').2) := by
  induction rows generalizing depth with
  | nil => rfl
  | cons r rows ih =>
    rw [enclosed] at h
    split at h
    · simp at h
    · rename_i hr
      obtain ⟨hfirst, hsecond⟩ := Prod.mk.inj h
      have hrows : enclosed s column (depthAfter s depth r) rows = (rows, []) :=
        Prod.ext (List.cons.inj hfirst).2 hsecond
      rw [List.cons_append, enclosed, if_neg hr, ih hrows]
      rfl

lemma enclosed_closed {column depth : Nat} {rows : List Row}
    (h : enclosed s column depth rows = (rows, [])) {r : Row}
    (hr : closes s column (depthFrom s depth rows) r = true) (rest : List Row) :
    enclosed s column depth (rows ++ r :: rest) = (rows, rest) := by
  rw [enclosed_append_of_eq h, enclosed, if_pos hr, List.append_nil]

/-- A bracket takes all rows, or it ends with the first row that can close it. -/
theorem enclosed_cases (s : LayoutSettings) (column depth : Nat) (rows : List Row) :
    enclosed s column depth rows = (rows, []) ∨
      ∃ before r behind, rows = before ++ r :: behind ∧
        enclosed s column depth before = (before, []) ∧
        closes s column (depthFrom s depth before) r = true := by
  induction rows generalizing depth with
  | nil => exact .inl rfl
  | cons r rows ih =>
    by_cases hr : closes s column depth r = true
    · exact .inr ⟨[], r, rows, rfl, rfl, hr⟩
    · rcases ih (depthAfter s depth r) with h | ⟨before, q, behind, rfl, hbefore, hq⟩
      · exact .inl (by rw [enclosed, if_neg hr, h])
      · exact .inr ⟨r :: before, q, behind, rfl, by rw [enclosed, if_neg hr, hbefore], hq⟩

/-- Rows that a bracket around them takes whole, and that leave open what is open before them. -/
def Balanced (s : LayoutSettings) (rows : List Row) : Prop :=
  ∀ column depth, enclosed s column depth rows = (rows, []) ∧ depthFrom s depth rows = depth

namespace Balanced

lemma nil : Balanced s [] := fun _ _ => ⟨rfl, rfl⟩

lemma append {rows rows' : List Row} (h : Balanced s rows) (h' : Balanced s rows') :
    Balanced s (rows ++ rows') := by
  intro column depth
  obtain ⟨htake, hdepth⟩ := h column depth
  obtain ⟨htake', hdepth'⟩ := h' column depth
  rw [enclosed_append_of_eq htake, depthFrom_append, hdepth, htake']
  exact ⟨rfl, hdepth'⟩

/-- A row that neither opens a bracket nor closes one. -/
lemma row {r : Row} (hclose : r.content ≠ s.closeBracket) (hopen : opens s r = false) :
    Balanced s [r] := by
  intro column depth
  have hdepth : depthAfter s depth r = depth := by simp [depthAfter, hclose, hopen]
  rw [enclosed, if_neg (by simp [closes, hclose]), depthFrom_cons, hdepth]
  exact ⟨rfl, rfl⟩

/-- A bracket with the row that closes it. -/
lemma bracket {r close : Row} {rows : List Row} (hr : r.content ≠ s.closeBracket)
    (hopen : opens s r = true) (h : Balanced s rows) (hclose : close.content = s.closeBracket) :
    Balanced s (r :: (rows ++ [close])) := by
  intro column depth
  have hdepth : depthAfter s depth r = depth + 1 := by simp [depthAfter, hr, hopen]
  have hafter : depthAfter s (depth + 1) close = depth := by simp [depthAfter, hclose]
  obtain ⟨htake, hsame⟩ := h column (depth + 1)
  rw [enclosed, if_neg (by simp [closes, hr]), depthFrom_cons, hdepth, enclosed_append_of_eq htake,
    depthFrom_append, hsame, enclosed, if_neg (by simp [closes]), hafter, depthFrom_cons, hafter]
  exact ⟨rfl, rfl⟩

end Balanced

end Count

/-! ## Rows at the end of a body -/

variable {st : Settings}

lemma headColumn_append {rows : List Row} (h : ∃ r ∈ rows, r.isBlank = false)
    (rows' : List Row) : headColumn (rows ++ rows') = headColumn rows := by
  obtain ⟨r, hr, -⟩ := exists_find?_of_full h
  rw [headColumn, headColumn, List.find?_append, hr, Option.some_or]

lemma stray_of_sublist {rows rows' : List Row} (h : ∀ r ∈ rows, isStray st.layout r = true)
    (hsub : ∀ r ∈ rows', r ∈ rows) (column : Nat) :
    shape st (rows'.map (Row.outdent column)) = [] := by
  refine shape_eq_nil fun r hr => ?_
  obtain ⟨q, hq, rfl⟩ := List.mem_map.mp hr
  simpa using h q (hsub q hq)

/-- What a bracket takes of rows that open nothing has no shape, and neither has what it leaves. -/
lemma shape_enclosed_stray {rows : List Row} (h : ∀ r ∈ rows, isStray st.layout r = true)
    (column depth k : Nat) :
    shape st ((enclosed st.layout column depth rows).1.map (Row.outdent k)) = [] ∧
      shape st (enclosed st.layout column depth rows).2 = [] :=
  ⟨stray_of_sublist h (fun _ hr => (enclosed_isPrefix _ _ _ rows).subset hr) k,
    shape_eq_nil fun r hr => h r ((enclosed_suffix _ _ _ rows).subset hr)⟩

lemma region_append_of_beyond_nil {s : LayoutSettings} {column : Nat} {rows : List Row}
    (h : beyond s column rows = []) (rows' : List Row) :
    region s column (rows ++ rows') = rows ++ region s column rows' ∧
      beyond s column (rows ++ rows') = beyond s column rows' := by
  have hall : ∀ r ∈ rows, (isQuiet s r || decide (column < r.indent)) = true := by
    simpa [beyond, List.dropWhile_eq_nil_iff] using h
  exact ⟨List.takeWhile_append_of_pos hall, List.dropWhile_append_of_pos hall⟩

lemma region_append_of_beyond_cons {s : LayoutSettings} {column : Nat} {rows : List Row}
    (h : beyond s column rows ≠ []) (rows' : List Row) :
    region s column (rows ++ rows') = region s column rows ∧
      beyond s column (rows ++ rows') = beyond s column rows ++ rows' := by
  have hlength : (region s column rows).length ≠ rows.length := by
    intro he
    have hsplit := congrArg List.length (region_append_beyond s column rows)
    rw [List.length_append, he] at hsplit
    exact h (List.eq_nil_of_length_eq_zero (by omega))
  have hempty : ¬(beyond s column rows).isEmpty = true := by simpa using h
  exact ⟨List.takeWhile_append.trans (if_neg hlength), List.dropWhile_append.trans (if_neg hempty)⟩

/-- At the end of a body of so many rows, rows that open nothing change no shape. -/
def StraysVanish (st : Settings) (n : Nat) : Prop :=
  ∀ {rows strays : List Row}, rows.length ≤ n → (∀ r ∈ strays, isStray st.layout r = true) →
    shape st (rows ++ strays) = shape st rows

lemma StraysVanish.outdent {n : Nat} (h : StraysVanish st n) {rows strays : List Row}
    (hlength : rows.length ≤ n) (hstrays : ∀ r ∈ strays, isStray st.layout r = true)
    (column : Nat) :
    shape st ((rows ++ strays).map (Row.outdent column)) =
      shape st (rows.map (Row.outdent column)) := by
  rw [List.map_append]
  apply h
  · rwa [List.length_map]
  · intro r hr
    obtain ⟨q, hq, rfl⟩ := List.mem_map.mp hr
    simpa using hstrays q hq

/-- Rows that open nothing do not change the shape of what settles before them. -/
lemma shape_settle_append {rows strays : List Row} (hvanish : StraysVanish st rows.length)
    (h : ∀ r ∈ strays, isStray st.layout r = true) :
    shape st ((settle st.layout (rows ++ strays)).map
        (Row.outdent ((contentColumn? st.layout (rows ++ strays)).getD 0))) =
      shape st ((settle st.layout rows).map
        (Row.outdent ((contentColumn? st.layout rows).getD 0))) := by
  have hsettled (r : Row) (rows : List Row) (hr : r ∈ rows.drop (settle st.layout rows).length) :
      isStray st.layout r = true := isStray_of_isQuiet (isQuiet_of_mem_drop_settle hr)
  cases hcolumn : contentColumn? st.layout rows with
  | none =>
    have hall : ∀ r ∈ rows ++ strays, isStray st.layout r = true := fun r hr =>
      (List.mem_append.mp hr).elim
        (fun hr => isStray_of_isQuiet (forall_quiet_of_contentColumn?_eq_none hcolumn r hr)) (h r)
    have hnone : settle st.layout rows = [] := by rw [settle, hcolumn]
    rw [hnone, stray_of_sublist hall fun r hr => (settle_isPrefix _ _).subset hr, List.map_nil,
      shape_nil]
  | some column =>
    have hcolumn' : contentColumn? st.layout (rows ++ strays) = some column := by
      obtain ⟨r, hr, hindent⟩ := Option.map_eq_some_iff.mp hcolumn
      rw [contentColumn?, List.find?_append, hr, Option.some_or, Option.map_some, hindent]
    have hrows : shape st (rows.map (Row.outdent column)) =
        shape st ((settle st.layout rows).map (Row.outdent column)) := by
      conv_lhs => rw [← settle_append_drop st.layout rows]
      exact hvanish.outdent (settle_isPrefix _ _).length_le (fun r => hsettled r rows) column
    have hsplit := settle_append_drop st.layout (rows ++ strays)
    rw [hcolumn', Option.getD_some, ← hrows]
    -- what settles ends within the rows or within those behind them
    rcases List.prefix_or_prefix_of_prefix (settle_isPrefix st.layout (rows ++ strays))
      (List.prefix_append rows strays) with ⟨more, hmore⟩ | ⟨more, hmore⟩
    · have hquiet :
          more ++ strays = (rows ++ strays).drop (settle st.layout (rows ++ strays)).length :=
        List.append_cancel_left (by rw [hsplit, ← List.append_assoc, hmore])
      have hlength : (settle st.layout (rows ++ strays)).length ≤ rows.length :=
        List.IsPrefix.length_le ⟨more, hmore⟩
      conv_rhs => rw [← hmore]
      exact (hvanish.outdent hlength (fun r hr => hsettled r (rows ++ strays)
        (hquiet ▸ List.mem_append_left _ hr)) column).symm
    · have hstrays : more ++ (rows ++ strays).drop (settle st.layout (rows ++ strays)).length =
          strays :=
        List.append_cancel_left (by rw [← List.append_assoc, hmore, hsplit])
      rw [← hmore]
      apply hvanish.outdent (Nat.le_refl _)
      exact fun r hr => h r (hstrays ▸ List.mem_append_left _ hr)

/-- Rows that open nothing do not change the shape of a bracket, whether it is closed before them or
they belong to it. -/
lemma shape_bracket_append {r : Row} {rows strays : List Row} {header : Text}
    (hvanish : StraysVanish st rows.length) (hr : isStray st.layout r = false)
    (hheader : bracketHeader? st.layout r.line = some header)
    (h : ∀ r ∈ strays, isStray st.layout r = true) :
    shape st (r :: (rows ++ strays)) = shape st (r :: rows) := by
  rw [shape_bracket hr hheader, shape_bracket hr hheader]
  by_cases hfull : ∃ q ∈ rows, q.isBlank = false
  · rw [headColumn_append hfull]
    rcases enclosed_cases st.layout (headColumn rows) 0 rows with
      hopen | ⟨before, q, behind, rfl, hbefore, hq⟩
    · obtain ⟨-, hafter⟩ := shape_enclosed_stray h (headColumn rows)
        (depthFrom st.layout 0 rows) 0
      rw [enclosed_append_of_eq hopen, hopen, hafter, shape_nil,
        hvanish.outdent (Nat.le_refl _) fun q hq =>
          h q ((enclosed_isPrefix _ _ _ strays).subset hq)]
    · have hbehind : behind.length ≤ (before ++ q :: behind).length := by
        rw [List.length_append, List.length_cons]
        omega
      rw [List.append_assoc, List.cons_append, enclosed_closed hbefore hq,
        enclosed_closed hbefore hq, hvanish hbehind h]
  · have hall : ∀ q ∈ rows, isStray st.layout q = true := fun q hq =>
      isStray_of_isQuiet (Bool.or_eq_true_iff.mpr (.inl (by
        by_contra hblank
        exact hfull ⟨q, hq, Bool.eq_false_iff.mpr hblank⟩)))
    have hall' : ∀ q ∈ rows ++ strays, isStray st.layout q = true := fun q hq =>
      (List.mem_append.mp hq).elim (hall q) (h q)
    obtain ⟨hbody, hafter⟩ := shape_enclosed_stray hall' (headColumn (rows ++ strays)) 0
      (headColumn (rows ++ strays))
    obtain ⟨hbody', hafter'⟩ := shape_enclosed_stray hall (headColumn rows) 0 (headColumn rows)
    rw [hbody, hafter, hbody', hafter']

/-- Rows that open nothing do not change the shape of an element without a bracket, whether they
are behind its region or at the end of it. -/
lemma shape_indented_append {r : Row} {rows strays : List Row}
    (hvanish : StraysVanish st rows.length) (hr : isStray st.layout r = false)
    (hplain : bracketHeader? st.layout r.line = none)
    (h : ∀ r ∈ strays, isStray st.layout r = true) :
    shape st (r :: (rows ++ strays)) = shape st (r :: rows) := by
  rw [shape_indented hr hplain, shape_indented hr hplain, contentColumn?_owned,
    contentColumn?_owned, owned, owned]
  by_cases hbeyond : beyond st.layout r.indent rows = []
  · obtain ⟨hregion, hrest⟩ := region_append_of_beyond_nil hbeyond strays
    have hall : region st.layout r.indent rows = rows := by
      simpa [hbeyond] using region_append_beyond st.layout r.indent rows
    have hstrays : ∀ q ∈ region st.layout r.indent strays, isStray st.layout q = true :=
      fun q hq => h q ((region_isPrefix _ _ _).subset hq)
    have hnothing : shape st (beyond st.layout r.indent strays) = [] :=
      shape_eq_nil fun q hq => h q ((List.dropWhile_suffix _).subset hq)
    rw [hregion, hrest, hall, shape_settle_append hvanish hstrays, hnothing, hbeyond, shape_nil]
  · obtain ⟨hregion, hrest⟩ := region_append_of_beyond_cons hbeyond strays
    have hlength : (beyond st.layout r.indent rows).length ≤ rows.length :=
      (List.dropWhile_suffix _).length_le
    rw [hregion, hrest, hvanish hlength h]

lemma straysVanish (st : Settings) (n : Nat) : StraysVanish st n := by
  induction n with
  | zero =>
    intro rows strays hlength h
    obtain rfl := List.eq_nil_of_length_eq_zero (Nat.le_zero.mp hlength)
    rw [List.nil_append, shape_eq_nil h, shape_nil]
  | succ n ih =>
    intro rows strays hlength h
    cases rows with
    | nil => rw [List.nil_append, shape_eq_nil h, shape_nil]
    | cons r rows =>
      have hn : rows.length ≤ n := Nat.le_of_succ_le_succ hlength
      have hvanish : StraysVanish st rows.length := fun hle => ih (hle.trans hn)
      rw [List.cons_append]
      cases hstray : isStray st.layout r with
      | true => rw [shape_stray hstray, shape_stray hstray, ih hn h]
      | false =>
        cases hheader : bracketHeader? st.layout r.line with
        | some header => exact shape_bracket_append hvanish hstray hheader h
        | none => exact shape_indented_append hvanish hstray hheader h

/-- Rows that open nothing do not change the shape of a body at the end of which they stand. -/
theorem shape_append_stray {rows strays : List Row}
    (h : ∀ r ∈ strays, isStray st.layout r = true) : shape st (rows ++ strays) = shape st rows :=
  straysVanish st rows.length (Nat.le_refl _) h

end Body

end TaggedOutline
