import TaggedOutline.Proofs.Build
import TaggedOutline.Proofs.Content
import TaggedOutline.Proofs.Depth

/-!
# Comments and blank lines

A blank line or a comment makes no element, and the body of an indented element has the column of
its first content.  The body of a bracket, however, has the column of its first row that is not
blank, and that may be a comment.  Without it the column is another one: then the bracket may be
closed by another row, and of two rows before the column the second may be deeper than the first or
not.

`Body.brackets` lists the brackets that the reading of a body opens, with the columns of their
bodies.  Rows that say nothing can be deleted if every bracket takes and leaves the same rows by its
column before and after (`Body.Opened.Agrees`); `Setup.sketch_of_thins` is the main statement.
That is so wherever a bracket keeps its column, and where its headers are behind both columns and no
closing row of it stands between the two (`Body.Opened.agrees_of_columns`).

Two bodies are compared as they stand in the source, before any column is taken off.  A row before
the column of its body counts as if it stood there, so it is `max column r.indent` that the rows
behind a header are measured by.
-/

namespace TaggedOutline

namespace Body

/-! ## Deleted rows -/

/-- The rows `b` are the rows `a` without some rows that say nothing. -/
inductive Thins (s : LayoutSettings) : List Row → List Row → Prop
  | nil : Thins s [] []
  | keep {a b : List Row} (r : Row) (h : Thins s a b) : Thins s (r :: a) (r :: b)
  | drop {r : Row} {a b : List Row} (hr : isQuiet s r = true) (h : Thins s a b) :
      Thins s (r :: a) b

/-! ## Brackets -/

/-- The rows that a bracket with a column takes, without what opens nothing at their end. -/
def inside (s : LayoutSettings) (column : Nat) (rows : List Row) : List Row :=
  (enclosed s column 0 rows).1.rdropWhile (isStray s)

/-- The rows that it leaves, without what opens nothing at their head. -/
def behind (s : LayoutSettings) (column : Nat) (rows : List Row) : List Row :=
  (enclosed s column 0 rows).2.dropWhile (isStray s)

/-- A bracket that is opened where a body is read: the rows behind its header, the column of its
body, and whether it keeps the body as it is. -/
structure Opened where
  rows : List Row
  column : Nat
  keeps : Bool

lemma length_inside_le (s : LayoutSettings) (column : Nat) (rows : List Row) :
    (inside s column rows).length ≤ rows.length :=
  (List.rdropWhile_prefix _ _).length_le.trans (enclosed_isPrefix s column 0 rows).length_le

lemma behind_suffix (s : LayoutSettings) (column : Nat) (rows : List Row) :
    behind s column rows <:+ rows :=
  (List.dropWhile_suffix _).trans (enclosed_suffix s column 0 rows)

lemma beyond_suffix (s : LayoutSettings) (column : Nat) (rows : List Row) :
    beyond s column rows <:+ rows := List.dropWhile_suffix _

/-- The brackets that are opened in a body with a column, and in the bodies of its elements. -/
def brackets (st : Settings) (column : Nat) : List Row → List Opened
  | [] => []
  | r :: rows =>
    if isStray st.layout r then brackets st column rows
    else
      match bracketHeader? st.layout r.line with
      | some header =>
        let inner := max column (headColumn rows)
        let keeps := (Spec.ofHeader st header true).keepsBody st
        ⟨rows, inner, keeps⟩ ::
          ((if keeps then [] else brackets st inner (inside st.layout inner rows)) ++
            brackets st column (behind st.layout inner rows))
      | none =>
        let body := region st.layout (max column r.indent) rows
        (if (Spec.ofHeader st r.content false).keepsBody st then []
          else brackets st ((contentColumn? st.layout body).getD 0) body) ++
          brackets st column (beyond st.layout (max column r.indent) rows)
termination_by rows => rows.length
decreasing_by
  · simp
  · exact Nat.lt_succ_of_le (length_inside_le _ _ rows)
  · exact Nat.lt_succ_of_le (behind_suffix _ _ rows).length_le
  · exact Nat.lt_succ_of_le (region_isPrefix _ _ rows).length_le
  · exact Nat.lt_succ_of_le (beyond_suffix _ _ rows).length_le

/-- The headers without a bracket that stand directly in a body with a column, each with the rows
behind it. -/
def plainHeaders (s : LayoutSettings) (column : Nat) : List Row → List (Row × List Row)
  | [] => []
  | r :: rows =>
    if isStray s r then plainHeaders s column rows
    else
      match bracketHeader? s r.line with
      | some _ => plainHeaders s column (behind s (max column (headColumn rows)) rows)
      | none => (r, rows) :: plainHeaders s column (beyond s (max column r.indent) rows)
termination_by rows => rows.length
decreasing_by
  · simp
  · exact Nat.lt_succ_of_le (behind_suffix _ _ rows).length_le
  · exact Nat.lt_succ_of_le (beyond_suffix _ _ rows).length_le

/-- Measured by either of two columns, the same rows are in the region of a header without a
bracket. -/
def Fits (s : LayoutSettings) (column column' : Nat) (rows : List Row) : Prop :=
  ∀ head ∈ plainHeaders s column' rows,
    region s (max column head.1.indent) head.2 = region s (max column' head.1.indent) head.2

instance (s : LayoutSettings) (column column' : Nat) (rows : List Row) :
    Decidable (Fits s column column' rows) :=
  inferInstanceAs (Decidable (∀ head ∈ plainHeaders s column' rows,
    region s (max column head.1.indent) head.2 = region s (max column' head.1.indent) head.2))

/-- The rows of a bracket `o'` are read in the same way by the column of a bracket `o`: it leaves
the same rows, and if its body is read at all, it takes the same rows and the other column fits
them. -/
structure Opened.Agrees (s : LayoutSettings) (o o' : Opened) : Prop where
  behind : behind s o.column o'.rows = behind s o'.column o'.rows
  inside : o'.keeps = false → inside s o.column o'.rows = inside s o'.column o'.rows
  fits : o'.keeps = false → Fits s o.column o'.column (Body.inside s o'.column o'.rows)

instance (s : LayoutSettings) (o o' : Opened) : Decidable (o.Agrees s o') :=
  decidable_of_iff
    (Body.behind s o.column o'.rows = Body.behind s o'.column o'.rows ∧
      (o'.keeps = false → Body.inside s o.column o'.rows = Body.inside s o'.column o'.rows) ∧
        (o'.keeps = false → Fits s o.column o'.column (Body.inside s o'.column o'.rows)))
    ⟨fun ⟨hbehind, hinside, hfits⟩ => ⟨hbehind, hinside, hfits⟩,
      fun h => ⟨h.behind, h.inside, h.fits⟩⟩

/-! ## Columns that change nothing -/

section Same

variable {s : LayoutSettings} {column column' : Nat}

lemma enclosed_congr {depth : Nat} {rows : List Row}
    (h : ∀ r ∈ rows.take ((enclosed s column' depth rows).1.length + 1),
      r.content = s.closeBracket → (r.indent ≤ column ↔ r.indent ≤ column')) :
    enclosed s column depth rows = enclosed s column' depth rows := by
  induction rows generalizing depth with
  | nil => rfl
  | cons r rows ih =>
    have hcloses : closes s column depth r = closes s column' depth r := by
      cases hclose : r.content == s.closeBracket with
      | false => simp [closes, hclose]
      | true =>
        have hsame := h r (by simp) (beq_iff_eq.mp hclose)
        simp [closes, hclose, hsame]
    rw [enclosed] at h
    rw [enclosed, enclosed, hcloses]
    split
    · rfl
    · rename_i hopen
      rw [if_neg hopen, List.length_cons, List.take_succ_cons] at h
      rw [ih (List.forall_mem_cons.mp h).2]

lemma mem_of_mem_plainHeaders {rows : List Row} {head : Row × List Row}
    (h : head ∈ plainHeaders s column rows) : head.1 ∈ rows ∧ isStray s head.1 = false := by
  induction rows using plainHeaders.induct s column with
  | case1 => simp [plainHeaders] at h
  | case2 r rows hr ih =>
    rw [plainHeaders, if_pos hr] at h
    exact ⟨List.mem_cons_of_mem r (ih h).1, (ih h).2⟩
  | case3 r rows hr header hheader ih =>
    rw [plainHeaders, if_neg hr, hheader] at h
    exact ⟨List.mem_cons_of_mem r ((behind_suffix _ _ rows).subset (ih h).1), (ih h).2⟩
  | case4 r rows hr hplain ih =>
    rw [plainHeaders, if_neg hr, hplain] at h
    rcases List.mem_cons.mp h with rfl | h
    · exact ⟨List.mem_cons_self, by simpa using hr⟩
    · exact ⟨List.mem_cons_of_mem r ((beyond_suffix _ _ rows).subset (ih h).1), (ih h).2⟩

/-- A bracket is read in the same way by two columns if its headers are behind both of them, and no
closing row that it takes or that ends it stands between the two. -/
theorem Opened.agrees_of_columns {o o' : Opened}
    (hclosing : ∀ r ∈ o'.rows.take ((enclosed s o'.column 0 o'.rows).1.length + 1),
      r.content = s.closeBracket → (r.indent ≤ o.column ↔ r.indent ≤ o'.column))
    (hheaders : ∀ r ∈ Body.inside s o'.column o'.rows, isStray s r = false →
      o.column ≤ r.indent ∧ o'.column ≤ r.indent) : o.Agrees s o' := by
  have hsame := enclosed_congr hclosing
  refine ⟨by rw [Body.behind, Body.behind, hsame], fun _ => by rw [Body.inside, Body.inside, hsame],
    fun _ head hhead => ?_⟩
  obtain ⟨hmem, hstray⟩ := mem_of_mem_plainHeaders hhead
  obtain ⟨hcolumn, hcolumn'⟩ := hheaders head.1 hmem hstray
  rw [Nat.max_eq_right hcolumn, Nat.max_eq_right hcolumn']

end Same

/-! ## Equations -/

section Equations

variable {st : Settings} {r : Row} {column : Nat}

@[simp] lemma brackets_nil : brackets st column [] = [] := by
  rw [brackets]

lemma brackets_stray (h : isStray st.layout r = true) (rows : List Row) :
    brackets st column (r :: rows) = brackets st column rows := by
  rw [brackets, if_pos h]

lemma brackets_bracket (h : isStray st.layout r = false) {header : Text}
    (hr : bracketHeader? st.layout r.line = some header) (rows : List Row) :
    brackets st column (r :: rows) =
      ⟨rows, max column (headColumn rows), (Spec.ofHeader st header true).keepsBody st⟩ ::
        ((if (Spec.ofHeader st header true).keepsBody st then []
          else brackets st (max column (headColumn rows))
            (inside st.layout (max column (headColumn rows)) rows)) ++
          brackets st column (behind st.layout (max column (headColumn rows)) rows)) := by
  rw [brackets, if_neg (by simp [h]), hr]

lemma brackets_plain (h : isStray st.layout r = false) (hr : bracketHeader? st.layout r.line = none)
    (rows : List Row) :
    brackets st column (r :: rows) =
      (if (Spec.ofHeader st r.content false).keepsBody st then []
        else brackets st
          ((contentColumn? st.layout (region st.layout (max column r.indent) rows)).getD 0)
          (region st.layout (max column r.indent) rows)) ++
        brackets st column (beyond st.layout (max column r.indent) rows) := by
  rw [brackets, if_neg (by simp [h]), hr]

end Equations

/-! ## Bodies before their column is taken off -/

section Columns

variable {s : LayoutSettings} {r : Row} {rows : List Row}

lemma indent_outdent_of_loud (h : isQuiet s r = false) (column : Nat) :
    (r.outdent column).indent = r.indent - column :=
  Row.indent_outdent (Bool.or_eq_false_iff.mp h).1

lemma isDeep_outdent (s : LayoutSettings) (column indent : Nat) (q : Row) :
    (isQuiet s (q.outdent column) || decide (indent - column < (q.outdent column).indent)) =
      (isQuiet s q || decide (max column indent < q.indent)) := by
  rw [isQuiet_outdent]
  cases hquiet : isQuiet s q with
  | true => rfl
  | false =>
    rw [indent_outdent_of_loud hquiet, Bool.false_or, Bool.false_or, decide_eq_decide]
    omega

lemma region_outdent (s : LayoutSettings) (column indent : Nat) (rows : List Row) :
    region s (indent - column) (rows.map (Row.outdent column)) =
      (region s (max column indent) rows).map (Row.outdent column) := by
  rw [region, List.takeWhile_map]
  congr 2
  exact funext fun q => isDeep_outdent s column indent q

lemma beyond_outdent (s : LayoutSettings) (column indent : Nat) (rows : List Row) :
    beyond s (indent - column) (rows.map (Row.outdent column)) =
      (beyond s (max column indent) rows).map (Row.outdent column) := by
  rw [beyond, List.dropWhile_map]
  congr 2
  exact funext fun q => isDeep_outdent s column indent q

lemma headColumn_outdent (column : Nat) (rows : List Row) :
    headColumn (rows.map (Row.outdent column)) = headColumn rows - column := by
  have hfind : (rows.map (Row.outdent column)).find? (fun q => !q.isBlank) =
      (rows.find? fun q => !q.isBlank).map (Row.outdent column) := by
    rw [List.find?_map]
    congr 2
    exact funext fun q => congrArg not (Row.isBlank_outdent column q)
  rw [headColumn, headColumn, hfind]
  cases hfirst : rows.find? fun q => !q.isBlank with
  | none => simp
  | some q =>
    have hblank : q.isBlank = false := by simpa using List.find?_some hfirst
    simp [Row.indent_outdent hblank]

section Enclosed

variable (hclose : ∀ r : Row, isQuiet s r = true → r.content ≠ s.closeBracket)

include hclose

lemma closes_outdent (column indent depth : Nat) (q : Row) :
    closes s (indent - column) depth (q.outdent column) = closes s (max column indent) depth q := by
  rw [closes, closes, Row.content_outdent]
  cases hquiet : isQuiet s q with
  | true =>
    rw [beq_eq_false_iff_ne.mpr (hclose q hquiet)]
    rfl
  | false =>
    rw [indent_outdent_of_loud hquiet]
    congr 1
    rw [decide_eq_decide]
    omega

lemma enclosed_outdent (column indent depth : Nat) (rows : List Row) :
    enclosed s (indent - column) depth (rows.map (Row.outdent column)) =
      ((enclosed s (max column indent) depth rows).1.map (Row.outdent column),
        (enclosed s (max column indent) depth rows).2.map (Row.outdent column)) := by
  induction rows generalizing depth with
  | nil => rfl
  | cons q rows ih =>
    have hdepth : depthAfter s depth (q.outdent column) = depthAfter s depth q := by
      simp [depthAfter]
    rw [List.map_cons, enclosed, enclosed, closes_outdent hclose, hdepth, ih]
    cases closes s (max column indent) depth q with
    | true => rfl
    | false => rfl

end Enclosed

end Columns

/-! ## Shapes of bodies before their column is taken off -/

section Shapes

variable {st : Settings} {r : Row}

/-- The shape of a body of which some rows are left out that open nothing. -/
lemma shape_outdent_of_append {rows kept strays : List Row} (hrows : kept ++ strays = rows)
    (hstrays : ∀ r ∈ strays, isStray st.layout r = true) (column : Nat) :
    shape st (rows.map (Row.outdent column)) = shape st (kept.map (Row.outdent column)) := by
  subst hrows
  rw [List.map_append]
  refine shape_append_stray fun r hr => ?_
  obtain ⟨q, hq, rfl⟩ := List.mem_map.mp hr
  simpa using hstrays q hq

lemma shape_inside (column k : Nat) (rows : List Row) :
    shape st ((enclosed st.layout column 0 rows).1.map (Row.outdent k)) =
      shape st ((inside st.layout column rows).map (Row.outdent k)) :=
  shape_outdent_of_append List.rdropWhile_append_rtakeWhile
    (fun _ hr => List.mem_rtakeWhile_imp hr) k

lemma shape_behind (column k : Nat) (rows : List Row) :
    shape st ((enclosed st.layout column 0 rows).2.map (Row.outdent k)) =
      shape st ((behind st.layout column rows).map (Row.outdent k)) := by
  conv_lhs => rw [← List.takeWhile_append_dropWhile (p := isStray st.layout)
    (l := (enclosed st.layout column 0 rows).2), List.map_append]
  refine shape_stray_append (fun r hr => ?_) _
  obtain ⟨q, hq, rfl⟩ := List.mem_map.mp hr
  simpa using List.mem_takeWhile_imp hq

lemma shape_owned (column k : Nat) (rows : List Row) :
    shape st ((owned st.layout column rows).map (Row.outdent k)) =
      shape st ((region st.layout column rows).map (Row.outdent k)) :=
  (shape_outdent_of_append (settle_append_drop st.layout (region st.layout column rows))
    (fun _ hr => isStray_of_isQuiet (isQuiet_of_mem_drop_settle hr)) k).symm

lemma shape_outdent_stray (h : isStray st.layout r = true) (column : Nat) (rows : List Row) :
    shape st ((r :: rows).map (Row.outdent column)) = shape st (rows.map (Row.outdent column)) :=
  shape_stray ((isStray_outdent _ _ _).trans h) _

lemma shape_outdent_plain (h : isStray st.layout r = false)
    (hr : bracketHeader? st.layout r.line = none) (column : Nat) (rows : List Row) :
    shape st ((r :: rows).map (Row.outdent column)) =
      (Spec.ofHeader st r.content false).over st
          (shape st ((region st.layout (max column r.indent) rows).map (Row.outdent
            ((contentColumn? st.layout (region st.layout (max column r.indent) rows)).getD 0)))) ::
        shape st ((beyond st.layout (max column r.indent) rows).map (Row.outdent column)) := by
  have hloud : isQuiet st.layout r = false := (Bool.or_eq_false_iff.mp h).1
  rw [List.map_cons, shape_indented (by simpa using h) (by simpa using hr), contentColumn?_owned,
    shape_owned, indent_outdent_of_loud hloud, region_outdent, beyond_outdent, Row.content_outdent,
    contentColumn?_map_outdent, Row.map_outdent_outdent]
  cases hcolumn : contentColumn? st.layout (region st.layout (max column r.indent) rows) with
  | none =>
    have hstray (k : Nat) : shape st ((region st.layout (max column r.indent) rows).map
        (Row.outdent k)) = [] :=
      stray_of_sublist (fun q hq =>
        isStray_of_isQuiet (forall_quiet_of_contentColumn?_eq_none hcolumn q hq)) (fun _ hq => hq) k
    rw [hstray, hstray]
  | some indent =>
    -- content behind the header is behind the column of the body that the header stands in
    have hdeep : max column r.indent < indent := by
      rw [contentColumn?_eq_head?, contents_region] at hcolumn
      obtain ⟨q, hq, rfl⟩ := Option.map_eq_some_iff.mp hcolumn
      simpa using List.mem_takeWhile_imp (List.mem_of_mem_head? hq)
    rw [Option.map_some, Option.getD_some, Option.getD_some, Nat.add_sub_of_le (by omega)]

lemma shape_outdent_bracket
    (hclose : ∀ r : Row, isQuiet st.layout r = true → r.content ≠ st.layout.closeBracket)
    (h : isStray st.layout r = false) {header : Text}
    (hr : bracketHeader? st.layout r.line = some header) (column : Nat) (rows : List Row) :
    shape st ((r :: rows).map (Row.outdent column)) =
      (Spec.ofHeader st header true).over st
          (shape st ((inside st.layout (max column (headColumn rows)) rows).map
            (Row.outdent (max column (headColumn rows))))) ::
        shape st ((behind st.layout (max column (headColumn rows)) rows).map
          (Row.outdent column)) := by
  have hcolumn : column + (headColumn rows - column) = max column (headColumn rows) := by omega
  rw [List.map_cons, shape_bracket (by simpa using h) ((bracketHeader?_outdent _ _ _).trans hr),
    headColumn_outdent, enclosed_outdent hclose, Row.map_outdent_outdent, hcolumn, shape_inside,
    shape_behind]

end Shapes

/-! ## Two readings -/

section Readings

variable {st : Settings} {r : Row} {a b : List Row} {column column' : Nat} {l l' : List Opened}

lemma Thins.contents_eq {s : LayoutSettings} (h : Thins s a b) : contents s a = contents s b := by
  induction h with
  | nil => rfl
  | keep r _ ih =>
    cases hquiet : isQuiet s r with
    | true => rw [contents_cons_of_quiet hquiet, contents_cons_of_quiet hquiet, ih]
    | false => rw [contents_cons_of_loud hquiet, contents_cons_of_loud hquiet, ih]
  | drop hr _ ih => rw [contents_cons_of_quiet hr, ih]

/-- Two bodies of so many rows with the same content have one shape, and the brackets behind them
agree, if their brackets agree. -/
def ReadAlike (st : Settings) (n : Nat) : Prop :=
  ∀ {a b : List Row} {column column' : Nat} {l l' : List Opened}, a.length + b.length ≤ n →
    contents st.layout a = contents st.layout b → Fits st.layout column column' b →
      List.Forall₂ (Opened.Agrees st.layout) (brackets st column a ++ l)
        (brackets st column' b ++ l') →
        shape st (a.map (Row.outdent column)) = shape st (b.map (Row.outdent column')) ∧
          List.Forall₂ (Opened.Agrees st.layout) l l'

lemma fits_self (s : LayoutSettings) (column : Nat) (rows : List Row) :
    Fits s column column rows := fun _ _ => rfl

namespace Fits

variable {s : LayoutSettings}

lemma stray (h : Fits s column column' (r :: b)) (hr : isStray s r = true) :
    Fits s column column' b := by
  rw [Fits, plainHeaders, if_pos hr] at h
  exact h

lemma behind (h : Fits s column column' (r :: b)) (hr : isStray s r = false) {header : Text}
    (hheader : bracketHeader? s r.line = some header) :
    Fits s column column' (Body.behind s (max column' (headColumn b)) b) := by
  rw [Fits, plainHeaders, if_neg (by simp [hr]), hheader] at h
  exact h

lemma region_eq (h : Fits s column column' (r :: b)) (hr : isStray s r = false)
    (hplain : bracketHeader? s r.line = none) :
    region s (max column r.indent) b = region s (max column' r.indent) b ∧
      Fits s column column' (beyond s (max column' r.indent) b) := by
  rw [Fits, plainHeaders, if_neg (by simp [hr]), hplain] at h
  exact List.forall_mem_cons.mp h

end Fits

/-- The bodies of two elements with one head are read alike, unless they are kept. -/
lemma ReadAlike.over {n : Nat} (halike : ReadAlike st n) {s : Spec}
    (hlength : a.length + b.length ≤ n) (h : s.keepsBody st = false →
      contents st.layout a = contents st.layout b ∧ Fits st.layout column column' b)
    (hbrackets : List.Forall₂ (Opened.Agrees st.layout)
      ((if s.keepsBody st then [] else brackets st column a) ++ l)
      ((if s.keepsBody st then [] else brackets st column' b) ++ l')) :
    s.over st (shape st (a.map (Row.outdent column))) =
        s.over st (shape st (b.map (Row.outdent column'))) ∧
      List.Forall₂ (Opened.Agrees st.layout) l l' := by
  cases hkeeps : s.keepsBody st with
  | true =>
    rw [hkeeps, if_pos rfl, if_pos rfl] at hbrackets
    exact ⟨Spec.over_congr fun hno => absurd (hkeeps.symm.trans hno) (by simp), hbrackets⟩
  | false =>
    obtain ⟨hcontents, hfits⟩ := h hkeeps
    obtain ⟨hshape, hrest⟩ := halike hlength hcontents hfits (by simpa [hkeeps] using hbrackets)
    exact ⟨by rw [hshape], hrest⟩

/-- An indented element is read alike in both bodies: the same rows are behind its header. -/
lemma ReadAlike.plain (halike : ReadAlike st (a.length + b.length))
    (hr : isStray st.layout r = false) (hplain : bracketHeader? st.layout r.line = none)
    (h : contents st.layout a = contents st.layout b)
    (hfits : Fits st.layout column column' (r :: b))
    (hbrackets : List.Forall₂ (Opened.Agrees st.layout) (brackets st column (r :: a) ++ l)
      (brackets st column' (r :: b) ++ l')) :
    shape st ((r :: a).map (Row.outdent column)) =
        shape st ((r :: b).map (Row.outdent column')) ∧
      List.Forall₂ (Opened.Agrees st.layout) l l' := by
  obtain ⟨hregion, hfits⟩ := hfits.region_eq hr hplain
  have hbeyond : beyond st.layout (max column r.indent) b =
      beyond st.layout (max column' r.indent) b := by
    have hsplit := region_append_beyond st.layout (max column r.indent) b
    rw [hregion] at hsplit
    exact List.append_cancel_left (hsplit.trans (region_append_beyond _ _ b).symm)
  have hin : contents st.layout (region st.layout (max column r.indent) a) =
      contents st.layout (region st.layout (max column r.indent) b) := by
    rw [contents_region, contents_region, h]
  have hout : contents st.layout (beyond st.layout (max column r.indent) a) =
      contents st.layout (beyond st.layout (max column r.indent) b) := by
    rw [contents_beyond, contents_beyond, h]
  have hcolumn : contentColumn? st.layout (region st.layout (max column r.indent) a) =
      contentColumn? st.layout (region st.layout (max column r.indent) b) := by
    rw [contentColumn?_eq_head?, contentColumn?_eq_head?, hin]
  have hlength (rows : List Row) :=
    (region_isPrefix st.layout (max column r.indent) rows).length_le
  have hlength' (rows : List Row) :=
    (beyond_suffix st.layout (max column r.indent) rows).length_le
  rw [brackets_plain hr hplain, brackets_plain hr hplain, ← hregion, ← hbeyond, hcolumn,
    List.append_assoc, List.append_assoc] at hbrackets
  obtain ⟨hbody, hrest⟩ := halike.over (Nat.add_le_add (hlength a) (hlength b))
    (fun _ => ⟨hin, fits_self _ _ _⟩) hbrackets
  obtain ⟨hshape, hend⟩ := halike (Nat.add_le_add (hlength' a) (hlength' b)) hout
    (hbeyond ▸ hfits) hrest
  rw [shape_outdent_plain hr hplain, shape_outdent_plain hr hplain, ← hregion, ← hbeyond, hcolumn,
    hbody, hshape]
  exact ⟨rfl, hend⟩

/-- A bracket is read alike in both bodies, if its two columns agree. -/
lemma ReadAlike.bracket (halike : ReadAlike st (a.length + b.length))
    (hclose : ∀ r : Row, isQuiet st.layout r = true → r.content ≠ st.layout.closeBracket)
    (hr : isStray st.layout r = false) {header : Text}
    (hheader : bracketHeader? st.layout r.line = some header)
    (h : contents st.layout a = contents st.layout b)
    (hfits : Fits st.layout column column' (r :: b))
    (hbrackets : List.Forall₂ (Opened.Agrees st.layout) (brackets st column (r :: a) ++ l)
      (brackets st column' (r :: b) ++ l')) :
    shape st ((r :: a).map (Row.outdent column)) =
        shape st ((r :: b).map (Row.outdent column')) ∧
      List.Forall₂ (Opened.Agrees st.layout) l l' := by
  rw [shape_outdent_bracket hclose hr hheader, shape_outdent_bracket hclose hr hheader]
  rw [brackets_bracket hr hheader, brackets_bracket hr hheader, List.cons_append, List.cons_append,
    List.append_assoc, List.append_assoc] at hbrackets
  obtain ⟨hagrees, hbrackets⟩ := List.forall₂_cons.mp hbrackets
  set inner := max column (headColumn a)
  set inner' := max column' (headColumn b)
  -- the content of both is cut alike by one column, and the rows of one are cut alike by both
  obtain ⟨hin, hout⟩ : contents st.layout (inside st.layout inner a) =
        contents st.layout (inside st.layout inner b) ∧
      contents st.layout (behind st.layout inner a) =
        contents st.layout (behind st.layout inner b) := by
    have hstray : ∀ r, isQuiet st.layout r = true → isStray st.layout r = true :=
      fun _ => isStray_of_isQuiet
    obtain ⟨htakes, hleaves⟩ := contents_enclosed hclose inner 0 a
    obtain ⟨htakes', hleaves'⟩ := contents_enclosed hclose inner 0 b
    rw [inside, inside, behind, behind, contents_rdropWhile hstray, contents_rdropWhile hstray,
      contents_dropWhile hstray, contents_dropWhile hstray, htakes, htakes', hleaves, hleaves', h]
    exact ⟨rfl, rfl⟩
  have hlength := length_inside_le st.layout
  have hlength' (column : Nat) (rows : List Row) := (behind_suffix st.layout column rows).length_le
  obtain ⟨hbody, hrest⟩ := halike.over (Nat.add_le_add (hlength inner a) (hlength inner' b))
    (fun hkeeps => ⟨by rw [hin, hagrees.inside hkeeps], hagrees.fits hkeeps⟩) hbrackets
  obtain ⟨hshape, hend⟩ := halike (Nat.add_le_add (hlength' inner a) (hlength' inner' b))
    (by rw [hout, hagrees.behind]) (hfits.behind hr hheader) hrest
  rw [hbody, hshape]
  exact ⟨rfl, hend⟩

/-- A row that says nothing is skipped in the second body. -/
lemma ReadAlike.skip {n : Nat} (halike : ReadAlike st n) (hr : isQuiet st.layout r = true)
    (hlength : a.length + (r :: b).length ≤ n + 1)
    (h : contents st.layout a = contents st.layout (r :: b))
    (hfits : Fits st.layout column column' (r :: b))
    (hbrackets : List.Forall₂ (Opened.Agrees st.layout) (brackets st column a ++ l)
      (brackets st column' (r :: b) ++ l')) :
    shape st (a.map (Row.outdent column)) = shape st ((r :: b).map (Row.outdent column')) ∧
      List.Forall₂ (Opened.Agrees st.layout) l l' := by
  have hstray := isStray_of_isQuiet hr
  rw [contents_cons_of_quiet hr] at h
  rw [brackets_stray hstray] at hbrackets
  rw [shape_outdent_stray hstray]
  exact halike (Nat.le_of_succ_le_succ hlength) h (hfits.stray hstray) hbrackets

lemma readAlike
    (hclose : ∀ r : Row, isQuiet st.layout r = true → r.content ≠ st.layout.closeBracket)
    (n : Nat) : ReadAlike st n := by
  induction n with
  | zero =>
    intro a b column column' l l' hlength _ _ hbrackets
    obtain ⟨rfl, rfl⟩ : a = [] ∧ b = [] := by
      simpa only [Nat.le_zero, Nat.add_eq_zero_iff, List.length_eq_zero_iff] using hlength
    exact ⟨rfl, by simpa using hbrackets⟩
  | succ n ih =>
    intro a b column column' l l' hlength h hfits hbrackets
    cases a with
    | nil =>
      cases b with
      | nil => exact ⟨rfl, by simpa using hbrackets⟩
      | cons q b =>
        have hquiet : isQuiet st.layout q = true := by
          by_contra hloud
          rw [contents_cons_of_loud (Bool.eq_false_iff.mpr hloud)] at h
          cases h
        exact ih.skip hquiet hlength h hfits hbrackets
    | cons r a =>
      cases hr : isQuiet st.layout r with
      | true =>
        have hstray := isStray_of_isQuiet hr
        rw [contents_cons_of_quiet hr] at h
        rw [brackets_stray hstray] at hbrackets
        rw [shape_outdent_stray hstray]
        exact ih (by simp only [List.length_cons] at hlength; omega) h hfits hbrackets
      | false =>
        rw [contents_cons_of_loud hr] at h
        cases b with
        | nil => cases h
        | cons q b =>
          cases hq : isQuiet st.layout q with
          | true => exact ih.skip hq hlength (by rw [contents_cons_of_loud hr, h]) hfits hbrackets
          | false =>
            -- both bodies go on with the same row
            rw [contents_cons_of_loud hq] at h
            obtain ⟨rfl, hsame⟩ := List.cons.inj h
            have hless : a.length + b.length ≤ n := by
              simp only [List.length_cons] at hlength
              omega
            have halike : ReadAlike st (a.length + b.length) := fun hle => ih (hle.trans hless)
            cases hstray : isStray st.layout r with
            | true =>
              rw [brackets_stray hstray, brackets_stray hstray] at hbrackets
              rw [shape_outdent_stray hstray, shape_outdent_stray hstray]
              exact ih hless hsame (hfits.stray hstray) hbrackets
            | false =>
              cases hheader : bracketHeader? st.layout r.line with
              | none => exact halike.plain hstray hheader hsame hfits hbrackets
              | some header => exact halike.bracket hclose hstray hheader hsame hfits hbrackets

/-- Bodies with the same content have one shape if their brackets agree. -/
lemma shape_eq_of_agrees (st : Settings)
    (hclose : ∀ r : Row, isQuiet st.layout r = true → r.content ≠ st.layout.closeBracket)
    (ha : ∀ r ∈ a, r.Clean) (hb : ∀ r ∈ b, r.Clean)
    (h : contents st.layout a = contents st.layout b)
    (hbrackets : List.Forall₂ (Opened.Agrees st.layout) (brackets st 0 a) (brackets st 0 b)) :
    shape st a = shape st b := by
  have hbrackets' : List.Forall₂ (Opened.Agrees st.layout) (brackets st 0 a ++ [])
      (brackets st 0 b ++ []) := by
    simpa using hbrackets
  obtain ⟨hshape, -⟩ := readAlike hclose (a.length + b.length) (Nat.le_refl _) h
    (fits_self st.layout 0 b) hbrackets'
  rwa [Row.map_outdent_zero ha, Row.map_outdent_zero hb] at hshape

end Readings

end Body

namespace Setup

/-- Deleting lines that are blank or comments leaves the sketch of a document as it is, as long as
every bracket is read in the same way by its column before and after. -/
theorem sketch_of_thins {source thinned : Text}
    (h : Body.Thins {} (Text.rows 4 source) (Text.rows 4 thinned))
    (hbrackets : List.Forall₂ (Body.Opened.Agrees {}) (Body.brackets {} 0 (Text.rows 4 source))
      (Body.brackets {} 0 (Text.rows 4 thinned))) :
    ∃ t t' sketch, Builds {} source t ∧ Builds {} thinned t' ∧
      t.sketch? Tree.root = some sketch ∧ t'.sketch? Tree.root = some sketch := by
  obtain ⟨t, hbuilds, -, hsketch⟩ := builds_document {} rfl source
  obtain ⟨t', hbuilds', -, hsketch'⟩ := builds_document {} rfl thinned
  have hclose : ∀ r : Row, Body.isQuiet {} r = true →
      r.content ≠ ({} : LayoutSettings).closeBracket := by
    intro r hr he
    simp [Body.isQuiet, Body.isComment, Row.line, Row.isBlank, he] at hr
  have hclean (text : Text) : ∀ r ∈ Text.rows 4 text, r.Clean := fun r hr =>
    Text.clean_of_mem_rows hr
  have hshape : shape {} (Text.rows 4 source) = shape {} (Text.rows 4 thinned) :=
    Body.shape_eq_of_agrees {} hclose (hclean source) (hclean thinned) h.contents_eq
      hbrackets
  refine ⟨t, t', _, hbuilds, hbuilds', hsketch, ?_⟩
  rw [hsketch', Spec.sketch_document, Spec.sketch_document]
  exact congrArg (fun shape => some (Sketch.mk _ _ _ shape)) hshape.symm

/-- The comment stands before the body of the bracket and the closing row, so the column changes and
nothing else does. -/
theorem sketch_of_thins_in_bracket :
    ∃ t t' sketch, Builds {} "menu \x7b\n# c\n    open\n      file\n    close\n\x7d\n".toList t ∧
      Builds {} "menu \x7b\n    open\n      file\n    close\n\x7d\n".toList t' ∧
      t.sketch? Tree.root = some sketch ∧ t'.sketch? Tree.root = some sketch := by
  have hsource : Text.rows 4 "menu \x7b\n# c\n    open\n      file\n    close\n\x7d\n".toList =
      [⟨0, "menu \x7b".toList⟩, ⟨0, "# c".toList⟩, ⟨4, "open".toList⟩, ⟨6, "file".toList⟩,
        ⟨4, "close".toList⟩, ⟨0, "\x7d".toList⟩] := by
    decide +kernel
  have hthinned : Text.rows 4 "menu \x7b\n    open\n      file\n    close\n\x7d\n".toList =
      [⟨0, "menu \x7b".toList⟩, ⟨4, "open".toList⟩, ⟨6, "file".toList⟩, ⟨4, "close".toList⟩,
        ⟨0, "\x7d".toList⟩] := by
    decide +kernel
  apply sketch_of_thins
  · rw [hsource, hthinned]
    exact .keep _ (.drop (by decide) (.keep _ (.keep _ (.keep _ (.keep _ .nil)))))
  · rw [hsource, hthinned]
    decide +kernel

/-- A comment at the head of a bracket body fixes the column of the body, so without it the bracket
is closed by another line. -/
theorem comment_fixes_bracket_column :
    ∃ source thinned : Text,
      Text.rows 4 thinned = (Text.rows 4 source).filter (fun r => !Body.isQuiet {} r) ∧
      ∃ t t', Builds {} source t ∧ Builds {} thinned t' ∧
        t.sketch? Tree.root ≠ t'.sketch? Tree.root := by
  refine ⟨"a \x7b\n# comment\n  \x7d\nb\n".toList, "a \x7b\n  \x7d\nb\n".toList, by decide +kernel,
    ?_⟩
  obtain ⟨t, hbuilds, -, hsketch⟩ := builds_document {} rfl "a \x7b\n# comment\n  \x7d\nb\n".toList
  obtain ⟨t', hbuilds', -, hsketch'⟩ := builds_document {} rfl "a \x7b\n  \x7d\nb\n".toList
  refine ⟨t, t', hbuilds, hbuilds', fun he => ?_⟩
  rw [hsketch, hsketch'] at he
  have hlength := congrArg (fun s => s.children.length) (Option.some.inj he)
  revert hlength
  decide +kernel

end Setup

end TaggedOutline
