import Mathlib.Data.List.TakeDrop
import TaggedOutline.Proofs.Rows

/-!
# Cutting a body

`Body.parse` reads a body line by line and decides late where a held line goes.  `Body.cut` says the
same without a state: where no element is open, a row either is stray or is a header, and a header
owns a piece of the rows after it.

* An indented element owns the rows up to the next content that is not deeper (`region`), less the
  quiet rows at the end of these behind the last comment that stands in the body (`owned`).
* A bracket owns the rows up to the one that closes it (`enclosed`).

`Body.parse_eq_cut` is the main statement.
-/

namespace TaggedOutline

namespace Body

open Layout (Line)

/-- A row that says nothing by itself: a blank one or a comment. -/
def isQuiet (s : LayoutSettings) (r : Row) : Bool := r.isBlank || isComment s r.line

/-- A row that opens nothing where no element is open. -/
def isStray (s : LayoutSettings) (r : Row) : Bool := isQuiet s r || r.content == s.closeBracket

lemma isStray_of_isQuiet {s : LayoutSettings} {r : Row} (h : isQuiet s r = true) :
    isStray s r = true := by
  simp [isStray, h]

/-- Whether a row opens a bracket. -/
def opens (s : LayoutSettings) (r : Row) : Bool := (bracketHeader? s r.line).isSome

/-- One item of a body, by its rows. -/
inductive Item where
  | tag (header : Text) (body : List Row) (bracket : Bool)
  | text (lines : List Text)
deriving DecidableEq, Repr

/-- The item with its rows written as text. -/
def Item.written : Item → BodyItem
  | .tag header body bracket => .tag header (Text.unlines (body.map Row.text)) bracket
  | .text lines => .text (Text.unlines lines)

/-- The items with one more line of text before them. -/
def consText (line : Text) : List Item → List Item
  | .text lines :: items => .text (line :: lines) :: items
  | items => .text [line] :: items

/-- The column of the first row of content. -/
def contentColumn? (s : LayoutSettings) (rows : List Row) : Option Nat :=
  (rows.find? fun r => !isQuiet s r).map Row.indent

/-- The rows up to the next content that is not deeper than a column. -/
def region (s : LayoutSettings) (column : Nat) (rows : List Row) : List Row :=
  rows.takeWhile fun r => isQuiet s r || column < r.indent

/-- The rows from the next content that is not deeper than a column. -/
def beyond (s : LayoutSettings) (column : Nat) (rows : List Row) : List Row :=
  rows.dropWhile fun r => isQuiet s r || column < r.indent

/-- A row that does not stay at the end of a body with a column. -/
def isLoose (s : LayoutSettings) (column : Nat) (r : Row) : Bool :=
  isQuiet s r && !(isComment s r.line && column ≤ r.indent)

/-- The rows of a region that stay in the body: without content there is none, and else the region
ends with its last content or with a comment that stands in the body. -/
def settle (s : LayoutSettings) (rows : List Row) : List Row :=
  match contentColumn? s rows with
  | none => []
  | some c => rows.rdropWhile (isLoose s c)

/-- The rows that a header at a column owns. -/
def owned (s : LayoutSettings) (column : Nat) (rows : List Row) : List Row :=
  settle s (region s column rows)

/-- The column of the first row that is not blank. -/
def headColumn (rows : List Row) : Nat :=
  ((rows.find? fun r => !r.isBlank).map Row.indent).getD 0

/-- Whether a row closes a bracket body at a column, while `depth` brackets are open inside it. -/
def closes (s : LayoutSettings) (column depth : Nat) (r : Row) : Bool :=
  r.content == s.closeBracket && depth == 0 && r.indent ≤ column

/-- The number of brackets that are open inside a bracket body after a row of it. -/
def depthAfter (s : LayoutSettings) (depth : Nat) (r : Row) : Nat :=
  if r.content == s.closeBracket then depth - 1
  else if opens s r then depth + 1
  else depth

/-- The rows of a bracket body at a column, while `depth` brackets are open inside it, and the rows
after the one that closes it. -/
def enclosed (s : LayoutSettings) (column : Nat) : Nat → List Row → List Row × List Row
  | _, [] => ([], [])
  | depth, r :: rows =>
    if closes s column depth r then ([], rows)
    else
      (r :: (enclosed s column (depthAfter s depth r) rows).1,
        (enclosed s column (depthAfter s depth r) rows).2)

/-- A bracket takes its rows from the front, and leaves the rows after the one that closes it. -/
lemma enclosed_append (s : LayoutSettings) (column depth : Nat) (rows : List Row) :
    ∃ close : List Row, (∀ r ∈ close, r.content = s.closeBracket) ∧
      (enclosed s column depth rows).1 ++ close ++ (enclosed s column depth rows).2 = rows := by
  induction rows generalizing depth with
  | nil => exact ⟨[], by simp, by simp [enclosed]⟩
  | cons r rows ih =>
    rw [enclosed]
    split
    · rename_i hr
      have hclose : r.content = s.closeBracket := by
        simp only [closes, Bool.and_eq_true, beq_iff_eq] at hr
        exact hr.1.1
      exact ⟨[r], by simpa using hclose, by simp⟩
    · obtain ⟨close, hclose, hrows⟩ := ih (depthAfter s depth r)
      exact ⟨close, hclose, by simpa using hrows⟩

lemma enclosed_isPrefix (s : LayoutSettings) (column depth : Nat) (rows : List Row) :
    (enclosed s column depth rows).1 <+: rows := by
  obtain ⟨close, -, hrows⟩ := enclosed_append s column depth rows
  exact ⟨close ++ (enclosed s column depth rows).2, by rw [← List.append_assoc, hrows]⟩

lemma enclosed_suffix (s : LayoutSettings) (column depth : Nat) (rows : List Row) :
    (enclosed s column depth rows).2 <:+ rows := by
  obtain ⟨close, -, hrows⟩ := enclosed_append s column depth rows
  exact ⟨(enclosed s column depth rows).1 ++ close, hrows⟩

lemma length_enclosed_le (s : LayoutSettings) (column depth : Nat) (rows : List Row) :
    (enclosed s column depth rows).1.length + (enclosed s column depth rows).2.length ≤
      rows.length := by
  obtain ⟨close, -, hrows⟩ := enclosed_append s column depth rows
  have := congrArg List.length hrows
  simp only [List.length_append] at this
  omega

lemma region_append_beyond (s : LayoutSettings) (column : Nat) (rows : List Row) :
    region s column rows ++ beyond s column rows = rows := List.takeWhile_append_dropWhile

lemma region_isPrefix (s : LayoutSettings) (column : Nat) (rows : List Row) :
    region s column rows <+: rows := List.takeWhile_prefix _

lemma settle_isPrefix (s : LayoutSettings) (rows : List Row) : settle s rows <+: rows := by
  unfold settle
  split
  · exact List.nil_prefix
  · exact List.rdropWhile_prefix _ _

lemma owned_isPrefix (s : LayoutSettings) (column : Nat) (rows : List Row) :
    owned s column rows <+: rows :=
  (settle_isPrefix s _).trans (region_isPrefix s column rows)

/-- The items of a body, one level deep. -/
def cut (s : LayoutSettings) : List Row → List Item
  | [] => []
  | r :: rows =>
    if isStray s r then consText r.content (cut s rows)
    else
      match bracketHeader? s r.line with
      | some header =>
        let column := headColumn rows
        .tag header ((enclosed s column 0 rows).1.map (Row.outdent column)) true ::
          cut s (enclosed s column 0 rows).2
      | none =>
        let body := owned s r.indent rows
        .tag r.content (body.map (Row.outdent ((contentColumn? s body).getD 0))) false ::
          cut s (rows.drop body.length)
termination_by rows => rows.length
decreasing_by
  · simp
  · have := length_enclosed_le s (headColumn rows) 0 rows
    simp only [List.length_cons]
    omega
  · simp only [List.length_drop, List.length_cons]
    omega

section Equations

variable {s : LayoutSettings} {r : Row}

@[simp] lemma cut_nil : cut s [] = [] := by
  rw [cut]

lemma cut_stray (h : isStray s r = true) (rows : List Row) :
    cut s (r :: rows) = consText r.content (cut s rows) := by
  rw [cut, if_pos h]

lemma cut_bracket (h : isStray s r = false) {header : Text}
    (hr : bracketHeader? s r.line = some header) (rows : List Row) :
    cut s (r :: rows) =
      .tag header ((enclosed s (headColumn rows) 0 rows).1.map (Row.outdent (headColumn rows)))
        true :: cut s (enclosed s (headColumn rows) 0 rows).2 := by
  rw [cut, if_neg (by simp [h]), hr]

lemma cut_indented (h : isStray s r = false) (hr : bracketHeader? s r.line = none)
    (rows : List Row) :
    cut s (r :: rows) =
      .tag r.content ((owned s r.indent rows).map
        (Row.outdent ((contentColumn? s (owned s r.indent rows)).getD 0))) false ::
        cut s (rows.drop (owned s r.indent rows).length) := by
  rw [cut, if_neg (by simp [h]), hr]

lemma cut_stray_append {quiet : List Row} (h : ∀ r ∈ quiet, isStray s r = true)
    (rows : List Row) :
    cut s (quiet ++ rows) = (quiet.map Row.content).foldr consText (cut s rows) := by
  induction quiet with
  | nil => rfl
  | cons r quiet ih =>
    rw [List.cons_append, cut_stray (h r List.mem_cons_self),
      ih fun q hq => h q (List.mem_cons_of_mem _ hq)]
    rfl

end Equations

/-! ## Lines held by a state -/

@[simp] lemma isComment_row (s : LayoutSettings) (l : Line) :
    isComment s l.row.line = isComment s l := rfl

@[simp] lemma bracketHeader?_row (s : LayoutSettings) (l : Line) :
    bracketHeader? s l.row.line = bracketHeader? s l := rfl

@[simp] lemma indent_row (l : Line) : l.row.indent = l.indent := rfl

@[simp] lemma isBlank_row (l : Line) : l.row.isBlank = l.isBlank := rfl

lemma isStray_row (s : LayoutSettings) (l : Line) :
    isStray s l.row = (l.isBlank || isComment s l || l.content == s.closeBracket) := rfl

/-- Whether a line opens a bracket is seen from its content alone. -/
lemma bracketHeader?_congr (s : LayoutSettings) {l l' : Line} (h : l.content = l'.content) :
    bracketHeader? s l = bracketHeader? s l' := by
  unfold bracketHeader? isComment
  rw [h]

@[simp] lemma isQuiet_outdent (s : LayoutSettings) (column : Nat) (r : Row) :
    isQuiet s (r.outdent column) = isQuiet s r := by
  simp [isQuiet, isComment, Row.line]

@[simp] lemma isStray_outdent (s : LayoutSettings) (column : Nat) (r : Row) :
    isStray s (r.outdent column) = isStray s r := by
  simp [isStray]

@[simp] lemma bracketHeader?_outdent (s : LayoutSettings) (column : Nat) (r : Row) :
    bracketHeader? s (r.outdent column).line = bracketHeader? s r.line :=
  bracketHeader?_congr s (Row.content_outdent column r)

@[simp] lemma opens_outdent (s : LayoutSettings) (column : Nat) (r : Row) :
    opens s (r.outdent column) = opens s r := by
  simp [opens]

/-- A row that says nothing opens no bracket. -/
lemma opens_of_isQuiet {s : LayoutSettings} {r : Row} (h : isQuiet s r = true) :
    opens s r = false := by
  have hnone : bracketHeader? s r.line = none := by
    unfold bracketHeader?
    rcases Bool.or_eq_true_iff.mp h with hb | hc
    · have hcontent : r.line.content = [] := Row.isBlank_iff.mp hb
      simp [hcontent, Header.cutComment, Header.cutCommentFrom]
    · simp [hc]
  simp [opens, hnone]

lemma enclosed_quiet {s : LayoutSettings} {r : Row} (h : isQuiet s r = true)
    (hclose : r.content ≠ s.closeBracket) (column depth : Nat) (rows : List Row) :
    enclosed s column depth (r :: rows) =
      (r :: (enclosed s column depth rows).1, (enclosed s column depth rows).2) := by
  have hdepth : depthAfter s depth r = depth := by simp [depthAfter, hclose, opens_of_isQuiet h]
  rw [enclosed, if_neg (by simp [closes, hclose]), hdepth]

lemma bodyLine_eq (column : Nat) (l : Line) :
    OpenTag.bodyLine column l = (l.row.outdent column).text := by
  unfold OpenTag.bodyLine Row.outdent
  rw [isBlank_row]
  split
  · rfl
  · rfl

/-- What a fold over lines gives at the end. -/
def finishFrom (s : LayoutSettings) (st : State) (ls : List Line) : List BodyItem :=
  (ls.foldl (State.line s) st).finish s

lemma finishFrom_cons (s : LayoutSettings) (st : State) (l : Line) (ls : List Line) :
    finishFrom s st (l :: ls) = finishFrom s (st.line s l) ls := rfl

lemma foldr_consText_nil (lines : List Text) :
    lines.foldr consText [] = if lines.isEmpty then [] else [.text lines] := by
  induction lines with
  | nil => rfl
  | cons line lines ih =>
    rw [List.foldr_cons, ih]
    cases lines <;> rfl

lemma foldr_consText_tag (lines : List Text) (header : Text) (body : List Row) (bracket : Bool)
    (items : List Item) :
    lines.foldr consText (.tag header body bracket :: items) =
      (if lines.isEmpty then [] else [.text lines]) ++ .tag header body bracket :: items := by
  induction lines with
  | nil => rfl
  | cons line lines ih =>
    rw [List.foldr_cons, ih]
    cases lines <;> rfl

lemma items_endFragment (items : List BodyItem) (fragment : List Text) (o : Option OpenTag) :
    (State.endFragment ⟨items, fragment, o⟩).items.reverse =
      items.reverse ++
        (if fragment.reverse.isEmpty then [] else [Item.text fragment.reverse]).map
          Item.written := by
  unfold State.endFragment
  cases fragment with
  | nil => simp
  | cons line fragment => simp [Item.written]

/-! ## An indented element -/

lemma contentColumn?_append_quiet {s : LayoutSettings} {done : List Row} {r : Row}
    (h : isQuiet s r = true) : contentColumn? s (done ++ [r]) = contentColumn? s done := by
  simp [contentColumn?, List.find?_append, h]

lemma contentColumn?_append_content {s : LayoutSettings} {done : List Row} {r : Row}
    (h : isQuiet s r = false) :
    contentColumn? s (done ++ [r]) = some ((contentColumn? s done).getD r.indent) := by
  cases hf : done.find? fun r => !isQuiet s r with
  | none => simp [contentColumn?, List.find?_append, h, hf]
  | some q => simp [contentColumn?, List.find?_append, hf]

lemma forall_quiet_of_contentColumn?_eq_none {s : LayoutSettings} {rows : List Row}
    (h : contentColumn? s rows = none) : ∀ r ∈ rows, isQuiet s r = true := by
  simpa [contentColumn?] using h

/-- Whether a line says nothing by itself. -/
def isQuietLine (s : LayoutSettings) (l : Line) : Bool := isQuiet s l.row

/-- The open element of a header after some lines of its region: the quiet lines at the end are
held, those before are in the body. -/
def absorbed (s : LayoutSettings) (o : OpenTag) (done : List Line) : OpenTag :=
  let column? := contentColumn? s (done.map Line.row)
  { o with
    bodyColumn := column?
    lines := ((done.rdropWhile (isQuietLine s)).map (OpenTag.bodyLine (column?.getD 0))).reverse
    held := (done.rtakeWhile (isQuietLine s)).reverse }

lemma rdropWhile_map {α β : Type} (f : α → β) (p : β → Bool) (l : List α) :
    (l.map f).rdropWhile p = (l.rdropWhile (p ∘ f)).map f := by
  rw [List.rdropWhile, List.rdropWhile, ← List.map_reverse, List.dropWhile_map, List.map_reverse]

/-- What is dropped from the end for two reasons is dropped from what is dropped for one. -/
lemma rdropWhile_and {α : Type} (p q : α → Bool) (l : List α) :
    (l.rdropWhile fun a => p a && q a) = l.rdropWhile p ++ (l.rtakeWhile p).rdropWhile q := by
  induction l using List.reverseRecOn with
  | nil => rfl
  | append_singleton l a ih =>
    by_cases hp : p a = true
    · rw [List.rdropWhile_concat_pos p l a hp, List.rtakeWhile_concat_pos p l a hp]
      by_cases hq : q a = true
      · rw [List.rdropWhile_concat_pos _ l a (by simp [hp, hq]), ih,
          List.rdropWhile_concat_pos q _ a hq]
      · rw [List.rdropWhile_concat_neg _ l a (by simp [hq]),
          List.rdropWhile_concat_neg q _ a hq, ← List.append_assoc,
          List.rdropWhile_append_rtakeWhile]
    · rw [List.rdropWhile_concat_neg _ l a (by simp [hp]), List.rdropWhile_concat_neg p l a hp,
        List.rtakeWhile_concat_neg p l a hp]
      simp

/-- Lines that are absorbed without content leave nothing in the body. -/
lemma rdropWhile_eq_nil_of_contentColumn? {s : LayoutSettings} {done : List Line}
    (h : contentColumn? s (done.map Line.row) = none) :
    done.rdropWhile (isQuietLine s) = [] := by
  rw [List.rdropWhile_eq_nil_iff]
  intro l hl
  exact forall_quiet_of_contentColumn?_eq_none h l.row (List.mem_map_of_mem hl)

/-- A line of the region of an open element is absorbed by it. -/
lemma line_absorbed {s : LayoutSettings} {o : OpenTag} (ho : o.bracket = false)
    (items : List BodyItem) (done : List Line) {l : Line}
    (hl : (isQuiet s l.row || o.column < l.indent) = true) :
    State.line s ⟨items, [], some (absorbed s o done)⟩ l =
      ⟨items, [], some (absorbed s o (done ++ [l]))⟩ := by
  have hbracket : (absorbed s o done).bracket = false := ho
  cases hq : isQuiet s l.row with
  -- a quiet line is held until it is known whose it is
  | true =>
    have hq' : (l.isBlank || isComment s l) = true := hq
    have hdrop := List.rdropWhile_concat_pos (isQuietLine s) done l hq
    have htake := List.rtakeWhile_concat_pos (isQuietLine s) done l hq
    simp only [State.line, hbracket, hq', Bool.false_eq_true, if_false, if_true]
    simp [absorbed, contentColumn?_append_quiet hq, hdrop, htake, ho]
  -- any other line goes to the body, and the held lines before it
  | false =>
    have hq' : (l.isBlank || isComment s l) = false := hq
    have hblank : l.isBlank = false := (Bool.or_eq_false_iff.mp hq').1
    have hdeep : o.column < l.indent := by simpa [hq] using hl
    have hcol : (absorbed s o done).column = o.column := rfl
    have hnq : ¬ isQuietLine s l = true := by simp [isQuietLine, hq]
    have hdrop := List.rdropWhile_concat_neg (isQuietLine s) done l hnq
    have htake := List.rtakeWhile_concat_neg (isQuietLine s) done l hnq
    have hbody : ∀ c, ((done.rtakeWhile (isQuietLine s)).reverse.map (OpenTag.bodyLine c)) ++
        ((done.rdropWhile (isQuietLine s)).map (OpenTag.bodyLine c)).reverse =
          (done.map (OpenTag.bodyLine c)).reverse := by
      intro c
      rw [List.map_reverse, ← List.reverse_append, ← List.map_append,
        List.rdropWhile_append_rtakeWhile]
    simp only [State.line, hbracket, hq', Bool.false_eq_true, if_false, hcol, hdeep, if_true]
    cases hc : contentColumn? s (done.map Line.row) with
    | none =>
      have hnil := rdropWhile_eq_nil_of_contentColumn? hc
      have hb := hbody l.indent
      simp only [hnil, List.map_nil, List.reverse_nil, List.append_nil] at hb
      simp [absorbed, OpenTag.takeHeld, OpenTag.push, hblank, contentColumn?_append_content hq,
        hdrop, htake, hc, hnil, ho, ← hb]
    | some c =>
      have hb := hbody c
      simp [absorbed, OpenTag.takeHeld, OpenTag.push, hblank, contentColumn?_append_content hq,
        hdrop, htake, hc, ho, ← hb]

/-- The lines of a region are absorbed one after the other. -/
lemma foldl_absorbed {s : LayoutSettings} {o : OpenTag} (ho : o.bracket = false)
    (hnew : absorbed s o [] = o) (items : List BodyItem) (done : List Line)
    (hdone : ∀ l ∈ done, (isQuiet s l.row || o.column < l.indent) = true) :
    done.foldl (State.line s) ⟨items, [], some o⟩ = ⟨items, [], some (absorbed s o done)⟩ := by
  induction done using List.reverseRecOn with
  | nil => rw [List.foldl_nil, hnew]
  | append_singleton done l ih =>
    rw [List.foldl_append, ih fun q hq => hdone q (by simp [hq]), List.foldl_cons, List.foldl_nil]
    exact line_absorbed ho items done (hdone l (by simp))

/-- A closed element has the rows of its region that stay in the body; the others are left over. -/
lemma close_absorbed (s : LayoutSettings) (o : OpenTag) (done : List Line) :
    ((absorbed s o done).close s).1 =
        .tag o.header (Text.unlines ((settle s (done.map Line.row)).map fun r =>
          (r.outdent ((contentColumn? s (done.map Line.row)).getD 0)).text)) o.bracket ∧
      ((absorbed s o done).close s).2.map Line.content =
        ((done.map Line.row).drop (settle s (done.map Line.row)).length).map Row.content := by
  have hcontent : ∀ ls : List Line, (ls.map Line.row).map Row.content = ls.map Line.content := by
    intro ls
    rw [List.map_map]
    rfl
  have hdone := List.rdropWhile_append_rtakeWhile (p := isQuietLine s) (l := done)
  cases hc : contentColumn? s (done.map Line.row) with
  -- an element without content gives all its held lines back
  | none =>
    have hnil := rdropWhile_eq_nil_of_contentColumn? hc
    have hsettle : settle s (done.map Line.row) = [] := by simp [settle, hc]
    rw [hnil, List.nil_append] at hdone
    rw [hsettle]
    constructor
    · simp [absorbed, OpenTag.close, OpenTag.takeHeld, hc, hnil]
    · simp [absorbed, OpenTag.close, hc, hdone, hcontent]
  -- behind its last content line it keeps those up to the last comment that is as deep as `c`
  | some c =>
    let stays : Line → Bool := fun l => !(isComment s l && c ≤ l.indent)
    let taken := done.rdropWhile (isQuietLine s)
    let trailing := done.rtakeWhile (isQuietLine s)
    have htrailing := List.rdropWhile_append_rtakeWhile (p := stays) (l := trailing)
    have hsettle : settle s (done.map Line.row) =
        (taken ++ trailing.rdropWhile stays).map Line.row := by
      rw [← rdropWhile_and]
      simp only [settle, hc, rdropWhile_map]
      rfl
    have hdrop : (done.map Line.row).drop (settle s (done.map Line.row)).length =
        (trailing.rtakeWhile stays).map Line.row := by
      have hcut : done = (taken ++ trailing.rdropWhile stays) ++ trailing.rtakeWhile stays := by
        rw [List.append_assoc, htrailing, hdone]
      rw [hsettle, List.length_map]
      conv_lhs => rw [hcut]
      rw [List.map_append, ← List.length_map Line.row, List.drop_left]
    have hline : OpenTag.bodyLine c = fun l => (l.row.outdent c).text := funext (bodyLine_eq c)
    rw [hdrop, hsettle, hcontent]
    constructor
    · simp [absorbed, OpenTag.close, OpenTag.takeHeld, hc, List.span_eq_takeWhile_dropWhile,
        hline, List.rdropWhile, taken, trailing, stays, Function.comp_def]
    · simp [absorbed, OpenTag.close, hc, List.span_eq_takeWhile_dropWhile, List.rtakeWhile,
        trailing, stays]

/-- A line that is not in the region of an open element closes it. -/
lemma finishFrom_closed {s : LayoutSettings} {st : State} {o : OpenTag} (ho : o.bracket = false)
    (hst : st.current = some o) {ls : List Line}
    (hls : ∀ l ∈ ls.head?, (isQuiet s l.row || o.column < l.indent) = false) :
    finishFrom s st ls = finishFrom s (st.closeTag s) ls := by
  have hnone : (st.closeTag s).current = none := by simp [State.closeTag, hst]
  cases ls with
  | nil =>
    have htwice : (st.closeTag s).closeTag s = st.closeTag s := by
      conv_lhs => rw [State.closeTag, hnone]
    rw [finishFrom, finishFrom, List.foldl_nil, List.foldl_nil, State.finish, State.finish, htwice]
  | cons l ls =>
    obtain ⟨hquiet, hdeep⟩ := Bool.or_eq_false_iff.mp (hls l rfl)
    have hq' : (l.isBlank || isComment s l) = false := hquiet
    have hdeep' : ¬ o.column < l.indent := by simpa using hdeep
    have hline : st.line s l = (st.closeTag s).line s l := by
      conv_rhs => rw [State.line, hnone]
      simp only [State.line, hst, ho, hq', hdeep', Bool.false_eq_true, if_false]
    rw [finishFrom_cons, finishFrom_cons, hline]

/-- What does not stay of a region is quiet. -/
lemma isQuiet_of_mem_drop_settle {s : LayoutSettings} {rows : List Row} {r : Row}
    (h : r ∈ rows.drop (settle s rows).length) : isQuiet s r = true := by
  unfold settle at h
  cases hc : contentColumn? s rows with
  | none =>
    simp only [hc, List.length_nil, List.drop_zero] at h
    exact forall_quiet_of_contentColumn?_eq_none hc r h
  | some c =>
    simp only [hc] at h
    have hdrop : rows.drop (rows.rdropWhile (isLoose s c)).length = rows.rtakeWhile (isLoose s c) :=
      List.append_cancel_left ((List.prefix_iff_eq_append.mp (List.rdropWhile_prefix _ _)).trans
        List.rdropWhile_append_rtakeWhile.symm)
    rw [hdrop] at h
    have hloose : isLoose s c r = true := List.mem_rtakeWhile_imp h
    exact (Bool.and_eq_true_iff.mp hloose).1

lemma settle_append_drop (s : LayoutSettings) (rows : List Row) :
    settle s rows ++ rows.drop (settle s rows).length = rows :=
  List.prefix_iff_eq_append.mp (settle_isPrefix s rows)

/-- The column of a region is that of the rows that stay. -/
lemma contentColumn?_settle (s : LayoutSettings) (rows : List Row) :
    contentColumn? s (settle s rows) = contentColumn? s rows := by
  conv_rhs => rw [← settle_append_drop s rows]
  have hquiet : (rows.drop (settle s rows).length).find? (fun r => !isQuiet s r) = none := by
    simpa using fun r hr => isQuiet_of_mem_drop_settle hr
  rw [contentColumn?, contentColumn?, List.find?_append, hquiet, Option.or_none]

lemma contentColumn?_owned (s : LayoutSettings) (column : Nat) (rows : List Row) :
    contentColumn? s (owned s column rows) = contentColumn? s (region s column rows) :=
  contentColumn?_settle s _

/-- The rows after an owned body are those of the region that do not stay and those after it. -/
lemma drop_owned (s : LayoutSettings) (column : Nat) {rows rest : List Row}
    (h : region s column rows ++ rest = rows) :
    rows.drop (owned s column rows).length =
      (region s column rows).drop (owned s column rows).length ++ rest := by
  have hle : (owned s column rows).length ≤ (region s column rows).length :=
    (settle_isPrefix s (region s column rows)).length_le
  calc rows.drop (owned s column rows).length
      = (region s column rows ++ rest).drop (owned s column rows).length := by rw [h]
    _ = (region s column rows).drop (owned s column rows).length ++ rest :=
        List.drop_append_of_le_length hle

/-- An open element takes the lines of its region, and those that do not stay become text. -/
lemma finishFrom_indented {s : LayoutSettings} (items : List BodyItem) (header : Text)
    (column : Nat) (ls : List Line) :
    ∃ rest, rest <:+ ls ∧
      region s column (ls.map Line.row) ++ rest.map Line.row = ls.map Line.row ∧
      finishFrom s ⟨items, [], some { header, column, bracket := false }⟩ ls =
        finishFrom s ⟨.tag header (Text.unlines ((owned s column (ls.map Line.row)).map fun r =>
            (r.outdent ((contentColumn? s (region s column (ls.map Line.row))).getD 0)).text))
            false :: items,
          (((region s column (ls.map Line.row)).drop
            (owned s column (ls.map Line.row)).length).map Row.content).reverse, none⟩ rest := by
  let takes : Line → Bool := fun q => isQuiet s q.row || column < q.row.indent
  let done := ls.takeWhile takes
  let rest := ls.dropWhile takes
  let o : OpenTag := { header, column, bracket := false }
  have hls : done ++ rest = ls := List.takeWhile_append_dropWhile
  have hdone : done.map Line.row = region s column (ls.map Line.row) := by
    rw [region, List.takeWhile_map]
    rfl
  have hhead : ∀ q ∈ rest.head?, takes q = false := by
    intro q hq
    have := List.head?_dropWhile_not takes ls
    rw [Option.mem_def.mp hq] at this
    exact this
  have hnew : absorbed s o [] = o := rfl
  have htakes : ∀ q ∈ done, takes q = true := fun q hq => List.mem_takeWhile_imp hq
  obtain ⟨hitem, hleft⟩ := close_absorbed s o done
  rw [hdone] at hitem hleft
  have hclose : (⟨items, [], some (absorbed s o done)⟩ : State).closeTag s =
      ⟨((absorbed s o done).close s).1 :: items,
        (((absorbed s o done).close s).2.map Line.content).reverse, none⟩ := by
    simp [State.closeTag]
  refine ⟨rest, List.dropWhile_suffix _, ?_, ?_⟩
  · rw [← hdone, ← List.map_append, hls]
  · conv_lhs => rw [← hls, finishFrom, List.foldl_append, foldl_absorbed rfl hnew items done htakes]
    refine (finishFrom_closed (o := absorbed s o done) rfl rfl hhead).trans ?_
    rw [hclose, hitem, hleft]
    rfl

/-! ## A bracket -/

lemma headColumn_of_blank {r : Row} (h : r.isBlank = true) (rows : List Row) :
    headColumn (r :: rows) = headColumn rows := by
  simp [headColumn, h]

lemma headColumn_of_content {r : Row} (h : r.isBlank = false) (rows : List Row) :
    headColumn (r :: rows) = r.indent := by
  simp [headColumn, h]

/-- Rows that are not all blank have a first one that is not. -/
lemma exists_find?_of_full {rows : List Row} (h : ∃ r ∈ rows, r.isBlank = false) :
    ∃ r, rows.find? (fun r => !r.isBlank) = some r ∧ r.isBlank = false := by
  have hsome : (rows.find? fun r => !r.isBlank).isSome := by
    rw [List.find?_isSome]
    simpa using h
  obtain ⟨r, hr⟩ := Option.isSome_iff_exists.mp hsome
  exact ⟨r, hr, by simpa using List.find?_some hr⟩

/-- The column of an open bracket, once a line is in its body. -/
lemma push_column (o : OpenTag) (l : Line) (rows : List Row) :
    (o.push l).bodyColumn.getD (headColumn rows) =
      o.bodyColumn.getD (headColumn (l.row :: rows)) := by
  unfold OpenTag.push
  cases hb : l.isBlank with
  | true => simp [headColumn_of_blank (r := l.row) hb]
  | false => simp [headColumn_of_content (r := l.row) hb]

lemma push_lines (o : OpenTag) (l : Line) (rows : List Row) :
    (o.push l).lines =
      (l.row.outdent (o.bodyColumn.getD (headColumn (l.row :: rows)))).text :: o.lines := by
  unfold OpenTag.push
  rw [← bodyLine_eq]
  cases hb : l.isBlank with
  | true => simp [OpenTag.bodyLine, hb]
  | false => simp [headColumn_of_content (r := l.row) hb]

lemma takeHeld_of_held {o : OpenTag} (h : o.held = []) : o.takeHeld = o := by
  simp [OpenTag.takeHeld, h]
  cases o
  simp_all

lemma closeTag_bracket (s : LayoutSettings) (items : List BodyItem) {o : OpenTag}
    (ho : o.bracket = true) (hheld : o.held = []) :
    (⟨items, [], some o⟩ : State).closeTag s =
      ⟨.tag o.header (Text.unlines o.lines.reverse) true :: items, [], none⟩ := by
  unfold State.closeTag OpenTag.close
  cases hb : o.bodyColumn <;> simp [OpenTag.takeHeld, hb, hheld, ho]

/-- A line inside a bracket closes it or goes into its body. -/
lemma line_bracket {s : LayoutSettings} (items : List BodyItem) {o : OpenTag}
    (ho : o.bracket = true) (hheld : o.held = []) {l : Line}
    (hflush : l.isBlank = true → l.indent = 0) (rows : List Row) :
    State.line s ⟨items, [], some o⟩ l =
      if closes s (o.bodyColumn.getD (headColumn (l.row :: rows))) o.depth l.row then
        ⟨.tag o.header (Text.unlines o.lines.reverse) true :: items, [], none⟩
      else ⟨items, [], some ({ o with depth := depthAfter s o.depth l.row }.push l)⟩ := by
  have hcolumn : (o.bodyColumn.all fun column => decide (l.indent ≤ column)) =
      decide (l.indent ≤ o.bodyColumn.getD (headColumn (l.row :: rows))) := by
    cases o.bodyColumn with
    | some column => rfl
    | none =>
      cases hb : l.isBlank with
      | true => simp [hflush hb]
      | false => simp [headColumn_of_content (r := l.row) hb]
  have hopens : opens s l.row = (bracketHeader? s l).isSome := rfl
  have hcontent : l.row.content = l.content := rfl
  obtain ⟨header, column, bodyColumn, lines, held, bracket, depth⟩ := o
  obtain rfl : bracket = true := ho
  obtain rfl : held = [] := hheld
  simp only [State.line, if_true, State.bracketLine, closes, depthAfter, hcolumn, hopens,
    hcontent, indent_row]
  cases hclose : l.content == s.closeBracket with
  | true =>
    by_cases hdepth : depth = 0
    · by_cases h : l.indent ≤ bodyColumn.getD (headColumn (l.row :: rows))
      · simp [hdepth, h, takeHeld_of_held, closeTag_bracket]
      · simp [hdepth, h, takeHeld_of_held]
    · simp [hdepth, takeHeld_of_held]
  | false =>
    cases hopen : (bracketHeader? s l).isSome with
    | true => simp [takeHeld_of_held]
    | false => simp [takeHeld_of_held]

/-- An open bracket takes its lines up to the one that closes it. -/
lemma finishFrom_bracket {s : LayoutSettings} (items : List BodyItem) {o : OpenTag}
    (ho : o.bracket = true) (hheld : o.held = []) {ls : List Line}
    (hflush : ∀ l ∈ ls, l.isBlank = true → l.indent = 0) {column : Nat}
    (hcolumn : o.bodyColumn.getD (headColumn (ls.map Line.row)) = column) :
    ∃ rest, rest <:+ ls ∧ rest.map Line.row = (enclosed s column o.depth (ls.map Line.row)).2 ∧
      finishFrom s ⟨items, [], some o⟩ ls =
        finishFrom s ⟨.tag o.header (Text.unlines (o.lines.reverse ++
          (enclosed s column o.depth (ls.map Line.row)).1.map fun r => (r.outdent column).text))
            true :: items, [], none⟩ rest := by
  induction ls generalizing o with
  | nil =>
    refine ⟨[], List.suffix_rfl, rfl, ?_⟩
    simp only [finishFrom, List.foldl_nil, State.finish, closeTag_bracket s items ho hheld]
    simp [enclosed, State.closeTag]
  | cons l ls ih =>
    have hline := line_bracket (s := s) items ho hheld (hflush l List.mem_cons_self)
      (ls.map Line.row)
    rw [← List.map_cons, hcolumn] at hline
    rw [List.map_cons, enclosed, finishFrom_cons, hline]
    cases hcloses : closes s column o.depth l.row with
    | true =>
      refine ⟨ls, List.suffix_cons l ls, rfl, ?_⟩
      simp
    | false =>
      let p : OpenTag := { o with depth := depthAfter s o.depth l.row }
      have hfields : (p.push l).bracket = true ∧ (p.push l).held = [] ∧
          (p.push l).depth = p.depth ∧ (p.push l).header = o.header := by
        unfold OpenTag.push
        split <;> exact ⟨ho, hheld, rfl, rfl⟩
      obtain ⟨hbracket, hnone, hdepth, hheader⟩ := hfields
      -- the first line with content has set the column; before it the lines to come do
      have hnext : (p.push l).bodyColumn.getD (headColumn (ls.map Line.row)) = column := by
        rw [push_column, ← hcolumn, List.map_cons]
      have hpushed : (p.push l).lines = (l.row.outdent column).text :: o.lines := by
        rw [push_lines p l (ls.map Line.row), ← hcolumn, List.map_cons]
      obtain ⟨rest, hsuffix, hrest, hfinish⟩ :=
        ih hbracket hnone (fun q hq => hflush q (List.mem_cons_of_mem _ hq)) hnext
      rw [hdepth] at hrest hfinish
      rw [hheader, hpushed, List.reverse_cons, List.append_assoc] at hfinish
      exact ⟨rest, hsuffix.trans (List.suffix_cons l ls), hrest, hfinish⟩

/-! ## The whole body -/

/-- A line that opens nothing goes into the text between elements. -/
lemma topLevel_stray {s : LayoutSettings} (items : List BodyItem) (fragment : List Text)
    {l : Line} (h : isStray s l.row = true) :
    State.line s ⟨items, fragment, none⟩ l = ⟨items, l.content :: fragment, none⟩ := by
  unfold State.line State.topLevel
  cases hb : l.isBlank with
  | true =>
    have hcontent : l.content = [] := by simpa [Line.isBlank] using hb
    simp [hcontent]
  | false =>
    have h' : (isComment s l || l.content == s.closeBracket) = true := by
      simpa [isStray_row, hb] using h
    simp only [Bool.false_eq_true, if_false, h', if_true]

/-- Any other line ends the text and opens an element. -/
lemma topLevel_header {s : LayoutSettings} (items : List BodyItem) (fragment : List Text)
    {l : Line} (h : isStray s l.row = false) :
    State.line s ⟨items, fragment, none⟩ l =
      ⟨(State.endFragment ⟨items, fragment, none⟩).items, [],
        some { header := (bracketHeader? s l).getD l.content, column := l.indent
               bracket := (bracketHeader? s l).isSome }⟩ := by
  have h' : l.isBlank = false ∧ (isComment s l || l.content == s.closeBracket) = false := by
    simpa [isStray_row, and_assoc] using h
  have hfragment : (State.endFragment ⟨items, fragment, none⟩).fragment = [] := by
    unfold State.endFragment
    split
    · rename_i hempty
      simpa using hempty
    · rfl
  simp only [State.line, State.topLevel, h'.1, h'.2, Bool.false_eq_true, if_false]
  rw [← hfragment]

/-- The items of a body after some text, by the rows of its lines. -/
lemma finishFrom_eq_cut (s : LayoutSettings) (items : List BodyItem) (fragment : List Text)
    {ls : List Line} (hflush : ∀ l ∈ ls, l.isBlank = true → l.indent = 0) :
    finishFrom s ⟨items, fragment, none⟩ ls =
      items.reverse ++
        (fragment.reverse.foldr consText (cut s (ls.map Line.row))).map Item.written := by
  -- on the number of lines: an element takes its own and leaves fewer
  induction hn : ls.length using Nat.strong_induction_on generalizing items fragment ls with
  | _ n ih =>
    cases ls with
    | nil =>
      rw [List.map_nil, cut_nil, foldr_consText_nil]
      exact items_endFragment items fragment none
    | cons l ls =>
      have hlen : ls.length < n := by
        rw [← hn]
        exact Nat.lt_succ_self _
      have hflush' : ∀ q ∈ ls, q.isBlank = true → q.indent = 0 := fun q hq =>
        hflush q (List.mem_cons_of_mem _ hq)
      rw [finishFrom_cons, List.map_cons]
      cases hstray : isStray s l.row with
      | true =>
        rw [topLevel_stray items fragment hstray, ih ls.length hlen items _ hflush' rfl,
          cut_stray hstray]
        simp [Line.row]
      | false =>
        rw [topLevel_header items fragment hstray]
        cases hheader : bracketHeader? s l with
        | some header =>
          obtain ⟨rest, hsuffix, hrest, hfinish⟩ :=
            finishFrom_bracket (s := s) (State.endFragment ⟨items, fragment, none⟩).items
              (o := { header, column := l.indent, bracket := true }) rfl rfl hflush' rfl
          simp only [Option.getD_none] at hrest hfinish
          have hlen' : rest.length < n := Nat.lt_of_le_of_lt hsuffix.length_le hlen
          have hflush'' : ∀ q ∈ rest, q.isBlank = true → q.indent = 0 := fun q hq =>
            hflush' q (hsuffix.subset hq)
          rw [cut_bracket hstray (by simpa using hheader), ← hrest, foldr_consText_tag,
            List.map_append, ← List.append_assoc, ← items_endFragment items fragment none]
          refine hfinish.trans ?_
          rw [ih rest.length hlen' _ [] hflush'' rfl]
          simp [Item.written, Function.comp_def]
        | none =>
          obtain ⟨rest, hsuffix, hrows, hfinish⟩ :=
            finishFrom_indented (s := s) (State.endFragment ⟨items, fragment, none⟩).items l.content
              l.indent ls
          have hlen' : rest.length < n := Nat.lt_of_le_of_lt hsuffix.length_le hlen
          have hflush'' : ∀ q ∈ rest, q.isBlank = true → q.indent = 0 := fun q hq =>
            hflush' q (hsuffix.subset hq)
          have hstrays : ∀ r ∈ (region s l.indent (ls.map Line.row)).drop
              (owned s l.indent (ls.map Line.row)).length, isStray s r = true := fun r hr =>
            isStray_of_isQuiet (isQuiet_of_mem_drop_settle hr)
          rw [cut_indented hstray (by simpa using hheader), indent_row,
            drop_owned s l.indent hrows, cut_stray_append hstrays, foldr_consText_tag,
            List.map_append, ← List.append_assoc, ← items_endFragment items fragment none]
          refine hfinish.trans ?_
          rw [ih rest.length hlen' _ _ hflush'' rfl]
          simp [Item.written, Function.comp_def, contentColumn?_owned, Line.row]

/-- What is read of a body is cut from its rows. -/
theorem parse_eq_cut (s : LayoutSettings) (source : Text) :
    parse s source = (cut s (Text.rows s.tabWidth source)).map Item.written := by
  have hrows := Layout.map_row_lines s.tabWidth source
  have hflush : ∀ l ∈ Layout.lines s.tabWidth source, l.isBlank = true → l.indent = 0 := by
    intro l hl hb
    have hr : l.row ∈ Text.rows s.tabWidth source := by
      rw [Text.rows, ← hrows]
      exact List.mem_map_of_mem hl
    exact (Text.clean_of_mem_rows hr).flush (Row.isBlank_iff.mp hb)
  rw [Text.rows, ← hrows]
  exact finishFrom_eq_cut s [] [] hflush

end Body

end TaggedOutline
