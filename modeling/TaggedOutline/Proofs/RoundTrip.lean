import TaggedOutline.Proofs.Build
import TaggedOutline.Proofs.Header.Canonical
import TaggedOutline.Proofs.Normal
import TaggedOutline.Proofs.Written

/-!
# Round trips without brackets

Where no row opens or closes a bracket, what is read, written and read again is the same.  The two
halves meet at lists of items in a normal form, `Body.Neat`: rows without brackets are cut into such
a list, and the rows of such a list are cut into that list again.  `Setup.round_trip_flat` is the
main statement.
-/

namespace TaggedOutline

namespace Body

/-! ## Settled bodies -/

/-- A row that neither opens nor closes a bracket. -/
structure IsFlat (r : Row) : Prop where
  plain : bracketHeader? {} r.line = none
  content : r.content ≠ ['\x7d']

lemma IsFlat.outdent {r : Row} (h : IsFlat r) (column : Nat) : IsFlat (r.outdent column) :=
  ⟨by simpa using h.plain, by simpa using h.content⟩

lemma IsFlat.isStray_eq {r : Row} (h : IsFlat r) : isStray {} r = isQuiet {} r := by
  have hne : (r.content == ({} : LayoutSettings).closeBracket) = false :=
    beq_eq_false_iff_ne.mpr h.content
  rw [isStray, hne, Bool.or_false]

/-- A body as it stands where it is written: its content begins at the first column, and its last
row is not blank. -/
structure Settled (rows : List Row) : Prop where
  column : rows ≠ [] → contentColumn? {} rows = some 0
  last : ∀ r ∈ rows.getLast?, r.isBlank = false

lemma Settled.nil : Settled [] := ⟨fun h => absurd rfl h, by simp⟩

/-- The rows that a header owns make a settled body. -/
lemma settled_owned (column : Nat) (rows : List Row) :
    Settled ((owned {} column rows).map
      (Row.outdent ((contentColumn? {} (owned {} column rows)).getD 0))) := by
  rcases owned_fits {} column rows with hnil | ⟨hcolumn, last, hlast, hfull⟩
  · rw [hnil]
    exact Settled.nil
  · exact ⟨fun _ => hcolumn, fun r hr => Option.mem_unique hlast hr ▸ hfull⟩

lemma isBlank_of_isLoose_shift {r : Row} (h : isLoose {} 4 (r.shift 4) = true) :
    r.isBlank = true := by
  cases hblank : r.isBlank with
  | true => rfl
  | false =>
    have hblank' : (r.shift 4).isBlank = false := by simpa using hblank
    have hindent : (r.shift 4).indent = r.indent + 4 := Row.indent_shift hblank
    cases hcomment : isComment {} (r.shift 4).line with
    | true => simp [isLoose, hcomment, hindent] at h
    | false => simp [isLoose, isQuiet, hcomment, hblank'] at h

lemma Settled.contentColumn?_shift {rows : List Row} (h : Settled rows) (hne : rows ≠ []) :
    contentColumn? {} (rows.map (Row.shift 4)) = some 4 := by
  rw [Row.contentColumn?_shift, h.column hne, Option.map_some]

/-- A settled body further to the right is taken whole, and quiet rows behind it are left. -/
lemma settle_shift_append {body quiet : List Row} (hbody : Settled body)
    (hquiet : ∀ r ∈ quiet, isQuiet {} r = true ∧ r.indent = 0) :
    settle {} (body.map (Row.shift 4) ++ quiet) = body.map (Row.shift 4) := by
  have hnone : quiet.find? (fun r => !isQuiet {} r) = none := by
    simpa using fun r hr => (hquiet r hr).1
  have hfind : contentColumn? {} (body.map (Row.shift 4) ++ quiet) =
      contentColumn? {} (body.map (Row.shift 4)) := by
    rw [contentColumn?, contentColumn?, List.find?_append, hnone, Option.or_none]
  unfold settle
  rw [hfind]
  cases hne : body with
  | nil => rfl
  | cons r rows =>
    rw [← hne, hbody.contentColumn?_shift (by simp [hne])]
    have hloose : ∀ q ∈ quiet.reverse, isLoose {} 4 q = true := by
      intro q hq
      obtain ⟨hq, hindent⟩ := hquiet q (List.mem_reverse.mp hq)
      simp [isLoose, hq, hindent]
    show List.rdropWhile (isLoose {} 4) (body.map (Row.shift 4) ++ quiet) = _
    rw [List.rdropWhile, List.reverse_append, List.dropWhile_append_of_pos hloose]
    refine List.rdropWhile_eq_self_iff.mpr fun hmap hlast => ?_
    have hbodyne : body ≠ [] := by simp [hne]
    rw [List.getLast_map] at hlast
    have hfull := hbody.last _ (List.getLast?_eq_some_getLast hbodyne)
    rw [isBlank_of_isLoose_shift hlast] at hfull
    contradiction

/-! ## Items in normal form -/

/-- The rows that an item without a bracket is written as. -/
def Item.rows : Item → List Row
  | .text lines => lines.map fun line => ⟨0, line⟩
  | .tag header body _ => ⟨0, header⟩ :: body.map (Row.shift 4)

/-- Whether an item is text. -/
def Item.isText : Item → Bool
  | .text _ => true
  | .tag _ _ _ => false

/-- Items as they are cut from rows without brackets: texts are quiet and never stand side by side,
and bodies are settled. -/
inductive Neat : List Item → Prop
  | nil : Neat []
  | text {lines : List Text} {items : List Item} (hne : lines ≠ [])
      (hlines : ∀ line ∈ lines, (⟨0, line⟩ : Row).Clean ∧ isQuiet {} ⟨0, line⟩ = true)
      (hnext : ∀ item ∈ items.head?, item.isText = false) (h : Neat items) :
      Neat (.text lines :: items)
  | tag {header : Text} {body : List Row} {items : List Item} (hclean : (⟨0, header⟩ : Row).Clean)
      (hstray : isStray {} ⟨0, header⟩ = false)
      (hplain : bracketHeader? {} (⟨0, header⟩ : Row).line = none)
      (hrows : ∀ r ∈ body, r.Clean) (hbody : Settled body) (h : Neat items) :
      Neat (.tag header body false :: items)

lemma Neat.consText {line : Text} {items : List Item} (h : Neat items)
    (hclean : (⟨0, line⟩ : Row).Clean) (hquiet : isQuiet {} ⟨0, line⟩ = true) :
    Neat (consText line items) := by
  cases h with
  | nil => exact .text (by simp) (by simpa using ⟨hclean, hquiet⟩) (by simp) .nil
  | text hne hlines hnext h =>
    exact .text (by simp) (List.forall_mem_cons.mpr ⟨⟨hclean, hquiet⟩, hlines⟩) hnext h
  | tag hclean' hstray hplain hrows hbody h =>
    refine .text (by simp) (by simpa using ⟨hclean, hquiet⟩) ?_
      (.tag hclean' hstray hplain hrows hbody h)
    rintro _ ⟨⟩
    rfl

/-- Rows without brackets are cut into items in normal form. -/
lemma neat_cut {rows : List Row} (hclean : ∀ r ∈ rows, r.Clean) (hflat : ∀ r ∈ rows, IsFlat r) :
    Neat (cut {} rows) := by
  induction rows using cut.induct {} with
  | case1 =>
    rw [cut_nil]
    exact .nil
  | case2 r rows hr ih =>
    have hquiet : isQuiet {} r = true := (hflat r List.mem_cons_self).isStray_eq ▸ hr
    rw [cut_stray hr]
    exact (ih (fun q hq => hclean q (List.mem_cons_of_mem _ hq))
      fun q hq => hflat q (List.mem_cons_of_mem _ hq)).consText
        (hclean r List.mem_cons_self).content hquiet
  | case3 r rows hr head hhead =>
    have hplain := (hflat r List.mem_cons_self).plain
    rw [hhead] at hplain
    contradiction
  | case4 r rows hr hhead _ ih =>
    have hstray : isStray {} r = false := by simpa using hr
    rw [cut_indented hstray hhead]
    refine .tag (hclean r List.mem_cons_self).content hstray
      ((bracketHeader?_congr {} rfl).trans hhead) (fun q hq => ?_)
      (settled_owned r.indent rows) (ih (fun q hq => ?_) fun q hq => ?_)
    · obtain ⟨p, hp, rfl⟩ := List.mem_map.mp hq
      have hp' := List.mem_cons_of_mem r ((owned_isPrefix {} r.indent rows).subset hp)
      exact (hclean p hp').outdent _
    · exact hclean q (List.mem_cons_of_mem _ (List.mem_of_mem_drop hq))
    · exact hflat q (List.mem_cons_of_mem _ (List.mem_of_mem_drop hq))

lemma region_cons_of_content {r : Row} (h : isStray {} r = false) (hindent : r.indent = 0)
    (rows : List Row) : region {} 0 (r :: rows) = [] := by
  have hquiet : isQuiet {} r = false := (Bool.or_eq_false_iff.mp h).1
  rw [region, List.takeWhile_cons_of_neg (by simp [hquiet, hindent])]

/-- Between a body and the next element there are only quiet rows. -/
lemma Neat.region_rows {items : List Item} (h : Neat items) :
    ∀ r ∈ region {} 0 (items.flatMap Item.rows), isQuiet {} r = true ∧ r.indent = 0 := by
  cases h with
  | nil => simp [region]
  | tag hclean hstray =>
    rw [List.flatMap_cons, Item.rows, List.cons_append, region_cons_of_content hstray rfl]
    simp
  | @text lines items hne hlines hnext h =>
    have hquiet : ∀ r ∈ lines.map (fun line => (⟨0, line⟩ : Row)),
        isQuiet {} r = true ∧ r.indent = 0 := by
      intro r hr
      obtain ⟨line, hline, rfl⟩ := List.mem_map.mp hr
      exact ⟨(hlines line hline).2, rfl⟩
    have hrest : region {} 0 (items.flatMap Item.rows) = [] := by
      cases h with
      | nil => rfl
      | text => exact absurd (hnext _ rfl) (by simp [Item.isText])
      | tag hclean hstray =>
        rw [List.flatMap_cons, Item.rows, List.cons_append, region_cons_of_content hstray rfl]
    rw [List.flatMap_cons, Item.rows, region,
      List.takeWhile_append_of_pos fun r hr => by simp [(hquiet r hr).1]]
    change ∀ r ∈ _ ++ region {} 0 (items.flatMap Item.rows), _
    rwa [hrest, List.append_nil]

/-- The rows of items in normal form are cut into these items. -/
lemma Neat.cut_rows {items : List Item} (h : Neat items) :
    cut {} (items.flatMap Item.rows) = items := by
  induction h with
  | nil => exact cut_nil
  | @text lines items hne hlines hnext h ih =>
    have hstray : ∀ r ∈ lines.map (fun line => (⟨0, line⟩ : Row)), isStray {} r = true := by
      intro r hr
      obtain ⟨line, hline, rfl⟩ := List.mem_map.mp hr
      exact isStray_of_isQuiet (hlines line hline).2
    have hlines' : (lines.map fun line => (⟨0, line⟩ : Row)).map Row.content = lines := by
      simp [Function.comp_def]
    rw [List.flatMap_cons, Item.rows, cut_stray_append hstray, ih, hlines']
    cases items with
    | nil => rw [foldr_consText_nil, if_neg (by simpa using hne)]
    | cons item items =>
      cases item with
      | text => exact absurd (hnext _ rfl) (by simp [Item.isText])
      | tag => rw [foldr_consText_tag, if_neg (by simpa using hne), List.singleton_append]
  | @tag header body items hclean hstray hplain hrows hbody h ih =>
    have howned : owned {} 0 (body.map (Row.shift 4) ++ items.flatMap Item.rows) =
        body.map (Row.shift 4) := by
      rw [owned, region, List.takeWhile_append_of_pos fun _ hr => Row.deep_of_mem_shift hr]
      exact settle_shift_append hbody h.region_rows
    have hoff : (body.map (Row.shift 4)).map
        (Row.outdent ((contentColumn? {} (body.map (Row.shift 4))).getD 0)) = body := by
      cases hne : body with
      | nil => rfl
      | cons r rows =>
        rw [← hne, hbody.contentColumn?_shift (by simp [hne])]
        exact Row.map_outdent_shift hrows 4
    rw [List.flatMap_cons, Item.rows, List.cons_append, cut_indented hstray hplain]
    change Item.tag header ((owned {} 0 (body.map (Row.shift 4) ++ _)).map (Row.outdent
      ((contentColumn? {} (owned {} 0 (body.map (Row.shift 4) ++ _))).getD 0))) false ::
        cut {} (List.drop (owned {} 0 (body.map (Row.shift 4) ++ _)).length _) = _
    rw [howned, hoff, List.drop_left, ih]

/-! ## Items that are written again -/

open Spec (childrenRows childRows IsLine EveryIn)

/-- The lines of an item, without their indentation. -/
def Item.lines : Item → List Text
  | .text lines => lines
  | .tag header body _ => header :: body.map Row.content

lemma flatMap_lines_consText (line : Text) (items : List Item) :
    (Body.consText line items).flatMap Item.lines = line :: items.flatMap Item.lines := by
  cases items with
  | nil => rfl
  | cons item items => cases item <;> rfl

/-- Without brackets no line is lost. -/
lemma flatMap_lines_cut {rows : List Row} (hflat : ∀ r ∈ rows, IsFlat r) :
    (cut {} rows).flatMap Item.lines = rows.map Row.content := by
  induction rows using cut.induct {} with
  | case1 =>
    rw [cut_nil]
    rfl
  | case2 r rows hr ih =>
    rw [cut_stray hr, flatMap_lines_consText, ih fun q hq => hflat q (List.mem_cons_of_mem _ hq),
      List.map_cons]
  | case3 r rows hr head hhead =>
    have hplain := (hflat r List.mem_cons_self).plain
    rw [hhead] at hplain
    contradiction
  | case4 r rows hr hhead _ ih =>
    have hstray : isStray {} r = false := by simpa using hr
    have hsplit := List.prefix_iff_eq_append.mp (owned_isPrefix {} r.indent rows)
    rw [cut_indented hstray hhead, List.flatMap_cons,
      ih fun q hq => hflat q (List.mem_cons_of_mem _ (List.mem_of_mem_drop hq)), Item.lines,
      List.map_map, List.map_cons, List.cons_append]
    congr 1
    conv_rhs => rw [← hsplit, List.map_append]
    congr 1
    exact List.map_congr_left fun q _ => Row.content_outdent _ q

/-- An item as it is written after it was read. -/
def Item.again : Item → Item
  | .text lines => .text lines
  | .tag header body bracket =>
    .tag (Row.ofText 4 ((Spec.ofHeader {} header bracket).openingLine {})).content
      ((Spec.ofHeader {} header bracket).bodyAgain body) bracket

/-- What is read of some rows is written so that it is read again. -/
structure Returns (rows : List Row) : Prop where
  isLine : EveryIn IsLine (outline {} rows)
  settled : Settled rows → Settled (childrenRows 0 (outline {} rows))
  again : outline {} (childrenRows 0 (outline {} rows)) = outline {} rows

lemma Returns.clean {rows : List Row} (h : Returns rows) :
    ∀ r ∈ childrenRows 0 (outline {} rows), r.Clean := Spec.clean_childrenRows h.isLine

section Again

variable {items : List Item}

/-- The header of an item in normal form is written as the head of an element. -/
lemma heads_again {header : Text} (hclean : (⟨0, header⟩ : Row).Clean)
    (hstray : isStray {} ⟨0, header⟩ = false)
    (hplain : bracketHeader? {} (⟨0, header⟩ : Row).line = none) :
    (Spec.ofHeader {} header false).hasBracket = false ∧
      '\n' ∉ (Spec.ofHeader {} header false).openingLine {} ∧
      Header.Heads (Row.ofText 4 ((Spec.ofHeader {} header false).openingLine {}))
        (Spec.ofHeader {} header false) :=
  Header.heads_openingLine hclean hstray hplain

lemma Neat.again (h : Neat items)
    (hbodies : ∀ header body, Item.tag header body false ∈ items → Returns body) :
    Neat (items.map Item.again) := by
  induction h with
  | nil => exact .nil
  | @text lines items hne hlines hnext h ih =>
    refine .text hne hlines ?_ (ih fun header body hm => hbodies header body (by simp [hm]))
    cases items with
    | nil => simp
    | cons item items =>
      have hitem := hnext item rfl
      cases item with
      | text => simp [Item.isText] at hitem
      | tag =>
        rintro _ ⟨⟩
        rfl
  | @tag header body items hclean hstray hplain hrows hbody h ih =>
    obtain ⟨-, -, hheads⟩ := heads_again hclean hstray hplain
    have hreturns := hbodies header body List.mem_cons_self
    have hagain : (∀ r ∈ (Spec.ofHeader {} header false).bodyAgain body, r.Clean) ∧
        Settled ((Spec.ofHeader {} header false).bodyAgain body) := by
      unfold Spec.bodyAgain
      split
      · exact ⟨hrows, hbody⟩
      · exact ⟨hreturns.clean, hreturns.settled hbody⟩
    exact .tag hheads.clean.content hheads.stray
      ((bracketHeader?_congr {} rfl).trans hheads.plain) hagain.1 hagain.2
      (ih fun header body hm => hbodies header body (by simp [hm]))

/-- The rows that are written of items in normal form. -/
lemma Neat.childrenRows_eq (h : Neat items) :
    childrenRows 0 (items.map (Item.child {})) = (items.map Item.again).flatMap Item.rows := by
  induction h with
  | nil => rfl
  | @text lines items hne hlines hnext h ih =>
    rw [List.map_cons, childrenRows, ih, Item.child, childRows,
      Spec.textRows_lines fun line hline => (hlines line hline).1]
    rfl
  | @tag header body items hclean hstray hplain hrows hbody h ih =>
    obtain ⟨hbracket, -, hheads⟩ := heads_again hclean hstray hplain
    have hhead : (Row.ofText 4 ((Spec.ofHeader {} header false).openingLine {})).shift 0 =
        ⟨0, (Row.ofText 4 ((Spec.ofHeader {} header false).openingLine {})).content⟩ := by
      rw [Row.shift_zero hheads.clean, ← hheads.indent]
    rw [List.map_cons, childrenRows, ih, Item.child, childRows, Spec.rows_fill header false hrows,
      Spec.wrapRows, Spec.closingRows, hbracket, hhead]
    simp [Item.again, Item.rows]

lemma Neat.child_again (h : Neat items)
    (hbodies : ∀ header body, Item.tag header body false ∈ items → Returns body) :
    (items.map Item.again).map (Item.child {}) = items.map (Item.child {}) := by
  induction h with
  | nil => rfl
  | text _ _ _ _ ih =>
    rw [List.map_cons, List.map_cons, List.map_cons,
      ih fun header body hm => hbodies header body (by simp [hm])]
    rfl
  | @tag header body items hclean hstray hplain hrows hbody h ih =>
    obtain ⟨-, -, hheads⟩ := heads_again hclean hstray hplain
    have hfill : (Spec.ofHeader {} header false).fill {}
        ((Spec.ofHeader {} header false).bodyAgain body)
        (outline {} ((Spec.ofHeader {} header false).bodyAgain body)) =
          (Spec.ofHeader {} header false).fill {} body (outline {} body) := by
      unfold Spec.fill Spec.bodyAgain
      split
      · rfl
      · rw [(hbodies header body List.mem_cons_self).again]
    rw [List.map_cons, List.map_cons, List.map_cons,
      ih fun header body hm => hbodies header body (by simp [hm]), Item.again, Item.child,
      Item.child, hheads.spec, hfill]

lemma Neat.isLine (h : Neat items)
    (hbodies : ∀ header body, Item.tag header body false ∈ items → Returns body) :
    EveryIn IsLine (items.map (Item.child {})) := by
  induction h with
  | nil => exact trivial
  | text _ _ _ _ ih => exact ⟨trivial, ih fun header body hm => hbodies header body (by simp [hm])⟩
  | @tag header body items hclean hstray hplain hrows hbody h ih =>
    obtain ⟨-, hline, -⟩ := heads_again hclean hstray hplain
    exact ⟨Spec.every_isLine_fill hline fun _ => (hbodies header body List.mem_cons_self).isLine,
      ih fun header body hm => hbodies header body (by simp [hm])⟩

lemma map_content_rows (items : List Item) :
    (items.flatMap Item.rows).map Row.content = items.flatMap Item.lines := by
  induction items with
  | nil => rfl
  | cons item items ih =>
    rw [List.flatMap_cons, List.flatMap_cons, List.map_append, ih]
    cases item <;> simp [Item.rows, Item.lines, Function.comp_def]

/-- Content in items in normal form stands at the first column, where an element begins. -/
lemma Neat.contentColumn?_rows (h : Neat items)
    (hcontent : ∃ line ∈ items.flatMap Item.lines, isQuiet {} ⟨0, line⟩ = false) :
    contentColumn? {} (items.flatMap Item.rows) = some 0 := by
  induction h with
  | nil => simp at hcontent
  | @text lines items hne hlines hnext h ih =>
    obtain ⟨line, hline, hquiet⟩ := hcontent
    have hnone :
        (lines.map fun line => (⟨0, line⟩ : Row)).find? (fun r => !isQuiet {} r) = none := by
      simpa using fun line hline => (hlines line hline).2
    have hrest := ih ⟨line, ?_, hquiet⟩
    · rw [List.flatMap_cons, Item.rows, contentColumn?, List.find?_append, hnone, Option.none_or]
      exact hrest
    · rcases List.mem_append.mp hline with hline | hline
      · rw [(hlines line hline).2] at hquiet
        contradiction
      · exact hline
  | @tag header body items hclean hstray =>
    have hquiet : isQuiet {} ⟨0, header⟩ = false := (Bool.or_eq_false_iff.mp hstray).1
    rw [List.flatMap_cons, Item.rows, List.cons_append, contentColumn?,
      List.find?_cons_of_pos (by simp [hquiet])]
    rfl

lemma isBlank_of_mem_getLast? {rows : List Row}
    (h : ∀ line ∈ (rows.map Row.content).getLast?, line ≠ []) :
    ∀ r ∈ rows.getLast?, r.isBlank = false := by
  intro r hr
  rw [Bool.eq_false_iff]
  intro hblank
  refine h r.content ?_ (Row.isBlank_iff.mp hblank)
  rw [List.getLast?_map, Option.mem_def.mp hr]
  rfl

lemma Neat.exists_content_again (h : Neat items)
    (hcontent : ∃ line ∈ items.flatMap Item.lines, isQuiet {} ⟨0, line⟩ = false) :
    ∃ line ∈ (items.map Item.again).flatMap Item.lines, isQuiet {} ⟨0, line⟩ = false := by
  induction h with
  | nil => simp at hcontent
  | @text lines items hne hlines hnext h ih =>
    obtain ⟨line, hline, hquiet⟩ := hcontent
    rcases List.mem_append.mp hline with hline | hline
    · rw [(hlines line hline).2] at hquiet
      contradiction
    · obtain ⟨line', hline', hquiet'⟩ := ih ⟨line, hline, hquiet⟩
      exact ⟨line', List.mem_append_right _ hline', hquiet'⟩
  | @tag header body items hclean hstray hplain =>
    obtain ⟨-, -, hheads⟩ := heads_again hclean hstray hplain
    exact ⟨_, List.mem_append_left _ List.mem_cons_self,
      (Bool.or_eq_false_iff.mp hheads.stray).1⟩

lemma Neat.tail {item : Item} (h : Neat (item :: items)) : Neat items := by
  cases h with
  | text _ _ _ h => exact h
  | tag _ _ _ _ _ h => exact h

lemma Neat.lines_ne_nil (h : Neat items) (hne : items ≠ []) : items.flatMap Item.lines ≠ [] := by
  cases h with
  | nil => contradiction
  | text hlines => exact List.append_ne_nil_of_left_ne_nil hlines _
  | tag => exact List.cons_ne_nil _ _

/-- If items in normal form do not end with a blank line, neither do they where they are written. -/
lemma Neat.getLast?_again (h : Neat items)
    (hbodies : ∀ header body, Item.tag header body false ∈ items → Returns body)
    (hlast : ∀ line ∈ (items.flatMap Item.lines).getLast?, line ≠ []) :
    ∀ line ∈ ((items.map Item.again).flatMap Item.lines).getLast?, line ≠ [] := by
  induction items with
  | nil => simp
  | cons item items ih =>
    by_cases hne : items = []
    · subst hne
      cases h with
      | text => exact hlast
      | @tag header body _ hclean hstray hplain hrows hbody =>
        obtain ⟨-, -, hheads⟩ := heads_again hclean hstray hplain
        have hsettled : Settled ((Spec.ofHeader {} header false).bodyAgain body) := by
          unfold Spec.bodyAgain
          split
          · exact hbody
          · exact (hbodies header body List.mem_cons_self).settled hbody
        intro line hline
        simp only [List.map_cons, List.map_nil, List.flatMap_cons, List.flatMap_nil, Item.again,
          Item.lines, List.append_nil, List.getLast?_cons, List.getLast?_map, Option.mem_def,
          Option.some.injEq] at hline
        cases hbodylast : ((Spec.ofHeader {} header false).bodyAgain body).getLast? with
        | none =>
          rw [hbodylast] at hline
          obtain rfl := hline
          have hblank := (Bool.or_eq_false_iff.mp (Bool.or_eq_false_iff.mp hheads.stray).1).1
          exact fun he => Bool.false_ne_true (hblank.symm.trans (Row.isBlank_iff.mpr he))
        | some r =>
          rw [hbodylast] at hline
          obtain rfl := hline
          have hblank := hsettled.last r hbodylast
          exact fun he => Bool.false_ne_true (hblank.symm.trans (Row.isBlank_iff.mpr he))
    · have hbodies' := fun header body hm => hbodies header body (List.mem_cons_of_mem _ hm)
      have hagain : (items.map Item.again).flatMap Item.lines ≠ [] :=
        (h.tail.again hbodies').lines_ne_nil (by simpa using hne)
      rw [List.flatMap_cons, List.getLast?_append_of_ne_nil _ (h.tail.lines_ne_nil hne)] at hlast
      rw [List.map_cons, List.flatMap_cons, List.getLast?_append_of_ne_nil _ hagain]
      exact ih h.tail hbodies' hlast

end Again

/-- What is read of clean rows without brackets is written so that it is read again. -/
lemma returns {rows : List Row} (hclean : ∀ r ∈ rows, r.Clean) (hflat : ∀ r ∈ rows, IsFlat r) :
    Returns rows := by
  induction hn : rows.length using Nat.strong_induction_on generalizing rows with
  | _ n ih =>
    have hneat := neat_cut hclean hflat
    have houtline : outline {} rows = (cut {} rows).map (Item.child {}) := outline_eq {} rows
    have hbodies (header : Text) (body : List Row) (hm : Item.tag header body false ∈ cut {} rows) :
        Returns body := by
      refine ih _ (hn ▸ length_lt_of_mem_cut hm) (clean_of_mem_cut hm hclean) (fun r hr => ?_) rfl
      obtain ⟨column, inner, rfl, hsub, -⟩ := exists_sublist_of_mem_cut hm
      obtain ⟨q, hq, rfl⟩ := List.mem_map.mp hr
      exact (hflat q (hsub.subset hq)).outdent column
    have hagain := hneat.again hbodies
    have hrows := hneat.childrenRows_eq
    rw [← houtline] at hrows
    refine ⟨houtline ▸ hneat.isLine hbodies, fun hsettled => ?_, ?_⟩
    · rw [hrows]
      have hlines := flatMap_lines_cut hflat
      refine ⟨fun hne => hagain.contentColumn?_rows (hneat.exists_content_again ?_),
        isBlank_of_mem_getLast? ?_⟩
      · have hrowsne : rows ≠ [] := by
          rintro rfl
          simp at hne
        obtain ⟨r, hr, -⟩ := Option.map_eq_some_iff.mp (hsettled.column hrowsne)
        have hquiet : isQuiet {} r = false := by simpa using List.find?_some hr
        exact ⟨r.content, hlines ▸ List.mem_map_of_mem (List.mem_of_find?_eq_some hr), hquiet⟩
      · rw [map_content_rows]
        refine hneat.getLast?_again hbodies ?_
        rw [hlines, List.getLast?_map]
        rintro _ hline rfl
        obtain ⟨r, hr, hcontent⟩ := Option.map_eq_some_iff.mp hline
        simpa [Row.isBlank_iff.mpr hcontent] using hsettled.last r hr
    · calc outline {} (childrenRows 0 (outline {} rows))
          = (cut {} (((cut {} rows).map Item.again).flatMap Item.rows)).map (Item.child {}) := by
            rw [hrows]
            exact outline_eq {} _
        _ = ((cut {} rows).map Item.again).map (Item.child {}) := by rw [hagain.cut_rows]
        _ = outline {} rows := by rw [hneat.child_again hbodies, houtline]

end Body

namespace Setup

open Spec (childrenRows)

/-- A source in which no line opens a bracket or closes one is built, and what it is written as is
built with the same description and is written as it stands. -/
theorem round_trip_flat {source : Text}
    (h : ∀ l ∈ Layout.lines ({} : LayoutSettings).tabWidth source,
      Body.bracketHeader? {} l = none ∧ l.content ≠ ({} : LayoutSettings).closeBracket) :
    ∃ t t', Builds {} source t ∧ Builds {} (t.serialize {} Tree.root) t' ∧
      (t.toSpec? Tree.root).isSome ∧ t'.toSpec? Tree.root = t.toSpec? Tree.root ∧
      t'.serialize {} Tree.root = t.serialize {} Tree.root := by
  have hrow : ∀ r ∈ Text.rows 4 source, Body.IsFlat r := by
    rw [Text.rows, ← Layout.map_row_lines]
    intro r hr
    obtain ⟨l, hl, rfl⟩ := List.mem_map.mp hr
    exact ⟨(h l hl).1, (h l hl).2⟩
  have hreturns := Body.returns (fun r hr => Text.clean_of_mem_rows hr) hrow
  obtain ⟨t, hbuilds, hspec, -⟩ := builds_document {} rfl source
  obtain ⟨t', hbuilds', hspec', -⟩ := builds_document {} rfl (t.serialize {} Tree.root)
  have hagain : Spec.document {} (t.serialize {} Tree.root) = Spec.document {} source := by
    have hrows : Text.rows 4 (t.serialize {} Tree.root) =
        childrenRows 0 (outline {} (Text.rows 4 source)) := by
      rw [Tree.serialize_document hspec, Spec.rows_writeChildren hreturns.isLine]
    have hsame : outline {} (Text.rows 4 (t.serialize {} Tree.root)) =
        outline {} (Text.rows 4 source) := by rw [hrows, hreturns.again]
    rw [Spec.document, Spec.document]
    exact congrArg (fun children => ({ tag := _, children } : Spec)) hsame
  refine ⟨t, t', hbuilds, hbuilds', by rw [hspec]; rfl, by rw [hspec', hspec, hagain], ?_⟩
  rw [Tree.serialize, hspec', hagain, ← hspec]
  rfl

/-- A source with clamped rows, held comments, a kept body, and headers that are written otherwise
or kept. -/
def flatSample : Text :=
  ("a  n( k = \"v\" )#c\n\n    b\n # d\n\n  !e\n     x \x7by\n\n   z\n  #\n" ++
    "(f\n\tg \x7bh\x7d\n").toList

theorem round_trip_flat_in_sample :
    ∃ t t', Builds {} flatSample t ∧ Builds {} (t.serialize {} Tree.root) t' ∧
      (t.toSpec? Tree.root).isSome ∧ t'.toSpec? Tree.root = t.toSpec? Tree.root ∧
      t'.serialize {} Tree.root = t.serialize {} Tree.root :=
  round_trip_flat (by decide +kernel)

end Setup

end TaggedOutline
