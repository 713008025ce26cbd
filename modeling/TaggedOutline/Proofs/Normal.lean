import Mathlib.Data.List.Chain
import TaggedOutline.Proofs.Content

/-!
# The normal form of a body

Whatever a source looks like, the items of its body have one form (`Body.parse_isNormal`).

* Texts never stand side by side, none is empty, and their lines open nothing where they stand.
* An element without a bracket has a header that opens an element where it stands alone.  Its body
  is empty, or the content of it begins at the head of a line and its last line is not blank.

Nothing of the kind holds of an element with a bracket: its body has the column of its first line
that is not blank, which may be a comment, and blank lines may stand at its end.
-/

namespace TaggedOutline

/-- Whether an item is text. -/
def BodyItem.isText : BodyItem → Bool
  | .text _ => true
  | .tag _ _ _ => false

namespace Body

variable {s : LayoutSettings}

/-- The body of an indented element is empty, or it has content that begins at the head of a line
and a last line that is not blank. -/
def IsFitted (s : LayoutSettings) (body : Text) : Prop :=
  let rows := (Layout.lines s.tabWidth body).map Layout.Line.row
  body = [] ∨ contentColumn? s rows = some 0 ∧ ∃ r ∈ rows.getLast?, r.isBlank = false

/-- An item in normal form. -/
inductive IsNormalItem (s : LayoutSettings) : BodyItem → Prop
  | text {t : Text} (hne : t ≠ [])
      (hlines : ∀ line ∈ Text.lines t, (⟨0, line⟩ : Row).Clean ∧ isStray s ⟨0, line⟩ = true) :
      IsNormalItem s (.text t)
  | element {header body : Text} (hclean : (⟨0, header⟩ : Row).Clean)
      (hopens : isStray s ⟨0, header⟩ = false) (hbody : IsFitted s body) :
      IsNormalItem s (.tag header body false)
  | bracket (header body : Text) : IsNormalItem s (.tag header body true)

/-- Items in normal form: each of them is, and no two texts are neighbours. -/
structure IsNormal (s : LayoutSettings) (items : List BodyItem) : Prop where
  each : ∀ item ∈ items, IsNormalItem s item
  apart : items.IsChain fun a b => ¬(a.isText = true ∧ b.isText = true)

/-! ## Bodies of indented elements -/

/-- A blank row does not stay at the end of a body. -/
lemma isLoose_of_blank {column : Nat} {r : Row} (h : r.isBlank = true) :
    isLoose s column r = true := by
  have hcontent : r.line.content = [] := Row.isBlank_iff.mp h
  have hcomment : isComment s r.line = false := by
    cases hp : s.commentPrefix with
    | nil => simp [isComment, hp]
    | cons c p => simp [isComment, hcontent, hp]
  simp [isLoose, isQuiet, h, hcomment]

/-- What settles ends with a row that is not blank. -/
lemma isBlank_of_mem_getLast?_settle {rows : List Row} {r : Row}
    (h : r ∈ (settle s rows).getLast?) : r.isBlank = false := by
  unfold settle at h
  cases hcolumn : contentColumn? s rows with
  | none => simp [hcolumn] at h
  | some c =>
    simp only [hcolumn] at h
    obtain ⟨hne, hlast⟩ := List.mem_getLast?_eq_getLast h
    rw [Bool.eq_false_iff]
    intro hblank
    exact List.rdropWhile_last_not _ _ hne (hlast ▸ isLoose_of_blank hblank)

/-- Content that has its own column taken off begins at the head of a line. -/
lemma contentColumn?_outdent {rows : List Row} {c : Nat} (h : contentColumn? s rows = some c) :
    contentColumn? s (rows.map (Row.outdent c)) = some 0 := by
  rw [contentColumn?_map_outdent, h, Option.map_some, Nat.sub_self]

/-- A header owns no rows without content among them. -/
lemma owned_eq_nil {column : Nat} {rows : List Row}
    (h : contentColumn? s (owned s column rows) = none) : owned s column rows = [] := by
  rw [contentColumn?_owned] at h
  rw [owned, settle, h]

/-- The rows that a header owns, as they stand in its body, are none or have content that begins at
the head of a line and a last row that is not blank. -/
lemma owned_fits (s : LayoutSettings) (column : Nat) (rows : List Row) :
    let body := (owned s column rows).map
      (Row.outdent ((contentColumn? s (owned s column rows)).getD 0))
    body = [] ∨ contentColumn? s body = some 0 ∧ ∃ r ∈ body.getLast?, r.isBlank = false := by
  intro body
  cases hcolumn : contentColumn? s (owned s column rows) with
  | none => exact .inl (by simp [body, owned_eq_nil hcolumn])
  | some c =>
    have hbody : body = (owned s column rows).map (Row.outdent c) := by simp [body, hcolumn]
    have hne : owned s column rows ≠ [] := fun he => by simp [he, contentColumn?] at hcolumn
    obtain ⟨last, hlast⟩ : ∃ r, r ∈ (owned s column rows).getLast? :=
      ⟨_, List.getLast?_eq_some_getLast hne⟩
    refine .inr ⟨hbody ▸ contentColumn?_outdent hcolumn, last.outdent c, ?_,
      (Row.isBlank_outdent c last).trans (isBlank_of_mem_getLast?_settle hlast)⟩
    rw [hbody, List.getLast?_map, Option.mem_def.mp hlast]
    rfl

/-- The body of an indented element is fitted. -/
lemma isFitted_owned (s : LayoutSettings) (column : Nat) {rows : List Row}
    (h : ∀ r ∈ rows, r.Clean) :
    IsFitted s (Text.unlines (((owned s column rows).map
      (Row.outdent ((contentColumn? s (owned s column rows)).getD 0))).map Row.text)) := by
  have hfits := owned_fits s column rows
  have hclean : ∀ r ∈ (owned s column rows).map
      (Row.outdent ((contentColumn? s (owned s column rows)).getD 0)), r.Clean := by
    intro r hr
    obtain ⟨q, hq, rfl⟩ := List.mem_map.mp hr
    exact (h q ((owned_isPrefix s column rows).subset hq)).outdent _
  unfold IsFitted
  rw [Layout.map_row_lines]
  change _ ∨ contentColumn? s (Text.rows s.tabWidth _) = some 0 ∧
    ∃ r ∈ (Text.rows s.tabWidth _).getLast?, r.isBlank = false
  rw [Text.rows_unlines s.tabWidth hclean]
  exact hfits.imp (fun he => by rw [he]; rfl) id

/-! ## Items -/

lemma isNormal_nil : IsNormal s [] := ⟨by simp, .nil⟩

/-- An element may stand before any items. -/
lemma IsNormal.cons_tag {header body : Text} {bracket : Bool} {items : List BodyItem}
    (hitem : IsNormalItem s (.tag header body bracket)) (h : IsNormal s items) :
    IsNormal s (.tag header body bracket :: items) where
  each := List.forall_mem_cons.mpr ⟨hitem, h.each⟩
  apart := List.isChain_cons.mpr ⟨fun _ _ => by simp [BodyItem.isText], h.apart⟩

/-- A stray line goes into the text before it or is a text of its own. -/
lemma isNormal_consText {line : Text} {items : List Item} (hclean : (⟨0, line⟩ : Row).Clean)
    (hstray : isStray s ⟨0, line⟩ = true) (h : IsNormal s (items.map Item.written)) :
    IsNormal s ((consText line items).map Item.written) := by
  have hfirst : ∀ lines : List Text, Text.lines (Text.unlines (line :: lines)) =
      line :: Text.lines (Text.unlines lines) := by
    intro lines
    rw [Text.unlines_cons, Text.lines_append_newline hclean.noFeed]
  have hsingle : IsNormalItem s (.text (Text.unlines [line])) := by
    refine .text (by simp) ?_
    rw [hfirst]
    simpa using ⟨hclean, hstray⟩
  match items, h with
  | [], _ => exact ⟨List.forall_mem_singleton.mpr hsingle, .singleton _⟩
  | .tag header body bracket :: items, h =>
    exact ⟨List.forall_mem_cons.mpr ⟨hsingle, h.each⟩,
      List.isChain_cons_cons.mpr ⟨by simp [Item.written, BodyItem.isText], h.apart⟩⟩
  | .text lines :: items, ⟨heach, hapart⟩ =>
    obtain ⟨hitem, hitems⟩ := List.forall_mem_cons.mp heach
    refine ⟨List.forall_mem_cons.mpr ⟨?_, hitems⟩, ?_⟩
    · cases hitem with
      | text hne hlines =>
        refine .text (by simp) ?_
        rw [hfirst]
        exact List.forall_mem_cons.mpr ⟨⟨hclean, hstray⟩, hlines⟩
    · exact List.isChain_cons.mpr (List.isChain_cons.mp hapart)

/-- Rows are cut into items in normal form. -/
lemma isNormal_cut {rows : List Row} (h : ∀ r ∈ rows, r.Clean) :
    IsNormal s ((cut s rows).map Item.written) := by
  induction rows using cut.induct s with
  | case1 =>
    rw [cut_nil]
    exact isNormal_nil
  | case2 r rows hr ih =>
    obtain ⟨hclean, hmore⟩ := List.forall_mem_cons.mp h
    rw [cut_stray hr]
    exact isNormal_consText hclean.content hr (ih hmore)
  | case3 r rows hr header hheader column ih =>
    obtain ⟨-, hmore⟩ := List.forall_mem_cons.mp h
    rw [cut_bracket (by simpa using hr) hheader]
    exact .cons_tag (.bracket _ _) (ih fun q hq => hmore q ((enclosed_suffix s _ _ rows).subset hq))
  | case4 r rows hr hheader body ih =>
    obtain ⟨hclean, hmore⟩ := List.forall_mem_cons.mp h
    have hstray : isStray s r = false := by simpa using hr
    rw [cut_indented hstray hheader]
    exact .cons_tag (.element hclean.content hstray (isFitted_owned s r.indent hmore))
      (ih fun q hq => hmore q (List.mem_of_mem_drop hq))

/-- Whatever the source, the items of its body are in normal form: texts never stand side by side
and hold only blank lines, comments and closing brackets, and an indented element has a header that
is none of these and a body that is empty or has its first content at the head of a line and ends
with a line that is not blank. -/
theorem parse_isNormal (s : LayoutSettings) (source : Text) : IsNormal s (parse s source) := by
  rw [parse_eq_cut]
  exact isNormal_cut fun r hr => Text.clean_of_mem_rows hr

end Body

end TaggedOutline
