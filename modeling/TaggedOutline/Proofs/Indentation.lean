import TaggedOutline.Proofs.Build
import TaggedOutline.Proofs.Content

/-!
# Indentation

A build reads bodies one level at a time, and what is read of a level has its column taken off.
Where lines only open elements by their indentation, the tree can be told from the columns of the
source as they stand: the nodes are the lines of content in order, and each stands under the node of
the nearest earlier line that is before it, or under the root.  `Setup.parent?_of_indentation` is
the main statement.

A body takes the column of its first line, and a line that is behind the header but before that
column is read as if it stood there.  Then a line that is deeper may still be its sibling, and the
columns of the source do not say so; `Body.IsLevel` leaves such lines out.
-/

namespace TaggedOutline

namespace Body

variable {s : LayoutSettings} {r : Row} {rows body rest : List Row}

/-- A row of content that opens no bracket and closes none, and whose element does not keep its
body. -/
structure IsPlain (r : Row) : Prop where
  bracketless : bracketHeader? {} r.line = none
  closeless : r.content ≠ ({} : LayoutSettings).closeBracket
  unmarked :
    (Header.splitMarker ({} : LayoutSettings).suppressMarker (Node.rawTag r.content)).2 = false
  codeless : ∀ header ∈ Header.parse r.content, header.inlineCode = none

instance (r : Row) : Decidable (IsPlain r) :=
  decidable_of_iff
    ((bracketHeader? {} r.line = none ∧ r.content ≠ ({} : LayoutSettings).closeBracket) ∧
      (Header.splitMarker ({} : LayoutSettings).suppressMarker (Node.rawTag r.content)).2 = false ∧
        ∀ header ∈ Header.parse r.content, header.inlineCode = none)
    ⟨fun ⟨⟨hopen, hclose⟩, hmarker, hcode⟩ => ⟨hopen, hclose, hmarker, hcode⟩,
      fun h => ⟨⟨h.bracketless, h.closeless⟩, h.unmarked, h.codeless⟩⟩

/-- No row is before the first row after `p`, where `p` is the nearest earlier row before it. -/
def IsLevel (rows : List Row) : Prop :=
  ∀ before p between r after, rows = before ++ p :: (between ++ r :: after) →
    p.indent < r.indent → (∀ q ∈ between, r.indent ≤ q.indent) →
      ∀ first ∈ between.head?, first.indent ≤ r.indent

/-- The element of a plain row does not keep its body. -/
lemma IsPlain.keepsBody (h : IsPlain r) :
    (Spec.ofHeader {} r.content false).keepsBody {} = false := by
  unfold Spec.keepsBody Spec.ofHeader Spec.withHeader
  cases hparse : Header.parse r.content with
  | none => simp [h.unmarked, LayoutSettings.isFreeform]
  | some header => simp [h.unmarked, h.codeless header hparse, LayoutSettings.isFreeform]

lemma IsPlain.outdent (h : IsPlain r) (column : Nat) : IsPlain (r.outdent column) where
  bracketless := (bracketHeader?_outdent _ column r).trans h.bracketless
  closeless := by simpa using h.closeless
  unmarked := by simpa using h.unmarked
  codeless := by simpa using h.codeless

/-! ## Levels -/

lemma IsLevel.of_infix {part : List Row} (h : IsLevel rows) (hpart : part <:+: rows) :
    IsLevel part := by
  obtain ⟨front, back, rfl⟩ := hpart
  rintro before p between r after rfl
  refine h (front ++ before) p between r (after ++ back) ?_
  simp

/-- Rows that keep their distances are a level as before. -/
lemma IsLevel.outdent {column : Nat} (h : IsLevel rows)
    (hbehind : ∀ r ∈ rows, r.isBlank = false ∧ column ≤ r.indent) :
    IsLevel (rows.map (Row.outdent column)) := by
  have hindent : ∀ r ∈ rows, (r.outdent column).indent + column = r.indent := by
    intro r hr
    obtain ⟨hblank, hle⟩ := hbehind r hr
    rw [Row.indent_outdent hblank]
    omega
  intro before p between r after heq hbefore hbetween first hfirst
  obtain ⟨before', more, rfl, rfl, hmore⟩ := List.map_eq_append_iff.mp heq
  obtain ⟨p', more', rfl, rfl, hmore'⟩ := List.map_eq_cons_iff.mp hmore
  obtain ⟨between', last, rfl, rfl, hlast⟩ := List.map_eq_append_iff.mp hmore'
  obtain ⟨r', after', rfl, rfl, rfl⟩ := List.map_eq_cons_iff.mp hlast
  have hp := hindent p' (by simp)
  have hr := hindent r' (by simp)
  rw [List.head?_map] at hfirst
  obtain ⟨first', hfirst', rfl⟩ := Option.map_eq_some_iff.mp hfirst
  have hq : ∀ q ∈ between', (q.outdent column).indent + column = q.indent := fun q hq =>
    hindent q (by simp [hq])
  have hle := h before' p' between' r' after' rfl (by omega) (fun q hm => by
    have := hbetween _ (List.mem_map_of_mem hm)
    have := hq q hm
    omega) first' hfirst'
  have := hq first' (List.mem_of_mem_head? hfirst')
  omega

/-- No row beneath a header is before the first of them. -/
lemma IsLevel.le_of_deeper (h : IsLevel (r :: (body ++ rest)))
    (hdeep : ∀ q ∈ body, r.indent < q.indent) {first : Row} (hfirst : first ∈ body.head?) :
    ∀ q ∈ body, first.indent ≤ q.indent := by
  cases hfind : body.find? fun q => q.indent < first.indent with
  | none =>
    intro q hq
    simpa using List.find?_eq_none.mp hfind q hq
  | some q =>
    -- the first row that is before `first` has `r` for the nearest row before it
    exfalso
    obtain ⟨hq, front, back, rfl, hfront⟩ := List.find?_eq_some_iff_append.mp hfind
    have hlt : q.indent < first.indent := by simpa using hq
    have hbetween : ∀ x ∈ front, q.indent ≤ x.indent := by
      intro x hx
      have hle : first.indent ≤ x.indent := by simpa using hfront x hx
      omega
    have hle := h [] r front q (back ++ rest) (by simp) (hdeep q (by simp)) hbetween
    cases front with
    | nil =>
      obtain rfl : q = first := by simpa using hfirst
      omega
    | cons x front =>
      obtain rfl : x = first := by simpa using hfirst
      have := hle x rfl
      omega

/-- A level is one from each of its rows on. -/
lemma isLevel_cons : IsLevel (r :: rows) ↔
    (∀ first ∈ rows.head?, ∀ q ∈ rows.takeWhile (fun q => r.indent < q.indent),
      first.indent ≤ q.indent) ∧ IsLevel rows := by
  constructor
  · intro h
    refine ⟨fun first hfirst q hq => ?_, h.of_infix (List.suffix_cons r rows).isInfix⟩
    have hsplit : rows.takeWhile (fun q => r.indent < q.indent) ++
        rows.dropWhile (fun q => r.indent < q.indent) = rows := List.takeWhile_append_dropWhile
    rw [← hsplit] at h
    refine h.le_of_deeper (fun q hq => by simpa using List.mem_takeWhile_imp hq) ?_ q hq
    cases rows with
    | nil => simp at hfirst
    | cons x rows =>
      by_cases hx : r.indent < x.indent
      · rw [List.takeWhile_cons_of_pos (by simpa using hx)]
        exact hfirst
      · rw [List.takeWhile_cons_of_neg (by simpa using hx)] at hq
        simp at hq
  · rintro ⟨hfirst, h⟩ before p between q after heq hlt hbetween
    cases before with
    | cons x before =>
      exact h before p between q after (List.cons.inj heq).2 hlt hbetween
    | nil =>
      obtain ⟨rfl, rfl⟩ := List.cons.inj heq
      intro first hhead
      refine hfirst first ?_ q ?_
      · rw [List.head?_append, Option.mem_def.mp hhead]
        rfl
      · have hdeep : ∀ x ∈ between, decide (r.indent < x.indent) = true := fun x hx => by
          simpa using Nat.lt_of_lt_of_le hlt (hbetween x hx)
        rw [List.takeWhile_append_of_pos hdeep, List.takeWhile_cons_of_pos (by simpa using hlt)]
        simp

instance decidableIsLevel : ∀ rows : List Row, Decidable (IsLevel rows)
  | [] => isTrue fun _ _ _ _ _ heq => by simp at heq
  | _ :: rows =>
    have := decidableIsLevel rows
    decidable_of_iff _ isLevel_cons.symm

/-- The content that an element owns is not before the column that is taken off. -/
lemma IsLevel.column_le (h : IsLevel (r :: contents s rows)) :
    ∀ q ∈ contents s (owned s r.indent rows),
      (contentColumn? s (owned s r.indent rows)).getD 0 ≤ q.indent := by
  rw [← contents_owned_append s r.indent rows] at h
  rw [contentColumn?_eq_head?]
  cases hfirst : (contents s (owned s r.indent rows)).head? with
  | none =>
    rw [List.head?_eq_none_iff.mp hfirst]
    simp
  | some first => exact h.le_of_deeper (fun q hq => deeper_of_mem_contents_owned hq) hfirst

/-- Rows whose elements can be told from the columns. -/
structure IsRegular (rows : List Row) : Prop where
  clean : ∀ r ∈ rows, r.Clean
  plain : ∀ r ∈ contents {} rows, IsPlain r
  level : IsLevel (contents {} rows)

lemma IsRegular.of_suffix (h : IsRegular rows) (hrest : rest <:+ rows) : IsRegular rest where
  clean := fun r hr => h.clean r (hrest.subset hr)
  plain := fun r hr => h.plain r ((hrest.filter _).subset hr)
  level := h.level.of_infix (hrest.filter _).isInfix

/-- The rows that an element owns are regular where they are read. -/
lemma IsRegular.owned (h : IsRegular (r :: rows)) (hloud : isQuiet {} r = false) :
    IsRegular ((Body.owned {} r.indent rows).map
      (Row.outdent ((contentColumn? {} (Body.owned {} r.indent rows)).getD 0))) := by
  obtain ⟨hclean, hplain, hlevel⟩ := h
  rw [contents_cons_of_loud hloud] at hplain hlevel
  have hown := owned_isPrefix {} r.indent rows
  have hbehind := hlevel.column_le
  have hpart : contents {} (Body.owned {} r.indent rows) <:+: r :: contents {} rows :=
    (hown.filter _).isInfix.trans (List.suffix_cons _ _).isInfix
  refine ⟨fun q hq => ?_, fun q hq => ?_, ?_⟩
  · obtain ⟨p, hp, rfl⟩ := List.mem_map.mp hq
    exact (hclean p (List.mem_cons_of_mem _ (hown.subset hp))).outdent _
  · rw [contents_outdent] at hq
    obtain ⟨p, hp, rfl⟩ := List.mem_map.mp hq
    exact (hplain p (hpart.subset hp)).outdent _
  · rw [contents_outdent]
    exact (hlevel.of_infix hpart).outdent fun q hq =>
      ⟨not_blank_of_mem_contents hq, hbehind q hq⟩

end Body

/-! ## Nodes of rows -/

namespace Tree

variable {H : Type} {t : Tree H} {base id : NodeId} {earlier more : List (Row × NodeId)} {r : Row}
  {rows rows' : List Row} {ids ids' : List NodeId} {column : Nat}

/-- The node of the first entry that is before a column, or `base` if there is none.  The entries
are those of the earlier rows, latest first. -/
def above (base : NodeId) (earlier : List (Row × NodeId)) (column : Nat) : NodeId :=
  ((earlier.find? fun e => e.1.indent < column).map Prod.snd).getD base

/-- There is a node for each row, in order.  Its header is the content of the row, and it stands
under the node of the nearest earlier row that is before it, or under `base`. -/
inductive Hangs (t : Tree H) (base : NodeId) :
    List (Row × NodeId) → List Row → List NodeId → Prop
  | nil {earlier : List (Row × NodeId)} : Hangs t base earlier [] []
  | cons {earlier : List (Row × NodeId)} {r : Row} {rows : List Row} {id : NodeId}
      {ids : List NodeId} (hheader : (t.node? id).bind (·.header) = some r.content)
      (hparent : t.parent? id = some (above base earlier r.indent))
      (h : Hangs t base ((r, id) :: earlier) rows ids) :
      Hangs t base earlier (r :: rows) (id :: ids)

lemma above_append_of_deep (h : ∀ e ∈ more, column ≤ e.1.indent) :
    above base (earlier ++ more) column = above base earlier column := by
  have hnone : more.find? (fun e => e.1.indent < column) = none := by
    simpa using h
  rw [above, List.find?_append, hnone, Option.or_none]
  rfl

/-- A row that is before the column is the nearest one, if no earlier row is nearer. -/
lemma above_append_of_before (h : r.indent < column) :
    above base (earlier ++ [(r, id)]) column = above id earlier column := by
  have hsome : [(r, id)].find? (fun e => e.1.indent < column) = some (r, id) := by
    simp [h]
  rw [above, List.find?_append, hsome, above]
  cases earlier.find? fun e => e.1.indent < column <;> rfl

lemma above_outdent {k : Nat} (hcolumn : k ≤ column)
    (h : ∀ e ∈ earlier, e.1.isBlank = false ∧ k ≤ e.1.indent) :
    above base (earlier.map fun e => (e.1.outdent k, e.2)) (column - k) =
      above base earlier column := by
  induction earlier with
  | nil => rfl
  | cons e earlier ih =>
    obtain ⟨⟨hblank, hle⟩, hearlier⟩ := List.forall_mem_cons.mp h
    have hindent := @Row.indent_outdent k e.1 hblank
    unfold above at ih ⊢
    by_cases hbefore : e.1.indent < column
    · have hbefore' : (e.1.outdent k).indent < column - k := by omega
      rw [List.map_cons, List.find?_cons_of_pos (by simpa using hbefore'),
        List.find?_cons_of_pos (by simpa using hbefore)]
      rfl
    · have hbefore' : ¬(e.1.outdent k).indent < column - k := by omega
      rw [List.map_cons, List.find?_cons_of_neg (by simpa using hbefore'),
        List.find?_cons_of_neg (by simpa using hbefore)]
      exact ih hearlier

namespace Hangs

lemma append (h : Hangs t base earlier rows ids)
    (h' : Hangs t base ((rows.zip ids).reverse ++ earlier) rows' ids') :
    Hangs t base earlier (rows ++ rows') (ids ++ ids') := by
  induction h with
  | nil => exact h'
  | cons hheader hparent _ ih =>
    refine .cons hheader hparent (ih ?_)
    simpa using h'

/-- Rows that are all deeper than a row hang under its node. -/
lemma beneath (h : Hangs t id earlier rows ids) (hdeep : ∀ q ∈ rows, r.indent < q.indent) :
    Hangs t base (earlier ++ [(r, id)]) rows ids := by
  induction h with
  | nil => exact .nil
  | cons hheader hparent _ ih =>
    obtain ⟨hfirst, hmore⟩ := List.forall_mem_cons.mp hdeep
    refine .cons hheader ?_ (ih hmore)
    rw [above_append_of_before hfirst, hparent]

/-- Rows hang as they do also behind deeper rows, if one that is not deeper than `m` stands between
them. -/
lemma behind {m : Nat} (h : Hangs t base earlier rows ids) (hmore : ∀ e ∈ more, m ≤ e.1.indent)
    (hm : (∃ e ∈ earlier, e.1.indent ≤ m) ∨ ∀ r ∈ rows.head?, r.indent ≤ m) :
    Hangs t base (earlier ++ more) rows ids := by
  induction h with
  | nil => exact .nil
  | @cons earlier r rows id ids hheader hparent _ ih =>
    refine .cons hheader ?_ (ih ?_)
    · rw [hparent]
      by_cases hle : r.indent ≤ m
      · rw [above_append_of_deep fun e he => hle.trans (hmore e he)]
      · obtain ⟨e, he, hem⟩ := hm.resolve_right fun hfirst => hle (hfirst r rfl)
        have hbefore : e.1.indent < r.indent := by omega
        have hsome : (earlier.find? fun e => e.1.indent < r.indent).isSome :=
          List.find?_isSome.mpr ⟨e, he, by simpa using hbefore⟩
        rw [above, above, List.find?_append, Option.or_of_isSome hsome]
    · rcases hm with ⟨e, he, hem⟩ | hfirst
      · exact .inl ⟨e, List.mem_cons_of_mem _ he, hem⟩
      · exact .inl ⟨(r, id), List.mem_cons_self, hfirst r rfl⟩

/-- Rows hang as they do with a column taken off. -/
lemma of_outdent (earlier : List (Row × NodeId)) {k : Nat}
    (h : Hangs t base (earlier.map fun e => (e.1.outdent k, e.2)) (rows.map (Row.outdent k)) ids)
    (hrows : ∀ r ∈ rows, r.isBlank = false ∧ k ≤ r.indent)
    (hearlier : ∀ e ∈ earlier, e.1.isBlank = false ∧ k ≤ e.1.indent) :
    Hangs t base earlier rows ids := by
  induction rows generalizing earlier ids with
  | nil =>
    cases h
    exact .nil
  | cons r rows ih =>
    obtain ⟨⟨hblank, hle⟩, hmore⟩ := List.forall_mem_cons.mp hrows
    cases h with
    | cons hheader hparent h =>
      rw [Row.content_outdent] at hheader
      rw [Row.indent_outdent hblank, above_outdent hle hearlier] at hparent
      exact .cons hheader hparent
        (ih ((r, _) :: earlier) h hmore (List.forall_mem_cons.mpr ⟨⟨hblank, hle⟩, hearlier⟩))

/-- A row hangs with the rows beneath it and those behind them. -/
lemma element (hheader : (t.node? id).bind (·.header) = some r.content)
    (hparent : t.parent? id = some base) (hbody : Hangs t id [] rows ids)
    (hdeep : ∀ q ∈ rows, r.indent < q.indent) (hrest : Hangs t base [] rows' ids')
    (hfirst : ∀ q ∈ rows'.head?, q.indent ≤ r.indent) :
    Hangs t base [] (r :: (rows ++ rows')) (id :: (ids ++ ids')) := by
  have hbehind : ∀ e ∈ (rows.zip ids).reverse ++ [(r, id)], r.indent ≤ e.1.indent := by
    intro e he
    rcases List.mem_append.mp he with he | he
    · obtain ⟨q, j⟩ := e
      exact Nat.le_of_lt (hdeep q (List.of_mem_zip (List.mem_reverse.mp he)).1)
    · rw [List.mem_singleton.mp he]
  exact .cons hheader hparent
    ((hbody.beneath hdeep).append (hrest.behind hbehind (.inr hfirst)))

lemma length_eq (h : Hangs t base earlier rows ids) : ids.length = rows.length := by
  induction h with
  | nil => rfl
  | cons _ _ _ ih => rw [List.length_cons, List.length_cons, ih]

/-- What is known of the node of each row. -/
lemma of_zip (h : Hangs t base earlier rows ids) {before after : List (Row × NodeId)}
    (hzip : rows.zip ids = before ++ (r, id) :: after) :
    (t.node? id).bind (·.header) = some r.content ∧
      t.parent? id = some (above base (before.reverse ++ earlier) r.indent) := by
  induction h generalizing before with
  | nil => simp at hzip
  | @cons earlier q rows j ids hheader hparent _ ih =>
    cases before with
    | nil =>
      rw [List.zip_cons_cons, List.nil_append] at hzip
      obtain ⟨rfl, rfl⟩ := Prod.mk.inj (List.cons.inj hzip).1
      exact ⟨hheader, hparent⟩
    | cons e before =>
      rw [List.zip_cons_cons, List.cons_append] at hzip
      obtain ⟨rfl, hmore⟩ := List.cons.inj hzip
      rw [List.reverse_cons, List.append_assoc]
      exact ih hmore

end Hangs

end Tree

/-! ## Nodes of a body -/

namespace Subtree

open Body (contents cut consText isQuiet isStray IsPlain IsRegular)

variable {H : Type} {t : Tree H} {base : NodeId} {subs : List (Child (Subtree H))}

/-- A line of text makes no node. -/
lemma AreRead.of_consText {line : Text} {items : List Body.Item}
    (hread : AreRead {} subs ((consText line items).map Body.Item.written))
    (hin : AreIn t base subs) :
    ∃ subs', AreRead {} subs' (items.map Body.Item.written) ∧ AreIn t base subs' ∧
      childPreorders subs' = childPreorders subs := by
  match items, subs, hread, hin with
  | [], .text _ :: subs, ⟨_, hread⟩, ⟨_, hin⟩ => exact ⟨subs, hread, hin, rfl⟩
  | .tag _ _ _ :: _, .text _ :: subs, ⟨_, hread⟩, ⟨_, hin⟩ => exact ⟨subs, hread, hin, rfl⟩
  | .text lines :: _, .text _ :: subs, ⟨_, hread⟩, ⟨_, hin⟩ =>
    exact ⟨.text (Text.unlines lines) :: subs, ⟨rfl, hread⟩, ⟨trivial, hin⟩, rfl⟩

/-- The element of a row whose body is read. -/
lemma IsRead.hangs {r : Row} {body : List Row} {c : Child (Subtree H)} (hplain : IsPlain r)
    (hclean : ∀ q ∈ body, q.Clean)
    (hread : IsRead {} c (Body.Item.tag r.content body false).written) (hin : ChildIsIn t base c)
    (hbody : ∀ {id : NodeId} {subs : List (Child (Subtree H))},
      AreRead {} subs ((cut {} body).map Body.Item.written) → AreIn t id subs →
        Tree.Hangs t id [] (contents {} body) (childPreorders subs)) :
    ∃ id ids, childPreorder c = id :: ids ∧ (t.node? id).bind (·.header) = some r.content ∧
      t.parent? id = some base ∧ Tree.Hangs t id [] (contents {} body) ids := by
  cases c with
  | text _ => exact hread.elim
  | node s =>
    obtain ⟨⟨hheader, hspec⟩, hreads⟩ := hread
    obtain ⟨⟨hlt, hparent⟩, hin⟩ := hin
    obtain ⟨hnode, -, hbelow⟩ := isIn_iff.mp hin
    have hparts := hreads.areRead (by rw [hspec, hplain.keepsBody])
    rw [Body.parse_eq_cut, Text.rows_unlines _ hclean] at hparts
    refine ⟨s.id, childPreorders s.children, preorder_eq s, ?_, ?_, hbody hparts hbelow⟩
    · rw [hnode]
      exact hheader
    · have hne : ¬base = s.id := Nat.ne_of_lt hlt
      rw [Tree.parent?, hnode]
      simp only [hparent, if_neg hne]

lemma AreRead.hangs {rows : List Row} (hregular : IsRegular rows)
    (hread : AreRead {} subs ((cut {} rows).map Body.Item.written)) (hin : AreIn t base subs) :
    Tree.Hangs t base [] (contents {} rows) (childPreorders subs) := by
  induction hn : rows.length using Nat.strong_induction_on generalizing rows base subs with
  | _ n ih =>
  subst hn
  cases rows with
  | nil =>
    rw [Body.cut_nil] at hread
    cases subs with
    | nil => exact .nil
    | cons => exact hread.elim
  | cons r rows =>
    have htail := hregular.of_suffix (List.suffix_cons r rows)
    by_cases hquiet : isQuiet {} r = true
    · rw [Body.cut_stray (Body.isStray_of_isQuiet hquiet)] at hread
      obtain ⟨subs', hread, hin, hsame⟩ := hread.of_consText hin
      rw [Body.contents_cons_of_quiet hquiet, ← hsame]
      exact ih _ (Nat.lt_succ_self _) htail hread hin rfl
    · have hloud : isQuiet {} r = false := Bool.eq_false_iff.mpr hquiet
      have hbody := hregular.owned hloud
      obtain ⟨-, hplain, hlevel⟩ := hregular
      rw [Body.contents_cons_of_loud hloud] at hplain hlevel ⊢
      have hr : IsPlain r := hplain r List.mem_cons_self
      have hstray : isStray {} r = false := by simp [isStray, hloud, hr.closeless]
      rw [Body.cut_indented hstray hr.bracketless] at hread
      cases subs with
      | nil => exact hread.elim
      | cons c subs =>
        obtain ⟨hread, hmore⟩ := hread
        obtain ⟨hin, hinmore⟩ := hin
        have hlength (n : Nat) : (rows.drop n).length < (r :: rows).length := by
          rw [List.length_drop, List.length_cons]
          omega
        have hrest := ih _ (hlength _) (htail.of_suffix (List.drop_suffix _ _)) hmore hinmore rfl
        obtain ⟨id, ids, hids, hheader, hparent, hhangs⟩ := hread.hangs hr hbody.clean hin
          fun hread hin => ih _ (by
            rw [List.length_map, List.length_cons]
            exact Nat.lt_succ_of_le (Body.owned_isPrefix {} r.indent rows).length_le)
            hbody hread hin rfl
        -- the body is read outdented, and no row of it is left of the column that was taken off
        rw [Body.contents_outdent] at hhangs
        have hown := Tree.Hangs.of_outdent [] hhangs
          (fun q hq => ⟨Body.not_blank_of_mem_contents hq, hlevel.column_le q hq⟩) (by simp)
        rw [← Body.contents_owned_append {} r.indent rows, childPreorders_cons, hids]
        exact hown.element hheader hparent (fun q hq => Body.deeper_of_mem_contents_owned hq) hrest
          fun q hq => Body.le_of_mem_head?_drop_owned hq

end Subtree

namespace Setup

open Body (contents IsPlain IsLevel)

/-- The rows of content of a source. -/
def contentRows (source : Text) : List Row :=
  contents {} ((Layout.lines ({} : LayoutSettings).tabWidth source).map Layout.Line.row)

/-- The nodes beneath the root are the lines of content in order, and each stands under the node of
the nearest earlier line that is before it, or under the root. -/
theorem parent?_of_indentation {source : Text} (hplain : ∀ r ∈ contentRows source, IsPlain r)
    (hlevel : IsLevel (contentRows source)) :
    ∃ t, Builds {} source t ∧
      (t.descendants Tree.root).length = (contentRows source).length ∧
      ∀ before r id after,
        (contentRows source).zip (t.descendants Tree.root) = before ++ (r, id) :: after →
          (t.node? id).bind (·.header) = some r.content ∧
            t.parent? id = some (Tree.above Tree.root before.reverse r.indent) := by
  have hrows : contentRows source = contents {} (Text.rows 4 source) := by
    rw [Text.rows, ← Layout.map_row_lines]
    rfl
  obtain ⟨t, s, hbuilds, hroot, hin, hread, hsize, hspec⟩ := builds_subtree {} source
  have hparts := hread.areRead (by rw [hspec]; rfl)
  rw [Body.parse_eq_cut] at hparts
  have hdescendants : t.descendants Tree.root = Subtree.childPreorders s.children := by
    rw [← hroot]
    refine hin.descendants ?_
    rw [← hsize, Subtree.preorder_eq]
    exact Nat.le_succ _
  have hhangs : t.Hangs Tree.root [] (contentRows source) (t.descendants Tree.root) := by
    rw [hdescendants, hrows, ← hroot]
    rw [hrows] at hplain hlevel
    exact hparts.hangs ⟨fun r hr => Text.clean_of_mem_rows hr, hplain, hlevel⟩
      (Subtree.isIn_iff.mp hin).2.2
  refine ⟨t, hbuilds, hhangs.length_eq, fun before r id after hzip => ?_⟩
  have hnode := hhangs.of_zip hzip
  rwa [List.append_nil] at hnode

/-- Lines behind tabs and spaces, with blank lines and comments between them. -/
def indentedSample : Text :=
  ("#h\n  a\n\n\tb x\n      c\n   # d\n\n\td (k=v)\n #e\n  (f\n" ++
    "f \"g\"\n \t \n     g\n     h\n").toList

theorem parent?_of_indentation_in_sample :
    ∃ t, Builds {} indentedSample t ∧
      (t.descendants Tree.root).length = (contentRows indentedSample).length ∧
      ∀ before r id after,
        (contentRows indentedSample).zip (t.descendants Tree.root) = before ++ (r, id) :: after →
          (t.node? id).bind (·.header) = some r.content ∧
            t.parent? id = some (Tree.above Tree.root before.reverse r.indent) :=
  parent?_of_indentation (by decide +kernel) (by decide +kernel)

end Setup

end TaggedOutline
