import TaggedOutline.Proofs.Build
import TaggedOutline.Proofs.Depth
import TaggedOutline.Proofs.Header.Opening

/-!
# Structured descriptions

A description is structured if its header line can say all of it and everything in it is an element:
words where words are read, no key twice, no text between elements.  Labels and values may be any
text.  Such a description is written as an outline from which it is read back as it was, brackets
and all; `Setup.builds_structured` is the main statement.
-/

namespace TaggedOutline

open Header (IsWord IsReadable Describes parse headRow)
open Body (bracketHeader? isStray isQuiet opens closes depthAfter depthFrom enclosed)

/-- A description that can be written so that it is read back as it was. -/
structure Spec.IsStructured (s : Spec) : Prop where
  tag : IsWord s.tag
  unmarked : ¬({} : LayoutSettings).suppressMarker <+: s.tag
  names : ∀ name ∈ s.name.toList ++ s.aliases, IsWord name
  aliases : s.name = none → s.aliases = []
  params : ∀ key ∈ s.params.map Prod.fst, IsWord key
  paramsNodup : (s.params.map Prod.fst).Nodup
  options : ∀ key ∈ s.options.map Prod.fst, IsWord key
  optionsNodup : (s.options.map Prod.fst).Nodup
  parser : ∀ name ∈ s.parser, IsWord name
  comment : ∀ comment ∈ s.comment, Text.trim comment = comment ∧ '\n' ∉ comment
  suppressed : s.suppressed = false
  header : s.header = none
  inlineCode : s.inlineCode = none
  body : s.body = none
  children : ∀ child ∈ s.children, ∃ inner, child = .node inner

/-! ## Heads -/

namespace Spec.IsStructured

variable {s : Spec} (hs : s.IsStructured)

/-- The header that a structured description is written with. -/
def stated (hs : s.IsStructured) : Header where
  tag := s.tag
  names := s.name.toList ++ s.aliases
  params := ⟨s.params, hs.paramsNodup⟩
  options := ⟨s.options, hs.optionsNodup⟩
  label := s.label
  parser := s.parser
  inlineCode := none
  bracket := false
  comment := s.comment

include hs

lemma describes : Describes s hs.stated where
  header := hs.header
  tag := by
    rw [hs.suppressed, if_neg Bool.false_ne_true]
    rfl
  names := rfl
  params := rfl
  options := rfl
  label := rfl
  parser := rfl
  inlineCode := hs.inlineCode
  comment := rfl

lemma hasBracket_eq : s.hasBracket = s.bracket := by
  simp [Spec.hasBracket, hs.inlineCode]

lemma isReadable : IsReadable hs.stated where
  tag := hs.tag
  names := hs.names
  params := hs.params
  options := hs.options
  parser := hs.parser
  code := by simp [stated]
  comment := fun comment hcomment =>
    ⟨comment, (hs.comment comment hcomment).2, (hs.comment comment hcomment).1.symm⟩
  feed_notMem_code := by simp [stated]

lemma splitMarker_tag : Header.splitMarker ['!'] s.tag = (s.tag, false) := by
  have hnone : ['!'].isPrefixOf? s.tag = none := by
    have hpre : ¬['!'] <+: s.tag := hs.unmarked
    cases htag : s.tag with
    | nil => rfl
    | cons c w =>
      have hc : ('!' == c) = false := by
        rw [htag, List.cons_prefix_cons] at hpre
        simpa using hpre
      simp [List.isPrefixOf?, hc]
  rw [Header.splitMarker, hnone]
  rfl

/-- A line that stands for the header of a structured description is read as the description. -/
lemma ofHeader_eq {t : Text} (hparse : parse t = some hs.stated)
    (hhead : ∀ c ∈ t.head?, Layout.isIndent c = false) :
    Spec.ofHeader {} t s.bracket = { s with children := [] } := by
  have htag : Node.rawTag t = s.tag := Header.rawTag_of_parse hparse hhead
  have hmarker : Header.splitMarker ({} : Settings).layout.suppressMarker s.tag = (s.tag, false) :=
    hs.splitMarker_tag
  have hnames : (s.name.toList ++ s.aliases).head? = s.name ∧
      (s.name.toList ++ s.aliases).tail = s.aliases := by
    cases hname : s.name with
    | none => simp [hs.aliases hname]
    | some name => simp
  have hheader := hs.header
  have hsuppressed := hs.suppressed
  have hcode := hs.inlineCode
  have hbody := hs.body
  unfold Spec.ofHeader Spec.withHeader
  simp only [htag, hmarker, hparse, stated, hnames.1, hnames.2, Bool.or_false]
  cases s
  simp_all

end Spec.IsStructured

/-- The head of an element, where it is written, is read as the description of the element. -/
structure Spec.Repeats (s : Spec) : Prop where
  isLine : '\n' ∉ s.openingLine {}
  indent : (headRow s).indent = 0
  stray : isStray {} (headRow s) = false
  opens : (bracketHeader? {} (headRow s).line).isSome = s.bracket
  same : Spec.ofHeader {} ((bracketHeader? {} (headRow s).line).getD (headRow s).content)
    s.bracket = { s with children := [] }

lemma Spec.IsStructured.repeats {s : Spec} (hs : s.IsStructured) : s.Repeats := by
  cases hb : s.bracket with
  | false =>
    obtain ⟨hfeed, hindent, hstray, hagain⟩ :=
      Header.headRow_plain (hs.hasBracket_eq.trans hb) hs.describes hs.isReadable
    have hclean : (headRow s).Clean := Row.clean_ofText 4 hfeed
    have hnone : bracketHeader? {} (headRow s).line = none := by
      have hopen := Header.isSome_bracketHeader? hclean.noFeed hagain
      have hsame : bracketHeader? {} (Row.ofText 4 (headRow s).content).line =
          bracketHeader? {} (headRow s).line := by
        rw [Header.ofText_content hclean]
        exact Body.bracketHeader?_congr {} rfl
      rw [Header.seemsOpen_eq_false hagain rfl rfl, hsame] at hopen
      simpa using hopen
    refine ⟨hfeed, hindent, hstray, by rw [hnone, hb]; rfl, ?_⟩
    rw [hnone, Option.getD_none]
    exact hs.ofHeader_eq hagain hclean.bare
  | true =>
    obtain ⟨code, comment, hcut, hne, hbare, hagain⟩ :=
      Header.exists_parts_of_headerLine hs.describes hs.isReadable.toIsWritable rfl
    obtain ⟨hfeed, hindent, hstray, hopened⟩ := Header.headRow_opened (hs.hasBracket_eq.trans hb)
      (Header.feed_notMem_headerLine hs.describes hs.isReadable) hcut hne hbare
    refine ⟨hfeed, hindent, hstray, by rw [hopened, hb]; rfl, ?_⟩
    rw [hopened, Option.getD_some]
    apply hs.ofHeader_eq hagain
    rwa [List.head?_append_of_ne_nil _ hne]

/-! ## Rows -/

namespace Spec

lemma rows_structured {s : Spec} (hs : s.IsStructured) (column : Nat) :
    rows column s =
      (headRow s).shift column ::
        (childrenRows (column + 4) s.children ++ s.closingRows column) := by
  have hbody : bodyRows (column + 4) s = childrenRows (column + 4) s.children := by
    rw [bodyRows, hs.body]
    cases s.children with
    | nil => rfl
    | cons child children => rfl
  rw [rows_eq, wrapRows, hbody]
  rfl

/-- A row of a structured description: a content that is not before a column. -/
structure IsContent (column : Nat) (r : Row) : Prop where
  clean : r.Clean
  loud : isQuiet {} r = false
  behind : column ≤ r.indent

lemma Repeats.content_ne {s : Spec} (h : s.Repeats) :
    (headRow s).content ≠ ({} : LayoutSettings).closeBracket := by
  have hclose := (Bool.or_eq_false_iff.mp h.stray).2
  simpa using hclose

lemma Repeats.isContent {s : Spec} (h : s.Repeats) (column : Nat) :
    IsContent column ((headRow s).shift column) := by
  have hloud := (Bool.or_eq_false_iff.mp h.stray).1
  have hblank := (Bool.or_eq_false_iff.mp hloud).1
  refine ⟨(Row.clean_ofText 4 h.isLine).shift column, by rw [Row.isQuiet_shift, hloud], ?_⟩
  rw [Row.indent_shift hblank]
  exact Nat.le_add_left _ _

lemma isContent_closing (column : Nat) : IsContent column ⟨column, ['\x7d']⟩ where
  clean := ⟨(by decide : '\n' ∉ ['\x7d']), (by decide : Text.trimEnd ['\x7d'] = ['\x7d']),
    by simp [Layout.isIndent], by simp⟩
  loud := rfl
  behind := Nat.le_refl column

lemma IsContent.mono {column column' : Nat} {r : Row} (h : IsContent column r)
    (hle : column' ≤ column) : IsContent column' r := ⟨h.clean, h.loud, hle.trans h.behind⟩

lemma isContent_of_below {s : Spec} (hs : s.IsStructured) {column : Nat}
    (h : ∀ r ∈ childrenRows (column + 4) s.children, IsContent (column + 4) r) :
    ∀ r ∈ rows column s, IsContent column r := by
  intro r hr
  rw [rows_structured hs] at hr
  rcases List.mem_cons.mp hr with rfl | hr
  · exact hs.repeats.isContent column
  · rcases List.mem_append.mp hr with hr | hr
    · exact (h r hr).mono (Nat.le_add_right _ _)
    · unfold closingRows at hr
      split at hr
      · obtain rfl := List.mem_singleton.mp hr
        exact isContent_closing column
      · simp at hr

mutual

lemma isContent_rows (column : Nat) :
    ∀ s : Spec, Every IsStructured s → ∀ r ∈ rows column s, IsContent column r
  | ⟨_, _, _, _, _, _, _, _, _, _, _, _, _, children⟩, ⟨hs, hbelow⟩ =>
    isContent_of_below hs (isContent_childrenRows (column + 4) children hs.children hbelow)

lemma isContent_childrenRows (column : Nat) :
    ∀ children : List (Child Spec), (∀ child ∈ children, ∃ s, child = .node s) →
      EveryIn IsStructured children → ∀ r ∈ childrenRows column children, IsContent column r
  | [], _, _, r, hr => by simp [childrenRows] at hr
  | .text _ :: _, hnodes, _, _, _ => by simpa using hnodes _ List.mem_cons_self
  | .node s :: children, hnodes, ⟨hs, hmore⟩, r, hr => by
    rcases List.mem_append.mp hr with hr | hr
    · exact isContent_rows column s hs r hr
    · exact isContent_childrenRows column children
        (fun child hm => hnodes child (List.mem_cons_of_mem _ hm)) hmore r hr

end

/-- The first row of children stands at their column. -/
lemma indent_head_childrenRows (column : Nat) {children : List (Child Spec)}
    (hnodes : ∀ child ∈ children, ∃ s, child = .node s) (h : EveryIn IsStructured children) :
    ∀ r ∈ (childrenRows column children).head?, r.indent = column := by
  cases children with
  | nil => simp [childrenRows]
  | cons child children =>
    obtain ⟨s, rfl⟩ := hnodes _ List.mem_cons_self
    have hs : s.IsStructured := (every_iff.mp h.1).1
    have hloud := (hs.repeats.isContent 0).loud
    rw [Row.isQuiet_shift] at hloud
    rw [childrenRows, childRows, rows_structured hs]
    rintro _ ⟨⟩
    rw [Row.indent_shift (Bool.or_eq_false_iff.mp hloud).1, hs.repeats.indent, Nat.zero_add]

lemma balanced_of_below {s : Spec} (hs : s.IsStructured) {column : Nat}
    (h : Body.Balanced {} (childrenRows (column + 4) s.children)) :
    Body.Balanced {} (rows column s) := by
  have hcontent := Row.content_shift column (headRow s)
  have hne : ((headRow s).shift column).content ≠ ({} : LayoutSettings).closeBracket := by
    rw [hcontent]
    exact hs.repeats.content_ne
  have hopens : opens {} ((headRow s).shift column) = s.bracket :=
    (congrArg Option.isSome (Body.bracketHeader?_congr {} hcontent)).trans hs.repeats.opens
  rw [rows_structured hs, closingRows, hs.hasBracket_eq]
  cases hb : s.bracket with
  | true => exact Body.Balanced.bracket hne (hopens.trans hb) h rfl
  | false => exact (Body.Balanced.row hne (hopens.trans hb)).append (h.append .nil)

mutual

lemma balanced_rows (column : Nat) :
    ∀ s : Spec, Every IsStructured s → Body.Balanced {} (rows column s)
  | ⟨_, _, _, _, _, _, _, _, _, _, _, _, _, children⟩, ⟨hs, hbelow⟩ =>
    balanced_of_below hs (balanced_childrenRows (column + 4) children hs.children hbelow)

lemma balanced_childrenRows (column : Nat) :
    ∀ children : List (Child Spec), (∀ child ∈ children, ∃ s, child = .node s) →
      EveryIn IsStructured children → Body.Balanced {} (childrenRows column children)
  | [], _, _ => Body.Balanced.nil
  | .text _ :: _, hnodes, _ => by simpa using hnodes _ List.mem_cons_self
  | .node s :: children, hnodes, ⟨hs, hmore⟩ =>
    (balanced_rows column s hs).append (balanced_childrenRows column children
      (fun child hm => hnodes child (List.mem_cons_of_mem _ hm)) hmore)

end

/-! ## Reading -/

/-- The next row, if there is one, is a content at the head of its line. -/
def BeginsFlush (rows : List Row) : Prop := ∀ r ∈ rows.head?, isQuiet {} r = false ∧ r.indent = 0

/-- What is written of children, where their element is read. -/
structure Below (children : List (Child Spec)) (body : List Row) : Prop where
  contents : ∀ r ∈ body, IsContent 4 r
  first : ∀ r ∈ body.head?, r.indent = 4
  balanced : Body.Balanced {} body
  outdent : body.map (Row.outdent 4) = childrenRows 0 children

lemma below_childrenRows {children : List (Child Spec)}
    (hnodes : ∀ child ∈ children, ∃ s, child = .node s) (h : EveryIn IsStructured children) :
    Below children (childrenRows 4 children) where
  contents := isContent_childrenRows 4 children hnodes h
  first := indent_head_childrenRows 4 hnodes h
  balanced := balanced_childrenRows 4 children hnodes h
  outdent := by
    have hshift := shift_childrenRows 0 4 children
    rw [Nat.zero_add] at hshift
    rw [← hshift]
    apply Row.map_outdent_shift
    exact fun r hr => (isContent_childrenRows 0 children hnodes h r hr).clean

variable {children : List (Child Spec)} {body rest : List Row}

lemma Below.region_eq (h : Below children body) (hrest : BeginsFlush rest) :
    Body.region {} 0 (body ++ rest) = body := by
  have hbody : ∀ r ∈ body, (isQuiet {} r || decide (0 < r.indent)) = true := fun r hr => by
    have hbehind := (h.contents r hr).behind
    have hpos : 0 < r.indent := by omega
    simp [hpos]
  refine takeWhile_run hbody fun r hr => ?_
  obtain ⟨hloud, hindent⟩ := hrest r hr
  simp [hloud, hindent]

lemma Below.owned_eq (h : Below children body) (hrest : BeginsFlush rest) :
    Body.owned {} 0 (body ++ rest) = body := by
  rw [Body.owned, h.region_eq hrest, Body.settle]
  cases hbody : body with
  | nil => rfl
  | cons r rows =>
    have hloud := (h.contents r (hbody ▸ List.mem_cons_self)).loud
    have hcolumn : Body.contentColumn? {} (r :: rows) = some r.indent := by
      simp [Body.contentColumn?, hloud]
    rw [hcolumn]
    apply List.rdropWhile_eq_self_iff.mpr
    intro hne
    have hmem : (r :: rows).getLast hne ∈ body := by
      rw [hbody]
      exact List.getLast_mem hne
    have hlast := (h.contents _ hmem).loud
    simp [Body.isLoose, hlast]

/-- The rows of the body of an indented element are those of its children. -/
lemma Below.outdent_content (h : Below children body) :
    body.map (Row.outdent ((Body.contentColumn? {} body).getD 0)) = childrenRows 0 children := by
  rw [← h.outdent]
  cases hbody : body with
  | nil => rfl
  | cons r rows =>
    have hloud := (h.contents r (hbody ▸ List.mem_cons_self)).loud
    have hfirst := h.first r (hbody ▸ rfl)
    have hcolumn : Body.contentColumn? {} (r :: rows) = some 4 := by
      simp [Body.contentColumn?, hloud, hfirst]
    rw [hcolumn, Option.getD_some]

/-- The rows of the body of a bracket are those of its children. -/
lemma Below.outdent_head (h : Below children body) (rest : List Row) :
    body.map (Row.outdent (Body.headColumn (body ++ rest))) = childrenRows 0 children := by
  rw [← h.outdent]
  cases hbody : body with
  | nil => rfl
  | cons r rows =>
    have hblank := (Bool.or_eq_false_iff.mp (h.contents r (hbody ▸ List.mem_cons_self)).loud).1
    have hfirst := h.first r (hbody ▸ rfl)
    rw [List.cons_append, Body.headColumn_of_content hblank, hfirst]

/-- The header that the head of an element is read with. -/
def headerAgain (s : Spec) : Text := (bracketHeader? {} (headRow s).line).getD (headRow s).content

/-- Of a structured description one item is read, with the rows of its children. -/
lemma cut_rows {s : Spec} (hs : s.IsStructured) (hbelow : EveryIn IsStructured s.children)
    (hrest : BeginsFlush rest) :
    Body.cut {} (rows 0 s ++ rest) =
      .tag (headerAgain s) (childrenRows 0 s.children) s.bracket :: Body.cut {} rest := by
  have hrepeats := hs.repeats
  have h := below_childrenRows hs.children hbelow
  have hclean : (headRow s).Clean := Row.clean_ofText 4 hrepeats.isLine
  rw [rows_structured hs, Row.shift_zero hclean, Nat.zero_add,
    closingRows, hs.hasBracket_eq, headerAgain]
  cases hb : s.bracket with
  | false =>
    have hnone : bracketHeader? {} (headRow s).line = none := by
      have hopens := hrepeats.opens
      rw [hb] at hopens
      simpa using hopens
    rw [if_neg Bool.false_ne_true, List.append_nil, List.cons_append,
      Body.cut_indented hrepeats.stray hnone, hrepeats.indent, h.owned_eq hrest, h.outdent_content,
      List.drop_left, hnone, Option.getD_none]
  | true =>
    obtain ⟨header, hheader⟩ : ∃ header, bracketHeader? {} (headRow s).line = some header := by
      rw [← Option.isSome_iff_exists, hrepeats.opens, hb]
    have hsplit : childrenRows 4 s.children ++ [⟨0, ['\x7d']⟩] ++ rest =
        childrenRows 4 s.children ++ ⟨0, ['\x7d']⟩ :: rest := by simp
    have hcloses : ∀ column, closes {} column
        (depthFrom {} 0 (childrenRows 4 s.children)) ⟨0, ['\x7d']⟩ = true := by
      intro column
      rw [(h.balanced column 0).2]
      simp [closes]
    rw [if_pos rfl, List.cons_append, hsplit, Body.cut_bracket hrepeats.stray hheader,
      Body.enclosed_closed (h.balanced _ 0).1 (hcloses _), h.outdent_head, hheader,
      Option.getD_some]

/-- What is read of an item is the description, if its children are read as they were. -/
lemma child_eq {s : Spec} (hs : s.IsStructured)
    (hbelow : outline {} (childrenRows 0 s.children) = s.children) :
    (Body.Item.tag (headerAgain s) (childrenRows 0 s.children) s.bracket).child {} = .node s := by
  have hkeeps : keepsBody {} { s with children := [] } = false := by
    simp [keepsBody, hs.suppressed, hs.inlineCode, LayoutSettings.isFreeform]
  rw [Body.Item.child, hbelow, headerAgain, hs.repeats.same, fill, hkeeps,
    if_neg Bool.false_ne_true]
  cases s
  rfl

mutual

lemma outline_below : ∀ s : Spec, Every IsStructured s →
    outline {} (childrenRows 0 s.children) = s.children
  | ⟨_, _, _, _, _, _, _, _, _, _, _, _, _, children⟩, ⟨hs, hbelow⟩ =>
    outline_childrenRows children hs.children hbelow

/-- Structured children are read as they were. -/
lemma outline_childrenRows : ∀ children : List (Child Spec),
    (∀ child ∈ children, ∃ s, child = .node s) → EveryIn IsStructured children →
      outline {} (childrenRows 0 children) = children
  | [], _, _ => by
    rw [childrenRows, outline_eq, Body.cut_nil]
    rfl
  | .text _ :: _, hnodes, _ => by simpa using hnodes _ List.mem_cons_self
  | .node s :: children, hnodes, ⟨hs, hmore⟩ => by
    have hnodes' : ∀ child ∈ children, ∃ s, child = .node s := fun child hm =>
      hnodes child (List.mem_cons_of_mem _ hm)
    have hrest : BeginsFlush (childrenRows 0 children) := fun r hr =>
      ⟨(isContent_childrenRows 0 children hnodes' hmore r (List.mem_of_mem_head? hr)).loud,
        indent_head_childrenRows 0 hnodes' hmore r hr⟩
    have hmore' := outline_childrenRows children hnodes' hmore
    have hbelow := outline_below s hs
    obtain ⟨hs, hin⟩ := every_iff.mp hs
    rw [outline_eq] at hmore' ⊢
    rw [childrenRows, childRows, cut_rows hs hin hrest, List.map_cons, child_eq hs hbelow]
    exact congrArg (Child.node s :: ·) hmore'

end

/-- What a structured description is written as is read as one item. -/
lemma parse_serialize {s : Spec} (h : Every IsStructured s) :
    Body.parse {} (s.serialize {}) =
      [(Body.Item.tag (headerAgain s) (childrenRows 0 s.children) s.bracket).written] := by
  obtain ⟨hs, hbelow⟩ := every_iff.mp h
  have hlines : Every IsLine s := h.mono fun _ hs => hs.repeats.isLine
  have hrows : Text.rows 4 (s.serialize {}) = rows 0 s := (lays_write 0 s hlines).rows_eq
  have hnone : BeginsFlush [] := by simp [BeginsFlush]
  have hcut := cut_rows hs hbelow hnone
  rw [List.append_nil, Body.cut_nil] at hcut
  rw [Body.parse_eq_cut, hrows, hcut]
  rfl

/-- What is read of that item has the description. -/
lemma toSpec_of_isRead {H : Type} {s : Spec} (h : Every IsStructured s) {c : Subtree H}
    (hread : Subtree.IsRead {} (.node c)
      (Body.Item.tag (headerAgain s) (childrenRows 0 s.children) s.bracket).written) :
    c.toSpec = s := by
  obtain ⟨hs, hbelow⟩ := every_iff.mp h
  obtain ⟨⟨-, hspec⟩, hreads⟩ := hread
  have hclean : ∀ r ∈ childrenRows 0 s.children, r.Clean := fun r hr =>
    (isContent_childrenRows 0 s.children hs.children hbelow r hr).clean
  have hchild := child_eq hs (outline_below s h)
  rw [Body.Item.child, ← filled_unlines {} _ hclean, ← hspec] at hchild
  exact hreads.toSpec_eq.trans (Child.node.inj hchild)

end Spec

namespace Setup

/-- What a structured description is written as is built as a document with one child, and that
child has the description. -/
theorem builds_structured {s : Spec} (h : Spec.Every Spec.IsStructured s) :
    ∃ t root id, Builds {} (s.serialize {}) t ∧ t.node? Tree.root = some root ∧
      root.children = [.node id] ∧ t.toSpec? id = some s := by
  obtain ⟨t, whole, hbuilds, hroot, hin, hread, hsize, hspec⟩ := builds_subtree {} (s.serialize {})
  obtain ⟨hhere, hchildren, hbelow⟩ := Subtree.isIn_iff.mp hin
  have hparts := hread.areRead (by rw [hspec]; rfl)
  rw [Spec.parse_serialize h] at hparts
  match hwhole : whole.children, hparts with
  | [.node c], ⟨hc, _⟩ =>
    rw [hwhole] at hchildren hbelow
    obtain ⟨⟨-, hin⟩, -⟩ := hbelow
    have hdepth : c.preorder.length ≤ t.size := by
      rw [← hsize, Subtree.preorder_eq whole, hwhole]
      simp [Subtree.childPreorder]
    refine ⟨t, whole.node, c.id, hbuilds, hroot ▸ hhere, hchildren, ?_⟩
    rw [Tree.toSpec?, Tree.subtree?, hin.subtreeWithin t.size hdepth, Option.map_some,
      Spec.toSpec_of_isRead h hc]

/-- A bracket with an indented element and a bracket in it, under labels and values with quotes,
braces and line feeds. -/
def structuredSample : Spec :=
  { tag := "menu".toList, name := some "main".toList, aliases := ["m".toList]
    params := [("width".toList, "4\n0 # \x7b".toList), ("k".toList, [])]
    options := [("of".toList, "a\"b\\".toList)]
    label := some "\n\x7d\n".toList, parser := some "p".toList, bracket := true
    comment := some "said \"so".toList
    children := [
      .node { tag := "entry".toList, label := some [], comment := some []
              children := [.node { tag := "leaf".toList, bracket := true }] },
      .node { tag := "entry".toList, name := some "quit".toList, bracket := true
              children := [.node { tag := "leaf".toList }] }] }

theorem builds_structured_in_sample :
    ∃ t root id, Builds {} (structuredSample.serialize {}) t ∧ t.node? Tree.root = some root ∧
      root.children = [.node id] ∧ t.toSpec? id = some structuredSample := by
  refine builds_structured
    ⟨?_, ⟨⟨?_, ⟨?_, trivial⟩, trivial⟩, ⟨?_, ⟨?_, trivial⟩, trivial⟩, trivial⟩⟩
  all_goals
    constructor
    all_goals first | decide | simp

end Setup

end TaggedOutline
