import TaggedOutline.Proofs.Header.Canonical
import TaggedOutline.Proofs.Macros

/-!
# Descriptions that are exported and imported again

What a tree exports of its root says everything that an import needs: the tree that is built of an
exported description exports the same one (`Setup.exports_exported`).  It does not matter whether
the first tree was built of a text or of another description, which may say more than is kept.

The reason is the same at every node.  A header that has been read leaves its fields and no line, so
it is not read again; one that could not be read leaves its line and is not read either
(`Setup.head_decoded_ofSpec`).  A body that was kept is kept again, and one that has become children
comes back as children (`Subtree.IsGrown.toSpec_reimport`).
-/

namespace TaggedOutline

/-! ## What a description says of a node itself -/

lemma Params.ofList_entries (p : Params) : Params.ofList p.entries = p := by
  have hread := Header.ofEntries_readEntry p
  rw [Header.ofEntries, List.foldl_map] at hread
  simp only [Header.getD_readEntry] at hread
  exact hread

/-- What a description says of the fields of a node, apart from its body. -/
def Fields.head (f : Fields) : Spec where
  tag := []
  suppressed := f.suppressed
  header := if f.headerFailed then f.header else none
  name := f.name
  aliases := f.aliases
  params := f.params.entries
  options := f.options.entries
  label := f.label
  parser := f.parser
  inlineCode := f.inlineCode
  bracket := f.bracket
  comment := f.comment

/-- The description of a node with these fields. -/
def Fields.described (f : Fields) (tag : Text) (body : Option Text) (children : List (Child Spec)) :
    Spec :=
  { f.head with tag, body, children }

/-- What a description says of a body that has not become children. -/
def RawBody.described : RawBody → Option Text × List (Child Spec)
  | .text [] => (none, [])
  | .text body => (some body, [])
  | .children items => (none, items)

/-- The body of a node whose description has this body and these children. -/
def RawBody.read (body : Option Text) (children : List (Child Spec)) : RawBody :=
  if children.isEmpty then .text (body.getD []) else .children children

lemma RawBody.described_read (b : RawBody) :
    (RawBody.read b.described.1 b.described.2).described = b.described := by
  rcases b with (_ | _) | (_ | _) <;> rfl

@[simp] lemma RawBody.isSome_text?_read (body : Option Text) (children : List (Child Spec)) :
    (RawBody.read body children).text?.isSome = children.isEmpty := by
  cases children <;> rfl

lemma RawBody.isEmpty_described {b : RawBody} (h : b.text?.isSome = true) :
    b.described.2.isEmpty = true := by
  rcases b with (_ | _) | _
  · rfl
  · rfl
  · cases h

namespace Subtree

variable {H : Type} {id : NodeId} {m : Node H} {children : List (Child (Subtree H))}

lemma toSpec_of_expanded (h : m.expanded = true) : (⟨id, m, children⟩ : Subtree H).toSpec =
    m.described m.tag none (childSpecs children) := by
  rw [toSpec, if_pos h]
  rfl

lemma toSpec_of_kept (h : m.expanded = false) : (⟨id, m, children⟩ : Subtree H).toSpec =
    m.described m.tag m.body.described.1 m.body.described.2 := by
  rw [toSpec, h, if_neg Bool.false_ne_true]
  rcases m.body with (_ | _) | _ <;> rfl

end Subtree

namespace Setup

open TaggedOutline.Tree Subtree

variable {s : Setup}

/-! ## Heads -/

section

variable (hempty : s.registry = {})

include hempty

lemma decoded_generic (f : Fields) : s.decoded .generic f =
    match f.header with
    | none => f
    | some header =>
      match Header.parse header with
      | some h => f.applyHeader h
      | none => f.annotate (.ofUnreadHeader header) := by
  rw [decoded, hempty]
  rfl

/-- A new node keeps a header line only if it cannot be read. -/
lemma header_head_decoded {f : Fields} (hf : f.diagnostics = []) :
    ∀ line ∈ (s.decoded .generic f).head.header, Header.parse line = none := by
  rw [decoded_generic hempty]
  rcases hheader : f.header with - | line
  · simp [Fields.head, Fields.headerFailed, hf]
  · rcases hparse : Header.parse line with - | h
    · simp [Fields.head, Fields.headerFailed, Fields.annotate, Diagnostic.ofUnreadHeader,
        Diagnostic.hasCode, hf, hheader, hparse]
    · simp [Fields.head, Fields.headerFailed, Fields.applyHeader, hf, hparse]

/-- The node of a description without a readable header line has the head of the description. -/
theorem head_decoded_ofSpec {spec : Spec} (hheader : ∀ line ∈ spec.header, Header.parse line = none)
    {p q : Params} (hparams : spec.params = p.entries) (hoptions : spec.options = q.entries)
    (parent : NodeId) :
    (s.decoded .generic (Node.ofSpec (H := Handler) parent false spec).toFields).head =
      { spec with tag := [], body := none, children := [] } := by
  obtain ⟨tag, suppressed, header, name, aliases, params, options, label, parser, inlineCode,
    bracket, comment, body, children⟩ := spec
  obtain rfl : params = p.entries := hparams
  obtain rfl : options = q.entries := hoptions
  rw [decoded_generic hempty]
  cases header with
  | none => simp [Node.ofSpec, Fields.head, Params.ofList_entries, Fields.headerFailed]
  | some line =>
    simp [Node.ofSpec, Fields.head, Params.ofList_entries, Fields.headerFailed,
      hheader line rfl, Fields.annotate, Diagnostic.ofUnreadHeader, Diagnostic.hasCode]

lemma expanded_decoded (f : Fields) : (s.decoded .generic f).expanded = f.expanded := by
  rw [decoded_generic hempty]
  split
  · rfl
  · split <;> rfl

end

/-! ## Opened nodes -/

/-- Whether a node keeps its body as it is, by what its fields say. -/
def keepsBody (s : Setup) (tag : Text) (f : Fields) : Bool :=
  f.suppressed || f.inlineCode.isSome ||
    f.body.text?.isSome && s.settings.layout.isFreeform tag

/-- The new children that a body says, without a grammar of its own. -/
def bodySeeds (s : Setup) (id : NodeId) (runtimeOnly : Bool) : RawBody → List (Child (Node Handler))
  | .text body =>
    (Body.parse s.settings.layout body).map (BodyItem.seed s.settings.layout id runtimeOnly)
  | .children items => items.map (Spec.seed id runtimeOnly)

lemma parse_nil (st : LayoutSettings) : Body.parse st [] = [] := by
  rw [Body.parse_eq_cut]
  exact congrArg _ (Body.cut_nil)

lemma bodySeeds_read_none (s : Setup) (id : NodeId) (runtimeOnly : Bool)
    (children : List (Child Spec)) : s.bodySeeds id runtimeOnly (.read none children) =
      children.map (Spec.seed id runtimeOnly) := by
  cases children with
  | nil =>
    rw [List.map_nil]
    exact List.map_eq_nil_iff.mpr (parse_nil _)
  | cons child children => rfl

lemma isSeed_of_mem_bodySeeds {id : NodeId} {runtimeOnly : Bool} {body : RawBody} :
    ∀ n ∈ newNodes (s.bodySeeds id runtimeOnly body), n.IsSeed id runtimeOnly := by
  intro n hn
  replace hn := mem_newNodes hn
  cases body with
  | text body => exact BodyItem.isSeed_of_mem hn
  | children items => exact Spec.isSeed_of_mem hn

section

variable (hempty : s.registry = {})

include hempty

/-- A body is read by its indentation; a header that asks for another way gets a warning. -/
lemma policy_generic (f : Fields) : ∃ f', s.policy .generic f = (.structural, f') ∧
    f'.head = f.head ∧ f'.expanded = f.expanded := by
  rw [policy, hempty]
  rcases f.parser with - | name
  · exact ⟨f, rfl, rfl, rfl⟩
  · have hcode : Diagnostic.unknownGrammar ≠ Diagnostic.unreadHeader := by decide
    refine ⟨_, rfl, ?_, rfl⟩
    simp [Fields.head, Fields.headerFailed, Fields.annotate, Diagnostic.ofUnknownGrammar,
      Diagnostic.hasCode, hcode]

/-- Without registered handlers a node keeps its body, or its children are what the body says. -/
lemma expanded_generic (id : NodeId) (tag : Text) (f : Fields) :
    ∃ f', f'.head = f.head ∧
      ((s.keepsBody tag f = true ∧ s.expanded .generic id tag f = ([], f') ∧
        f'.expanded = f.expanded) ∨
      (s.keepsBody tag f = false ∧
        s.expanded .generic id tag f = (s.bodySeeds id f.runtimeOnly f.body, f') ∧
        f'.expanded = true)) := by
  unfold expanded keepsBody bodySeeds
  cases hself : f.suppressed || f.inlineCode.isSome with
  | true => exact ⟨f, rfl, .inl ⟨rfl, rfl, rfl⟩⟩
  | false =>
    rcases f.body with body | items
    · obtain ⟨f', hpolicy, hhead, hexpanded⟩ := policy_generic hempty f
      simp only [items, hpolicy]
      cases s.settings.layout.isFreeform tag with
      | true => exact ⟨f', hhead, .inl ⟨rfl, rfl, hexpanded⟩⟩
      | false => exact ⟨{ f' with expanded := true }, hhead, .inr ⟨rfl, rfl, rfl⟩⟩
    · exact ⟨{ f with body := .children items, expanded := true }, rfl, .inr ⟨rfl, rfl, rfl⟩⟩

end

end Setup

/-! ## What has grown of a description -/

namespace Subtree

variable {s : Setup}

section

variable (hempty : s.registry = {})

include hempty

/-- The description of what has grown of a new node. -/
lemma IsGrown.toSpec_eq {sub : Subtree Handler} {n : Node Handler} (h : sub.IsGrown s n)
    (hn : n.expanded = false) :
    (s.keepsBody n.tag (s.decoded .generic n.toFields) = true ∧
      sub.toSpec = (s.decoded .generic n.toFields).described n.tag n.body.described.1
        n.body.described.2) ∨
    (s.keepsBody n.tag (s.decoded .generic n.toFields) = false ∧
      AreGrown s sub.children (s.bodySeeds sub.id n.runtimeOnly n.body) ∧
      sub.toSpec =
        (s.decoded .generic n.toFields).described n.tag none (childSpecs sub.children)) := by
  obtain ⟨id, m, children⟩ := sub
  obtain ⟨handler, hoffers, htag, hfields, hgrown⟩ := h
  obtain rfl := Setup.eq_generic_of_offers hempty hoffers
  have hbody : m.body = n.body := by rw [hfields, s.body_opened]
  obtain ⟨f', hhead, ⟨hkeeps, hopened, hkept⟩ | ⟨hkeeps, hopened, hexpanded⟩⟩ :=
    Setup.expanded_generic hempty id n.tag (s.decoded .generic n.toFields)
  · rw [Setup.opened, hopened] at hfields
    refine .inl ⟨hkeeps, ?_⟩
    rw [toSpec_of_kept, hbody, htag, hfields, Fields.described, hhead, ← Fields.described]
    rw [hfields, hkept, Setup.expanded_decoded hempty, hn]
  · rw [Setup.opened, hopened] at hfields hgrown
    rw [s.runtimeOnly_decoded, s.body_decoded] at hgrown
    refine .inr ⟨hkeeps, hgrown, ?_⟩
    rw [toSpec_of_expanded, htag, hfields, Fields.described, hhead, ← Fields.described]
    rw [hfields, hexpanded]

/-- The description of what has grown of a description that has no readable header line. -/
lemma IsGrown.toSpec_eq_of_described {sub : Subtree Handler} {f : Fields} {tag : Text}
    {body : Option Text} {children : List (Child Spec)} {parent : NodeId}
    (h : sub.IsGrown s (.ofSpec parent false (f.described tag body children)))
    (hf : ∀ line ∈ f.head.header, Header.parse line = none) :
    ((f.suppressed || f.inlineCode.isSome ||
        children.isEmpty && s.settings.layout.isFreeform tag) = true ∧
      sub.toSpec = f.described tag (RawBody.read body children).described.1
        (RawBody.read body children).described.2) ∨
    ((f.suppressed || f.inlineCode.isSome ||
        children.isEmpty && s.settings.layout.isFreeform tag) = false ∧
      AreGrown s sub.children (s.bodySeeds sub.id false (.read body children)) ∧
      sub.toSpec = f.described tag none (childSpecs sub.children)) := by
  generalize hn : Node.ofSpec (H := Handler) parent false (f.described tag body children) = n at h
  have htag : n.tag = tag := by rw [← hn]; rfl
  have hbody : n.body = .read body children := by rw [← hn]; rfl
  have hflag : n.runtimeOnly = false := by rw [← hn]; rfl
  have hexpanded : n.expanded = false := by rw [← hn]; rfl
  have hhead : (s.decoded .generic n.toFields).head = f.head := by
    rw [← hn]
    refine Setup.head_decoded_ofSpec hempty ?_ rfl rfl parent
    exact hf
  have hsuppressed : (s.decoded .generic n.toFields).suppressed = f.suppressed :=
    congrArg Spec.suppressed hhead
  have hcode : (s.decoded .generic n.toFields).inlineCode = f.inlineCode :=
    congrArg Spec.inlineCode hhead
  have hcases := h.toSpec_eq hempty hexpanded
  rwa [Setup.keepsBody, hsuppressed, hcode, s.body_decoded, Fields.described, Fields.described,
    hhead, hbody, RawBody.isSome_text?_read, htag, hflag, ← Fields.described,
    ← Fields.described] at hcases

end

mutual

/-- What grows of the description of a grown node has the same description. -/
theorem IsGrown.toSpec_reimport (hempty : s.registry = {}) : ∀ {sub sub' : Subtree Handler}
    {n : Node Handler} {parent parent' : NodeId}, sub.IsGrown s n → n.IsSeed parent false →
      sub'.IsGrown s (.ofSpec parent' false sub.toSpec) → sub'.toSpec = sub.toSpec
  | ⟨id, m, children⟩, sub', n, parent, parent', hgrown, hseed, hgrown' => by
    have hheader := Setup.header_head_decoded hempty hseed.diagnostics
    rcases hgrown.toSpec_eq hempty hseed.expanded with ⟨hkeeps, hspec⟩ | ⟨hkeeps, hbelow, hspec⟩
    · rw [hspec] at hgrown' ⊢
      rcases hgrown'.toSpec_eq_of_described hempty hheader with ⟨-, hspec'⟩ | ⟨hopens, -, -⟩
      · rw [hspec', n.body.described_read]
      · simp only [Bool.or_eq_false_iff, Bool.and_eq_false_imp] at hopens
        obtain ⟨⟨hsuppressed, hcode⟩, hfreeform⟩ := hopens
        simp only [Setup.keepsBody, hsuppressed, hcode, s.body_decoded, Bool.false_or,
          Bool.and_eq_true] at hkeeps
        have hnone := RawBody.isEmpty_described hkeeps.1
        exact absurd hkeeps.2 (Bool.eq_false_iff.mp (hfreeform hnone))
    · rw [hspec] at hgrown' ⊢
      rcases hgrown'.toSpec_eq_of_described hempty hheader with
        ⟨hkeeps', hspec'⟩ | ⟨-, hbelow', hspec'⟩
      · simp only [Setup.keepsBody, Bool.or_eq_false_iff] at hkeeps
        obtain ⟨⟨hsuppressed, hcode⟩, -⟩ := hkeeps
        simp only [hsuppressed, hcode, Bool.false_or, Bool.and_eq_true] at hkeeps'
        rw [hspec', List.isEmpty_iff.mp hkeeps'.1]
        rfl
      · rw [Setup.bodySeeds_read_none] at hbelow'
        rw [hseed.runtimeOnly] at hbelow
        rw [hspec',
          AreGrown.childSpecs_reimport hempty hbelow Setup.isSeed_of_mem_bodySeeds hbelow']

/-- What grows of the descriptions of grown children has the same descriptions. -/
lemma AreGrown.childSpecs_reimport (hempty : s.registry = {}) :
    ∀ {children children' : List (Child (Subtree Handler))} {seeds : List (Child (Node Handler))}
      {id id' : NodeId}, AreGrown s children seeds →
        (∀ n ∈ Tree.newNodes seeds, n.IsSeed id false) →
          AreGrown s children' ((childSpecs children).map (Spec.seed id' false)) →
            childSpecs children' = childSpecs children
  | [], _, _, _, _, _, _, hgrown' => by
    rw [AreGrown.eq_nil hgrown']
  | .text a :: children, _, seeds, _, _, hgrown, hseeds, hgrown' => by
    rcases seeds with - | ⟨b | n, seeds⟩
    · exact False.elim hgrown
    · obtain ⟨rest, rfl, hrest⟩ := AreGrown.exists_text hgrown'
      exact congrArg (Child.text a :: ·) (AreGrown.childSpecs_reimport hempty hgrown.2 hseeds hrest)
    · exact False.elim hgrown.1
  | .node sub :: children, _, seeds, _, _, hgrown, hseeds, hgrown' => by
    rcases seeds with - | ⟨b | n, seeds⟩
    · exact False.elim hgrown
    · exact False.elim hgrown.1
    · obtain ⟨hfirst, hgrown⟩ := hgrown
      obtain ⟨hseed, hseeds⟩ := List.forall_mem_cons.mp hseeds
      have hflag : sub.node.runtimeOnly = false := hfirst.runtimeOnly.trans hseed.runtimeOnly
      simp only [childSpecs, childSpec, hflag] at hgrown' ⊢
      obtain ⟨sub', rest, rfl, hfirst', hrest⟩ := AreGrown.exists_node hgrown'
      have hflag' : sub'.node.runtimeOnly = false := hfirst'.runtimeOnly
      simp only [childSpecs, childSpec, hflag']
      rw [IsGrown.toSpec_reimport hempty hfirst hseed hfirst',
        AreGrown.childSpecs_reimport hempty hgrown hseeds hrest]

end

end Subtree

/-! ## Trees of descriptions -/

namespace Setup

open TaggedOutline.Tree Subtree

/-- The build of a tree, given how deep builds may stand in each other, comes to an end if they may
stand deep enough; when it does, the root has this description. -/
structure Describes (build : Nat → Option (Tree Handler)) (spec : Spec) : Prop where
  ends : ∃ bound, ∀ depth, bound < depth → ∃ t, build depth = some t
  toSpec : ∀ depth t, build depth = some t → t.toSpec? root = some spec

variable {s : Setup} {t₀ : Tree Handler} {n : Node Handler}

/-- The root is described as what has grown of it. -/
lemma StandsFor.exists_grown {t : Tree Handler} (h : s.StandsFor t₀ t)
    (hroot : t₀.node? root = some n) :
    ∃ sub : Subtree Handler, sub.IsGrown s n ∧ t.toSpec? root = some sub.toSpec := by
  obtain ⟨n', grown, sub, hn, hgrown, hsub, hmatches⟩ := h
  obtain rfl := Option.some.inj (hroot.symm.trans hn)
  refine ⟨grown, hgrown, ?_⟩
  rw [toSpec?, hsub, Option.map_some, hmatches.toSpec]

/-- Every build of a fresh tree comes to an end with a root that is described as what has grown of
the root as it was. -/
lemma exists_describes (hempty : s.registry = {}) (hfresh : s.IsFresh t₀)
    (hroot : t₀.node? root = some n) :
    ∃ sub : Subtree Handler, sub.IsGrown s n ∧ Describes (s.build · t₀ root) sub.toSpec := by
  have hidle := isIdle_of_empty hempty
  have hgrafted := isGrafted_of_grafts hidle hfresh .start
  obtain ⟨n', hseed, rfl⟩ := hfresh.exists_root
  obtain rfl : n' = n := Option.some.inj hroot
  obtain ⟨bound, hends⟩ := hgrafted.exists_build hidle (shrinks_of_empty hempty) hroot hseed
  obtain ⟨t, ht⟩ := hends (bound + 1) (Nat.lt_succ_self bound)
  obtain ⟨sub, hgrown, -⟩ := (hgrafted.standsFor hidle hroot hseed ht).exists_grown hroot
  refine ⟨sub, hgrown, ⟨bound, hends⟩, fun depth t' ht' => ?_⟩
  obtain ⟨sub', hgrown', hspec'⟩ := (hgrafted.standsFor hidle hroot hseed ht').exists_grown hroot
  rw [hspec', (hgrown.matches (isUniform_of_empty hempty) hgrown' rfl rfl).toSpec]

/-- The description that a fresh tree gets describes the tree that is built of it. -/
lemma exists_describes_described (hempty : s.registry = {}) (hfresh : s.IsFresh t₀) :
    ∃ spec, Describes (s.build · t₀ root) spec ∧ Describes (s.buildSpec · spec) spec := by
  obtain ⟨n, hseed, rfl⟩ := hfresh.exists_root
  obtain ⟨sub, hgrown, hdescribes⟩ := exists_describes hempty hfresh rfl
  obtain ⟨sub', hgrown', hdescribes'⟩ := exists_describes hempty (.ofSpec sub.toSpec) rfl
  rw [hgrown.toSpec_reimport hempty hseed hgrown'] at hdescribes'
  exact ⟨sub.toSpec, hdescribes, hdescribes'⟩

/-- Without registered handlers, an exported description is imported to what it was exported of.
Whatever description a tree is made of, the one it gets is a description of itself: the tree built
of that gets it again.  The same holds of the description that the tree of a text gets. -/
theorem exports_exported (st : Settings) :
    (∀ spec, ∃ normal, Describes (buildSpec { settings := st } · spec) normal ∧
      Describes (buildSpec { settings := st } · normal) normal) ∧
    ∀ text, ∃ document, Describes (buildText { settings := st } · text) document ∧
      Describes (buildSpec { settings := st } · document) document :=
  ⟨fun spec => exists_describes_described rfl (.ofSpec spec),
    fun text => exists_describes_described rfl (.ofText text)⟩

end Setup

end TaggedOutline
