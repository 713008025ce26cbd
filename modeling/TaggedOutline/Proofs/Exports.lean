import TaggedOutline.Proofs.Census
import TaggedOutline.Proofs.Ends
import TaggedOutline.Tree.Written

/-!
# What is exported of a tree

The sketch, the description and the written form of a node leave out what is beneath it but no part
of the document.  `Subtree.Matches` says of two subtrees that they are the same as parts of a
document, whatever else stands in them.

There are two reasons for subtrees to match.  A tree may have been overgrown by nodes outside the
document (`Tree.Overgrown`), or both subtrees may be what the build of the same element has made of
it with the same handlers (`Subtree.IsGrown.matches`).
-/

namespace TaggedOutline

/-! ## Subtrees that match -/

namespace Subtree

variable {H : Type}

/-- Two subtrees are the same as parts of a document. -/
structure Matches (sub sub' : Subtree H) : Prop where
  runtimeOnly : sub'.node.runtimeOnly = sub.node.runtimeOnly
  sketch : sub'.sketch = sub.sketch
  toSpec : sub'.toSpec = sub.toSpec

/-- Two lists of children are the same as parts of a document. -/
structure ChildrenMatch (children children' : List (Child (Subtree H))) : Prop where
  sketches : childSketches children' = childSketches children
  specs : childSpecs children' = childSpecs children

namespace Matches

variable {s s' s'' : Subtree H}

lemma refl (s : Subtree H) : s.Matches s := ⟨rfl, rfl, rfl⟩

lemma symm (h : s.Matches s') : s'.Matches s :=
  ⟨h.runtimeOnly.symm, h.sketch.symm, h.toSpec.symm⟩

lemma trans (h : s.Matches s') (h' : s'.Matches s'') : s.Matches s'' :=
  ⟨h'.runtimeOnly.trans h.runtimeOnly, h'.sketch.trans h.sketch, h'.toSpec.trans h.toSpec⟩

end Matches

lemma childSketches_append (children children' : List (Child (Subtree H))) :
    childSketches (children ++ children') = childSketches children ++ childSketches children' := by
  induction children with
  | nil => rfl
  | cons child children ih =>
    rw [List.cons_append, childSketches, ih, childSketches, List.append_assoc]

lemma childSpecs_append (children children' : List (Child (Subtree H))) :
    childSpecs (children ++ children') = childSpecs children ++ childSpecs children' := by
  induction children with
  | nil => rfl
  | cons child children ih => rw [List.cons_append, childSpecs, ih, childSpecs, List.append_assoc]

namespace ChildrenMatch

variable {children children' others others' : List (Child (Subtree H))} {s s' : Subtree H}

lemma refl (children : List (Child (Subtree H))) : ChildrenMatch children children := ⟨rfl, rfl⟩

lemma append (h : ChildrenMatch children children') (h' : ChildrenMatch others others') :
    ChildrenMatch (children ++ others) (children' ++ others') :=
  ⟨by rw [childSketches_append, childSketches_append, h.sketches, h'.sketches],
    by rw [childSpecs_append, childSpecs_append, h.specs, h'.specs]⟩

lemma cons (h : s.Matches s') (hrest : ChildrenMatch children children') :
    ChildrenMatch (.node s :: children) (.node s' :: children') :=
  ⟨by simp only [childSketches, childSketch, h.runtimeOnly, h.sketch, hrest.sketches],
    by simp only [childSpecs, childSpec, h.runtimeOnly, h.toSpec, hrest.specs]⟩

lemma cons_text (a : Text) (h : ChildrenMatch children children') :
    ChildrenMatch (.text a :: children) (.text a :: children') :=
  ⟨h.sketches, congrArg (Child.text a :: ·) h.specs⟩

/-- A child outside the document makes no difference. -/
lemma cons_outside (hflag : s.node.runtimeOnly = true) (h : ChildrenMatch children children') :
    ChildrenMatch children (.node s :: children') :=
  ⟨by rw [childSketches, childSketch, if_pos hflag, List.nil_append, h.sketches],
    by rw [childSpecs, childSpec, if_pos hflag, List.nil_append, h.specs]⟩

end ChildrenMatch

lemma describe_congr {n m : Node H} (htag : m.tag = n.tag) (hfields : m.toFields = n.toFields)
    (body : Option Text) (children : List (Child Spec)) :
    describe m body children = describe n body children := by
  simp only [describe, htag, hfields]

lemma Matches.of_children {n m : Node H} {children children' : List (Child (Subtree H))}
    (htag : m.tag = n.tag) (hfields : m.toFields = n.toFields)
    (h : ChildrenMatch children children') (id id' : NodeId) :
    (⟨id, n, children⟩ : Subtree H).Matches ⟨id', m, children'⟩ where
  runtimeOnly := congrArg Fields.runtimeOnly hfields
  sketch := by simp only [Subtree.sketch, htag, hfields, h.sketches]
  toSpec := by simp only [Subtree.toSpec, describe_congr htag hfields, hfields, h.specs]

end Subtree

/-! ## Exports -/

namespace Tree

open Subtree

variable {H : Type} {t t' t'' : Tree H} {id c : NodeId} {n : Node H}

/-- A node has the same sketch, the same description and the same written form in two trees. -/
structure SameExports (st : Settings) (t t' : Tree H) (id : NodeId) : Prop where
  sketch : ∃ sketch, t.sketch? id = some sketch ∧ t'.sketch? id = some sketch
  toSpec : ∃ spec, t.toSpec? id = some spec ∧ t'.toSpec? id = some spec
  serialize : t'.serialize st id = t.serialize st id

lemma sameExports_of_matches (st : Settings) {sub sub' : Subtree H}
    (hsub : t.subtree? id = some sub) (hsub' : t'.subtree? id = some sub')
    (h : sub.Matches sub') : t.SameExports st t' id := by
  have hspec : t.toSpec? id = some sub.toSpec := by rw [toSpec?, hsub, Option.map_some]
  have hspec' : t'.toSpec? id = some sub.toSpec := by
    rw [toSpec?, hsub', Option.map_some, h.toSpec]
  refine ⟨⟨sub.sketch, ?_, ?_⟩, ⟨_, hspec, hspec'⟩, ?_⟩
  · rw [sketch?, hsub, Option.map_some]
  · rw [sketch?, hsub', Option.map_some, h.sketch]
  · rw [Tree.serialize, Tree.serialize, hspec, hspec']

lemma exists_subtree?_of_lt (h : id < t.size) : ∃ sub, t.subtree? id = some sub := by
  obtain ⟨n, hn⟩ := exists_node?_of_lt h
  obtain ⟨depth, hdepth⟩ := Nat.exists_eq_succ_of_ne_zero (Nat.ne_zero_of_lt h)
  rw [subtree?, hdepth, subtreeWithin, hn]
  exact ⟨_, rfl⟩

/-! ## Overgrown trees -/

/-- What is beneath a child, down to a depth. -/
def childWithin (t : Tree H) (depth : Nat) : Child NodeId → Option (Child (Subtree H))
  | .text a => some (.text a)
  | .node c => (t.subtreeWithin depth c).map .node

lemma subtreeWithin_of_node? (hn : t.node? id = some n) (depth : Nat) :
    t.subtreeWithin (depth + 1) id =
      some ⟨id, n, n.children.filterMap (t.childWithin depth)⟩ := by
  rw [subtreeWithin, hn]
  rfl

lemma exists_node?_of_isRuntimeOnly (h : t.isRuntimeOnly c = true) :
    ∃ n, t.node? c = some n ∧ n.runtimeOnly = true := by
  rw [isRuntimeOnly] at h
  rcases hn : t.node? c with - | n
  · rw [hn] at h
    cases h
  · rw [hn] at h
    exact ⟨n, rfl, h⟩

lemma isRuntimeOnly_of_node? (hn : t.node? c = some n) : t.isRuntimeOnly c = n.runtimeOnly := by
  rw [isRuntimeOnly, hn]
  rfl

/-- A node is as it was, but it may know its handler, and it may have got new children outside the
document. -/
structure Overgrows (t' : Tree H) (n n' : Node H) : Prop where
  tag : n'.tag = n.tag
  fields : n'.toFields = n.toFields
  state : n'.state = n.state
  children : ∃ added : List NodeId, n'.children = n.children ++ added.map .node ∧
    ∀ c ∈ added, t'.isRuntimeOnly c = true

lemma Overgrows.of_remembers {t' : Tree Handler} {n m n' : Node Handler} {added : List NodeId}
    (hremembers : m.Remembers n') (htag : m.tag = n.tag) (hfields : m.toFields = n.toFields)
    (hstate : m.state = n.state) (hchildren : m.children = n.children ++ added.map .node)
    (hflags : ∀ c ∈ added, t'.isRuntimeOnly c = true) : t'.Overgrows n n' where
  tag := (hremembers.congr Node.tag fun _ _ => rfl).trans htag
  fields := (hremembers.congr Node.toFields fun _ _ => rfl).trans hfields
  state := (hremembers.congr Node.state fun _ _ => rfl).trans hstate
  children := ⟨added, (hremembers.congr Node.children fun _ _ => rfl).trans hchildren, hflags⟩

/-- All nodes of a tree are in a later one as they were, but for new children outside the
document. -/
def Overgrown (t t' : Tree H) : Prop :=
  ∀ (id : NodeId) n, t.node? id = some n → ∃ n', t'.node? id = some n' ∧ t'.Overgrows n n'

namespace Overgrown

lemma refl (t : Tree H) : t.Overgrown t := fun _ n hn =>
  ⟨n, hn, rfl, rfl, rfl, [], (List.append_nil _).symm, fun _ hc => absurd hc List.not_mem_nil⟩

lemma isRuntimeOnly (h : t.Overgrown t') (hc : t.isRuntimeOnly c = true) :
    t'.isRuntimeOnly c = true := by
  obtain ⟨n, hn, hflag⟩ := exists_node?_of_isRuntimeOnly hc
  obtain ⟨n', hn', hsame⟩ := h c n hn
  rw [isRuntimeOnly_of_node? hn', hsame.fields, hflag]

lemma trans (h : t.Overgrown t') (h' : t'.Overgrown t'') : t.Overgrown t'' := by
  intro id n hn
  obtain ⟨n', hn', hsame⟩ := h id n hn
  obtain ⟨n'', hn'', hsame'⟩ := h' id n' hn'
  obtain ⟨added, hchildren, hflags⟩ := hsame.children
  obtain ⟨added', hchildren', hflags'⟩ := hsame'.children
  refine ⟨n'', hn'', hsame'.tag.trans hsame.tag, hsame'.fields.trans hsame.fields,
    hsame'.state.trans hsame.state, added ++ added', ?_, fun c hc => ?_⟩
  · rw [hchildren', hchildren, List.map_append, List.append_assoc]
  · rcases List.mem_append.mp hc with hc | hc
    · exact h'.isRuntimeOnly (hflags c hc)
    · exact hflags' c hc

end Overgrown

/-- A build that has begun has still begun. -/
lemma Overgrown.hasBegun {t t' : Tree Handler} (h : t.Overgrown t') (hlt : id < t.size)
    (hbegun : t.HasBegun id) : t'.HasBegun id := by
  intro k hk
  obtain ⟨n, hn⟩ := exists_node?_of_lt hlt
  obtain ⟨n', hn', hsame⟩ := h id n hn
  obtain rfl := Option.some.inj (hn'.symm.trans hk)
  rw [hsame.state]
  exact hbegun n hn

/-- Children outside the document make no difference. -/
lemma childrenMatch_of_outside {added : List NodeId} (h : ∀ c ∈ added, t.isRuntimeOnly c = true)
    (depth : Nat) : ChildrenMatch [] ((added.map Child.node).filterMap (t.childWithin depth)) := by
  induction added with
  | nil => exact .refl []
  | cons c added ih =>
    obtain ⟨hc, hadded⟩ := List.forall_mem_cons.mp h
    rw [List.map_cons, List.filterMap_cons, childWithin]
    rcases hsub : t.subtreeWithin depth c with - | sub
    · exact ih hadded
    · refine .cons_outside ?_ (ih hadded)
      rwa [isRuntimeOnly_of_node? (node?_of_subtreeWithin hsub)] at hc

/-- Lists of children match if what is beneath each child does. -/
lemma childrenMatch_of_within {depth : Nat}
    (hwithin : ∀ (c : NodeId) sub, t.subtreeWithin depth c = some sub →
      ∃ sub', t'.subtreeWithin depth c = some sub' ∧ sub.Matches sub')
    {children : List (Child NodeId)}
    (hbelow : ∀ child ∈ children, ∀ c, child = .node c → c < t.size) :
    ChildrenMatch (children.filterMap (t.childWithin depth))
      (children.filterMap (t'.childWithin depth)) := by
  induction children with
  | nil => exact .refl []
  | cons child children ih =>
    have hrest := ih fun child hchild => hbelow child (List.mem_cons_of_mem _ hchild)
    cases child with
    | text a => exact .cons_text a hrest
    | node c =>
      have hlt : c < t.size := hbelow _ List.mem_cons_self c rfl
      rw [List.filterMap_cons, List.filterMap_cons, childWithin, childWithin]
      cases depth with
      | zero => exact hrest
      | succ depth =>
        obtain ⟨n, hn⟩ := exists_node?_of_lt hlt
        obtain ⟨sub', hsub', hmatches⟩ := hwithin c _ (subtreeWithin_of_node? hn depth)
        rw [subtreeWithin_of_node? hn, hsub']
        exact .cons hmatches hrest

/-- What is beneath a node of a tree matches what is beneath it in an overgrown one. -/
lemma Overgrown.subtreeWithin (h : t.Overgrown t') (harena : t.IsArena) {depth : Nat}
    {sub : Subtree H} (hsub : t.subtreeWithin depth id = some sub) :
    ∃ sub', t'.subtreeWithin depth id = some sub' ∧ sub.Matches sub' := by
  induction depth generalizing id sub with
  | zero => cases hsub
  | succ depth ih =>
    obtain ⟨n, hn, -⟩ := Option.map_eq_some_iff.mp hsub
    obtain ⟨n', hn', hsame⟩ := h id n hn
    obtain ⟨added, hchildren, hflags⟩ := hsame.children
    rw [subtreeWithin_of_node? hn] at hsub
    obtain rfl := Option.some.inj hsub
    have hbelow : ∀ child ∈ n.children, ∀ c, child = .node c → c < t.size := by
      rintro child hchild c rfl
      have hmem : c ∈ t.childNodes id := by
        rw [childNodes, hn]
        exact List.mem_filterMap.mpr ⟨_, hchild, rfl⟩
      exact (harena.lt_of_parent? (harena.mem_childNodes_iff.mp hmem)).2
    refine ⟨_, subtreeWithin_of_node? hn' depth, .of_children hsame.tag hsame.fields ?_ id id⟩
    rw [hchildren, List.filterMap_append, ← List.append_nil (n.children.filterMap _)]
    exact .append (childrenMatch_of_within (fun c sub => ih) hbelow)
      (childrenMatch_of_outside hflags depth)

lemma Overgrown.size_le (h : t.Overgrown t') : t.size ≤ t'.size := by
  by_contra hlt
  obtain ⟨n, hn⟩ := exists_node?_of_lt (Nat.lt_of_not_le hlt)
  obtain ⟨n', hn', -⟩ := h _ n hn
  exact (lt_size_of_node? hn').false

/-- A node of a tree matches the one in an overgrown tree. -/
lemma Overgrown.subtree? (h : t.Overgrown t') (harena : t.IsArena) (hlt : id < t.size) :
    ∃ sub sub', t.subtree? id = some sub ∧ t'.subtree? id = some sub' ∧ sub.Matches sub' := by
  obtain ⟨sub, hsub⟩ := exists_subtree?_of_lt hlt
  have hdepth : t.subtree? id = t.subtreeWithin t'.size id :=
    harena.subtreeWithin_eq (Nat.le_add_left _ _) (h.size_le.trans (Nat.le_add_left _ _))
  obtain ⟨sub', hsub', hmatches⟩ := h.subtreeWithin harena (hdepth.symm.trans hsub)
  exact ⟨sub, sub', hsub, hsub', hmatches⟩

/-- An overgrown tree has the same exports. -/
lemma Overgrown.sameExports (h : t.Overgrown t') (harena : t.IsArena) (st : Settings)
    (hlt : id < t.size) : t.SameExports st t' id := by
  obtain ⟨sub, sub', hsub, hsub', hmatches⟩ := h.subtree? harena hlt
  exact sameExports_of_matches st hsub hsub' hmatches

end Tree

/-! ## What has grown of the same element -/

/-- What a new child is, wherever it stands. -/
def Child.content {H : Type} : Child (Node H) → Child (Text × Fields)
  | .text a => .text a
  | .node n => .node (n.tag, n.toFields)

/-- There is only one handler that can come up. -/
def Setup.IsUniform (s : Setup) : Prop := ∀ h h', s.Offers h → s.Offers h' → h' = h

namespace Setup

variable (s : Setup) (h : Handler)

/-- What comes of a body does not depend on the number of its node. -/
lemma content_expanded (id id' : NodeId) (tag : Text) (f : Fields) :
    (s.expanded h id' tag f).1.map Child.content = (s.expanded h id tag f).1.map Child.content ∧
      (s.expanded h id' tag f).2 = (s.expanded h id tag f).2 := by
  have hitem : ∀ item : BodyItem, (item.seed s.settings.layout id' f.runtimeOnly).content =
      (item.seed s.settings.layout id f.runtimeOnly).content := fun item => by cases item <;> rfl
  have hspec : ∀ item : Child Spec, (Spec.seed id' f.runtimeOnly item).content =
      (Spec.seed id f.runtimeOnly item).content := fun item => by cases item <;> rfl
  unfold expanded
  split
  · exact ⟨rfl, rfl⟩
  · split
    · refine ⟨?_, rfl⟩
      rw [List.map_map, List.map_map]
      exact List.map_congr_left fun item _ => hspec item
    · split
      · refine ⟨?_, rfl⟩
        rw [List.map_map, List.map_map]
        exact List.map_congr_left fun item _ => hitem item
      · exact ⟨rfl, rfl⟩

lemma runtimeOnly_opened (id : NodeId) (n : Node Handler) :
    (s.opened h id n).2.runtimeOnly = n.runtimeOnly :=
  s.lasting_opened h (P := (·.runtimeOnly = n.runtimeOnly))
    ⟨fun _ h => h, fun _ h => h, fun h => h⟩ id n rfl

end Setup

namespace Subtree

variable {s : Setup}

lemma IsGrown.runtimeOnly {sub : Subtree Handler} {n : Node Handler} (h : sub.IsGrown s n) :
    sub.node.runtimeOnly = n.runtimeOnly := by
  obtain ⟨id, m, children⟩ := sub
  obtain ⟨handler, -, -, hfields, -⟩ := h
  exact (congrArg Fields.runtimeOnly hfields).trans (s.runtimeOnly_opened handler id n)

/-- What comes of a node depends only on its tag and its fields. -/
lemma IsGrown.of_same {sub : Subtree Handler} {n k : Node Handler} (h : sub.IsGrown s k)
    (htag : k.tag = n.tag) (hfields : k.toFields = n.toFields) : sub.IsGrown s n := by
  obtain ⟨id, m, children⟩ := sub
  obtain ⟨handler, hoffers, hm, hgrown⟩ := h
  rw [Setup.opened, htag, hfields] at hgrown
  exact ⟨handler, hoffers, hm.trans htag, hgrown⟩

/-! What has grown of known children. -/

section

variable {children : List (Child (Subtree Handler))} {seeds : List (Child (Node Handler))}

lemma AreGrown.eq_nil (h : AreGrown s children []) : children = [] := by
  cases children with
  | nil => rfl
  | cons child children => exact False.elim h

lemma AreGrown.exists_text {a : Text} (h : AreGrown s children (.text a :: seeds)) :
    ∃ rest, children = .text a :: rest ∧ AreGrown s rest seeds := by
  rcases children with - | ⟨b | sub, rest⟩
  · exact False.elim h
  · obtain ⟨rfl, hrest⟩ := h
    exact ⟨rest, rfl, hrest⟩
  · exact False.elim h.1

lemma AreGrown.exists_node {n : Node Handler} (h : AreGrown s children (.node n :: seeds)) :
    ∃ sub rest, children = .node sub :: rest ∧ sub.IsGrown s n ∧ AreGrown s rest seeds := by
  rcases children with - | ⟨b | sub, rest⟩
  · exact False.elim h
  · exact False.elim h.1
  · exact ⟨sub, rest, rfl, h⟩

lemma AreGrown.exists_of_mem (h : AreGrown s children seeds) {sub : Subtree Handler}
    (hmem : .node sub ∈ children) : ∃ n ∈ Tree.newNodes seeds, sub.IsGrown s n := by
  induction seeds generalizing children with
  | nil =>
    obtain rfl := h.eq_nil
    exact absurd hmem List.not_mem_nil
  | cons seed seeds ih =>
    cases seed with
    | text a =>
      obtain ⟨rest, rfl, hrest⟩ := h.exists_text
      exact ih hrest ((List.mem_cons.mp hmem).resolve_left fun h => by cases h)
    | node n =>
      obtain ⟨first, rest, rfl, hfirst, hrest⟩ := h.exists_node
      rcases List.mem_cons.mp hmem with heq | hmem
      · obtain rfl := Child.node.inj heq
        exact ⟨n, List.mem_cons_self, hfirst⟩
      · obtain ⟨n, hn, hgrown⟩ := ih hrest hmem
        exact ⟨n, List.mem_cons_of_mem _ hn, hgrown⟩

end

mutual

/-- Two subtrees match if they have grown of the same element and there is only one handler. -/
theorem IsGrown.matches (honly : s.IsUniform) : ∀ {sub sub' : Subtree Handler}
    {n n' : Node Handler}, sub.IsGrown s n → sub'.IsGrown s n' → n'.tag = n.tag →
      n'.toFields = n.toFields → sub.Matches sub'
  | ⟨id, m, children⟩, ⟨id', m', children'⟩, n, n', ⟨h, hoffers, htag, hfields, hgrown⟩,
      ⟨h', hoffers', htag', hfields', hgrown'⟩, htags, hcontents => by
    obtain rfl := honly h h' hoffers hoffers'
    obtain ⟨hchildren, hnode⟩ :=
      s.content_expanded h' id id' n.tag (s.decoded h' n.toFields)
    rw [Setup.opened, htags, hcontents] at hfields' hgrown'
    refine .of_children ?_ ?_ (AreGrown.childrenMatch honly hgrown hgrown' hchildren) id id'
    · rw [htag', htag, htags]
    · rw [hfields', hfields, hnode, Setup.opened]

lemma AreGrown.childrenMatch (honly : s.IsUniform) :
    ∀ {children children' : List (Child (Subtree Handler))}
      {seeds seeds' : List (Child (Node Handler))}, AreGrown s children seeds →
        AreGrown s children' seeds' → seeds'.map Child.content = seeds.map Child.content →
          ChildrenMatch children children'
  | [], _, seeds, _, hgrown, hgrown', hcontent => by
    cases seeds with
    | cons seed seeds => exact False.elim hgrown
    | nil =>
      obtain rfl := List.map_eq_nil_iff.mp hcontent
      obtain rfl := hgrown'.eq_nil
      exact .refl []
  | .text a :: _, _, seeds, _, hgrown, hgrown', hcontent => by
    rcases seeds with - | ⟨b | n, seeds⟩
    · exact False.elim hgrown
    · obtain ⟨rfl, hgrown⟩ := hgrown
      obtain ⟨seed, seeds', rfl, hseed, hseeds⟩ := List.map_eq_cons_iff.mp hcontent
      cases seed with
      | node n => cases hseed
      | text b =>
        obtain rfl := Child.text.inj hseed
        obtain ⟨rest, rfl, hrest⟩ := hgrown'.exists_text
        exact .cons_text _ (AreGrown.childrenMatch honly hgrown hrest hseeds)
    · exact False.elim hgrown.1
  | .node sub :: _, _, seeds, _, hgrown, hgrown', hcontent => by
    rcases seeds with - | ⟨b | n, seeds⟩
    · exact False.elim hgrown
    · exact False.elim hgrown.1
    · obtain ⟨hfirst, hgrown⟩ := hgrown
      obtain ⟨seed, seeds', rfl, hseed, hseeds⟩ := List.map_eq_cons_iff.mp hcontent
      cases seed with
      | text b => cases hseed
      | node n' =>
        obtain ⟨htag, hfields⟩ := Prod.mk.inj (Child.node.inj hseed)
        obtain ⟨sub', rest, rfl, hfirst', hrest⟩ := hgrown'.exists_node
        exact .cons (IsGrown.matches honly hfirst hfirst' htag hfields)
          (AreGrown.childrenMatch honly hgrown hrest hseeds)

end

end Subtree

end TaggedOutline
