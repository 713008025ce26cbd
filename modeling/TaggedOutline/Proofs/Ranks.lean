import TaggedOutline.Proofs.Opened
import TaggedOutline.Proofs.Outline

/-!
# Bodies that shrink

A grammar of its own can give a body that is as long as the one it was given, and then a build never
comes to an end.  It does if the bodies that come of a body have fewer rows (`Setup.Shrinks`): new
nodes have a smaller rank than the node they come under (`Node.rank`).
-/

namespace TaggedOutline

/-! ## Ranks -/

namespace Spec

mutual

/-- The rank of a description: the rows of its body, and the ranks of its children. -/
def rank (width : Nat) : Spec → Nat
  | ⟨_, _, _, _, _, _, _, _, _, _, _, _, body, children⟩ =>
    (Text.rows width (body.getD [])).length + childrenRank width children

/-- The rank of described children. -/
def childrenRank (width : Nat) : List (Child Spec) → Nat
  | [] => 0
  | child :: children => childRank width child + childrenRank width children

/-- The rank of a described child. -/
def childRank (width : Nat) : Child Spec → Nat
  | .text _ => 0
  | .node s => s.rank width + 1

end

lemma rank_lt_childrenRank {width : Nat} {s : Spec} {children : List (Child Spec)}
    (h : .node s ∈ children) : s.rank width < childrenRank width children := by
  induction children with
  | nil => exact absurd h List.not_mem_nil
  | cons child children ih =>
    rw [childrenRank]
    rcases List.mem_cons.mp h with rfl | h
    · exact Nat.lt_add_right _ (Nat.lt_succ_self _)
    · exact (ih h).trans_le (Nat.le_add_left _ _)

end Spec

/-- The rank of a body: the rows of a text, or the ranks of described children. -/
def RawBody.rank (width : Nat) : RawBody → Nat
  | .text t => (Text.rows width t).length
  | .children items => Spec.childrenRank width items

/-- How deep the build of a node can go, as far as its body tells. -/
def Node.rank {H : Type} (width : Nat) (n : Node H) : Nat := n.body.rank width

lemma Node.rank_ofSpec_le {H : Type} (width : Nat) (parent : NodeId) (runtimeOnly : Bool)
    (s : Spec) : (ofSpec parent runtimeOnly s : Node H).rank width ≤ s.rank width := by
  obtain ⟨_, _, _, _, _, _, _, _, _, _, _, _, body, children⟩ := s
  cases children with
  | nil => exact Nat.le_add_right _ _
  | cons child children => exact Nat.le_add_left _ _

/-! ## Bodies that shrink -/

/-- The bodies that come of a body have fewer rows. -/
def BodyGrammar.Shrinks (g : BodyGrammar) (width : Nat) : Prop :=
  ∀ source items, g.parse source = some items → ∀ header body bracket,
    .tag header body bracket ∈ items →
      (Text.rows width body).length < (Text.rows width source).length

/-- All grammars that bodies can be read with give bodies with fewer rows. -/
structure Setup.Shrinks (s : Setup) : Prop where
  bodies : ∀ name g, s.registry.body? name = some g → g.Shrinks s.settings.layout.tabWidth
  handlers : ∀ h g, s.Offers h → h.body = .grammar g →
    g.Shrinks s.settings.layout.tabWidth

namespace Setup

open TaggedOutline.Tree

variable {s : Setup} {h : Handler}

lemma body_decoded (s : Setup) (h : Handler) (f : Fields) : (s.decoded h f).body = f.body :=
  s.lasting_decoded h (P := (·.body = f.body)) ⟨fun _ h => h, fun _ h => h, fun h => h⟩ rfl

lemma body_opened (s : Setup) (h : Handler) (id : NodeId) (n : Node Handler) :
    (s.opened h id n).2.body = n.body :=
  s.lasting_opened h (P := (·.body = n.body)) ⟨fun _ h => h, fun _ h => h, fun h => h⟩ id n rfl

/-- The items that a body is read into have bodies with fewer rows. -/
lemma Shrinks.items (hshrinks : s.Shrinks) (hoffers : s.Offers h) {tag source : Text}
    {f f' : Fields} {items : List BodyItem} (heq : s.items h tag source f = (some items, f')) :
    ∀ header body bracket, .tag header body bracket ∈ items →
      (Text.rows s.settings.layout.tabWidth body).length <
        (Text.rows s.settings.layout.tabWidth source).length := by
  intro header body bracket hmem
  have hgrammar : ∀ g f₁, s.policy h f = (.grammar g, f₁) →
      g.Shrinks s.settings.layout.tabWidth := by
    intro g f₁ hpolicy
    unfold policy at hpolicy
    split at hpolicy
    · exact hshrinks.handlers h g hoffers (Prod.mk.inj hpolicy).1
    · split at hpolicy
      · next name g' hbody =>
        obtain rfl : g' = g := BodyPolicy.grammar.inj (Prod.mk.inj hpolicy).1
        exact hshrinks.bodies _ g' hbody
      · exact hshrinks.handlers h g hoffers (Prod.mk.inj hpolicy).1
  unfold Setup.items at heq
  rcases hread : s.policy h f with ⟨_ | _ | g, f₁⟩
  · rw [hread] at heq
    dsimp only at heq
    split at heq
    · cases (Prod.mk.inj heq).1
    · obtain rfl := Option.some.inj (Prod.mk.inj heq).1
      exact Body.length_lt_of_mem_parse hmem
  · rw [hread] at heq
    cases (Prod.mk.inj heq).1
  · rw [hread] at heq
    dsimp only at heq
    split at heq
    · next items' hparse =>
      obtain rfl := Option.some.inj (Prod.mk.inj heq).1
      exact hgrammar g f₁ hread source items' hparse header body bracket hmem
    · cases (Prod.mk.inj heq).1

/-- New nodes have a smaller rank than the node they come under. -/
lemma Shrinks.rank_lt (hshrinks : s.Shrinks) (hoffers : s.Offers h) (id : NodeId)
    (n : Node Handler) : ∀ m ∈ newNodes (s.opened h id n).1,
      m.rank s.settings.layout.tabWidth < n.rank s.settings.layout.tabWidth := by
  intro m hm
  replace hm := mem_newNodes hm
  have hbody := s.body_decoded h n.toFields
  rw [opened, expanded] at hm
  split at hm
  · exact absurd hm List.not_mem_nil
  · split at hm
    · next items hitems =>
      obtain ⟨item, hitem, heq⟩ := List.mem_map.mp hm
      have hrank : n.rank s.settings.layout.tabWidth =
          Spec.childrenRank s.settings.layout.tabWidth items := by
        rw [Node.rank, ← hbody, hitems, RawBody.rank]
      cases item with
      | text a => cases heq
      | node spec =>
        obtain rfl := Child.node.inj heq
        rw [hrank]
        exact (Node.rank_ofSpec_le _ _ _ spec).trans_lt (Spec.rank_lt_childrenRank hitem)
    · next source hsource =>
      have hrank : n.rank s.settings.layout.tabWidth =
          (Text.rows s.settings.layout.tabWidth source).length := by
        rw [Node.rank, ← hbody, hsource, RawBody.rank]
      rcases hread : s.items h n.tag source (s.decoded h n.toFields) with ⟨_ | items, f'⟩
      · rw [hread] at hm
        exact absurd hm List.not_mem_nil
      · rw [hread] at hm
        obtain ⟨item, hitem, heq⟩ := List.mem_map.mp hm
        cases item with
        | text a => cases heq
        | tag header body bracket =>
          obtain rfl := Child.node.inj heq
          rw [hrank]
          exact hshrinks.items hoffers hread header body bracket hitem

end Setup

end TaggedOutline
