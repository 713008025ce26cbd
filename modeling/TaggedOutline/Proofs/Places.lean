import TaggedOutline.Proofs.Arena

/-!
# The places of nodes during a build

Most steps of a build leave every node where it is: they change fields, states, payloads and
handlers.  New nodes come from items of a body and from descriptions, and each of them is outside
the document if its parent is.
-/

namespace TaggedOutline

namespace Tree

variable {H : Type} {t : Tree H} {id : NodeId}

/-! ## Changes that move nothing -/

lemma node?_eq_none (h : t.size ≤ id) : t.node? id = none := Array.getElem?_eq_none_iff.mpr h

/-- A change of a node that leaves a part of it alone leaves that part of all nodes alone. -/
lemma map_node?_update {α : Type} {part : Node H → α} {f : Node H → Node H}
    (h : ∀ n, part (f n) = part n) (t : Tree H) (id j : NodeId) :
    ((t.update id f).node? j).map part = (t.node? j).map part := by
  by_cases hj : j = id
  · subst hj
    simp only [node?, update, Array.getElem?_modify, if_true, Option.map_map]
    exact congrArg (Option.map · t.nodes[j]?) (funext h)
  · rw [node?_update_of_ne hj]

lemma place?_update_of_keeps {f : Node H → Node H}
    (h : ∀ n, t.node? id = some n → (f n).place = n.place) (j : NodeId) :
    (t.update id f).place? j = t.place? j := by
  rw [place?_update]
  split
  · next hj =>
    subst hj
    rw [place?]
    rcases hn : t.node? j with - | n
    · rfl
    · exact congrArg some (h n hn)
  · rfl

lemma place?_edit {change : Fields → Fields}
    (h : ∀ n, t.node? id = some n → (change n.toFields).runtimeOnly = n.runtimeOnly) (j : NodeId) :
    (t.edit id change).place? j = t.place? j :=
  place?_update_of_keeps (fun n hn => by rw [Node.place, Node.place, ← h n hn]; rfl) j

@[simp] lemma place?_annotate (t : Tree H) (id : NodeId) (d : Diagnostic) (j : NodeId) :
    (t.annotate id d).place? j = t.place? j := place?_edit (fun _ _ => rfl) j

@[simp] lemma place?_record (t : Tree H) (id : NodeId) (e : BuildError) (j : NodeId) :
    (t.record id e).place? j = t.place? j := place?_annotate t id e.diagnostic j

@[simp] lemma place?_advance (t : Tree H) (id : NodeId) (state : BuildState) (j : NodeId) :
    (t.advance id state).place? j = t.place? j := place?_update_of_keeps (fun _ _ => by rfl) j

@[simp] lemma place?_override (t : Tree H) (id : NodeId) (tag : Text) (handler : H)
    (j : NodeId) : (t.override id tag handler).place? j = t.place? j :=
  place?_update_of_keeps (fun _ _ => by rfl) j

@[simp] lemma place?_setAction (t : Tree H) (id : NodeId) (action : Action) (j : NodeId) :
    (t.setAction id action).place? j = t.place? j := place?_update_of_keeps (fun _ _ => by rfl) j

@[simp] lemma place?_log (t : Tree H) (e : JournalEntry) (j : NodeId) :
    (t.log e).place? j = t.place? j := rfl

@[simp] lemma place?_adopt_text (t : Tree H) (id : NodeId) (s : Text) (j : NodeId) :
    (t.adopt id (.text s)).place? j = t.place? j :=
  place?_update_of_keeps (fun n _ => by simp [Node.place, Node.childNodes]) j

/-! ## New children -/

section

variable {t : Tree Handler} {parent : NodeId} {runtimeOnly : Bool} (hparent : parent < t.size)
  (hflag : t.isRuntimeOnly parent = true → runtimeOnly = true)

include hparent hflag

lemma extends_addSeeds {seeds : List (Child (Node Handler))}
    (hseeds : ∀ n ∈ newNodes seeds, n.IsSeed parent runtimeOnly) :
    t.Extends (t.addSeeds parent seeds) := by
  induction seeds generalizing t with
  | nil => exact .refl t
  | cons seed seeds ih =>
    cases seed with
    | text s =>
      have h : t.Extends (t.adopt parent (.text s)) := .of_place?_eq (place?_adopt_text t parent s)
      exact h.trans (ih (h.lt_size hparent) (h.isRuntimeOnly_eq hparent ▸ hflag) hseeds)
    | node n =>
      obtain ⟨hn, hseeds⟩ := List.forall_mem_cons.mp hseeds
      have hnone : n.childNodes = [] := by rw [Node.childNodes, hn.children]; rfl
      have h : t.Extends (t.add n) :=
        .add (hn.parent ▸ hparent) hnone (by rwa [hn.parent, hn.runtimeOnly])
      exact h.trans (ih (h.lt_size hparent) (h.isRuntimeOnly_eq hparent ▸ hflag) hseeds)

lemma extends_addItems (settings : LayoutSettings) (items : List BodyItem) :
    t.Extends (t.addItems settings parent runtimeOnly items) := by
  rw [addItems_eq]
  exact extends_addSeeds hparent hflag fun n hn => BodyItem.isSeed_of_mem (mem_newNodes hn)

lemma extends_addSpecs (items : List (Child Spec)) :
    t.Extends (t.addSpecs parent runtimeOnly items) := by
  rw [addSpecs_eq]
  exact extends_addSeeds hparent hflag fun n hn => Spec.isSeed_of_mem (mem_newNodes hn)

end

end Tree

namespace Registry

open TaggedOutline.Tree

variable (r : Registry)

lemma place?_inherit {resolve : Tree Handler → NodeId → Handler × Tree Handler}
    (hresolve : ∀ t id j, (resolve t id).2.place? j = t.place? j) (tag : Text)
    (above : List NodeId) (t : Tree Handler) (j : NodeId) :
    (r.inherit resolve tag above t).2.place? j = t.place? j := by
  induction above generalizing t with
  | nil => rfl
  | cons id above ih =>
    rw [inherit]
    split
    · rfl
    · split
      · rfl
      · dsimp only
        split
        · exact hresolve t id j
        · split
          · exact hresolve t id j
          · exact (ih _).trans (hresolve t id j)

lemma place?_resolveWithin (height : Nat) (t : Tree Handler) (id j : NodeId) :
    (r.resolveWithin height t id).2.place? j = t.place? j := by
  induction height generalizing t id j with
  | zero => rfl
  | succ height ih =>
    rw [resolveWithin]
    split
    · rfl
    · split
      · rfl
      · refine (place?_update_of_keeps (fun _ _ => by rfl) j).trans ?_
        exact r.place?_inherit ih _ _ t j

/-- To look for a handler moves nothing. -/
@[simp] lemma place?_resolve (t : Tree Handler) (id j : NodeId) :
    (r.resolve t id).2.place? j = t.place? j := r.place?_resolveWithin (id + 1) t id j

end Registry

namespace Setup

open TaggedOutline.Tree

variable (s : Setup)

lemma place?_decodeHeader (t : Tree Handler) (id j : NodeId) :
    (s.decodeHeader t id).place? j = t.place? j := by
  rw [decodeHeader]
  split
  · exact place?_advance t id _ j
  · next header =>
    dsimp only
    rw [place?_advance, ← s.registry.place?_resolve t id j]
    split
    · exact place?_edit (fun _ _ => rfl) j
    · exact place?_annotate _ id _ j

lemma place?_bodyPolicy (t : Tree Handler) (id j : NodeId) :
    (s.bodyPolicy t id).2.place? j = t.place? j := by
  rw [bodyPolicy, ← s.registry.place?_resolve t id j]
  dsimp only
  split
  · rfl
  · split
    · rfl
    · exact place?_annotate _ id _ j

lemma place?_bodyItems (t : Tree Handler) (id : NodeId) (tag body : Text) (j : NodeId) :
    (s.bodyItems t id tag body).2.place? j = t.place? j := by
  rw [bodyItems, ← s.place?_bodyPolicy t id j]
  split
  · next h => rw [h]
  · next h =>
    rw [h]
    split
    · rfl
    · exact place?_annotate _ id _ j
  · next h =>
    rw [h]
    split <;> rfl

lemma extends_expandBody (t : Tree Handler) (id : NodeId) : t.Extends (s.expandBody t id) := by
  rw [expandBody]
  split
  · exact .refl t
  · next n hn =>
    have hlt := lt_size_of_node? hn
    have hflag : t.isRuntimeOnly id = true → n.runtimeOnly = true := fun h =>
      (isRuntimeOnly_eq_of_place? (place?_of_node? hn)).symm.trans h
    have hexpanded : ∀ t : Tree Handler,
        t.Extends (t.edit id fun f => { f with expanded := true }) := fun t =>
      .of_place?_eq (place?_edit fun _ _ => rfl)
    have hadvance : ∀ t : Tree Handler, t.Extends (t.advance id .bodyParsed) := fun t =>
      .of_place?_eq (place?_advance t id _)
    dsimp only
    refine Extends.trans ?_ (hadvance _)
    split
    · exact .refl t
    · split
      · next items _ => exact (extends_addSpecs hlt hflag items).trans (hexpanded _)
      · next body _ =>
        have hitems : t.Extends (s.bodyItems t id n.tag body).2 :=
          .of_place?_eq (s.place?_bodyItems t id n.tag body)
        split
        · next items t' h =>
          rw [h] at hitems
          refine hitems.trans (Extends.trans ?_ (hexpanded _))
          exact extends_addItems (hitems.lt_size hlt) (hitems.isRuntimeOnly_eq hlt ▸ hflag) _ items
        · next t' h =>
          rw [h] at hitems
          exact hitems

end Setup

end TaggedOutline
