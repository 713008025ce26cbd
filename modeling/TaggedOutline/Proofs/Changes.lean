import TaggedOutline.Proofs.Opened
import TaggedOutline.Proofs.Progress

/-!
# What work on a tree is made of

Whatever is done with a tree, by a build, by a hook or from outside, it is made of changes of few
kinds (`Setup.changes_of_reaches`).  Nodes change in place or are given an override, handlers are
looked for, and new nodes come under nodes of the tree.  So what these changes keep is kept at every
moment.

That needs less than a careful program.  It may move nodes into the document and out of it, as long
as it names only nodes that the tree has, and someone may look for a handler at any moment
(`Setup.ReachesFreely`).
-/

namespace TaggedOutline

/-! ## Programs at large -/

/-- Whether a program goes on with nodes that the tree has. -/
def Hook.isWithin {α : Type} (t : Tree Handler) : Hook α → Bool
  | .done _ | .look _ | .note _ _ => true
  | .edit id _ _ | .build id _ | .insertText id _ _ | .insertSpec id _ _ | .override id _ _ _
  | .setAction id _ _ => decide (id < t.size)

/-- Whether a piece of work goes on with nodes that the tree has. -/
def Work.isWithin (t : Tree Handler) : Work → Bool
  | .program _ hook => hook.isWithin t
  | _ => true

lemma Hook.isWithin_of_isCareful {α : Type} {t : Tree Handler} {hook : Hook α}
    (h : hook.isCareful t = true) : hook.isWithin t = true := by
  cases hook with
  | edit id change next =>
    obtain ⟨n, hn, -⟩ := (Option.any_eq_true _ _).mp h
    exact decide_eq_true (Tree.lt_size_of_node? hn)
  | done | look | note => rfl
  | build | insertText | insertSpec | override | setAction => exact h

lemma Work.isWithin_of_isCareful {t : Tree Handler} {w : Work} (h : w.isCareful t = true) :
    w.isWithin t = true := by
  cases w with
  | program purpose hook => exact Hook.isWithin_of_isCareful h
  | build | children | register | finish => rfl

namespace Setup

variable (s : Setup)

/-- What may come next at a moment: the next piece of work is done, or someone looks for the handler
of a node. -/
inductive StepsFreely : Moment → Moment → Prop
  | perform {w : Work} {t : Tree Handler} (rest : List Work) (h : w.isWithin t = true) :
      StepsFreely ⟨w :: rest, t⟩ ⟨(s.perform w t).1 ++ rest, (s.perform w t).2⟩
  | resolve (work : List Work) (t : Tree Handler) (id : NodeId) :
      StepsFreely ⟨work, t⟩ ⟨work, (s.registry.resolve t id).2⟩

/-- From one moment to a later one, by programs that need not be careful. -/
abbrev ReachesFreely : Moment → Moment → Prop := Relation.ReflTransGen s.StepsFreely

variable {s} {m m' : Moment}

lemma stepsFreely_of_next? (h : s.next? m = some m') : s.StepsFreely m m' := by
  obtain ⟨w, rest, hwork, hcareful, rfl⟩ := exists_of_next? h
  obtain ⟨work, t⟩ := m
  obtain rfl := hwork
  exact .perform rest (Work.isWithin_of_isCareful hcareful)

lemma reachesFreely_of_reaches (h : s.Reaches m m') : s.ReachesFreely m m' :=
  Relation.ReflTransGen.mono (fun _ _ => stepsFreely_of_next?) _ _ h

end Setup

/-! ## Changes -/

namespace Tree

/-- The changes that work on a tree is made of. -/
inductive Change (r : Registry) : Tree Handler → Tree Handler → Prop
  | log (t : Tree Handler) (e : JournalEntry) : Change r t (t.log e)
  | update (t : Tree Handler) (id : NodeId) {f : Node Handler → Node Handler}
      (hparent : ∀ n, (f n).parent = n.parent) (hoverrides : ∀ n, (f n).overrides = n.overrides)
      (hhandler : ∀ n, (f n).handler = n.handler)
      (hchildren : ∀ n, (f n).childNodes = n.childNodes) : Change r t (t.update id f)
  | override (t : Tree Handler) (id : NodeId) (tag : Text) (h : Handler) :
      Change r t (t.override id tag h)
  | resolve (t : Tree Handler) (id : NodeId) : Change r t (r.resolve t id).2
  | add (t : Tree Handler) {n : Node Handler} {parent : NodeId} {runtimeOnly : Bool}
      (hlt : parent < t.size) (hn : n.IsSeed parent runtimeOnly) : Change r t (t.add n)

/-- One change after the other. -/
abbrev Changes (r : Registry) : Tree Handler → Tree Handler → Prop :=
  Relation.ReflTransGen (Change r)

namespace Changes

variable {r : Registry} {t t' : Tree Handler}

lemma edit (h : Changes r t t') (id : NodeId) (change : Fields → Fields) :
    Changes r t (t'.edit id change) :=
  h.tail (.update t' id (fun _ => rfl) (fun _ => rfl) (fun _ => rfl) fun _ => rfl)

lemma annotate (h : Changes r t t') (id : NodeId) (d : Diagnostic) :
    Changes r t (t'.annotate id d) := h.edit id _

lemma advance (h : Changes r t t') (id : NodeId) (state : BuildState) :
    Changes r t (t'.advance id state) :=
  h.tail (.update t' id (fun _ => rfl) (fun _ => rfl) (fun _ => rfl) fun _ => rfl)

lemma addSeeds (h : Changes r t t') {parent : NodeId} (hlt : parent < t'.size)
    {seeds : List (Child (Node Handler))}
    (hseeds : ∀ m, .node m ∈ seeds → ∃ runtimeOnly, m.IsSeed parent runtimeOnly) :
    Changes r t (t'.addSeeds parent seeds) := by
  induction seeds generalizing t' with
  | nil => exact h
  | cons seed seeds ih =>
    have hmore : ∀ m, .node m ∈ seeds → ∃ runtimeOnly, m.IsSeed parent runtimeOnly := fun m hm =>
      hseeds m (List.mem_cons_of_mem _ hm)
    cases seed with
    | text s =>
      have hadopt : Changes r t (t'.adopt parent (.text s)) :=
        h.tail (.update t' parent (fun _ => rfl) (fun _ => rfl) (fun _ => rfl) fun n => by
          simp [Node.childNodes])
      exact ih hadopt ((size_update t' parent _).symm ▸ hlt) hmore
    | node m =>
      obtain ⟨_, hm⟩ := hseeds m List.mem_cons_self
      exact ih (h.tail (.add t' hlt hm)) ((size_add t' m).symm ▸ Nat.lt_succ_of_lt hlt) hmore

lemma addItems (h : Changes r t t') {parent : NodeId} (hlt : parent < t'.size)
    (settings : LayoutSettings) (runtimeOnly : Bool) (items : List BodyItem) :
    Changes r t (t'.addItems settings parent runtimeOnly items) := by
  rw [addItems_eq]
  exact h.addSeeds hlt fun m hm => ⟨_, BodyItem.isSeed_of_mem hm⟩

lemma addSpecs (h : Changes r t t') {parent : NodeId} (hlt : parent < t'.size)
    (runtimeOnly : Bool) (items : List (Child Spec)) :
    Changes r t (t'.addSpecs parent runtimeOnly items) := by
  rw [addSpecs_eq]
  exact h.addSeeds hlt fun m hm => ⟨_, Spec.isSeed_of_mem hm⟩

end Changes

end Tree

namespace Setup

open TaggedOutline.Tree

variable (s : Setup) {t t' : Tree Handler} {m m' : Moment}

lemma changes_decodeHeader (t : Tree Handler) (id : NodeId) :
    Changes s.registry t (s.decodeHeader t id) := by
  rw [decodeHeader]
  split
  · exact Changes.advance .refl id _
  · have hresolve : Changes s.registry t (s.registry.resolve t id).2 := .single (.resolve t id)
    dsimp only
    split
    · exact (hresolve.edit id _).advance id _
    · exact (hresolve.annotate id _).advance id _

lemma changes_bodyPolicy (t : Tree Handler) (id : NodeId) :
    Changes s.registry t (s.bodyPolicy t id).2 := by
  have hresolve : Changes s.registry t (s.registry.resolve t id).2 := .single (.resolve t id)
  rw [bodyPolicy]
  dsimp only
  split
  · exact hresolve
  · split
    · exact hresolve
    · exact hresolve.annotate id _

lemma changes_bodyItems (t : Tree Handler) (id : NodeId) (tag body : Text) :
    Changes s.registry t (s.bodyItems t id tag body).2 := by
  have hpolicy := s.changes_bodyPolicy t id
  rw [bodyItems]
  split
  · next heq =>
    rw [heq] at hpolicy
    exact hpolicy
  · next heq =>
    rw [heq] at hpolicy
    split
    · exact hpolicy
    · exact hpolicy.annotate id _
  · next heq =>
    rw [heq] at hpolicy
    split <;> exact hpolicy

lemma changes_expandBody (t : Tree Handler) (id : NodeId) :
    Changes s.registry t (s.expandBody t id) := by
  rw [expandBody]
  split
  · exact .refl
  · next n hn =>
    have hlt := lt_size_of_node? hn
    dsimp only
    refine Changes.advance ?_ id _
    split
    · exact .refl
    · split
      · next items _ => exact (Changes.addSpecs .refl hlt _ items).edit id _
      · next body _ =>
        have hitems := s.changes_bodyItems t id n.tag body
        have hsize := size_congr (s.place?_bodyItems t id n.tag body)
        split
        · next items t₁ heq =>
          rw [heq] at hitems hsize
          exact (hitems.addItems (hsize.symm ▸ hlt) _ _ items).edit id _
        · next t₁ heq =>
          rw [heq] at hitems
          exact hitems

lemma changes_close {α : Type} (purpose : Purpose α) (result : Except BuildError α)
    (h : Changes s.registry t t') : Changes s.registry t (purpose.close result t').2 := by
  cases purpose with
  | payload id =>
    refine Changes.advance ?_ id _
    split
    · exact h.tail (.update t' id (fun _ => rfl) (fun _ => rfl) (fun _ => rfl) fun _ => rfl)
    · exact h
    · exact h.annotate id _
  | register id | post id =>
    refine Changes.advance ?_ id _
    split
    · exact h
    · exact h.annotate id _
  | client => exact h

/-- A step of a program. -/
lemma changes_performHook {α : Type} (purpose : Purpose α) (hook : Hook α)
    (t : Tree Handler) (h : hook.isWithin t = true) :
    Changes s.registry t (s.performHook purpose hook t).2 := by
  cases hook with
  | done result => exact s.changes_close purpose result .refl
  | look next | build id next => exact .refl
  | edit id change next => exact Changes.edit .refl id change
  | note line next => exact .single (.log t _)
  | insertText parent text next => exact Changes.addItems .refl (of_decide_eq_true h) _ _ _
  | insertSpec parent spec next =>
    exact .single (.add t (of_decide_eq_true h) (Node.IsSeed.ofSpec parent true spec))
  | override id tag key next => exact .single (.override t id tag (s.known key))
  | setAction id action next =>
    exact .single (.update t id (fun _ => rfl) (fun _ => rfl) (fun _ => rfl) fun _ => rfl)

lemma changes_perform (w : Work) (t : Tree Handler) (h : w.isWithin t = true) :
    Changes s.registry t (s.perform w t).2 := by
  have hcall : ∀ {t' : Tree Handler} (id e), Changes s.registry t t' →
      Changes s.registry t ((s.registry.resolve t' id).2.log e) := fun {t'} id e h =>
    (h.tail (.resolve t' id)).tail (.log _ e)
  cases w with
  | build id =>
    rw [perform]
    split
    · exact .refl
    · split
      · exact hcall id _ ((s.changes_decodeHeader t id).trans (s.changes_expandBody _ id))
      · exact .refl
  | program purpose hook => exact s.changes_performHook purpose hook t h
  | children id => exact .refl
  | register id =>
    have hadvance : Changes s.registry t (t.advance id .childrenBuilt) := Changes.advance .refl id _
    rw [perform]
    dsimp only
    split
    · exact hadvance.advance id _
    · exact hcall id _ hadvance
  | finish id => exact hcall id _ .refl

variable {s}

/-- A later tree comes of an earlier one by changes. -/
lemma changes_of_reachesFreely (h : s.ReachesFreely m m') :
    Changes s.registry m.tree m'.tree := by
  induction h with
  | refl => exact .refl
  | tail _ hlast ih =>
    cases hlast with
    | perform rest hwithin => exact ih.trans (s.changes_perform _ _ hwithin)
    | resolve work t id => exact ih.tail (.resolve t id)

theorem changes_of_reaches (h : s.Reaches m m') : Changes s.registry m.tree m'.tree :=
  changes_of_reachesFreely (reachesFreely_of_reaches h)

end Setup

end TaggedOutline
