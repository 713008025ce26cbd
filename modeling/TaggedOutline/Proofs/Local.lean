import TaggedOutline.Proofs.Stages

/-!
# Builds with local handlers

A node remembers the handler that was found for it.  Overrides can be set later, so what it
remembers need not be what would be found at the end.  It is, if hooks change nothing in the tree
but the overrides of their own node, and those only while they make its payload
(`Setup.IsLocal`): the overrides of a node are all there before anything beneath it is looked
at.

`Tree.IsDispatched` is the invariant of such a build.  What counts in it is the face of a node
(`Node.face`), the part of it that dispatch reads.
-/

namespace TaggedOutline

/-! ## Faces -/

/-- The part of a node that dispatch reads. -/
def Node.face (n : Node Handler) : Node Handler :=
  { tag := n.tag, parent := n.parent, overrides := n.overrides, handler := n.handler }

namespace Tree

variable {r : Registry} {t t' : Tree Handler} {id j : NodeId} {n m : Node Handler}

/-- The face of the node with a number. -/
def face? (t : Tree Handler) (id : NodeId) : Option (Node Handler) := (t.node? id).map Node.face

lemma face?_of_node? (h : t.node? id = some n) : t.face? id = some n.face := by
  rw [face?, h, Option.map_some]

lemma face?_congr (h : t'.node? id = t.node? id) : t'.face? id = t.face? id := by
  rw [face?, face?, h]

lemma face?_update {f : Node Handler → Node Handler} (h : ∀ n, (f n).face = n.face) :
    (t.update j f).face? id = t.face? id := map_node?_update h t j id

lemma face?_advance (t : Tree Handler) (j : NodeId) (state : BuildState) (id : NodeId) :
    (t.advance j state).face? id = t.face? id := face?_update fun _ => by rfl

lemma face?_record (t : Tree Handler) (j : NodeId) (e : BuildError) (id : NodeId) :
    (t.record j e).face? id = t.face? id := face?_update fun _ => by rfl

lemma parent?_congr_face (h : t'.face? id = t.face? id) : t'.parent? id = t.parent? id := by
  have hparent : ∀ t : Tree Handler, t.parent? id =
      (t.face? id).bind fun n => if n.parent = id then none else some n.parent := fun t => by
    rw [parent?, face?]
    cases t.node? id <;> rfl
  rw [hparent, hparent, h]

lemma climb_congr (hid : t'.parent? id = t.parent? id) {steps : Nat}
    (h : ∀ a ∈ t.climb steps id, t'.parent? a = t.parent? a) :
    t'.climb steps id = t.climb steps id := by
  induction steps generalizing id with
  | zero => rfl
  | succ steps ih =>
    rw [climb] at h
    rw [climb, climb, hid]
    rcases hparent : t.parent? id with - | parent
    · rfl
    · rw [hparent] at h
      obtain ⟨hfirst, hrest⟩ := List.forall_mem_cons.mp h
      exact congrArg (parent :: ·) (ih hfirst hrest)

/-- What is dispatched at a node depends on the faces of the nodes above it. -/
lemma dispatch_congr (hid : t'.parent? id = t.parent? id)
    (h : ∀ a ∈ t.ancestors id, t'.face? a = t.face? a) (tag : Text) :
    r.dispatch t' id tag = r.dispatch t id tag := by
  have hway : t'.ancestors id = t.ancestors id :=
    climb_congr hid fun a ha => parent?_congr_face (h a ha)
  have hfaces : ∀ (t : Tree Handler) (ids : List NodeId),
      (ids.filterMap t.node?).findSome? (r.offer? tag) =
        (ids.filterMap t.face?).findSome? (r.offer? tag) := fun t ids => by
    calc (ids.filterMap t.node?).findSome? (r.offer? tag)
        = ((ids.filterMap t.node?).map Node.face).findSome? (r.offer? tag) := by
          rw [List.findSome?_map]
          rfl
      _ = (ids.filterMap t.face?).findSome? (r.offer? tag) := by
          rw [List.map_filterMap]
          rfl
  rw [Registry.dispatch, Registry.dispatch, hway, hfaces, hfaces, List.filterMap_congr h]

/-! ## Dispatched nodes -/

/-- The node above has its payload, and so all its overrides. -/
def IsReady (t : Tree Handler) (id : NodeId) : Prop :=
  ∀ parent, t.parent? id = some parent → ∃ p, t.node? parent = some p ∧ .payloadBuilt ≤ p.state

/-- A node waits for its build, or the handler that it remembers is the one that is dispatched at
it, and the nodes above it will not be overridden any more. -/
inductive Dispatched (r : Registry) (t : Tree Handler) (id : NodeId) (n : Node Handler) : Prop
  | waits (handler : n.handler = none) (state : n.state = .unparsed)
  | knows {h : Handler} (handler : n.handler = some h) (state : n.state ≠ .unparsed)
      (law : h = r.dispatch t id n.tag) (ready : t.IsReady id)

/-- Every node waits or has been dispatched. -/
def IsDispatched (r : Registry) (t : Tree Handler) : Prop :=
  ∀ id n, t.node? id = some n → Dispatched r t id n

namespace Dispatched

lemma of_face (h : Dispatched r t id n) (hface : m.face = n.face)
    (hstate : m.state = .unparsed ↔ n.state = .unparsed) : Dispatched r t id m := by
  have htag : m.face.tag = n.face.tag := congrArg Node.tag hface
  have hhandler : m.face.handler = n.face.handler := congrArg Node.handler hface
  cases h with
  | waits handler state => exact .waits (hhandler.trans handler) (hstate.mpr state)
  | knows handler state law ready =>
    exact .knows (hhandler.trans handler) (fun h => state (hstate.mp h)) (htag ▸ law) ready

lemma known (h : Dispatched r t id n) (hstate : n.state ≠ .unparsed) :
    (∃ handler, n.handler = some handler) ∧ t.IsReady id := by
  cases h with
  | waits _ state => exact absurd state hstate
  | knows handler _ _ ready => exact ⟨⟨_, handler⟩, ready⟩

end Dispatched

lemma ne_unparsed_of_le {state : BuildState} (h : .payloadBuilt ≤ state) : state ≠ .unparsed := by
  rintro rfl
  exact absurd h (by decide)

namespace IsDispatched

/-- All nodes above a node that is ready have their payloads. -/
lemma of_mem_climb (h : t.IsDispatched r) (hready : t.IsReady id) (steps : Nat) :
    ∀ a ∈ t.climb steps id, ∃ p, t.node? a = some p ∧ .payloadBuilt ≤ p.state := by
  induction steps generalizing id with
  | zero => exact fun _ ha => absurd ha List.not_mem_nil
  | succ steps ih =>
    rw [climb]
    rcases hparent : t.parent? id with - | parent
    · exact fun _ ha => absurd ha List.not_mem_nil
    · obtain ⟨p, hp, hle⟩ := hready parent hparent
      refine List.forall_mem_cons.mpr ⟨⟨p, hp, hle⟩, ih ?_⟩
      exact ((h parent p hp).known (ne_unparsed_of_le hle)).2

/-- A node that is ready stands beneath nodes that know their handlers. -/
lemma settled (h : t.IsDispatched r) (harena : t.IsArena) (hready : t.IsReady id)
    (hn : t.node? id = some n) : t.Settled id := by
  induction id using Nat.strong_induction_on generalizing n with
  | _ id ih =>
    rcases hparent : t.parent? id with - | parent
    · by_cases hroot : n.parent = id
      · exact .root hn hroot
      · simp [parent?, hn, hroot] at hparent
    · have hlt := (harena.lt_of_parent? hparent).1
      obtain ⟨p, hp, hle⟩ := hready parent hparent
      obtain ⟨⟨handler, hh⟩, hready'⟩ := (h parent p hp).known (ne_unparsed_of_le hle)
      obtain ⟨-, rfl⟩ : n.parent ≠ id ∧ n.parent = parent := by
        simpa [parent?, hn] using hparent
      exact .beneath hn hlt hp hh (ih n.parent hlt hready' hp)

/-- From a tree to a later one in which no node with its payload has another face. -/
structure Keeps (t t' : Tree Handler) : Prop where
  face : ∀ {a p}, t.node? a = some p → .payloadBuilt ≤ p.state → t'.face? a = t.face? a
  parent : ∀ id < t.size, t'.parent? id = t.parent? id
  state : ∀ {id a}, t.state? id = some a → ∃ b, t'.state? id = some b ∧ a ≤ b

lemma Keeps.isReady (hkeeps : Keeps t t') (hid : id < t.size) (hready : t.IsReady id) :
    t'.IsReady id := by
  intro parent hparent
  rw [hkeeps.parent id hid] at hparent
  obtain ⟨p, hp, hle⟩ := hready parent hparent
  obtain ⟨b, hb, hle'⟩ := hkeeps.state (state?_of_node? hp)
  obtain ⟨p', hp', rfl⟩ := exists_node?_of_state? hb
  exact ⟨p', hp', BuildState.le_trans hle hle'⟩

/-- It is enough that the nodes of the later tree are dispatched by the earlier one. -/
lemma later (h : t.IsDispatched r) (hkeeps : Keeps t t')
    (hnodes : ∀ id n, t'.node? id = some n →
      Dispatched r t id n ∧ (id < t.size ∨ n.handler = none)) :
    t'.IsDispatched r := by
  intro id n hn
  obtain ⟨hdispatched, hold⟩ := hnodes id n hn
  cases hdispatched with
  | waits handler state => exact .waits handler state
  | knows handler state law ready =>
    have hid : id < t.size := hold.resolve_right fun hnone => by
      cases handler.symm.trans hnone
    refine .knows handler state (law.trans ?_) (hkeeps.isReady hid ready)
    refine (dispatch_congr (hkeeps.parent id hid) (fun a ha => ?_) n.tag).symm
    obtain ⟨p, hp, hle⟩ := h.of_mem_climb ready id a ha
    exact hkeeps.face hp hle

/-- A step that changes no face, and in which no build begins. -/
lemma of_face (h : t.IsDispatched r) (hkeeps : Keeps t t')
    (hface : ∀ id, t'.face? id = t.face? id)
    (hwaits : ∀ id, t.state? id = some .unparsed → t'.state? id = some .unparsed) :
    t'.IsDispatched r := by
  refine h.later hkeeps fun id n' hn' => ?_
  obtain ⟨n, hn, hsame⟩ : ∃ n, t.node? id = some n ∧ n'.face = n.face := by
    have heq := hface id
    rw [face?_of_node? hn'] at heq
    obtain ⟨n, hn, hsame⟩ := Option.map_eq_some_iff.mp heq.symm
    exact ⟨n, hn, hsame.symm⟩
  refine ⟨(h id n hn).of_face hsame ⟨fun hstate => ?_, fun hstate => ?_⟩,
    .inl (lt_size_of_node? hn)⟩
  · obtain ⟨b, hb, hle⟩ := hkeeps.state (state?_of_node? hn)
    rw [state?_of_node? hn', hstate] at hb
    obtain rfl := Option.some.inj hb
    exact BuildState.eq_unparsed_of_le hle
  · have hstate' := hwaits id ((state?_of_node? hn).trans (congrArg some hstate))
    exact Option.some.inj ((state?_of_node? hn').symm.trans hstate')

lemma log (h : t.IsDispatched r) (e : JournalEntry) : (t.log e).IsDispatched r :=
  h.of_face ⟨fun _ _ => rfl, fun _ _ => rfl, fun h => ⟨_, h, Nat.le_refl _⟩⟩ (fun _ => rfl)
    fun _ h => h

/-- The beginning of a build. -/
lemma opens {s : Setup} (h : t.IsDispatched s.registry) (harena : t.IsArena)
    (hkeeps : Keeps t t') {seeds : List (Child (Node Handler))} (hopens : Opens s t t' id n m seeds)
    (hseeds : ∀ k ∈ newNodes seeds, k.handler = none ∧ k.state = .unparsed)
    (hbefore : n.state = .unparsed) (hstate : m.state ≠ .unparsed) (hhandler : m.handler ≠ none)
    (hready : t.IsReady id) : t'.IsDispatched s.registry := by
  have hsettled := h.settled harena hready hopens.before
  refine h.later hkeeps fun j k hk => ?_
  rcases Nat.lt_or_ge j t.size with hlt | hge
  · refine ⟨?_, .inl hlt⟩
    by_cases hj : j = id
    · subst hj
      obtain rfl := Option.some.inj (hopens.here.symm.trans hk)
      have hnone : n.handler = none := by
        cases h j n hopens.before with
        | waits handler => exact handler
        | knows _ state => exact absurd hbefore state
      rcases hopens.memory with hsame | ⟨-, handler, hm, hlaw⟩
      · exact absurd (hsame.trans hnone) hhandler
      · refine .knows hm hstate ?_ hready
        rw [hlaw hsettled, hopens.tag]
    · exact h j k ((hopens.exact hsettled j hlt hj).symm.trans hk)
  · obtain ⟨i, rfl⟩ := Nat.exists_eq_add_of_le hge
    obtain ⟨hhandler, hstate⟩ :=
      hseeds k (List.mem_of_getElem? ((hopens.added i).symm.trans hk))
    exact ⟨.waits hhandler hstate, .inr hhandler⟩

/-- A hook sets a handler beneath its own node. -/
lemma override (h : t.IsDispatched r) {tag : Text} {handler : Handler}
    (hkeeps : Keeps t (t.override id tag handler)) :
    (t.override id tag handler).IsDispatched r := by
  refine h.later hkeeps fun j k hk => ?_
  have hlt : j < t.size := (size_update t id _).symm ▸ lt_size_of_node? hk
  refine ⟨?_, .inl hlt⟩
  by_cases hj : j = id
  · subst hj
    obtain ⟨n, hn⟩ := exists_node?_of_lt hlt
    obtain rfl := Option.some.inj ((node?_update_self hn _).symm.trans hk)
    cases h j n hn with
    | waits handler state => exact .waits handler state
    | knows handler state law ready => exact .knows handler state law ready
  · exact h j k ((node?_update_of_ne hj _).symm.trans hk)

end IsDispatched

end Tree

/-! ## Local work -/

/-- Whether a program may be run for a purpose, if all handlers are local. -/
def Purpose.Allows {α : Type} : Purpose α → Hook α → Prop
  | .payload id, hook => hook.OnlyOverrides id
  | .register _, hook | .post _, hook => hook.IsQuiet
  | .client, _ => False

/-- Builds begin beneath nodes that have their payloads, and programs do what local handlers may
do. -/
def Work.IsLocal (s : Setup) (t : Tree Handler) : Work → Prop
  | .build id => id < t.size ∧ t.IsReady id
  | .program purpose hook => purpose.Allows hook ∧ ∀ k, hook.Installs k → s.Offers (s.known k)
  | .children _ | .register _ | .finish _ => True

/-- The invariant of a build with local handlers. -/
structure Moment.IsLocal (s : Setup) (m : Moment) : Prop where
  isRegular : m.IsRegular
  work : ∀ w ∈ m.work, w.IsLocal s m.tree
  isOffered : m.tree.IsOffered s
  isDispatched : m.tree.IsDispatched s.registry

lemma Work.IsLocal.keeps {s : Setup} {t t' : Tree Handler} {w : Work} (h : w.IsLocal s t)
    (hkeeps : Tree.IsDispatched.Keeps t t') (hsize : t.size ≤ t'.size) : w.IsLocal s t' := by
  cases w with
  | build id => exact ⟨h.1.trans_le hsize, hkeeps.isReady h.1 h.2⟩
  | program purpose hook => exact h
  | children | register | finish => trivial

namespace Setup

open TaggedOutline.Tree

variable {s : Setup} {m m' : Moment} {t : Tree Handler} {id : NodeId} {n : Node Handler}

/-- The hooks of a handler that can come up do what local handlers may do. -/
lemma isLocal_of_hook (hlocal : s.IsLocal) {h : Handler} (hoffers : s.Offers h)
    (id parent : NodeId) :
    (Work.program (.payload id) (h.payload id)).IsLocal s t ∧
      (Work.program (.register id) (h.register id parent)).IsLocal s t ∧
        (Work.program (.post id) (h.post id)).IsLocal s t := by
  have hh := hlocal h hoffers
  exact ⟨⟨hh.payload id, fun k hk => .installed hoffers (.payload id hk)⟩,
    ⟨hh.register id parent, fun k hk => .installed hoffers (.register id parent hk)⟩,
    ⟨hh.post id, fun k hk => .installed hoffers (.post id hk)⟩⟩

lemma face?_close {α : Type} (purpose : Purpose α) (result : Except BuildError α)
    (t : Tree Handler) (id : NodeId) : (purpose.close result t).2.face? id = t.face? id := by
  cases purpose with
  | payload j =>
    simp only [Purpose.close, face?_advance]
    split
    · exact face?_update fun _ => by rfl
    · rfl
    · exact face?_record t j _ id
  | register j | post j =>
    simp only [Purpose.close, face?_advance]
    split
    · rfl
    · exact face?_record t j _ id
  | client => rfl

/-- What a step of local work does, unless a build begins or a handler is set in it. -/
structure Works (s : Setup) (t : Tree Handler) (w : Work) : Prop where
  work : ∀ v ∈ (s.perform w t).1, v.IsLocal s t
  face : ∀ id, (s.perform w t).2.face? id = t.face? id

/-- What a node offers is part of its face. -/
lemma isOffered_of_face {t' : Tree Handler} (h : t.IsOffered s)
    (hface : ∀ id, t'.face? id = t.face? id) : t'.IsOffered s := by
  intro id n' hn'
  have heq := hface id
  rw [face?_of_node? hn'] at heq
  obtain ⟨n, hn, hsame⟩ := Option.map_eq_some_iff.mp heq.symm
  have hhandler : n.face.handler = n'.face.handler := congrArg Node.handler hsame
  have hoverrides : n.face.overrides = n'.face.overrides := congrArg Node.overrides hsame
  change (∀ h, n'.face.handler = some h → _) ∧ ∀ x ∈ n'.face.overrides, _
  rw [← hhandler, ← hoverrides]
  exact h id n hn

/-- A node on which there is work knows its handler. -/
lemma exists_handler_of_stage (hm : m.IsLocal s) {w : Work} {rest : List Work}
    (hwork : m.work = w :: rest) (id : NodeId) {stage : Stage} (hw : w.stage? id = some stage) :
    ∃ n h, m.tree.node? id = some n ∧ n.handler = some h ∧ s.Offers h ∧
      some n.state = stage.state := by
  have hstages : stage ∈ Work.stages id m.work := by
    rw [hwork, Work.stages_cons, hw]
    exact List.mem_cons_self
  obtain ⟨⟨state, hstate, hne⟩, -⟩ := Work.of_mem_stages hstages
  have hstage := (hm.isRegular.isStaged.stage_of_work hwork hw).1
  obtain ⟨n, hn, rfl⟩ := exists_node?_of_state? ((congrArg Stage.state hstage).trans hstate)
  obtain ⟨⟨h, hh⟩, -⟩ := (hm.isDispatched id n hn).known hne
  exact ⟨n, h, hn, hh, (hm.isOffered id n hn).1 h hh, hstate.symm⟩

lemma works_children {rest : List Work} (hm : m.IsLocal s)
    (hwork : m.work = .children id :: rest) : Works s m.tree (.children id) := by
  refine ⟨fun v hv => ?_, fun _ => rfl⟩
  obtain ⟨n, h, hn, -, -, hstate⟩ := exists_handler_of_stage hm hwork id (if_pos rfl)
  rcases List.mem_append.mp hv with hv | hv
  · obtain ⟨c, hc, rfl⟩ := List.mem_map.mp hv
    have hparent := hm.isRegular.isArena.mem_childNodes_iff.mp hc
    refine ⟨(hm.isRegular.isArena.lt_of_parent? hparent).2, fun parent hparent' => ?_⟩
    obtain rfl := Option.some.inj (hparent.symm.trans hparent')
    exact ⟨n, hn, Option.some.inj hstate ▸ Nat.le_refl _⟩
  · obtain rfl := List.mem_singleton.mp hv
    trivial

lemma works_register {rest : List Work} (hlocal : s.IsLocal) (hm : m.IsLocal s)
    (hwork : m.work = .register id :: rest) : Works s m.tree (.register id) := by
  obtain ⟨n, h, hn, hh, hoffers, -⟩ := exists_handler_of_stage hm hwork id (if_pos rfl)
  have hadvanced : (m.tree.advance id .childrenBuilt).node? id =
      some { n with state := n.state.later .childrenBuilt } := node?_update_self hn _
  have hresolve := s.registry.resolve_of_handler hadvanced hh
  have hparent : (m.tree.advance id .childrenBuilt).parent? id = m.tree.parent? id :=
    parent?_congr (place?_advance _ id _ id)
  rcases hup : m.tree.parent? id with - | parent
  · have hperform : s.perform (.register id) m.tree =
        ([.finish id], (m.tree.advance id .childrenBuilt).advance id .registered) := by
      simp only [perform, hparent, hup]
    refine ⟨fun v hv => ?_, fun j => ?_⟩
    · rw [hperform] at hv
      obtain rfl := List.mem_singleton.mp hv
      trivial
    · rw [hperform, face?_advance, face?_advance]
  · have hperform : s.perform (.register id) m.tree =
        ([.program (.register id) (h.register id parent)],
          (m.tree.advance id .childrenBuilt).log (.call .register id)) := by
      simp only [perform, hparent, hup, hresolve]
    refine ⟨fun v hv => ?_, fun j => ?_⟩
    · rw [hperform] at hv
      obtain rfl := List.mem_singleton.mp hv
      exact (isLocal_of_hook hlocal hoffers id parent).2.1
    · rw [hperform]
      exact face?_advance _ _ _ _

lemma works_finish {rest : List Work} (hlocal : s.IsLocal) (hm : m.IsLocal s)
    (hwork : m.work = .finish id :: rest) : Works s m.tree (.finish id) := by
  obtain ⟨n, h, hn, hh, hoffers, -⟩ := exists_handler_of_stage hm hwork id (if_pos rfl)
  have hperform : s.perform (.finish id) m.tree =
      ([.program (.post id) (h.post id)], m.tree.log (.call .post id)) := by
    simp only [perform, s.registry.resolve_of_handler hn hh]
  refine ⟨fun v hv => ?_, fun j => ?_⟩
  · rw [hperform] at hv
    obtain rfl := List.mem_singleton.mp hv
    exact (isLocal_of_hook hlocal hoffers id id).2.2
  · rw [hperform]
    rfl

/-- A program that goes on may go on as it does. -/
lemma works_program {α : Type} {purpose : Purpose α} {hook : Hook α}
    (hw : (Work.program purpose hook).IsLocal s t)
    (hset : ∀ j tag k next, hook ≠ .override j tag k next) :
    Works s t (.program purpose hook) := by
  obtain ⟨hallows, hinstalls⟩ := hw
  cases hook with
  | done result =>
    refine ⟨fun v hv => ?_, face?_close purpose result t⟩
    cases purpose with
    | payload j | register j =>
      obtain rfl := List.mem_singleton.mp hv
      trivial
    | post j | client => exact absurd hv List.not_mem_nil
  | look next =>
    refine ⟨fun v hv => ?_, fun _ => rfl⟩
    obtain rfl := List.mem_singleton.mp hv
    refine ⟨?_, fun k hk => hinstalls k (.look _ hk)⟩
    cases purpose with
    | payload j | register j | post j => exact hallows _
    | client => exact hallows
  | note line next =>
    refine ⟨fun v hv => ?_, fun _ => rfl⟩
    obtain rfl := List.mem_singleton.mp hv
    refine ⟨?_, fun k hk => hinstalls k (.note hk)⟩
    cases purpose with
    | payload j | register j | post j => exact hallows
    | client => exact hallows
  | override j tag k next => exact absurd rfl (hset j tag k next)
  | edit | build | insertText | insertSpec | setAction =>
    cases purpose <;> exact False.elim hallows

/-- What has to be shown of each step. -/
structure Stays (s : Setup) (t : Tree Handler) (w : Work) : Prop where
  work : ∀ v ∈ (s.perform w t).1, v.IsLocal s (s.perform w t).2
  keeps : IsDispatched.Keeps t (s.perform w t).2
  isOffered : (s.perform w t).2.IsOffered s
  isDispatched : (s.perform w t).2.IsDispatched s.registry

/-- A step in which a build begins. -/
lemma stays_build (hlocal : s.IsLocal) (hm : m.IsLocal s)
    (hbuild : (Work.build id).IsLocal s m.tree)
    (hparent : ∀ j < m.tree.size, (s.perform (.build id) m.tree).2.parent? j = m.tree.parent? j)
    (hstate : ∀ {j a}, m.tree.state? j = some a →
      ∃ b, (s.perform (.build id) m.tree).2.state? j = some b ∧ a ≤ b) :
    Stays s m.tree (.build id) := by
  obtain ⟨hlt, hready⟩ := hbuild
  obtain ⟨n, hn⟩ := exists_node?_of_lt hlt
  by_cases hbefore : n.state = .unparsed
  · have harena := hm.isRegular.isArena
    obtain ⟨h, t', hresolve, hopens⟩ := s.opens_of_unparsed harena hn hbefore
    have hperform : s.perform (.build id) m.tree =
        ([.program (.payload id) (h.payload id)], t'.log (.call .payload id)) := by
      simp only [perform, hn, hbefore, if_true, hresolve]
    rw [hperform] at hparent hstate
    -- the handlers above are known, so opening the node changes no other one
    have hsettled := hm.isDispatched.settled harena hready hn
    have hkeeps : IsDispatched.Keeps m.tree t' := by
      refine ⟨fun {a p} hp hle => ?_, hparent, hstate⟩
      have hne : a ≠ id := by
        rintro rfl
        obtain rfl := Option.some.inj (hn.symm.trans hp)
        exact ne_unparsed_of_le hle hbefore
      exact face?_congr (hopens.exact hsettled a (lt_size_of_node? hp) hne)
    have hdispatched : t'.IsDispatched s.registry := by
      refine hm.isDispatched.opens harena hkeeps hopens (fun k hk => ?_) hbefore
        (fun h => by cases h) (Option.some_ne_none _) hready
      have hseed := s.isSeed_of_mem_opened h id n k hk
      exact ⟨hseed.handler, hseed.state⟩
    have hoffered := hopens.offered hm.isOffered
    have hoffers := (hoffered id _ hopens.here).1 h rfl
    refine ⟨?_, ?_, ?_, ?_⟩ <;> rw [hperform]
    · intro v hv
      obtain rfl := List.mem_singleton.mp hv
      exact (isLocal_of_hook hlocal hoffers id id).1
    · exact ⟨hkeeps.face, hparent, hstate⟩
    · exact hoffered.log _
    · exact hdispatched.log _
  · have hperform : s.perform (.build id) m.tree = ([], m.tree) := by
      simp only [perform, hn, hbefore, if_false]
    rw [hperform] at hparent hstate
    refine ⟨?_, ?_, ?_, ?_⟩ <;> rw [hperform]
    · exact fun v hv => absurd hv List.not_mem_nil
    · exact ⟨fun _ _ => rfl, hparent, hstate⟩
    · exact hm.isOffered
    · exact hm.isDispatched

/-- A step in which a handler is set. -/
lemma stays_override {α : Type} {purpose : Purpose α} {tag key : Text}
    {next : Hook α} {rest : List Work} (hm : m.IsLocal s)
    (hwork : m.work = .program purpose (.override id tag key next) :: rest)
    (hw : (Work.program purpose (.override id tag key next)).IsLocal s m.tree)
    (hparent : ∀ j < m.tree.size,
      (m.tree.override id tag (s.known key)).parent? j = m.tree.parent? j)
    (hstate : ∀ {j a}, m.tree.state? j = some a →
      ∃ b, (m.tree.override id tag (s.known key)).state? j = some b ∧ a ≤ b) :
    Stays s m.tree (.program purpose (.override id tag key next)) := by
  obtain ⟨hallows, hinstalls⟩ := hw
  cases purpose with
  | payload j =>
    obtain ⟨rfl, hnext⟩ := hallows
    obtain ⟨n, h, hn, -, -, hopened⟩ := exists_handler_of_stage hm hwork id (if_pos rfl)
    have hbody : n.state = .bodyParsed := Option.some.inj hopened
    have hkeeps : IsDispatched.Keeps m.tree (m.tree.override id tag (s.known key)) := by
      refine ⟨fun {a p} hp hle => face?_congr (node?_update_of_ne ?_ _), hparent, hstate⟩
      rintro rfl
      obtain rfl := Option.some.inj (hn.symm.trans hp)
      rw [hbody] at hle
      exact absurd hle (by decide)
    refine ⟨fun v hv => ?_, hkeeps, hm.isOffered.update fun i hi => ?_,
      hm.isDispatched.override hkeeps⟩
    · obtain rfl := List.mem_singleton.mp hv
      exact ⟨hnext, fun k hk => hinstalls k (.override hk)⟩
    · obtain ⟨hhandler, hoverrides⟩ := hm.isOffered id i hi
      exact ⟨hhandler, List.forall_mem_cons.mpr ⟨hinstalls key .here, hoverrides⟩⟩
  | register j | post j | client => exact False.elim hallows

/-- One step of a build with local handlers. -/
lemma isLocal_of_next? (hlocal : s.IsLocal) (hm : m.IsLocal s)
    (h : s.next? m = some m') : m'.IsLocal s := by
  have hregular := isRegular_of_next? hm.isRegular h
  have hstate : ∀ {id a}, m.tree.state? id = some a → ∃ b, m'.tree.state? id = some b ∧ a ≤ b :=
    le_of_next? hm.isRegular h
  have hextends := extends_of_next? h
  have hparent : ∀ j < m.tree.size, m'.tree.parent? j = m.tree.parent? j := fun j =>
    hextends.parent?_eq
  obtain ⟨w, rest, hwork, hcareful, rfl⟩ := exists_of_next? h
  have hall := hm.work
  rw [hwork] at hall
  obtain ⟨hw, hrest⟩ := List.forall_mem_cons.mp hall
  suffices hstep : Stays s m.tree w by
    refine ⟨hregular, fun v hv => ?_, hstep.isOffered, hstep.isDispatched⟩
    rcases List.mem_append.mp hv with hv | hv
    · exact hstep.work v hv
    · exact (hrest v hv).keeps hstep.keeps hextends.size_le
  -- all steps but two leave the faces alone
  have hworks : Works s m.tree w → (∀ id, w ≠ .build id) → Stays s m.tree w := by
    intro hworks hbuild
    have hkeeps : IsDispatched.Keeps m.tree (s.perform w m.tree).2 :=
      ⟨fun _ _ => hworks.face _, hparent, hstate⟩
    refine ⟨fun v hv => (hworks.work v hv).keeps hkeeps hextends.size_le, hkeeps,
      isOffered_of_face hm.isOffered hworks.face,
      hm.isDispatched.of_face hkeeps hworks.face fun id hwaits => ?_⟩
    exact hm.isRegular.isStaged.waits_of_moves hwork
      (s.moves_perform hm.isRegular.isArena w hcareful id) (hbuild id) hwaits
  cases w with
  | build id => exact stays_build hlocal hm hw hparent hstate
  | program purpose hook =>
    by_cases hset : ∃ j tag k next, hook = .override j tag k next
    · obtain ⟨j, tag, k, next, rfl⟩ := hset
      exact stays_override hm hwork hw hparent hstate
    · refine hworks (works_program hw fun j tag k next heq => ?_) fun _ h => by cases h
      exact hset ⟨j, tag, k, next, heq⟩
  | children id => exact hworks (works_children hm hwork) fun _ h => by cases h
  | register id => exact hworks (works_register hlocal hm hwork) fun _ h => by cases h
  | finish id => exact hworks (works_finish hlocal hm hwork) fun _ h => by cases h

lemma isLocal_of_reaches (hlocal : s.IsLocal) (hm : m.IsLocal s)
    (h : s.Reaches m m') : m'.IsLocal s := by
  induction h with
  | refl => exact hm
  | tail _ hlast ih => exact isLocal_of_next? hlocal ih hlast

/-- Local work is careful. -/
lemma isSafe_of_isLocal (hlocal : s.IsLocal) (hm : m.IsLocal s) :
    s.IsSafe m := by
  intro m' h w hw
  have hm' := isLocal_of_reaches hlocal hm h
  obtain ⟨rest, hwork⟩ : ∃ rest, m'.work = w :: rest := by
    rcases hlist : m'.work with - | ⟨v, rest⟩
    · rw [hlist] at hw
      cases hw
    · rw [hlist] at hw
      obtain rfl : v = w := Option.some.inj hw
      exact ⟨rest, rfl⟩
  have hwlocal := hm'.work w (hwork ▸ List.mem_cons_self)
  cases w with
  | program purpose hook =>
    obtain ⟨hallows, -⟩ := hwlocal
    cases hook with
    | done | look | note => rfl
    | override j tag k next =>
      cases purpose with
      | payload i =>
        obtain ⟨rfl, -⟩ := hallows
        obtain ⟨n, h, hn, -⟩ := exists_handler_of_stage hm' hwork j (if_pos rfl)
        exact decide_eq_true (lt_size_of_node? hn)
      | register | post | client => exact False.elim hallows
    | edit | build | insertText | insertSpec | setAction =>
    cases purpose <;> exact False.elim hallows
  | build | children | register | finish => rfl

lemma isLocal_of_isFresh (h : s.IsFresh t) :
    (⟨[.build root], t⟩ : Moment).IsLocal s := by
  have hregular := isRegular_of_isFresh h
  have hseed : ∀ id n, t.node? id = some n →
      n.handler = none ∧ n.overrides = [] ∧ n.state = .unparsed := by
    intro id n hn
    cases h with
    | ofText text | ofSpec spec =>
      obtain rfl : id = 0 := Nat.lt_one_iff.mp (lt_size_of_node? hn)
      obtain rfl := Option.some.inj hn
      exact ⟨rfl, rfl, rfl⟩
  refine ⟨hregular, fun w hw => ?_, fun id n hn => ?_, fun id n hn => ?_⟩
  · obtain rfl := List.mem_singleton.mp hw
    refine ⟨hregular.isArena.size_pos, fun parent hparent => ?_⟩
    cases hregular.isArena.parent?_root.symm.trans hparent
  · obtain ⟨hhandler, hoverrides, -⟩ := hseed id n hn
    rw [hhandler, hoverrides]
    exact ⟨fun _ h => (by cases h), fun _ h => absurd h List.not_mem_nil⟩
  · obtain ⟨hhandler, -, hstate⟩ := hseed id n hn
    exact .waits hhandler hstate

end Setup

end TaggedOutline
