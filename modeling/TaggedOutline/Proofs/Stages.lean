import TaggedOutline.Proofs.Opened
import TaggedOutline.Proofs.Progress

/-!
# Stages of a build

Hooks build nodes in the middle of other builds, and in any order.  What is known of a node at a
moment is its `Stage`: its state, and the calls of its hooks so far.  A piece of work on a node
stands for one stage of it (`Work.stage?`), and no node has two pieces of work at a time: at every
moment a node is at the stage of its piece of work, or it has none and its build has not begun or
has ended (`Moment.IsStaged`).  So its hooks are called in one order and once each.

A node whose build has not begun is not forgotten either.  Some piece of work leads to it
(`Moment.IsAwaiting`), unless it is the root.
-/

namespace TaggedOutline

lemma BuildState.le_later (a b : BuildState) : a ≤ a.later b := by
  unfold later
  split
  · assumption
  · exact Nat.le_refl a.rank

lemma BuildState.eq_unparsed_of_le {a : BuildState} (h : a ≤ .unparsed) : a = .unparsed := by
  cases a <;> first | rfl | exact absurd h (by decide)

lemma BuildState.le_trans {a b c : BuildState} (h : a ≤ b) (h' : b ≤ c) : a ≤ c :=
  Nat.le_trans h h'

/-- The occasions on which the handler of a node is called, in order.  The root is registered
nowhere. -/
def Occasion.due (id : NodeId) : List Occasion :=
  if id = Tree.root then [.payload, .post] else [.payload, .register, .post]

lemma Occasion.dropLast_due {id : NodeId} (h : id ≠ Tree.root) :
    (due id).dropLast = [.payload, .register] := by
  rw [due, if_neg h]
  rfl

lemma Occasion.dropLast_due_append (id : NodeId) : (due id).dropLast ++ [.post] = due id := by
  unfold due
  split <;> rfl

/-- What is known of a node while a tree is built: its state, if there is such a node, and the calls
of its hooks. -/
structure Stage where
  state : Option BuildState
  calls : List Occasion

namespace Stage

/-- There is no such node yet. -/
def absent : Stage := ⟨none, []⟩

def waiting : Stage := ⟨some .unparsed, []⟩

/-- The hook for the payload is at work. -/
def opened : Stage := ⟨some .bodyParsed, [.payload]⟩

/-- The payload is made. -/
def made : Stage := ⟨some .payloadBuilt, [.payload]⟩

/-- The hook that registers the node is at work. -/
def joining (id : NodeId) : Stage := ⟨some .childrenBuilt, (Occasion.due id).dropLast⟩

/-- The node is registered. -/
def joined (id : NodeId) : Stage := ⟨some .registered, (Occasion.due id).dropLast⟩

/-- The last hook is at work. -/
def ending (id : NodeId) : Stage := ⟨some .registered, Occasion.due id⟩

def done (id : NodeId) : Stage := ⟨some .built, Occasion.due id⟩

end Stage

namespace Tree

variable {H : Type}

/-- How far the build of a node has come. -/
def state? (t : Tree H) (id : NodeId) : Option BuildState := (t.node? id).map Node.state

/-- All calls of hooks so far. -/
def calls (t : Tree H) : List (Occasion × NodeId) :=
  t.journal.toList.filterMap fun
    | .call occasion id => some (occasion, id)
    | .note _ => none

/-- The calls of the hooks of a node. -/
def callsOf (t : Tree H) (id : NodeId) : List Occasion :=
  t.calls.filterMap fun call => if call.2 = id then some call.1 else none

/-- What is known of a node. -/
def stage (t : Tree H) (id : NodeId) : Stage := ⟨t.state? id, t.callsOf id⟩

variable {t t' : Tree H} {id j : NodeId} {n : Node H}

lemma state?_of_node? (h : t.node? id = some n) : t.state? id = some n.state := by
  rw [state?, h, Option.map_some]

lemma mem_childNodes {c : NodeId} :
    c ∈ t.childNodes id ↔ ∃ n, t.node? id = some n ∧ c ∈ n.childNodes := by
  rw [childNodes]
  cases t.node? id <;> simp

lemma exists_node?_of_state? {state : BuildState} (h : t.state? id = some state) :
    ∃ n, t.node? id = some n ∧ n.state = state := Option.map_eq_some_iff.mp h

lemma calls_congr (h : t'.journal = t.journal) : t'.calls = t.calls := by
  rw [calls, calls, h]

lemma calls_log_call (t : Tree H) (occasion : Occasion) (id : NodeId) :
    (t.log (.call occasion id)).calls = t.calls ++ [(occasion, id)] := by
  simp [calls, log]

lemma calls_log_note (t : Tree H) (line : Text) : (t.log (.note line)).calls = t.calls := by
  simp [calls, log]

lemma stage_congr (hnode : t'.state? id = t.state? id) (hjournal : t'.journal = t.journal) :
    t'.stage id = t.stage id := by
  rw [stage, stage, hnode, callsOf, callsOf, calls_congr hjournal]

lemma stage_log_self (t : Tree H) (occasion : Occasion) (id : NodeId) :
    (t.log (.call occasion id)).stage id = ⟨t.state? id, t.callsOf id ++ [occasion]⟩ := by
  rw [stage, callsOf, calls_log_call]
  simp [callsOf, state?, log, node?]

lemma stage_log_of_ne (h : id ≠ j) (occasion : Occasion) :
    (t.log (.call occasion j)).stage id = t.stage id := by
  rw [stage, callsOf, calls_log_call]
  simp [stage, callsOf, state?, log, node?, h.symm]

lemma stage_update_of_ne (h : id ≠ j) (f : Node H → Node H) :
    (t.update j f).stage id = t.stage id :=
  stage_congr (by rw [state?, state?, node?_update_of_ne h]) rfl

/-- A change that leaves the state alone. -/
lemma stage_update {f : Node H → Node H} (h : ∀ n, (f n).state = n.state) :
    (t.update j f).stage id = t.stage id := stage_congr (map_node?_update h t j id) rfl

/-- A node moves on from the state it is in. -/
lemma stage_advance {state : BuildState} {calls : List Occasion}
    (h : t.stage id = ⟨some state, calls⟩) (next : BuildState) :
    (t.advance id next).stage id = ⟨some (state.later next), calls⟩ := by
  obtain ⟨hstate, rfl⟩ := Stage.mk.inj h
  obtain ⟨n, hn, rfl⟩ := exists_node?_of_state? hstate
  rw [stage, advance, state?_of_node? (node?_update_self hn _)]
  rfl

lemma stage_log_of_stage {state : Option BuildState} {calls : List Occasion}
    (h : t.stage id = ⟨state, calls⟩) (occasion : Occasion) :
    (t.log (.call occasion id)).stage id = ⟨state, calls ++ [occasion]⟩ := by
  obtain ⟨rfl, rfl⟩ := Stage.mk.inj h
  exact stage_log_self t occasion id

/-- To look for a handler moves no node on. -/
lemma Recalls.stage {t t' : Tree Handler} (h : t.Recalls t') (id : NodeId) :
    t'.stage id = t.stage id := stage_congr (h.map_node? (fun _ _ => rfl) id) h.journal

/-- Nothing has happened to a node, or it is new and waits. -/
def Rests (t t' : Tree H) (id : NodeId) : Prop :=
  t'.stage id = t.stage id ∨
    t.state? id = none ∧ t'.stage id = ⟨some .unparsed, t.callsOf id⟩

lemma Rests.trans_eq {t'' : Tree H} (h : t.Rests t' id) (h' : t''.stage id = t'.stage id) :
    t.Rests t'' id := by
  rwa [Rests, h']

/-- New children wait. -/
lemma Opens.rests {s : Setup} {t t' : Tree Handler} {n m : Node Handler}
    {seeds : List (Child (Node Handler))} (h : Opens s t t' j n m seeds)
    (hstate : ∀ k ∈ newNodes seeds, k.state = .unparsed) (hid : id ≠ j) : t.Rests t' id := by
  rcases hn : t.node? id with - | k
  · have hnone : t.state? id = none := by rw [state?, hn, Option.map_none]
    rcases hn' : t'.node? id with - | k'
    · refine .inl (stage_congr ?_ h.journal)
      rw [hnone, state?, hn', Option.map_none]
    · have hge : t.size ≤ id := Array.getElem?_eq_none_iff.mp hn
      obtain ⟨i, rfl⟩ := Nat.exists_eq_add_of_le hge
      have hk : k'.state = .unparsed :=
        hstate k' (List.mem_of_getElem? ((h.added i).symm.trans hn'))
      refine .inr ⟨hnone, ?_⟩
      rw [stage, state?_of_node? hn', hk, callsOf, calls_congr h.journal, callsOf]
  · obtain ⟨k', hk', hremembers⟩ := h.others hid hn
    refine .inl (stage_congr ?_ h.journal)
    rw [state?_of_node? hn, state?_of_node? hk', hremembers.congr Node.state fun _ _ => rfl]

/-- New children wait, and all other nodes stay at their stages. -/
lemma rests_addSeeds {t : Tree Handler} {parent : NodeId} {seeds : List (Child (Node Handler))}
    (hlt : parent < t.size) (hseeds : ∀ n ∈ newNodes seeds, n.IsSeed parent true) :
    t.Rests (t.addSeeds parent seeds) id := by
  obtain ⟨n, hn⟩ := exists_node?_of_lt hlt
  have hopens := Opens.of_addSeeds {} hn hseeds
  by_cases hid : id = parent
  · subst hid
    refine .inl (stage_congr ?_ hopens.journal)
    rw [state?_of_node? hn, state?_of_node? hopens.here]
  · exact hopens.rests (fun k hk => (hseeds k hk).state) hid

end Tree

/-! ## Pieces of work -/

/-- The stage of a node at which a program for it is at work. -/
def Purpose.stage? {α : Type} (id : NodeId) : Purpose α → Option Stage
  | .payload j => if j = id then some .opened else none
  | .register j => if j = id then some (.joining id) else none
  | .post j => if j = id then some (.ending id) else none
  | .client => none

/-- The stage of a node at which a piece of work on it is to be done. -/
def Work.stage? (id : NodeId) : Work → Option Stage
  | .build _ => none
  | .program purpose _ => purpose.stage? id
  | .children j | .register j => if j = id then some .made else none
  | .finish j => if j = id then some (.joined id) else none

/-- The stages of a node at which work on it is to be done. -/
def Work.stages (id : NodeId) (ws : List Work) : List Stage := ws.filterMap (Work.stage? id)

namespace Work

variable {id : NodeId}

@[simp] lemma stages_nil : stages id [] = [] := rfl

@[simp] lemma stages_cons (w : Work) (ws : List Work) :
    stages id (w :: ws) = (w.stage? id).toList ++ stages id ws := by
  rw [stages, List.filterMap_cons]
  cases w.stage? id <;> rfl

lemma stages_singleton (w : Work) : stages id [w] = (w.stage? id).toList := by simp

@[simp] lemma stages_append (ws ws' : List Work) :
    stages id (ws ++ ws') = stages id ws ++ stages id ws' := List.filterMap_append

@[simp] lemma stages_build (ids : List NodeId) : stages id (ids.map .build) = [] := by
  induction ids with
  | nil => rfl
  | cons j ids ih => exact ih

end Work

/-- What a step does to a node: in it `w` is done and `ws` comes of it. -/
inductive Moves (id : NodeId) (w : Work) (ws : List Work) (t t' : Tree Handler) : Prop
  | rests (hwork : Work.stages id ws = (w.stage? id).toList) (hrests : t.Rests t' id)
  | begins (hw : w = .build id) (hwork : Work.stages id ws = [.opened])
      (hbefore : t.state? id = some .unparsed)
      (hafter : t'.stage id = ⟨some .bodyParsed, t.callsOf id ++ [.payload]⟩)
  | goes {a b : BuildState} {calls calls' : List Occasion} (hw : w.stage? id = some ⟨some a, calls⟩)
      (hle : a ≤ b)
      (hwork : Work.stages id ws = [⟨some b, calls'⟩] ∨
        Work.stages id ws = [] ∧ ⟨some b, calls'⟩ = Stage.done id)
      (hmove : t.stage id = ⟨some a, calls⟩ → t'.stage id = ⟨some b, calls'⟩)

namespace Moves

variable {id j : NodeId} {w : Work} {ws : List Work} {t t' t₁ : Tree Handler}

lemma of_stage (hwork : Work.stages id ws = (w.stage? id).toList)
    (hstage : t'.stage id = t.stage id) : Moves id w ws t t' := .rests hwork (.inl hstage)

/-- A piece of work on one node moves it on to a state. -/
lemma advance {state next : BuildState} {calls : List Occasion} (hsame : t₁.stage id = t.stage id)
    (hw : w.stage? id = if j = id then some ⟨some state, calls⟩ else none)
    (hwork : j = id → Work.stages id ws = [⟨some (state.later next), calls⟩] ∨
      Work.stages id ws = [] ∧ ⟨some (state.later next), calls⟩ = Stage.done id)
    (helsewhere : j ≠ id → Work.stages id ws = []) : Moves id w ws t (t₁.advance j next) := by
  by_cases hj : j = id
  · subst hj
    rw [if_pos rfl] at hw
    exact .goes hw (state.le_later next) (hwork rfl) fun h =>
      Tree.stage_advance (hsame.trans h) next
  · rw [if_neg hj] at hw
    refine .of_stage ?_ ((Tree.stage_update_of_ne (Ne.symm hj) _).trans hsame)
    rw [helsewhere hj, hw]
    rfl

end Moves

namespace Purpose

open TaggedOutline.Tree

variable {t : Tree Handler} {id : NodeId}

/-- The end of a program moves its node on. -/
lemma moves_close {α : Type} (purpose : Purpose α) (result : Except BuildError α) :
    Moves id (.program purpose (.done result)) (purpose.close result t).1 t
      (purpose.close result t).2 := by
  cases purpose with
  | payload j =>
    refine .advance ?_ rfl (fun hj => .inl ?_) fun hj => by simp [close, Work.stage?, hj]
    split
    · exact stage_update fun _ => rfl
    · rfl
    · exact stage_update fun _ => rfl
    · simp only [close, Work.stages_cons, Work.stage?, hj, if_true]
      rfl
  | register j =>
    refine .advance ?_ rfl (fun hj => .inl ?_) fun hj => by simp [close, Work.stage?, hj]
    split
    · rfl
    · exact stage_update fun _ => rfl
    · simp only [close, Work.stages_cons, Work.stage?, hj, if_true]
      rfl
  | post j =>
    refine .advance ?_ rfl (fun hj => .inr ⟨rfl, rfl⟩) fun _ => rfl
    split
    · rfl
    · exact stage_update fun _ => rfl
  | client => exact .of_stage rfl rfl

end Purpose

namespace Setup

open TaggedOutline.Tree

variable (s : Setup) {t : Tree Handler} {id : NodeId}

/-- A program leaves every node at its stage, but its end moves its own node on. -/
lemma moves_performHook {α : Type} (purpose : Purpose α) (hook : Hook α)
    (hcareful : hook.isCareful t = true) :
    Moves id (.program purpose hook) (s.performHook purpose hook t).1 t
      (s.performHook purpose hook t).2 := by
  have hstays : ∀ hook, Work.stages id [.program purpose hook] = (purpose.stage? id).toList :=
    fun hook => Work.stages_singleton _
  cases hook with
  | done result => exact purpose.moves_close result
  | look next => exact .of_stage (hstays _) rfl
  | edit j change next => exact .of_stage (hstays _) (stage_update fun _ => rfl)
  | note line next =>
    refine .of_stage (hstays _) ?_
    rw [performHook, stage, callsOf, calls_log_note]
    rfl
  | build j next => exact .of_stage (hstays _) rfl
  | insertText parent text next =>
    rw [performHook, addItems_eq]
    refine .rests ?_ (rests_addSeeds (of_decide_eq_true hcareful) fun n hn => ?_)
    · rw [Work.stages_append, Work.stages_build, hstays]
      rfl
    · exact BodyItem.isSeed_of_mem (mem_newNodes hn)
  | insertSpec parent spec next =>
    have hadd : t.add (.ofSpec parent true spec) =
        t.addSeeds parent [.node (.ofSpec parent true spec)] := rfl
    rw [performHook, hadd]
    refine .rests (hstays _) (rests_addSeeds (of_decide_eq_true hcareful) fun n hn => ?_)
    obtain rfl := List.mem_singleton.mp hn
    exact .ofSpec parent true spec
  | override j tag handler next => exact .of_stage (hstays _) (stage_update fun _ => rfl)
  | setAction j action next => exact .of_stage (hstays _) (stage_update fun _ => rfl)

lemma moves_build (harena : t.IsArena) (j : NodeId) :
    Moves id (.build j) (s.perform (.build j) t).1 t (s.perform (.build j) t).2 := by
  rw [perform]
  rcases hn : t.node? j with - | n
  · exact .of_stage rfl rfl
  · by_cases hstate : n.state = .unparsed
    · obtain ⟨h, t', hresolve, hopens⟩ := s.opens_of_unparsed harena hn hstate
      have hcalls : t'.callsOf id = t.callsOf id := by
        rw [callsOf, callsOf, calls_congr hopens.journal]
      simp only [hstate, if_true, hresolve]
      by_cases hj : j = id
      · subst hj
        refine .begins rfl (by simp [Work.stage?, Purpose.stage?]) ?_ ?_
        · rw [state?_of_node? hn, hstate]
        · rw [stage_log_self, state?_of_node? hopens.here, hcalls]
      · refine .rests (by simp [Work.stage?, Purpose.stage?, hj]) ?_
        have hrests := hopens.rests (fun k hk => (s.isSeed_of_mem_opened h j n k hk).state)
          (Ne.symm hj)
        exact hrests.trans_eq (stage_log_of_ne (Ne.symm hj) _)
    · simp only [hstate, if_false]
      exact .of_stage rfl rfl

lemma moves_register (harena : t.IsArena) (j : NodeId) :
    Moves id (.register j) (s.perform (.register j) t).1 t (s.perform (.register j) t).2 := by
  have hparent : (t.advance j .childrenBuilt).parent? j = t.parent? j :=
    parent?_congr (place?_advance t j .childrenBuilt j)
  have hresolved := (s.registry.recalls_resolve (t.advance j .childrenBuilt) j).stage id
  rw [perform]
  simp only [hparent]
  by_cases hj : j = id
  · subst hj
    rcases hparent : t.parent? j with - | parent
    · refine .goes (b := .registered) (if_pos rfl) (by decide) (.inl (by simp [Work.stage?]; rfl))
        fun h => ?_
      obtain ⟨n, hn, -⟩ := exists_node?_of_state? (congrArg Stage.state h)
      obtain rfl : j = Tree.root := by
        by_contra hne
        cases hparent.symm.trans (harena.parent?_eq (place?_of_node? hn) hne)
      exact stage_advance (stage_advance h _) _
    · have hne : j ≠ Tree.root := by
        rintro rfl
        cases hparent.symm.trans harena.parent?_root
      refine .goes (b := .childrenBuilt) (if_pos rfl) (by decide)
        (.inl (by simp [Work.stage?, Purpose.stage?]; rfl)) fun h => ?_
      rw [Occasion.dropLast_due hne]
      exact stage_log_of_stage (hresolved.trans (stage_advance h _)) .register
  · have hstage : ∀ state, (t.advance j state).stage id = t.stage id := fun state =>
      stage_update_of_ne (Ne.symm hj) _
    rcases t.parent? j with - | parent
    · refine .of_stage (by simp [Work.stage?, hj]) ?_
      exact (stage_update_of_ne (Ne.symm hj) _).trans (hstage _)
    · refine .of_stage (by simp [Work.stage?, Purpose.stage?, hj]) ?_
      exact (stage_log_of_ne (Ne.symm hj) _).trans (hresolved.trans (hstage _))

lemma moves_finish (j : NodeId) :
    Moves id (.finish j) (s.perform (.finish j) t).1 t (s.perform (.finish j) t).2 := by
  have hresolved := (s.registry.recalls_resolve t j).stage id
  rw [perform]
  dsimp only
  by_cases hj : j = id
  · subst hj
    refine .goes (b := .registered) (if_pos rfl) (by decide)
      (.inl (by simp [Work.stage?, Purpose.stage?]; rfl)) fun h => ?_
    rw [← Occasion.dropLast_due_append]
    exact stage_log_of_stage (hresolved.trans h) .post
  · refine .of_stage (by simp [Work.stage?, Purpose.stage?, hj]) ?_
    exact (stage_log_of_ne (Ne.symm hj) _).trans hresolved

/-- What a step does to each node. -/
lemma moves_perform (harena : t.IsArena) (w : Work) (hcareful : w.isCareful t = true)
    (id : NodeId) : Moves id w (s.perform w t).1 t (s.perform w t).2 := by
  cases w with
  | build j => exact s.moves_build harena j
  | program purpose hook => exact s.moves_performHook purpose hook hcareful
  | children j => exact .of_stage (by simp [perform, Work.stage?]) rfl
  | register j => exact s.moves_register harena j
  | finish j => exact s.moves_finish j

end Setup

/-! ## No node is worked on twice -/

/-- There is no such node, or no work on it is open: its build has not begun or has ended. -/
def Stage.IsIdle (id : NodeId) (stage : Stage) : Prop :=
  stage = .absent ∨ stage = .waiting ∨ stage = .done id

/-- Each node is at the stage of the work on it, or no work on it is open. -/
def Moment.IsStaged (m : Moment) : Prop :=
  ∀ id, Work.stages id m.work = [m.tree.stage id] ∨
    Work.stages id m.work = [] ∧ (m.tree.stage id).IsIdle id

/-- Work is open on a node only where its build has begun, and not all its calls may be made. -/
lemma Work.of_mem_stages {id : NodeId} {ws : List Work} {stage : Stage}
    (h : stage ∈ Work.stages id ws) :
    (∃ state, stage.state = some state ∧ state ≠ .unparsed) ∧ stage.calls <+: Occasion.due id := by
  obtain ⟨w, -, hw⟩ := List.mem_filterMap.mp h
  have hfirst : [Occasion.payload] <+: Occasion.due id := by
    unfold Occasion.due
    split <;> exact ⟨_, rfl⟩
  cases w with
  | build j => cases hw
  | program purpose hook =>
    cases purpose with
    | payload j =>
      obtain ⟨-, ⟨⟩⟩ := Option.ite_none_right_eq_some.mp hw
      exact ⟨⟨_, rfl, by decide⟩, hfirst⟩
    | register j =>
      obtain ⟨-, ⟨⟩⟩ := Option.ite_none_right_eq_some.mp hw
      exact ⟨⟨_, rfl, by decide⟩, List.dropLast_prefix _⟩
    | post j =>
      obtain ⟨-, ⟨⟩⟩ := Option.ite_none_right_eq_some.mp hw
      exact ⟨⟨_, rfl, by decide⟩, List.prefix_rfl⟩
    | client => cases hw
  | children j | register j =>
    obtain ⟨-, ⟨⟩⟩ := Option.ite_none_right_eq_some.mp hw
    exact ⟨⟨_, rfl, by decide⟩, hfirst⟩
  | finish j =>
    obtain ⟨-, ⟨⟩⟩ := Option.ite_none_right_eq_some.mp hw
    exact ⟨⟨_, rfl, by decide⟩, List.dropLast_prefix _⟩

namespace Moment.IsStaged

variable {m : Moment} {id : NodeId}

lemma idle_of_unparsed (h : m.IsStaged) (hstate : m.tree.state? id = some .unparsed) :
    Work.stages id m.work = [] ∧ m.tree.stage id = .waiting := by
  have heq : (m.tree.stage id).state = some .unparsed := hstate
  rcases h id with hopen | ⟨hnone, habsent | hwaiting | hdone⟩
  · obtain ⟨⟨state, hsome, hne⟩, -⟩ :=
      Work.of_mem_stages (hopen ▸ List.mem_singleton_self _ : m.tree.stage id ∈ _)
    exact absurd (Option.some.inj (hsome.symm.trans heq)) hne
  · cases (congrArg Stage.state habsent).symm.trans heq
  · exact ⟨hnone, hwaiting⟩
  · cases (congrArg Stage.state hdone).symm.trans heq

lemma idle_of_absent (h : m.IsStaged) (hstate : m.tree.state? id = none) :
    Work.stages id m.work = [] ∧ m.tree.stage id = .absent := by
  have heq : (m.tree.stage id).state = none := hstate
  rcases h id with hopen | ⟨hnone, habsent | hwaiting | hdone⟩
  · obtain ⟨⟨state, hsome, -⟩, -⟩ :=
      Work.of_mem_stages (hopen ▸ List.mem_singleton_self _ : m.tree.stage id ∈ _)
    cases hsome.symm.trans heq
  · exact ⟨hnone, habsent⟩
  · cases (congrArg Stage.state hwaiting).symm.trans heq
  · cases (congrArg Stage.state hdone).symm.trans heq

lemma stage_of_work (h : m.IsStaged) {w : Work} {rest : List Work} (hwork : m.work = w :: rest)
    {stage : Stage} (hw : w.stage? id = some stage) :
    m.tree.stage id = stage ∧ Work.stages id rest = [] := by
  have hstages : Work.stages id m.work = stage :: Work.stages id rest := by
    rw [hwork, Work.stages_cons, hw]
    rfl
  rcases h id with hopen | ⟨hnone, -⟩
  · obtain ⟨rfl, hrest⟩ := List.cons.inj (hstages.symm.trans hopen)
    exact ⟨rfl, hrest⟩
  · cases hstages.symm.trans hnone

/-- The calls of a node are the first ones of those that are due. -/
lemma callsOf_isPrefix (h : m.IsStaged) (id : NodeId) :
    m.tree.callsOf id <+: Occasion.due id := by
  change (m.tree.stage id).calls <+: _
  rcases h id with hopen | ⟨-, habsent | hwaiting | hdone⟩
  · exact (Work.of_mem_stages (hopen ▸ List.mem_singleton_self _ : m.tree.stage id ∈ _)).2
  · rw [habsent]
    exact List.nil_prefix
  · rw [hwaiting]
    exact List.nil_prefix
  · rw [hdone]
    exact List.prefix_rfl

/-- One step. -/
lemma moves {w : Work} {ws rest : List Work} {t' : Tree Handler} (h : m.IsStaged)
    (hwork : m.work = w :: rest) (hmoves : ∀ id, Moves id w ws m.tree t') :
    (⟨ws ++ rest, t'⟩ : Moment).IsStaged := by
  intro id
  have hstages : Work.stages id m.work = (w.stage? id).toList ++ Work.stages id rest := by
    rw [hwork, Work.stages_cons]
  rw [Work.stages_append]
  rcases hmoves id with ⟨hws, hsame | ⟨hnone, hnew⟩⟩ | ⟨hw, hws, hbefore, hafter⟩ |
    ⟨hw, -, hws, hmove⟩
  · rw [hws, ← hstages, hsame]
    exact h id
  · obtain ⟨hidle, habsent⟩ := h.idle_of_absent hnone
    rw [hws, ← hstages, hidle, hnew]
    refine .inr ⟨rfl, .inr (.inl ?_)⟩
    exact congrArg (Stage.mk _) (congrArg Stage.calls habsent)
  · obtain ⟨hidle, hwaiting⟩ := h.idle_of_unparsed hbefore
    have hcalls : m.tree.callsOf id = [] := congrArg Stage.calls hwaiting
    rw [hidle, hw] at hstages
    have hrest : Work.stages id rest = [] := hstages.symm
    rw [hws, hrest, hafter, hcalls]
    exact .inl rfl
  · obtain ⟨hstage, hrest⟩ := h.stage_of_work hwork hw
    rw [hrest, hmove hstage]
    rcases hws with hws | ⟨hws, hdone⟩
    · rw [hws]
      exact .inl rfl
    · rw [hws, hdone]
      exact .inr ⟨rfl, .inr (.inr rfl)⟩

/-- In one step no node goes back. -/
lemma le_of_moves {w : Work} {ws rest : List Work} {t' : Tree Handler} (h : m.IsStaged)
    (hwork : m.work = w :: rest) (hmoves : Moves id w ws m.tree t') {state : BuildState}
    (hstate : m.tree.state? id = some state) : ∃ state', t'.state? id = some state' ∧
      state ≤ state' := by
  rcases hmoves with ⟨-, hsame | ⟨hnone, -⟩⟩ | ⟨-, -, hbefore, hafter⟩ | ⟨hw, hle, -, hmove⟩
  · exact ⟨state, (congrArg Stage.state hsame).trans hstate, Nat.le_refl state.rank⟩
  · cases hnone.symm.trans hstate
  · obtain rfl := Option.some.inj (hbefore.symm.trans hstate)
    exact ⟨_, congrArg Stage.state hafter, by decide⟩
  · obtain ⟨hstage, -⟩ := h.stage_of_work hwork hw
    obtain rfl := Option.some.inj (hstate.symm.trans (congrArg Stage.state hstage))
    exact ⟨_, congrArg Stage.state (hmove hstage), hle⟩

/-- A node waits until its own build is to be done. -/
lemma waits_of_moves {w : Work} {ws rest : List Work} {t' : Tree Handler} (h : m.IsStaged)
    (hwork : m.work = w :: rest) (hmoves : Moves id w ws m.tree t') (hw : w ≠ .build id)
    (hstate : m.tree.state? id = some .unparsed) : t'.state? id = some .unparsed := by
  rcases hmoves with ⟨-, hsame | ⟨hnone, -⟩⟩ | ⟨hbuild, -⟩ | ⟨hstage, -, -, -⟩
  · exact (congrArg Stage.state hsame).trans hstate
  · cases hnone.symm.trans hstate
  · exact absurd hbuild hw
  · obtain ⟨hnone, -⟩ := h.idle_of_unparsed hstate
    rw [hwork, Work.stages_cons, hstage] at hnone
    exact absurd hnone (List.cons_ne_nil _ _)

end Moment.IsStaged

/-! ## No node is forgotten -/

/-- Whether a program that ends with the payload of a node leads to the build of another one. -/
def Purpose.Brings (t : Tree Handler) (id : NodeId) {α : Type} : Purpose α → Prop
  | .payload j => t.parent? id = some j
  | _ => False

/-- Whether a piece of work leads to the build of a node: it is that build, or the build of the node
above before it comes to its children. -/
def Work.Brings (t : Tree Handler) (id : NodeId) : Work → Prop
  | .build j => j = id
  | .program purpose _ => purpose.Brings t id
  | .children j => t.parent? id = some j
  | _ => False

lemma Work.Brings.congr {t t' : Tree Handler} {id : NodeId} {w : Work} (h : w.Brings t id)
    (hparent : t'.parent? id = t.parent? id) : w.Brings t' id := by
  cases w with
  | build j => exact h
  | program purpose hook =>
    cases purpose with
    | payload j => exact hparent.trans h
    | register j | post j | client => exact False.elim h
  | children j => exact hparent.trans h
  | register j | finish j => exact False.elim h

/-- Some work leads to the build of each node whose build has not begun.  The root is built if
someone asks for it. -/
def Moment.IsAwaiting (m : Moment) : Prop :=
  ∀ id, id ≠ Tree.root → m.tree.state? id = some .unparsed → ∃ w ∈ m.work, w.Brings m.tree id

lemma Tree.Extends.parent?_eq {H : Type} {t t' : Tree H} {id : NodeId} (h : t.Extends t')
    (hid : id < t.size) : t'.parent? id = t.parent? id := by
  obtain ⟨p, hp⟩ := exists_place?_of_lt hid
  obtain ⟨p', hp', -, hparent, -⟩ := h.place hp
  rw [parent?_eq_of_place? hp, parent?_eq_of_place? hp', hparent]

lemma Tree.Extends.size_le {H : Type} {t t' : Tree H} (h : t.Extends t') : t.size ≤ t'.size :=
  Nat.le_of_not_lt fun hlt => (h.lt_size hlt).false

lemma Tree.length_newNodes_le (seeds : List (Child (Node Handler))) :
    (newNodes seeds).length ≤ seeds.length := by
  induction seeds with
  | nil => exact Nat.le_refl 0
  | cons seed seeds ih =>
    cases seed with
    | text s => exact Nat.le_succ_of_le ih
    | node n => exact Nat.succ_le_succ ih

namespace Setup

open TaggedOutline.Tree

variable (s : Setup) {t : Tree Handler} {id : NodeId}

/-- A program builds the nodes that it makes. -/
lemma exists_brings_of_hook {α : Type} (purpose : Purpose α) (hook : Hook α)
    (hcareful : hook.isCareful t = true) (hold : t.size ≤ id)
    (hnew : id < (s.performHook purpose hook t).2.size) :
    ∃ v ∈ (s.performHook purpose hook t).1, v.Brings (s.performHook purpose hook t).2 id := by
  have hsame : (s.performHook purpose hook t).2.size ≠ t.size := fun h =>
    absurd hold (Nat.not_le_of_lt (h ▸ hnew))
  cases hook with
  | done result => exact absurd (size_congr (purpose.place?_close result t)) hsame
  | look next => exact absurd rfl hsame
  | edit j change next => exact absurd (size_update t j _) hsame
  | note line next => exact absurd rfl hsame
  | build j next => exact absurd rfl hsame
  | insertText parent text next =>
    obtain ⟨n, hn⟩ := exists_node?_of_lt (of_decide_eq_true hcareful : parent < t.size)
    rw [performHook, addItems_eq] at hnew
    rw [performHook]
    generalize (Body.parse s.settings.layout text).filter _ = tags at hnew ⊢
    have hparent : ∀ m ∈ newNodes (tags.map (BodyItem.seed s.settings.layout parent true)),
        m.parent = parent := fun m hm => (BodyItem.isSeed_of_mem (mem_newNodes hm)).parent
    have hsize := (addSeeds_spec hn hparent).1
    have hle := length_newNodes_le (tags.map (BodyItem.seed s.settings.layout parent true))
    rw [List.length_map] at hle
    obtain ⟨k, rfl⟩ := Nat.exists_eq_add_of_le hold
    replace hnew : t.size + k < t.size + _ := hnew.trans_eq hsize
    have hk : k < tags.length := by omega
    refine ⟨.build (t.size + k), List.mem_append_left _ ?_, rfl⟩
    exact List.mem_map_of_mem (List.mem_map_of_mem (List.mem_range.mpr hk))
  | insertSpec parent spec next =>
    have hsize : (t.add (.ofSpec parent true spec)).size = t.size + 1 := size_add t _
    rw [performHook, hsize] at hnew
    exact ⟨.build t.size, List.mem_cons_self, Nat.le_antisymm hold (Nat.le_of_lt_succ hnew)⟩
  | override j tag handler next => exact absurd (size_update t j _) hsame
  | setAction j action next => exact absurd (size_update t j _) hsame

/-- The step that makes a node leaves work that leads to its build. -/
lemma exists_brings_of_new (harena : t.IsArena) (w : Work) (hcareful : w.isCareful t = true)
    (hold : t.size ≤ id) (hnew : id < (s.perform w t).2.size) :
    ∃ v ∈ (s.perform w t).1, v.Brings (s.perform w t).2 id := by
  have hsame : (s.perform w t).2.size ≠ t.size := fun h =>
    absurd hold (Nat.not_le_of_lt (h ▸ hnew))
  -- only the build of a node that is not parsed yet and a hook can add nodes
  cases w with
  | build j =>
    rw [perform] at hsame hnew ⊢
    rcases hn : t.node? j with - | n
    · simp only [hn] at hsame
      exact absurd rfl hsame
    · by_cases hstate : n.state = .unparsed
      · obtain ⟨h, t', hresolve, hopens⟩ := s.opens_of_unparsed harena hn hstate
        simp only [hn, hstate, if_true, hresolve] at hnew ⊢
        refine ⟨_, List.mem_singleton_self _, ?_⟩
        obtain ⟨k, rfl⟩ := Nat.exists_eq_add_of_le hold
        have hlt : t.size + k < t'.size := hnew
        obtain ⟨m, hm⟩ : ∃ m, t'.node? (t.size + k) = some m := ⟨_, Array.getElem?_eq_getElem hlt⟩
        have hmem := List.mem_of_getElem? ((hopens.added k).symm.trans hm)
        have hparent : m.parent = j := (s.isSeed_of_mem_opened h j n m hmem).parent
        have hne : j ≠ t.size + k :=
          Nat.ne_of_lt (Nat.lt_of_lt_of_le (lt_size_of_node? hn) (Nat.le_add_right _ _))
        change t'.parent? (t.size + k) = some j
        rw [parent?, hm]
        simp only [hparent, if_neg hne]
      · simp only [hn, hstate, if_false] at hsame
        exact absurd rfl hsame
  | program purpose hook => exact s.exists_brings_of_hook purpose hook hcareful hold hnew
  | children j => exact absurd rfl hsame
  | register j =>
    have hplace : ∀ i, (s.perform (.register j) t).2.place? i = t.place? i := fun i => by
      rw [perform]
      dsimp only
      split <;> simp
    exact absurd (size_congr hplace) hsame
  | finish j => exact absurd (size_congr (s.registry.place?_resolve t j)) hsame

lemma state?_perform_build (harena : t.IsArena) {n : Node Handler} (hn : t.node? id = some n)
    (hstate : n.state = .unparsed) : (s.perform (.build id) t).2.state? id = some .bodyParsed := by
  obtain ⟨h, t', hresolve, hopens⟩ := s.opens_of_unparsed harena hn hstate
  simp only [perform, hn, hstate, if_true, hresolve]
  exact state?_of_node? hopens.here

/-- Work that leads to the build of a node leaves such work, until that build begins. -/
lemma exists_brings_of_brings (harena : t.IsArena) {w : Work} (hcareful : w.isCareful t = true)
    (hid : id < t.size) (hw : w.Brings t id)
    (hstate : (s.perform w t).2.state? id = some .unparsed) :
    ∃ v ∈ (s.perform w t).1, v.Brings (s.perform w t).2 id := by
  have hparent := (extends_perform w t hcareful (s := s)).parent?_eq hid
  cases w with
  | build j =>
    obtain rfl : j = id := hw
    obtain ⟨n, hn⟩ := exists_node?_of_lt hid
    by_cases hunparsed : n.state = .unparsed
    · cases (s.state?_perform_build harena hn hunparsed).symm.trans hstate
    · simp only [perform, hn, hunparsed, if_false] at hstate
      exact absurd (Option.some.inj ((state?_of_node? hn).symm.trans hstate)) hunparsed
  | program purpose hook =>
    cases purpose with
    | payload j =>
      have hup : (s.performHook (.payload j) hook t).2.parent? id = some j := hparent.trans hw
      cases hook with
      | done result | look next | edit i change next | note line next | override i tag handler next
      | setAction i action next => exact ⟨_, List.mem_singleton_self _, hup⟩
      | build i next | insertSpec parent spec next =>
        exact ⟨_, List.mem_cons_of_mem _ (List.mem_singleton_self _), hup⟩
      | insertText parent text next =>
        exact ⟨_, List.mem_append_right _ (List.mem_singleton_self _), hup⟩
    | register j | post j | client => exact False.elim hw
  | children j =>
    have hmem : id ∈ t.childNodes j := harena.mem_childNodes_iff.mpr hw
    exact ⟨.build id, List.mem_append_left _ (List.mem_map_of_mem hmem), rfl⟩
  | register j | finish j => exact False.elim hw

/-! ## All moments -/

end Setup

/-- What is true at every moment. -/
structure Moment.IsRegular (m : Moment) : Prop where
  isArena : m.tree.IsArena
  isStaged : m.IsStaged
  isAwaiting : m.IsAwaiting

namespace Setup

open TaggedOutline.Tree

variable {s : Setup} {m m' : Moment} {id : NodeId}

lemma isRegular_of_isStart (h : s.IsStart m) : m.IsRegular := by
  refine ⟨isArena_of_isStart h, fun id => .inr ?_, fun id hid hstate => ?_⟩
  · cases h with
    | ofText text program | ofSpec spec program =>
      refine ⟨rfl, ?_⟩
      cases id with
      | zero => exact .inr (.inl rfl)
      | succ id => exact .inl rfl
  · cases h with
    | ofText text program | ofSpec spec program =>
      cases id with
      | zero => exact absurd rfl hid
      | succ id => cases hstate

lemma le_of_next? (hm : m.IsRegular) (h : s.next? m = some m') {state : BuildState}
    (hstate : m.tree.state? id = some state) :
    ∃ state', m'.tree.state? id = some state' ∧ state ≤ state' := by
  obtain ⟨w, rest, hwork, hcareful, rfl⟩ := exists_of_next? h
  exact hm.isStaged.le_of_moves hwork (s.moves_perform hm.isArena w hcareful id) hstate

lemma isAwaiting_of_next? (hm : m.IsRegular) (h : s.next? m = some m') : m'.IsAwaiting := by
  intro id hid hstate
  rcases Nat.lt_or_ge id m.tree.size with hlt | hge
  · obtain ⟨n, hn⟩ := exists_node?_of_lt hlt
    obtain ⟨state, hstate', hle⟩ := le_of_next? hm h (state?_of_node? hn)
    obtain rfl := Option.some.inj (hstate.symm.trans hstate')
    have hunparsed : n.state = .unparsed := BuildState.eq_unparsed_of_le hle
    obtain ⟨v, hv, hbrings⟩ := hm.isAwaiting id hid (hunparsed ▸ state?_of_node? hn)
    obtain ⟨w, rest, hwork, hcareful, rfl⟩ := exists_of_next? h
    rw [hwork] at hv
    rcases List.mem_cons.mp hv with rfl | hv
    · obtain ⟨u, hu, hbrings'⟩ := s.exists_brings_of_brings hm.isArena hcareful hlt hbrings hstate
      exact ⟨u, List.mem_append_left _ hu, hbrings'⟩
    · have hparent := (extends_perform w m.tree hcareful (s := s)).parent?_eq hlt
      exact ⟨v, List.mem_append_right _ hv, hbrings.congr hparent⟩
  · obtain ⟨w, rest, -, hcareful, rfl⟩ := exists_of_next? h
    obtain ⟨n, hn, -⟩ := exists_node?_of_state? hstate
    obtain ⟨u, hu, hbrings⟩ :=
      s.exists_brings_of_new hm.isArena w hcareful hge (lt_size_of_node? hn)
    exact ⟨u, List.mem_append_left _ hu, hbrings⟩

lemma isRegular_of_next? (hm : m.IsRegular) (h : s.next? m = some m') : m'.IsRegular := by
  refine ⟨(extends_of_next? h).isArena hm.isArena, ?_, isAwaiting_of_next? hm h⟩
  obtain ⟨w, rest, hwork, hcareful, rfl⟩ := exists_of_next? h
  exact hm.isStaged.moves hwork (s.moves_perform hm.isArena w hcareful)

lemma isRegular_of_reaches (hm : m.IsRegular) (h : s.Reaches m m') : m'.IsRegular := by
  induction h with
  | refl => exact hm
  | tail _ hlast ih => exact isRegular_of_next? ih hlast

/-- No node goes back from one moment to a later one. -/
lemma le_of_reaches (hm : m.IsRegular) (h : s.Reaches m m') {state : BuildState}
    (hstate : m.tree.state? id = some state) :
    ∃ state', m'.tree.state? id = some state' ∧ state ≤ state' := by
  induction h with
  | refl => exact ⟨state, hstate, Nat.le_refl state.rank⟩
  | tail hfirst hlast ih =>
    obtain ⟨state₁, hstate₁, hle⟩ := ih
    obtain ⟨state₂, hstate₂, hle'⟩ := le_of_next? (isRegular_of_reaches hm hfirst) hlast hstate₁
    exact ⟨state₂, hstate₂, BuildState.le_trans hle hle'⟩

end Setup

/-- Whether it is someone outside who works on a tree. -/
def Work.IsClient : Work → Prop
  | .program .client _ => True
  | _ => False

lemma Work.IsClient.exists_hook {w : Work} (h : w.IsClient) :
    ∃ hook, w = .program .client hook := by
  cases w with
  | program purpose hook =>
    cases purpose with
    | client => exact ⟨hook, rfl⟩
    | payload j | register j | post j => exact False.elim h
  | build j | children j | register j | finish j => exact False.elim h

/-- While nothing is built, the build of every node has ended, unless that of the root has not
begun. -/
lemma Moment.IsRegular.done {m : Moment} (h : m.IsRegular) (hclient : ∀ w ∈ m.work, w.IsClient)
    {id : NodeId} {n : Node Handler} (hn : m.tree.node? id = some n) :
    m.tree.stage id = .done id ∨ id = Tree.root ∧ m.tree.stage id = .waiting := by
  have hnone : Work.stages id m.work = [] := by
    refine List.filterMap_eq_nil_iff.mpr fun w hw => ?_
    obtain ⟨hook, rfl⟩ := (hclient w hw).exists_hook
    rfl
  have hsome := Tree.state?_of_node? hn
  rcases h.isStaged id with hopen | ⟨-, habsent | hwaiting | hdone⟩
  · cases hnone.symm.trans hopen
  · cases hsome.symm.trans (congrArg Stage.state habsent)
  · refine .inr ⟨?_, hwaiting⟩
    by_contra hid
    obtain ⟨w, hw, hbrings⟩ := h.isAwaiting id hid (congrArg Stage.state hwaiting)
    obtain ⟨hook, rfl⟩ := (hclient w hw).exists_hook
    exact hbrings
  · exact .inl hdone

namespace Setup

open TaggedOutline.Tree

/-- The trees whose build has not begun. -/
inductive IsFresh (s : Setup) : Tree Handler → Prop
  | ofText (text : Text) : IsFresh s (s.ofText text)
  | ofSpec (spec : Spec) : IsFresh s (ofSpec spec)

section

variable {s : Setup} {t₀ t : Tree Handler} {id : NodeId} {n : Node Handler} {depth : Nat}

lemma isRegular_of_isFresh (h : s.IsFresh t₀) :
    (⟨[.build root], t₀⟩ : Moment).IsRegular := by
  have hstart : (⟨[.program .client (pure ())], t₀⟩ : Moment).IsRegular := by
    cases h with
    | ofText text => exact isRegular_of_isStart (IsStart.ofText text _ : s.IsStart _)
    | ofSpec spec => exact isRegular_of_isStart (IsStart.ofSpec spec _ : s.IsStart _)
  refine ⟨hstart.isArena, hstart.isStaged, fun id hid hstate => ?_⟩
  obtain ⟨w, hw, hbrings⟩ := hstart.isAwaiting id hid hstate
  obtain rfl := List.mem_singleton.mp hw
  exact False.elim hbrings

/-- After the build of the root every node is built, and all its hooks have been called. -/
lemma done_of_build (hfresh : s.IsFresh t₀) (hsafe : s.IsSafe ⟨[.build root], t₀⟩)
    (h : s.build depth t₀ root = some t) (hn : t.node? id = some n) : t.stage id = .done id := by
  have hregular := isRegular_of_isFresh hfresh
  have hreaches : s.Reaches ⟨[.build root], t₀⟩ ⟨[], t⟩ := does_of_build h [] hsafe
  have hend := isRegular_of_reaches hregular hreaches
  refine (hend.done (fun w hw => absurd hw List.not_mem_nil) hn).resolve_right ?_
  rintro ⟨rfl, hwaits⟩
  -- the build of the root has begun with the first step
  rcases hreaches.cases_head with heq | ⟨m, hfirst, hrest⟩
  · cases congrArg Moment.work heq
  · obtain ⟨w, rest, hwork, -, rfl⟩ := exists_of_next? hfirst
    obtain ⟨rfl, rfl⟩ := List.cons.inj hwork
    obtain ⟨n₀, hn₀, hstate⟩ : ∃ n₀, t₀.node? root = some n₀ ∧ n₀.state = .unparsed := by
      cases hfresh with
      | ofText text | ofSpec spec => exact ⟨_, rfl, rfl⟩
    obtain ⟨state, hstate', hle⟩ := le_of_reaches (isRegular_of_next? hregular hfirst) hrest
      (s.state?_perform_build hregular.isArena hn₀ hstate)
    obtain rfl := Option.some.inj (hstate'.symm.trans (congrArg Stage.state hwaits))
    exact absurd hle (by decide)

end

/-- A build of a node whose build has begun changes nothing and gives the payload of the node. -/
lemma reaches_of_begun (s : Setup) {t : Tree Handler} {id : NodeId} {n : Node Handler}
    (hn : t.node? id = some n) (hstate : n.state ≠ .unparsed) {α : Type} (purpose : Purpose α)
    (next : Option Payload → Hook α) (rest : List Work) :
    s.Reaches ⟨.program purpose (.build id next) :: rest, t⟩
      ⟨.program purpose (next n.payload) :: rest, t⟩ := by
  have hcareful : (Hook.build id next).isCareful t = true := decide_eq_true (lt_size_of_node? hn)
  have hpayload : t.payload? id = n.payload := by rw [payload?, hn, Option.bind_some]
  refine .head
    (b := ⟨.build id :: .program purpose (.look fun t => next (t.payload? id)) :: rest, t⟩) ?_
    (.head (b := ⟨.program purpose (.look fun t => next (t.payload? id)) :: rest, t⟩) ?_
      (.single ?_))
  · simp only [next?, Work.isCareful, hcareful, if_true]
    rfl
  · simp only [next?, Work.isCareful, if_true, perform, hn, hstate, if_false]
    rfl
  · simp only [next?, Work.isCareful, Hook.isCareful, if_true, perform, performHook,
      payload?_mapHandler, hpayload]
    rfl

/-- At every moment the hooks of each node have been called in their order and once each, as far as
they have been called; no node goes back to an earlier state; a build of a node whose build has
begun changes nothing and gives the payload that the node has; and while nothing is built, the
build of every node has ended with all its calls, unless nobody has built the root yet. -/
theorem built_once (s : Setup) {start m m' : Moment} (hstart : s.IsStart start)
    (h : s.Reaches start m) (h' : s.Reaches m m') :
    (∀ id, m.tree.callsOf id <+: Occasion.due id) ∧
    (∀ id n, m.tree.node? id = some n →
      ∃ n', m'.tree.node? id = some n' ∧ n.state ≤ n'.state) ∧
    (∀ id n, m.tree.node? id = some n → n.state ≠ .unparsed →
      (∀ depth, s.build (depth + 1) m.tree id = some m.tree) ∧
      ∀ (α : Type) (purpose : Purpose α) next rest,
        m.work = .program purpose (.build id next) :: rest →
          s.Reaches m ⟨.program purpose (next n.payload) :: rest, m.tree⟩) ∧
    ((∀ w ∈ m.work, w.IsClient) → ∀ id n, m.tree.node? id = some n →
      n.state = .built ∧ m.tree.callsOf id = Occasion.due id ∨
        id = root ∧ n.state = .unparsed ∧ m.tree.callsOf id = []) := by
  have hregular := isRegular_of_reaches (isRegular_of_isStart hstart) h
  refine ⟨hregular.isStaged.callsOf_isPrefix, fun id n hn => ?_,
    fun id n hn hstate => ⟨fun depth => ?_, ?_⟩, fun hclient id n hn => ?_⟩
  · obtain ⟨state, hstate, hle⟩ := le_of_reaches hregular h' (state?_of_node? hn)
    obtain ⟨n', hn', rfl⟩ := exists_node?_of_state? hstate
    exact ⟨n', hn', hle⟩
  · rw [build, buildOnce, hn]
    exact if_neg hstate
  · intro α purpose next rest hwork
    obtain ⟨work, t⟩ := m
    obtain rfl : work = _ := hwork
    exact s.reaches_of_begun hn hstate purpose next rest
  · have hsome := state?_of_node? hn
    refine (hregular.done hclient hn).imp (fun hdone => ?_) fun hfirst => ?_
    · obtain ⟨hstate, hcalls⟩ := Stage.mk.inj hdone
      exact ⟨Option.some.inj (hsome.symm.trans hstate), hcalls⟩
    · obtain ⟨hid, hwaiting⟩ := hfirst
      obtain ⟨hstate, hcalls⟩ := Stage.mk.inj hwaiting
      exact ⟨hid, Option.some.inj (hsome.symm.trans hstate), hcalls⟩

/-- A handler that builds its children from the last one on, takes over a tag beneath its node, adds
an entry to its node and another one next to it, and builds itself and the nodes above again and
again. -/
def restless : Handler where
  name := "restless".toList
  payload id := .look fun t =>
    .build ((t.childNodes id).getLastD id) fun _ => .build root fun _ =>
      .insertSpec id { tag := "entry".toList } fun entry =>
        .override id "again".toList "restless".toList <| .build entry fun p => .done (.ok p)
  register id parent := .build id fun _ => .build parent fun _ =>
    .insertText parent "entry\n".toList fun _ => pure ()
  post id := .build root fun _ => .build id fun _ => pure ()

/-- Someone builds a document with a restless element, and adds another one to it. -/
def restlessStart : Moment :=
  ⟨[.program .client <| .build root fun _ => .build 1 fun _ =>
      .insertText 2 "again\n  a\n  b\n".toList fun _ => pure ()],
    ofSpec { tag := "root".toList, children := [.node { tag := "restless".toList, children :=
      [.node { tag := "a".toList }, .node { tag := "b".toList }] }] }⟩

theorem built_once_from_restlessStart :
    let s : Setup :=
      { registry := { handlers := [("restless".toList, restless)] }, known := fun _ => restless }
    let m := s.after 12 restlessStart
    let m' := s.after 150 m
    (m.tree.callsOf 1 = [.payload] ∧ m.tree.callsOf 3 = [.payload, .register] ∧
      m.tree.callsOf 2 = []) ∧
      (m'.work.length = 0 ∧ m'.tree.size = 11 ∧ m'.tree.callsOf 3 = Occasion.due 3) ∧
      (∀ id, m.tree.callsOf id <+: Occasion.due id) ∧
      ∀ id n, m'.tree.node? id = some n → n.state = .built ∧
        m'.tree.callsOf id = Occasion.due id ∨
          id = root ∧ n.state = .unparsed ∧ m'.tree.callsOf id = [] := by
  intro s m m'
  have hm : s.Reaches restlessStart m := s.reaches_after 12 restlessStart
  have hm' : s.Reaches m m' := s.reaches_after 150 m
  have hend : m'.work.length = 0 := by decide +kernel
  have hclient : ∀ w ∈ m'.work, w.IsClient := fun w hw => by
    rw [List.length_eq_zero_iff.mp hend] at hw
    exact absurd hw List.not_mem_nil
  refine ⟨⟨by decide +kernel, by decide +kernel, by decide +kernel⟩,
    ⟨hend, by decide +kernel, by decide +kernel⟩, ?_, ?_⟩
  · exact (built_once s (.ofSpec _ _) hm hm').1
  · exact (built_once s (.ofSpec _ _) (hm.trans hm') .refl).2.2.2 hclient

end Setup

end TaggedOutline
