import Mathlib.Logic.Relation
import TaggedOutline.Proofs.Census
import TaggedOutline.Proofs.Places

/-!
# Trees while they are built

`Setup.build` gives the tree at the end of a build.  While it lasts, hooks see the tree half done,
change it and enter further builds.  A `Moment` is a tree with the work that is still to be done on
it, and `Setup.next?` does the next piece of that work.  The pieces are the steps of
`Setup.buildOnce` and `Setup.run`, and done one after the other they lead to the tree that those
give (`Setup.reaches_of_run`).

A caller from outside is a program like a hook, so that everything begins with one program and a
tree of one node.  A program may name only nodes of the tree, and may not move a node into the
document or out of it (`Hook.isCareful`); otherwise there is no next moment.

At every moment the tree is an arena, and no node moves from one moment to another one.
-/

namespace TaggedOutline

/-- Whether a program goes on with nodes that the tree has, and an edit leaves it alone whether the
node is part of the document. -/
def Hook.isCareful {α : Type} (t : Tree Handler) : Hook α → Bool
  | .done _ | .look _ | .note _ _ => true
  | .edit id change _ =>
    (t.node? id).any fun n => (change n.toFields).runtimeOnly == n.runtimeOnly
  | .build id _ | .insertText id _ _ | .insertSpec id _ _ | .override id _ _ _
  | .setAction id _ _ => decide (id < t.size)

/-- What a program is run for, by the kind of its result. -/
inductive Purpose : Type → Type where
  | payload (id : NodeId) : Purpose (Option Payload)
  | register (id : NodeId) : Purpose Unit
  | post (id : NodeId) : Purpose Unit
  /-- Someone outside works on the tree. -/
  | client : Purpose Unit

/-- A piece of work on a tree. -/
inductive Work : Type 1 where
  | build (id : NodeId)
  | program {α : Type} (purpose : Purpose α) (hook : Hook α)
  /-- Builds the children of a node, and then registers it. -/
  | children (id : NodeId)
  | register (id : NodeId)
  | finish (id : NodeId)

/-- Whether a piece of work goes on with nodes that the tree has. -/
def Work.isCareful (t : Tree Handler) : Work → Bool
  | .program _ hook => hook.isCareful t
  | _ => true

/-- A tree and the work that is still to be done on it. -/
structure Moment where
  work : List Work
  tree : Tree Handler

namespace Purpose

/-- What is done with the result of a program, and the work that comes after it. -/
def close {α : Type} : Purpose α → Except BuildError α → Tree Handler → List Work × Tree Handler
  | .payload id, result, t =>
    let t :=
      match result with
      | .ok (some p) => t.update id fun n => { n with payload := some p }
      | .ok none => t
      | .error e => t.record id e
    ([.children id], t.advance id .payloadBuilt)
  | .register id, result, t =>
    let t :=
      match result with
      | .ok () => t
      | .error e => t.record id e
    ([.finish id], t.advance id .registered)
  | .post id, result, t =>
    let t :=
      match result with
      | .ok () => t
      | .error e => t.record id e
    ([], t.advance id .built)
  | .client, _, t => ([], t)

lemma place?_close {α : Type} (purpose : Purpose α) (result : Except BuildError α)
    (t : Tree Handler) (j : NodeId) : (purpose.close result t).2.place? j = t.place? j := by
  cases purpose with
  | payload id =>
    simp only [close, Tree.place?_advance]
    split
    · exact Tree.place?_update_of_keeps (fun _ _ => by rfl) j
    · rfl
    · exact Tree.place?_record t id _ j
  | register id | post id =>
    simp only [close, Tree.place?_advance]
    split
    · rfl
    · exact Tree.place?_record t id _ j
  | client => rfl

end Purpose

/-- A program sees the payloads as they are. -/
lemma Tree.payload?_mapHandler {H K : Type} (f : H → K) (t : Tree H) (id : NodeId) :
    (t.mapHandler f).payload? id = t.payload? id := by
  simp only [payload?, node?, mapHandler, Array.getElem?_map]
  cases t.nodes[id]? <;> rfl

namespace Setup

open TaggedOutline.Tree

variable (s : Setup)

/-- Does the next step of a program.  What it builds is built before it goes on. -/
def performHook {α : Type} (purpose : Purpose α) :
    Hook α → Tree Handler → List Work × Tree Handler
  | .done result, t => purpose.close result t
  | .look next, t => ([.program purpose (next (t.mapHandler Handler.name))], t)
  | .edit id change next, t => ([.program purpose next], t.edit id change)
  | .note line next, t => ([.program purpose next], t.log (.note line))
  | .build id next, t => ([.build id, .program purpose (.look fun t => next (t.payload? id))], t)
  | .insertText parent text next, t =>
    let tags := (Body.parse s.settings.layout text).filter fun
      | .tag _ _ _ => true
      | .text _ => false
    let ids := (List.range tags.length).map (t.size + ·)
    (ids.map .build ++ [.program purpose (next ids)],
      t.addItems s.settings.layout parent true tags)
  | .insertSpec parent spec next, t =>
    ([.build t.size, .program purpose (next t.size)], t.add (.ofSpec parent true spec))
  | .override id tag key next, t => ([.program purpose next], t.override id tag (s.known key))
  | .setAction id action next, t => ([.program purpose next], t.setAction id action)

/-- Does a piece of work as far as the next program, and gives the work that comes of it. -/
def perform : Work → Tree Handler → List Work × Tree Handler
  | .build id, t =>
    match t.node? id with
    | none => ([], t)
    | some node =>
      if node.state = .unparsed then
        let (handler, t) := s.registry.resolve (s.expandBody (s.decodeHeader t id) id) id
        ([.program (.payload id) (handler.payload id)], t.log (.call .payload id))
      else ([], t)
  | .program purpose hook, t => s.performHook purpose hook t
  | .children id, t => ((t.childNodes id).map .build ++ [.register id], t)
  | .register id, t =>
    let t := t.advance id .childrenBuilt
    match t.parent? id with
    | none => ([.finish id], t.advance id .registered)
    | some parent =>
      let (handler, t) := s.registry.resolve t id
      ([.program (.register id) (handler.register id parent)], t.log (.call .register id))
  | .finish id, t =>
    let (handler, t) := s.registry.resolve t id
    ([.program (.post id) (handler.post id)], t.log (.call .post id))

/-- The next moment.  There is none where all is done, or where a program is not careful. -/
def next? (m : Moment) : Option Moment :=
  match m.work with
  | [] => none
  | w :: rest =>
    if w.isCareful m.tree then
      let (ws, t) := s.perform w m.tree
      some ⟨ws ++ rest, t⟩
    else none

/-- From one moment to a later one. -/
abbrev Reaches : Moment → Moment → Prop := Relation.ReflTransGen fun m m' => s.next? m = some m'

/-- The moments at which someone begins to work on a tree. -/
inductive IsStart : Moment → Prop
  | ofText (text : Text) (program : Hook Unit) :
      IsStart ⟨[.program .client program], s.ofText text⟩
  | ofSpec (spec : Spec) (program : Hook Unit) :
      IsStart ⟨[.program .client program], ofSpec spec⟩

/-! ## Moments and whole builds -/

/-- No program is careless at a moment or later. -/
def IsSafe (m : Moment) : Prop :=
  ∀ m', s.Reaches m m' → ∀ w ∈ m'.work.head?, w.isCareful m'.tree = true

/-- Some work is done with a tree, whatever comes after it. -/
def Does (ws : List Work) (t t' : Tree Handler) : Prop :=
  ∀ rest, s.IsSafe ⟨ws ++ rest, t⟩ → s.Reaches ⟨ws ++ rest, t⟩ ⟨rest, t'⟩

namespace Does

variable {s} {t t' t'' : Tree Handler} {w : Work} {ws ws' : List Work}

lemma nil (t : Tree Handler) : s.Does [] t t := fun _ _ => .refl

lemma append (h : s.Does ws t t') (h' : s.Does ws' t' t'') : s.Does (ws ++ ws') t t'' := by
  intro rest hsafe
  rw [List.append_assoc] at hsafe ⊢
  have hfirst := h (ws' ++ rest) hsafe
  exact hfirst.trans (h' rest fun m' hm' => hsafe m' (hfirst.trans hm'))

lemma step (h : s.perform w t = (ws, t')) (h' : s.Does ws t' t'') : s.Does [w] t t'' := by
  intro rest hsafe
  have hcareful : w.isCareful t = true := hsafe _ .refl w rfl
  have hnext : s.next? ⟨w :: rest, t⟩ = some ⟨ws ++ rest, t'⟩ := by
    simp only [next?, hcareful, h, if_true]
  exact (h' rest fun m' hm' => hsafe m' (.head hnext hm')).head hnext

lemma cons (h : s.Does [w] t t') (h' : s.Does ws t' t'') : s.Does (w :: ws) t t'' := append h h'

end Does

variable {s} {depth : Nat}

section

-- the builds inside a build are those of the depth below
variable (hbuild : ∀ t t' id, s.build depth t id = some t' → s.Does [.build id] t t')

include hbuild

lemma does_of_buildAll {ids : List NodeId} {t t' : Tree Handler}
    (h : buildAll (s.build depth) ids t = some t') : s.Does (ids.map .build) t t' := by
  induction ids generalizing t with
  | nil =>
    obtain rfl := Option.some.inj h
    exact .nil t
  | cons id ids ih =>
    obtain ⟨t₁, hfirst, hrest⟩ := Option.bind_eq_some_iff.mp h
    exact (hbuild t t₁ id hfirst).cons (ih hrest)

/-- A program that comes to its end is done step by step, and then what its purpose asks for. -/
lemma does_of_run {α : Type} {purpose : Purpose α} {hook : Hook α}
    {result : Except BuildError α} {t t' t'' : Tree Handler}
    (h : s.run (s.build depth) hook t = some (result, t'))
    (hclose : s.Does (purpose.close result t').1 (purpose.close result t').2 t'') :
    s.Does [.program purpose hook] t t'' := by
  induction hook generalizing t with
  | done =>
    obtain ⟨rfl, rfl⟩ := Prod.mk.inj (Option.some.inj h)
    exact .step rfl hclose
  | look next ih => exact .step rfl (ih _ h)
  | edit id change next ih => exact .step rfl (ih h)
  | note line next ih => exact .step rfl (ih h)
  | build id next ih =>
    obtain ⟨t₁, hfirst, hrest⟩ := Option.bind_eq_some_iff.mp h
    have hlook : s.perform (.program purpose (.look fun t => next (t.payload? id))) t₁ =
        ([.program purpose (next (t₁.payload? id))], t₁) := by
      rw [perform, performHook, payload?_mapHandler]
    exact .step rfl ((hbuild t t₁ id hfirst).cons (.step hlook (ih _ hrest)))
  | insertText parent text next ih =>
    obtain ⟨⟨ids, t₁⟩, hinsert, hrest⟩ := Option.bind_eq_some_iff.mp h
    obtain ⟨t₂, hall, heq⟩ := Option.bind_eq_some_iff.mp hinsert
    obtain ⟨rfl, rfl⟩ := Prod.mk.inj (Option.some.inj heq)
    exact .step rfl ((does_of_buildAll hbuild hall).append (ih _ hrest))
  | insertSpec parent spec next ih =>
    obtain ⟨⟨id, t₁⟩, hinsert, hrest⟩ := Option.bind_eq_some_iff.mp h
    obtain ⟨t₂, hfirst, heq⟩ := Option.bind_eq_some_iff.mp hinsert
    obtain ⟨rfl, rfl⟩ := Prod.mk.inj (Option.some.inj heq)
    exact .step rfl ((hbuild _ _ _ hfirst).cons (ih _ hrest))
  | override id tag handler next ih => exact .step rfl (ih h)
  | setAction id action next ih => exact .step rfl (ih h)

lemma does_of_finishNode {t t' : Tree Handler} {id : NodeId}
    (h : s.finishNode (s.build depth) t id = some t') : s.Does [.finish id] t t' := by
  obtain ⟨⟨result, t₁⟩, hrun, heq⟩ := Option.bind_eq_some_iff.mp h
  obtain rfl := Option.some.inj heq
  exact .step rfl (does_of_run hbuild hrun (.nil _))

lemma does_of_registerNode {t t₁ t' : Tree Handler} {id : NodeId}
    (h : s.registerNode (s.build depth) (t.advance id .childrenBuilt) id = some t₁)
    (hfinish : s.Does [.finish id] t₁ t') : s.Does [.register id] t t' := by
  rw [registerNode] at h
  split at h
  · next hroot =>
    obtain rfl := Option.some.inj h
    exact .step (by simp only [perform, hroot]) hfinish
  · next parent hparent =>
    rcases hresolve : s.registry.resolve (t.advance id .childrenBuilt) id with ⟨handler, t₀⟩
    rw [hresolve] at h
    obtain ⟨⟨result, t₂⟩, hrun, heq⟩ := Option.bind_eq_some_iff.mp h
    obtain rfl := Option.some.inj heq
    have hclose : s.Does ((Purpose.register id).close result t₂).1
        ((Purpose.register id).close result t₂).2 t' := hfinish
    exact .step (by simp only [perform, hparent, hresolve]) (does_of_run hbuild hrun hclose)

lemma does_of_makePayload {t t₁ t' : Tree Handler} {id : NodeId}
    (h : s.makePayload (s.build depth) t id = some t₁)
    (hchildren : s.Does [.children id] t₁ t') :
    s.Does [.program (.payload id) ((s.registry.resolve t id).1.payload id)]
      ((s.registry.resolve t id).2.log (.call .payload id)) t' := by
  obtain ⟨⟨result, t₂⟩, hrun, heq⟩ := Option.bind_eq_some_iff.mp h
  obtain rfl := Option.some.inj heq
  exact does_of_run hbuild hrun hchildren

end

/-- A build that comes to its end is done step by step. -/
lemma does_of_build {t t' : Tree Handler} {id : NodeId} (h : s.build depth t id = some t') :
    s.Does [.build id] t t' := by
  induction depth generalizing t t' id with
  | zero => cases h
  | succ depth ih =>
    have hbuild : ∀ t t' id, s.build depth t id = some t' → s.Does [.build id] t t' :=
      fun _ _ _ => ih
    rw [build, buildOnce] at h
    split at h
    · next hnone =>
      obtain rfl := Option.some.inj h
      exact .step (by rw [perform, hnone]) (.nil t)
    · next node hnode =>
      split at h
      · next hstate =>
        obtain ⟨t₁, hpayload, h⟩ := Option.bind_eq_some_iff.mp h
        obtain ⟨t₂, hall, h⟩ := Option.bind_eq_some_iff.mp h
        obtain ⟨t₃, hregister, hfinish⟩ := Option.bind_eq_some_iff.mp h
        have hrest : s.Does [.register id] t₂ t' :=
          does_of_registerNode hbuild hregister (does_of_finishNode hbuild hfinish)
        have hchildren : s.Does [.children id] t₁ t' :=
          .step rfl ((does_of_buildAll hbuild hall).append hrest)
        exact .step (by simp only [perform, hnode, hstate, if_true])
          (does_of_makePayload hbuild hpayload hchildren)
      · next hstate =>
        obtain rfl := Option.some.inj h
        exact .step (by simp only [perform, hnode, hstate, if_false]) (.nil t)

/-- What a caller gets at the end is the tree of a moment. -/
theorem reaches_of_run {program : Hook Unit} {result : Except BuildError Unit}
    {t t' : Tree Handler} (h : s.run (s.build depth) program t = some (result, t'))
    (hsafe : s.IsSafe ⟨[.program .client program], t⟩) :
    s.Reaches ⟨[.program .client program], t⟩ ⟨[], t'⟩ :=
  does_of_run (fun _ _ _ => does_of_build) h (.nil t') [] hsafe

/-! ## One step -/

/-- A step of a careful program leaves the places alone or adds nodes beneath one of the tree. -/
lemma extends_performHook {α : Type} (purpose : Purpose α) (hook : Hook α)
    (t : Tree Handler) (h : hook.isCareful t = true) :
    t.Extends (s.performHook purpose hook t).2 := by
  cases hook with
  | done result => exact .of_place?_eq (purpose.place?_close result t)
  | look next => exact .refl t
  | edit id change next =>
    refine .of_place?_eq (place?_edit fun n hn => ?_)
    simpa [Hook.isCareful, hn] using h
  | note line next => exact .of_place?_eq (place?_log t _)
  | build id next => exact .refl t
  | insertText parent text next =>
    exact extends_addItems (of_decide_eq_true h) (fun _ => rfl) _ _
  | insertSpec parent spec next => exact .add (of_decide_eq_true h) rfl fun _ => rfl
  | override id tag key next => exact .of_place?_eq (place?_override t id tag (s.known key))
  | setAction id action next => exact .of_place?_eq (place?_setAction t id action)

lemma extends_perform (w : Work) (t : Tree Handler) (h : w.isCareful t = true) :
    t.Extends (s.perform w t).2 := by
  cases w with
  | build id =>
    rw [perform]
    split
    · exact .refl t
    · split
      · have hdecode : t.Extends (s.decodeHeader t id) :=
          .of_place?_eq (s.place?_decodeHeader t id)
        refine (hdecode.trans (s.extends_expandBody _ id)).trans (.of_place?_eq ?_)
        exact s.registry.place?_resolve _ id
      · exact .refl t
  | program purpose hook => exact extends_performHook purpose hook t h
  | children id => exact .refl t
  | register id =>
    have hadvance : t.Extends (t.advance id .childrenBuilt) := .of_place?_eq (place?_advance t id _)
    rw [perform]
    dsimp only
    split
    · exact hadvance.trans (.of_place?_eq (place?_advance _ id _))
    · exact hadvance.trans (.of_place?_eq (s.registry.place?_resolve _ id))
  | finish id => exact .of_place?_eq (s.registry.place?_resolve t id)

lemma exists_of_next? {m m' : Moment} (h : s.next? m = some m') :
    ∃ w rest, m.work = w :: rest ∧ w.isCareful m.tree = true ∧
      m' = ⟨(s.perform w m.tree).1 ++ rest, (s.perform w m.tree).2⟩ := by
  rw [next?] at h
  split at h
  · cases h
  · next w rest hwork =>
    split at h
    · next hcareful => exact ⟨w, rest, hwork, hcareful, (Option.some.inj h).symm⟩
    · cases h

lemma extends_of_next? {m m' : Moment} (h : s.next? m = some m') : m.tree.Extends m'.tree := by
  obtain ⟨w, rest, -, hcareful, rfl⟩ := exists_of_next? h
  exact extends_perform w m.tree hcareful

/-! ## All moments -/

lemma extends_of_reaches {m m' : Moment} (h : s.Reaches m m') : m.tree.Extends m'.tree := by
  induction h with
  | refl => exact .refl m.tree
  | tail _ hstep ih => exact ih.trans (extends_of_next? hstep)

lemma isArena_of_isStart {m : Moment} (h : s.IsStart m) : m.tree.IsArena := by
  cases h with
  | ofText text program => exact isArena_of_singleton rfl rfl rfl rfl rfl
  | ofSpec spec program => exact isArena_of_singleton rfl rfl rfl rfl rfl

lemma isArena_of_later {start m : Moment} (hstart : s.IsStart start) (h : s.Reaches start m) :
    m.tree.IsArena :=
  (extends_of_reaches h).isArena (isArena_of_isStart hstart)

/-- The tree that a caller gets at the end is an arena. -/
lemma isArena_of_run {program : Hook Unit} {result : Except BuildError Unit}
    {t t' : Tree Handler} (hstart : s.IsStart ⟨[.program .client program], t⟩)
    (hsafe : s.IsSafe ⟨[.program .client program], t⟩)
    (h : s.run (s.build depth) program t = some (result, t')) : t'.IsArena :=
  isArena_of_later hstart (reaches_of_run h hsafe)

/-- At every moment the tree is an arena: each node but the root stands in one list of children, the
one of its parent, which was made before it, and nothing beneath a node outside the document is part
of the document.  So the way up from each node ends at the root, and the sketch of the root has all
nodes but those outside the document.  A node keeps its tag. -/
theorem isArena_of_reaches (s : Setup) {start m m' : Moment} (hstart : s.IsStart start)
    (h : s.Reaches start m) (h' : s.Reaches m m') :
    m.tree.IsArena ∧
    (∀ id n, m.tree.node? id = some n → id ≠ root →
      ((List.range m.tree.size).flatMap m.tree.childNodes).count id = 1 ∧
        id ∈ m.tree.childNodes n.parent ∧ (m.tree.ancestors id).getLast? = some root) ∧
    (∀ id, m.tree.isRuntimeOnly id = true →
      ∀ c ∈ m.tree.descendants id, m.tree.isRuntimeOnly c = true) ∧
    (∃ sketch, m.tree.sketch? root = some sketch ∧
      m.tree.size = sketch.size + (List.range m.tree.size).countP m.tree.isRuntimeOnly) ∧
    (∀ id n, m.tree.node? id = some n → ∃ n', m'.tree.node? id = some n' ∧ n'.tag = n.tag) := by
  have harena := isArena_of_later hstart h
  refine ⟨harena, fun id n hn hid => ?_, fun id => harena.isRuntimeOnly_of_mem_descendants,
    harena.size_eq, fun id n hn => ?_⟩
  · have hlt := lt_size_of_node? hn
    exact ⟨harena.count_flatMap_childNodes hid hlt, harena.mem_childNodes_parent hn hid,
      harena.getLast?_ancestors hid hlt⟩
  · obtain ⟨p', hp', hsame⟩ := (extends_of_reaches h').place (place?_of_node? hn)
    obtain ⟨n', hn', rfl⟩ := exists_node?_of_place? hp'
    exact ⟨n', hn', hsame.1⟩

/-- The moment after a number of steps, or the last one there is. -/
def after (s : Setup) : Nat → Moment → Moment
  | 0, m => m
  | n + 1, m =>
    match s.next? m with
    | some m' => s.after n m'
    | none => m

lemma reaches_after (s : Setup) (n : Nat) (m : Moment) : s.Reaches m (s.after n m) := by
  induction n generalizing m with
  | zero => exact .refl
  | succ n ih =>
    rw [after]
    split
    · next m' h => exact .head h (ih m')
    · exact .refl

/-- A handler that adds an entry beneath its node, where it takes over a tag itself, and a mark next
to it. -/
def memo : Handler where
  name := "memo".toList
  payload id := .insertSpec id { tag := "entry".toList } fun entry =>
    .override entry "more".toList "memo".toList (pure none)
  register _ parent := .insertSpec parent { tag := "mark".toList } fun mark =>
    .setAction mark .size (pure ())

/-- Someone builds a document with a memo and adds one more beneath its entry. -/
def memoStart : Moment :=
  ⟨[.program .client <| .build root fun _ => .insertText 2 "more\n  a\n".toList fun _ => pure ()],
    ofSpec { tag := "root".toList, children := [.node { tag := "memo".toList }] }⟩

theorem isArena_of_reaches_from_memoStart :
    let s : Setup := { registry := { handlers := [("memo".toList, memo)] }, known := fun _ => memo }
    let m := s.after 40 memoStart
    let m' := s.after 60 m
    m.work.length = 3 ∧ m.tree.size = 7 ∧ m'.work.length = 0 ∧ m'.tree.size = 8 ∧
      m.tree.IsArena ∧ ∃ sketch, m.tree.sketch? root = some sketch ∧
        m.tree.size = sketch.size + (List.range m.tree.size).countP m.tree.isRuntimeOnly := by
  intro s m m'
  obtain ⟨harena, -, -, hsize, -⟩ := isArena_of_reaches s (.ofSpec _ _)
    (s.reaches_after 40 memoStart) (s.reaches_after 60 m)
  exact ⟨by decide +kernel, by decide +kernel, by decide +kernel, by decide +kernel, harena, hsize⟩

end Setup

end TaggedOutline
