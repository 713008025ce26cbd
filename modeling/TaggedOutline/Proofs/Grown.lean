import TaggedOutline.Proofs.Bare
import TaggedOutline.Proofs.Subtree

/-!
# What a build makes of a node

Hooks that do nothing leave a build to itself.  Then everything beneath a node that has been built
follows from the node as it was: `Subtree.IsGrown` says of a built node with everything beneath it
that it is what its header and its body say, down to the last child, and `Subtree.traversal` are
the calls that were made on the way.

`Setup.raised_of_build` says that a build does that and nothing else.  The node may have children
from before, as long as their builds have begun; they are left alone.  Elsewhere in the tree no
more than a handler is remembered (`Tree.Spares`).
-/

namespace TaggedOutline

/-- The build of a node has ended, and it knows its handler. -/
def Node.IsDone (n : Node Handler) : Prop := n.state = .built ∧ ∃ h, n.handler = some h

namespace Tree

variable {t t' t'' : Tree Handler} {id : NodeId} {n : Node Handler}

/-- A node stays as it is, but it may remember its handler. -/
def Spares (t t' : Tree Handler) (id : NodeId) : Prop :=
  ∀ n, t.node? id = some n → ∃ n', t'.node? id = some n' ∧ n.Remembers n'

namespace Spares

lemma refl (t : Tree Handler) (id : NodeId) : t.Spares t id := fun n hn => ⟨n, hn, .refl n⟩

lemma trans (h : t.Spares t' id) (h' : t'.Spares t'' id) : t.Spares t'' id := by
  intro n hn
  obtain ⟨n', hn', hremembers⟩ := h n hn
  obtain ⟨n'', hn'', hremembers'⟩ := h' n' hn'
  exact ⟨n'', hn'', hremembers.trans hremembers'⟩

lemma of_eq (h : t'.node? id = t.node? id) : t.Spares t' id := fun n hn =>
  ⟨n, h.trans hn, .refl n⟩

/-- A node that knows its handler stays as it is. -/
lemma eq_of_handler (h : t.Spares t' id) (hn : t.node? id = some n) {handler : Handler}
    (hh : n.handler = some handler) : t'.node? id = some n := by
  obtain ⟨n', hn', hremembers⟩ := h n hn
  rw [hn', hremembers.eq_of_handler hh]

lemma eq_of_isDone (h : t.Spares t' id) (hn : t.node? id = some n) (hdone : n.IsDone) :
    t'.node? id = some n := by
  obtain ⟨handler, hh⟩ := hdone.2
  exact h.eq_of_handler hn hh

end Spares

/-- Nodes stand one behind the other from `next` on, but they may remember their handlers. -/
def StandFrom (t : Tree Handler) (next : Nat) (nodes : List (Node Handler)) : Prop :=
  ∀ k n, nodes[k]? = some n → ∃ n', t.node? (next + k) = some n' ∧ n.Remembers n'

lemma StandFrom.of_added {next : Nat} {nodes : List (Node Handler)}
    (h : ∀ k, t.node? (next + k) = nodes[k]?) : t.StandFrom next nodes :=
  fun k n hn => ⟨n, (h k).trans hn, .refl n⟩

/-- What spares all but the first of the nodes leaves the others where they stand. -/
lemma StandFrom.tail {next : Nat} {nodes : List (Node Handler)}
    (h : t.StandFrom next (n :: nodes)) (hspares : ∀ j : Nat, j ≠ next → t.Spares t' j) :
    t'.StandFrom (next + 1) nodes := by
  intro k m hm
  obtain ⟨m', hm', hremembers⟩ := h (k + 1) m hm
  obtain ⟨m'', hm'', hremembers'⟩ := hspares (next + (k + 1)) (by omega) m' hm'
  have hindex : next + 1 + k = next + (k + 1) := by omega
  exact ⟨m'', hindex ▸ hm'', hremembers.trans hremembers'⟩

/-- The build of a node has begun, if there is such a node. -/
def HasBegun (t : Tree Handler) (id : NodeId) : Prop :=
  ∀ n, t.node? id = some n → n.state ≠ .unparsed

/-- A node without children has none whose build has not begun. -/
lemma hasBegun_of_children_eq_nil (t : Tree Handler) (h : n.children = []) :
    ∀ c ∈ n.childNodes, t.HasBegun c := by
  rw [Node.childNodes, h]
  exact fun c hc => absurd hc List.not_mem_nil

lemma HasBegun.spares {t t' : Tree Handler} (h : t.HasBegun id) (hlt : id < t.size)
    (hspares : t.Spares t' id) : t'.HasBegun id := by
  obtain ⟨n, hn⟩ := exists_node?_of_lt hlt
  obtain ⟨n', hn', hremembers⟩ := hspares n hn
  intro k hk
  obtain rfl := Option.some.inj (hn'.symm.trans hk)
  rw [hremembers.congr Node.state fun _ _ => rfl]
  exact h n hn

end Tree

/-! ## Subtrees that have grown -/

namespace Subtree

section

variable {H : Type}

mutual

/-- The calls of hooks in the build of a node and everything beneath it: for its payload, for its
children in order, to register it, and at its end. -/
def traversal : Subtree H → List (Occasion × NodeId)
  | ⟨id, _, children⟩ =>
    [(.payload, id)] ++ childTraversals children ++
      (if id = Tree.root then [] else [(.register, id)]) ++ [(.post, id)]

/-- The calls of hooks in the builds of children. -/
def childTraversals : List (Child (Subtree H)) → List (Occasion × NodeId)
  | [] => []
  | child :: children => childTraversal child ++ childTraversals children

/-- The calls of hooks in the build of a child. -/
def childTraversal : Child (Subtree H) → List (Occasion × NodeId)
  | .text _ => []
  | .node s => s.traversal

end

end

mutual

/-- A tree has all nodes of a subtree of it. -/
lemma IsIn.exists_node? {H : Type} {t : Tree H} : ∀ {s : Subtree H}, s.IsIn t →
    ∀ j ∈ s.preorder, ∃ n, t.node? j = some n
  | ⟨_, _, _⟩, ⟨hnode, _, hbelow⟩, j, hj => by
    rcases List.mem_cons.mp hj with rfl | hj
    · exact ⟨_, hnode⟩
    · exact AreIn.exists_node? hbelow j hj

lemma AreIn.exists_node? {H : Type} {t : Tree H} {parent : NodeId} :
    ∀ {children : List (Child (Subtree H))}, AreIn t parent children →
      ∀ j ∈ childPreorders children, ∃ n, t.node? j = some n
  | [], _, _, hj => absurd hj List.not_mem_nil
  | .text _ :: _, ⟨_, hchildren⟩, j, hj => AreIn.exists_node? hchildren j hj
  | .node _ :: _, ⟨⟨_, hs⟩, hchildren⟩, j, hj => by
    rcases List.mem_append.mp hj with hj | hj
    · exact IsIn.exists_node? hs j hj
    · exact AreIn.exists_node? hchildren j hj

end

mutual

/-- A node with everything beneath it is what the build of a node has made of it. -/
def IsGrown (s : Setup) : Subtree Handler → Node Handler → Prop
  | ⟨id, m, children⟩, n => ∃ h, s.Offers h ∧ m.tag = n.tag ∧
    m.toFields = (s.opened h id n).2 ∧ AreGrown s children (s.opened h id n).1

/-- Children are what the builds of new children have made of them. -/
def AreGrown (s : Setup) : List (Child (Subtree Handler)) → List (Child (Node Handler)) → Prop
  | [], [] => True
  | child :: children, seed :: seeds => ChildIsGrown s child seed ∧ AreGrown s children seeds
  | _, _ => False

/-- A child is what the build of a new child has made of it. -/
def ChildIsGrown (s : Setup) : Child (Subtree Handler) → Child (Node Handler) → Prop
  | .text a, .text b => a = b
  | .node sub, .node n => sub.IsGrown s n
  | _, _ => False

end

/-- What a node has become does not depend on what it remembers. -/
lemma IsGrown.of_remembers {s : Setup} {sub : Subtree Handler} {n m : Node Handler}
    (h : sub.IsGrown s m) (hremembers : n.Remembers m) : sub.IsGrown s n := by
  obtain ⟨id, k, children⟩ := sub
  rcases hremembers with rfl | ⟨-, handler, rfl⟩
  · exact h
  · exact h

end Subtree

namespace Setup

open TaggedOutline.Tree Subtree

/-! ## The beginning and the end of a build -/

/-- A build has begun: the node is opened and has its payload, and its new children wait. -/
structure Begins (s : Setup) (t t' : Tree Handler) (id : NodeId) (n : Node Handler) (h : Handler) :
    Prop where
  offers : s.Offers h
  isSound : t'.IsSound s
  size_eq : t'.size = t.size + (newNodes (s.opened h id n).1).length
  here : t'.node? id = some { n with
    toFields := (s.opened h id n).2
    children := n.children ++ numbered t.size (s.opened h id n).1
    state := .payloadBuilt
    handler := some h }
  spares : ∀ j, j ≠ id → t.Spares t' j
  added : ∀ k, t'.node? (t.size + k) = (newNodes (s.opened h id n).1)[k]?
  calls : t'.calls = t.calls ++ [(.payload, id)]

/-- Steps that move one node on to a state, with the calls that are made. -/
structure Advances (s : Setup) (t t' : Tree Handler) (id : NodeId) (n : Node Handler)
    (state : BuildState) (calls : List (Occasion × NodeId)) : Prop where
  isSound : t'.IsSound s
  becomes : Becomes t t' id { n with state }
  calls : t'.calls = t.calls ++ calls

namespace Advances

variable {s : Setup} {t t' : Tree Handler} {id : NodeId} {n : Node Handler} {state : BuildState}
  {calls : List (Occasion × NodeId)}

lemma refl (hsound : t.IsSound s) (hn : t.node? id = some n) (hstate : n.state = state) :
    Advances s t t id n state [] := by
  subst hstate
  exact ⟨hsound, .refl hn, (List.append_nil _).symm⟩

lemma advance (h : Advances s t t' id n state calls) (next : BuildState) :
    Advances s t (t'.advance id next) id n (state.later next) calls :=
  ⟨h.isSound.advance _, h.becomes.update _, h.calls⟩

lemma log (h : Advances s t t' id n state calls) (occasion : Occasion) :
    Advances s t (t'.log (.call occasion id)) id n state (calls ++ [(occasion, id)]) where
  isSound := h.isSound.log _
  becomes := h.becomes.log _
  calls := by rw [calls_log_call, h.calls, List.append_assoc]

end Advances

section

variable {s : Setup} (hidle : s.IsIdle) {t : Tree Handler} {id : NodeId} {n : Node Handler}

include hidle

lemma build_of_unparsed (hsound : t.IsSound s) (hn : t.node? id = some n)
    (hstate : n.state = .unparsed) : ∃ h t', s.Begins t t' id n h ∧
      ∀ depth, s.build (depth + 1) t id =
        (buildAll (s.build depth) (t'.childNodes id) t').bind fun t =>
          (s.registerNode (s.build depth) (t.advance id .childrenBuilt) id).bind fun t =>
            s.finishNode (s.build depth) t id := by
  obtain ⟨h, t₁, hresolve, hopens⟩ := s.opens_of_unparsed hsound.isArena hn hstate
  have hsound₁ : t₁.IsSound s := isSound_of_opens hsound hresolve hopens
  have hoffers := (hsound₁.isOffered id _ hopens.here).1 h rfl
  have hpayload : ∀ build,
      s.makePayload build (s.expandBody (s.decodeHeader t id) id) id =
        some ((t₁.log (.call .payload id)).advance id .payloadBuilt) := fun build => by
    rw [makePayload, hresolve]
    simp only [(hidle h hoffers).payload]
    rfl
  have hid := lt_size_of_node? hn
  refine ⟨h, (t₁.log (.call .payload id)).advance id .payloadBuilt,
    ⟨hoffers, ?_, ?_, ?_, ?_, ?_, ?_⟩, fun depth => ?_⟩
  · exact (hsound₁.log _).advance _
  · exact (size_update _ id _).trans hopens.size_eq
  · exact node?_update_self hopens.here _
  · intro j hj k hk
    obtain ⟨k', hk', hremembers⟩ := hopens.others hj hk
    exact ⟨k', (node?_update_of_ne hj _).trans hk', hremembers⟩
  · intro k
    have hne : t.size + k ≠ id := Nat.ne_of_gt (Nat.lt_add_right k hid)
    exact (node?_update_of_ne hne _).trans (hopens.added k)
  · have hcalls : ((t₁.log (.call .payload id)).advance id .payloadBuilt).calls =
        (t₁.log (.call .payload id)).calls := calls_congr rfl
    rw [hcalls, calls_log_call, calls_congr hopens.journal]
  · rw [build, buildOnce, hn]
    simp only [hstate, if_true]
    rw [buildSteps, hpayload]
    rfl

/-- The end of a build, for a node whose children are built. -/
lemma exists_lastSteps (hsound : t.IsSound s) (hn : t.node? id = some n)
    (hstate : n.state = .payloadBuilt) {h : Handler} (hh : n.handler = some h) :
    ∃ t', (∀ build, ((s.registerNode build (t.advance id .childrenBuilt) id).bind fun t =>
        s.finishNode build t id) = some t') ∧
      Advances s t t' id n .built
        ((if id = root then [] else [(.register, id)]) ++ [(.post, id)]) := by
  have hidle := hidle h ((hsound.isOffered id n hn).1 h hh)
  have hadvanced := (Advances.refl hsound hn hstate).advance .childrenBuilt
  obtain ⟨t₁, hregister, hregistered⟩ : ∃ t₁,
      (∀ build, s.registerNode build (t.advance id .childrenBuilt) id = some t₁) ∧
        Advances s t t₁ id n .registered (if id = root then [] else [(.register, id)]) := by
    have hparent : (t.advance id .childrenBuilt).parent? id = t.parent? id :=
      parent?_congr (place?_advance t id _ id)
    by_cases hroot : id = root
    · subst hroot
      refine ⟨_, fun build => ?_, hadvanced.advance .registered⟩
      rw [registerNode, hparent, hsound.isArena.parent?_root]
      rfl
    · rw [if_neg hroot]
      refine ⟨_, fun build => ?_, (hadvanced.log .register).advance .registered⟩
      rw [registerNode, hparent, hsound.isArena.parent?_eq (place?_of_node? hn) hroot]
      simp only [s.registry.resolve_of_handler hadvanced.becomes.here hh, hidle.register]
      rfl
  refine ⟨_, fun build => ?_, (hregistered.log .post).advance .built⟩
  rw [hregister, Option.bind_some, finishNode]
  simp only [s.registry.resolve_of_handler hregistered.becomes.here hh, hidle.post]
  rfl

end

/-! ## Whole builds -/

/-- A node has been built: from `n` it has become `m` and has got new children, with everything
beneath them. -/
structure Raised (s : Setup) (t t' : Tree Handler) (id : NodeId) (n m : Node Handler)
    (news : List (Child (Subtree Handler))) : Prop where
  isSound : t'.IsSound s
  size_le : t.size ≤ t'.size
  here : t'.node? id = some m
  isDone : m.IsDone
  parent : m.parent = n.parent
  children : m.children = n.children ++ news.map childId
  spares : ∀ j : Nat, j ≠ id → t.Spares t' j
  new : ∀ (j : Nat) k, t.size ≤ j → t'.node? j = some k → k.IsDone
  areIn : AreIn t' id news
  within : ∀ j : Nat, j ∈ childPreorders news → t.size ≤ j
  isGrown : IsGrown s ⟨id, m, news⟩ n
  calls : t'.calls = t.calls ++ traversal ⟨id, m, news⟩

/-- New children of a node have been built, one after the other; the first of them has the number
`next`. -/
structure RaisedAll (s : Setup) (t t' : Tree Handler) (parent next : Nat)
    (seeds : List (Child (Node Handler))) (news : List (Child (Subtree Handler))) : Prop where
  isSound : t'.IsSound s
  size_le : t.size ≤ t'.size
  spares : ∀ j : Nat, j < next ∨ next + (newNodes seeds).length ≤ j → t.Spares t' j
  new : ∀ (j : Nat) k, next ≤ j ∧ (j < next + (newNodes seeds).length ∨ t.size ≤ j) →
    t'.node? j = some k → k.IsDone
  ids : news.map childId = numbered next seeds
  areIn : AreIn t' parent news
  within : ∀ j : Nat, j ∈ childPreorders news →
    next ≤ j ∧ (j < next + (newNodes seeds).length ∨ t.size ≤ j)
  areGrown : AreGrown s news seeds
  calls : t'.calls = t.calls ++ childTraversals news

section

variable {s : Setup} {depth : Nat} {t t' t₁ : Tree Handler} {id : NodeId} {parent next : Nat}
  {n m : Node Handler} {seeds : List (Child (Node Handler))}
  {news subs : List (Child (Subtree Handler))}

/-- One more child has been built before others. -/
lemma RaisedAll.cons {seed : Node Handler} (hlt : parent < next)
    (hsize : next + (newNodes seeds).length < t.size) (hseed : seed.parent = parent)
    (hnone : n.children = []) (hremembers : seed.Remembers n)
    (hfirst : s.Raised t t₁ next n m subs) (h : s.RaisedAll t₁ t' parent (next + 1) seeds news) :
    s.RaisedAll t t' parent next (.node seed :: seeds) (.node ⟨next, m, subs⟩ :: news) := by
  have hle := hfirst.size_le
  have hlength : (newNodes (.node seed :: seeds)).length = (newNodes seeds).length + 1 := rfl
  have hisIn : (⟨next, m, subs⟩ : Subtree Handler).IsIn t₁ := by
    refine ⟨hfirst.here, ?_, hfirst.areIn⟩
    rw [hfirst.children, hnone, List.nil_append]
  -- what has been built is not touched any more
  have hkept : ∀ (j : Nat) k, j = next ∨ t.size ≤ j → t₁.node? j = some k →
      t'.node? j = some k := by
    intro (j : Nat) k hj hk
    refine (h.spares j ?_).eq_of_isDone hk ?_
    · omega
    · rcases hj with rfl | hj
      · obtain rfl := Option.some.inj (hfirst.here.symm.trans hk)
        exact hfirst.isDone
      · exact hfirst.new j k hj hk
  have hours : ∀ j : Nat, j ∈ (⟨next, m, subs⟩ : Subtree Handler).preorder →
      j = next ∨ t.size ≤ j := fun j hj => (List.mem_cons.mp hj).imp_right (hfirst.within j)
  refine ⟨h.isSound, hle.trans h.size_le, fun j hj => ?_, fun j k hj hk => ?_,
    congrArg (Child.node next :: ·) h.ids, ⟨⟨⟨hlt, ?_⟩, ?_⟩, h.areIn⟩, fun j hj => ?_,
    ⟨hfirst.isGrown.of_remembers hremembers, h.areGrown⟩, ?_⟩
  · rw [hlength] at hj
    exact (hfirst.spares j (by omega)).trans (h.spares j (by omega))
  · rw [hlength] at hj
    by_cases hnew : next + 1 ≤ j ∧ (j < next + 1 + (newNodes seeds).length ∨ t₁.size ≤ j)
    · exact h.new j k hnew hk
    · have hj' : j = next ∨ t.size ≤ j := by omega
      have hnext := lt_size_of_node? hfirst.here
      have hlt₁ : j < t₁.size := by
        rcases hj' with rfl | hj'
        · exact hnext
        · omega
      obtain ⟨k', hk'⟩ := exists_node?_of_lt hlt₁
      obtain rfl := Option.some.inj ((hkept j k' hj' hk').symm.trans hk)
      rcases hj' with rfl | hj'
      · obtain rfl := Option.some.inj (hfirst.here.symm.trans hk')
        exact hfirst.isDone
      · exact hfirst.new j k' hj' hk'
  · exact (hfirst.parent.trans (hremembers.congr Node.parent fun _ _ => rfl)).trans hseed
  · refine hisIn.congr fun j hj => ?_
    obtain ⟨k, hk⟩ := hisIn.exists_node? j hj
    rw [hk, hkept j k (hours j hj) hk]
  · rw [hlength]
    rcases List.mem_append.mp hj with hj | hj
    · have := hours j hj
      omega
    · have := h.within j hj
      omega
  · rw [h.calls, hfirst.calls, List.append_assoc]
    rfl

/-- New children are built one after the other. -/
lemma raisedAll_of_buildAll
    (hbuild : ∀ {t t' : Tree Handler} {id : NodeId} {n : Node Handler}, t.IsSound s →
      t.node? id = some n → n.state = .unparsed → n.children = [] →
      s.build depth t id = some t' → ∃ m news, s.Raised t t' id n m news)
    (hseeds : ∀ n ∈ newNodes seeds, ∃ runtimeOnly, n.IsSeed parent runtimeOnly)
    (hsound : t.IsSound s) (hlt : parent < next)
    (hsize : next + (newNodes seeds).length ≤ t.size)
    (hnodes : t.StandFrom next (newNodes seeds))
    (h : buildAll (s.build depth) (List.range' next (newNodes seeds).length) t = some t') :
    ∃ news, s.RaisedAll t t' parent next seeds news := by
  induction seeds generalizing t next with
  | nil =>
    obtain rfl := Option.some.inj h
    refine ⟨[], hsound, Nat.le_refl _, fun j _ => .refl t j, fun j k hj hk => ?_, rfl, trivial,
      fun _ hj => absurd hj List.not_mem_nil, trivial, (List.append_nil _).symm⟩
    have hlt : (j : Nat) < t.size := lt_size_of_node? hk
    have hnone : (newNodes []).length = 0 := rfl
    omega
  | cons seed seeds ih =>
    cases seed with
    | text a =>
      obtain ⟨news, hraised⟩ := ih hseeds hsound hlt hsize hnodes h
      exact ⟨.text a :: news, hraised.isSound, hraised.size_le, hraised.spares, hraised.new,
        congrArg (Child.text a :: ·) hraised.ids, ⟨trivial, hraised.areIn⟩, hraised.within,
        ⟨rfl, hraised.areGrown⟩, hraised.calls⟩
    | node seed =>
      obtain ⟨⟨runtimeOnly, hseed⟩, hseeds⟩ := List.forall_mem_cons.mp hseeds
      obtain ⟨n, hn, hremembers⟩ := hnodes 0 seed rfl
      have hstate := (hremembers.congr Node.state fun _ _ => rfl).trans hseed.state
      have hchildren := (hremembers.congr Node.children fun _ _ => rfl).trans hseed.children
      obtain ⟨t₁, hfirst, hrest⟩ := Option.bind_eq_some_iff.mp h
      obtain ⟨m, subs, hraised⟩ := hbuild hsound hn hstate hchildren hfirst
      have hlength : (newNodes (.node seed :: seeds)).length = (newNodes seeds).length + 1 := rfl
      rw [hlength] at hsize
      have hle := hraised.size_le
      obtain ⟨news, hall⟩ := ih hseeds hraised.isSound (Nat.lt_succ_of_lt hlt) (by omega)
        (hnodes.tail hraised.spares) hrest
      exact ⟨.node ⟨next, m, subs⟩ :: news,
        .cons hlt (by omega) hseed.parent hchildren hremembers hraised hall⟩

/-- The numbers of new children follow each other. -/
lemma childNodes_of_numbered (h : m.children = n.children ++ numbered next seeds) :
    m.childNodes = n.childNodes ++ List.range' next (newNodes seeds).length := by
  rw [Node.childNodes, h, List.filterMap_append]
  refine congrArg (n.childNodes ++ ·) ?_
  clear h
  induction seeds generalizing next with
  | nil => rfl
  | cons seed seeds ih =>
    cases seed with
    | text a => exact ih
    | node m => exact congrArg (next :: ·) ih

lemma buildAll_append (build : Builder) (ids ids' : List NodeId) (t : Tree Handler) :
    buildAll build (ids ++ ids') t = (buildAll build ids t).bind (buildAll build ids') := by
  induction ids generalizing t with
  | nil => rfl
  | cons id ids ih =>
    rw [List.cons_append, buildAll, buildAll]
    rcases build t id with - | t₁
    · rfl
    · exact ih t₁

/-- A build that has begun is left alone. -/
lemma build_of_hasBegun (hbegun : t.HasBegun id) (depth : Nat) :
    s.build (depth + 1) t id = some t := by
  rw [build, buildOnce]
  split
  · rfl
  · next n hn => exact if_neg (hbegun n hn)

lemma eq_of_build_of_hasBegun (hbegun : t.HasBegun id) (h : s.build depth t id = some t') :
    t' = t := by
  cases depth with
  | zero => cases h
  | succ depth => exact Option.some.inj (h.symm.trans (build_of_hasBegun hbegun depth))

/-- Builds that have begun are left alone. -/
lemma eq_of_buildAll_of_hasBegun {ids : List NodeId} (hbegun : ∀ c ∈ ids, t.HasBegun c)
    (h : buildAll (s.build depth) ids t = some t') : t' = t := by
  induction ids with
  | nil => exact (Option.some.inj h).symm
  | cons c ids ih =>
    obtain ⟨hc, hbegun⟩ := List.forall_mem_cons.mp hbegun
    obtain ⟨t₁, hfirst, hrest⟩ := Option.bind_eq_some_iff.mp h
    obtain rfl := eq_of_build_of_hasBegun hc hfirst
    exact ih hbegun hrest

section

variable {h : Handler} (hbegins : s.Begins t t₁ id n h) (hsound : t.IsSound s)
  (hn : t.node? id = some n) (hbegun : ∀ c ∈ n.childNodes, t.HasBegun c)

include hbegins

lemma Begins.childNodes : t₁.childNodes id = n.childNodes ++
    List.range' t.size (newNodes (s.opened h id n).1).length := by
  rw [Tree.childNodes, hbegins.here]
  exact childNodes_of_numbered rfl

include hsound hn hbegun

/-- The builds of the children from before have still begun. -/
lemma Begins.hasBegun : ∀ c ∈ n.childNodes, t₁.HasBegun c := by
  intro c hc
  have hmem : c ∈ t.childNodes id := by
    rw [Tree.childNodes, hn]
    exact hc
  have hparent := hsound.isArena.lt_of_parent? (hsound.isArena.mem_childNodes_iff.mp hmem)
  exact (hbegun c hc).spares hparent.2 (hbegins.spares c hparent.1.ne')

/-- The builds of all children are those of the new ones, and they leave the node alone. -/
lemma Begins.exists_raisedAll {t₂ : Tree Handler}
    (hbuild : ∀ {t t' : Tree Handler} {id : NodeId} {n : Node Handler}, t.IsSound s →
      t.node? id = some n → n.state = .unparsed → (∀ c ∈ n.childNodes, t.HasBegun c) →
      s.build depth t id = some t' → ∃ m news, s.Raised t t' id n m news)
    (hall : buildAll (s.build depth) (t₁.childNodes id) t₁ = some t₂) :
    ∃ news, s.RaisedAll t₁ t₂ id t.size (s.opened h id n).1 news ∧ t₂.node? id = t₁.node? id := by
  have hid : (id : Nat) < t.size := lt_size_of_node? hn
  rw [hbegins.childNodes, buildAll_append] at hall
  obtain ⟨t₁', hold, hnew⟩ := Option.bind_eq_some_iff.mp hall
  obtain rfl : t₁' = t₁ :=
    eq_of_buildAll_of_hasBegun (hbegins.hasBegun hsound hn hbegun) hold
  obtain ⟨news, hraised⟩ := raisedAll_of_buildAll
    (fun hsound hn hstate hnone => hbuild hsound hn hstate (hasBegun_of_children_eq_nil _ hnone))
    (fun m hm => ⟨_, s.isSeed_of_mem_opened h id n m hm⟩) hbegins.isSound hid hbegins.size_eq.ge
    (.of_added hbegins.added) hnew
  refine ⟨news, hraised, ?_⟩
  rw [(hraised.spares id (.inl hid)).eq_of_handler hbegins.here rfl, hbegins.here]

end

/-- The build of a node whose build has not begun does what its header and its body say and nothing
else, if hooks do nothing and the builds of its children have begun. -/
theorem raised_of_build (hidle : s.IsIdle) (depth : Nat) {t t' : Tree Handler}
    {id : NodeId} {n : Node Handler} (hsound : t.IsSound s) (hn : t.node? id = some n)
    (hstate : n.state = .unparsed) (hbegun : ∀ c ∈ n.childNodes, t.HasBegun c)
    (h : s.build depth t id = some t') : ∃ m news, s.Raised t t' id n m news := by
  induction depth generalizing t t' id n with
  | zero => cases h
  | succ depth ih =>
    obtain ⟨handler, t₁, hbegins, hbuild⟩ := build_of_unparsed hidle hsound hn hstate
    rw [hbuild] at h
    obtain ⟨t₂, hall, hlast⟩ := Option.bind_eq_some_iff.mp h
    obtain ⟨news, hraised, hsame⟩ := hbegins.exists_raisedAll hsound hn hbegun ih hall
    obtain ⟨t₃, hsteps, hadvances⟩ :=
      exists_lastSteps hidle hraised.isSound (hsame.trans hbegins.here) rfl rfl
    obtain rfl := Option.some.inj ((hsteps _).symm.trans hlast)
    have hid : (id : Nat) < t.size := lt_size_of_node? hn
    have hsize := hbegins.size_eq
    have hothers : ∀ j : Nat, t.size ≤ j → t₃.node? j = t₂.node? j := fun j hj =>
      hadvances.becomes.others j (Nat.ne_of_gt (hid.trans_le hj))
    refine ⟨_, news, hadvances.isSound, ?_, hadvances.becomes.here, ⟨rfl, handler, rfl⟩, rfl, ?_,
      fun j hj k hk => ?_, fun j k hj hk => ?_, ?_, fun j hj => (hraised.within j hj).1,
      ⟨handler, hbegins.offers, rfl, rfl, hraised.areGrown⟩, ?_⟩
    · have := hraised.size_le
      have := hadvances.becomes.size_eq
      omega
    · rw [hraised.ids]
    · have hlt : (j : Nat) < t.size := lt_size_of_node? hk
      have hlast : t₂.Spares t₃ j := .of_eq (hadvances.becomes.others j hj)
      exact (((hbegins.spares j hj).trans (hraised.spares j (.inl hlt))).trans hlast) k hk
    · refine hraised.new j k ⟨hj, ?_⟩ ((hothers j hj).symm.trans hk)
      omega
    · exact hraised.areIn.congr fun j hj => hothers j (hraised.within j hj).1
    · rw [hadvances.calls, hraised.calls, hbegins.calls, traversal]
      simp only [List.append_assoc]

end

end Setup

end TaggedOutline
