import TaggedOutline.Proofs.Hooks
import TaggedOutline.Proofs.Places

/-!
# What nodes remember of their handlers

A node keeps the handler that has been found for it.  To look for a handler changes nothing else
(`Tree.Recalls`), and it finds the nearest one that a node above offers (`Registry.dispatch`), if
all nodes above know their own handlers already (`Tree.Settled`).

`Tree.Tends` is work on one node: the tree may grow, and other nodes may remember handlers, but
apart from that they stay as they are.
-/

namespace TaggedOutline

namespace Registry

/-- The handler that a node has for a tag beneath it: from its overrides, from the table of its own
handler, or from the registry. -/
def offer? (r : Registry) (tag : Text) (n : Node Handler) : Option Handler :=
  (n.overrides.lookup tag).or
    ((n.handler.bind fun own => own.beneath.lookup tag).or (r.handlerBeneath? n.tag tag))

/-- The handler of a tag at a node: the nearest one that a node above offers, or else that of the
registry, or else the generic one. -/
def dispatch (r : Registry) (t : Tree Handler) (id : NodeId) (tag : Text) : Handler :=
  (((t.ancestors id).filterMap t.node?).findSome? (r.offer? tag)).getD
    ((r.handler? tag).getD .generic)

end Registry

/-- The same node, except that it may remember its handler for the first time. -/
def Node.Remembers (n m : Node Handler) : Prop :=
  m = n ∨ n.handler = none ∧ ∃ h, m = { n with handler := some h }

namespace Node.Remembers

variable {n m k : Node Handler}

lemma refl (n : Node Handler) : n.Remembers n := .inl rfl

lemma trans (h : n.Remembers m) (h' : m.Remembers k) : n.Remembers k := by
  rcases h with rfl | ⟨hnone, handler, rfl⟩
  · exact h'
  · rcases h' with rfl | ⟨hsome, -⟩
    · exact .inr ⟨hnone, handler, rfl⟩
    · cases hsome

/-- A node that knows its handler stays as it is. -/
lemma eq_of_handler (h : n.Remembers m) {handler : Handler} (hn : n.handler = some handler) :
    m = n := by
  rcases h with h | ⟨hnone, -⟩
  · exact h
  · cases hn.symm.trans hnone

/-- Whatever is not said of the handler is the same. -/
lemma congr (h : n.Remembers m) {α : Type} (f : Node Handler → α)
    (hf : ∀ n h, f { n with handler := some h } = f n) : f m = f n := by
  rcases h with rfl | ⟨-, handler, rfl⟩
  · rfl
  · exact hf n handler

end Node.Remembers

namespace Tree

variable {t t' t'' : Tree Handler} {id : NodeId} {n m k : Node Handler} {r : Registry}

/-! ## The way up -/

lemma IsArena.lt_of_mem_climb (h : t.IsArena) (steps : Nat) : ∀ a ∈ t.climb steps id, a < id := by
  induction steps generalizing id with
  | zero => exact fun _ h => absurd h List.not_mem_nil
  | succ steps ih =>
    rw [climb]
    split
    · next parent hparent =>
      have hlt := (h.lt_of_parent? hparent).1
      exact List.forall_mem_cons.mpr ⟨hlt, fun a ha => (ih a ha).trans hlt⟩
    · exact fun _ h => absurd h List.not_mem_nil

/-- Every node above a node knows its handler. -/
inductive Settled (t : Tree Handler) : NodeId → Prop
  | root {id : NodeId} {n : Node Handler} (hn : t.node? id = some n) (hp : n.parent = id) :
      Settled t id
  | beneath {id : NodeId} {n p : Node Handler} {h : Handler} (hn : t.node? id = some n)
      (hlt : n.parent < id) (hp : t.node? n.parent = some p) (hh : p.handler = some h)
      (habove : Settled t n.parent) : Settled t id

namespace Settled

lemma exists_of_mem_climb (h : t.Settled id) (steps : Nat) :
    ∀ a ∈ t.climb steps id, a < id ∧ ∃ n k, t.node? a = some n ∧ n.handler = some k := by
  induction steps generalizing id with
  | zero => exact fun _ h => absurd h List.not_mem_nil
  | succ steps ih =>
    cases h with
    | root hn hp =>
      have hnone : t.parent? id = none := by simp [parent?, hn, hp]
      simp [climb, hnone]
    | @beneath _ n p handler hn hlt hp hh habove =>
      have hparent : t.parent? id = some n.parent := by simp [parent?, hn, hlt.ne]
      rw [climb, hparent]
      refine List.forall_mem_cons.mpr ⟨⟨hlt, p, handler, hp, hh⟩, fun a ha => ?_⟩
      obtain ⟨hlt', hknown⟩ := ih habove a ha
      exact ⟨hlt'.trans hlt, hknown⟩

lemma of_le (h : t.Settled id) (hsame : ∀ j : Nat, j ≤ id → t'.node? j = t.node? j) :
    t'.Settled id := by
  induction h with
  | root hn hp => exact .root ((hsame _ le_rfl).trans hn) hp
  | beneath hn hlt hp hh _ ih =>
    exact .beneath ((hsame _ le_rfl).trans hn) hlt ((hsame _ hlt.le).trans hp) hh
      (ih fun j hj => hsame j (hj.trans hlt.le))

/-- Nothing but the nodes above a node has to do with their handlers. -/
lemma congr (h : t.Settled id) (hsame : ∀ j : Nat, j < id → t'.node? j = t.node? j)
    (hn : t.node? id = some n) (hm : t'.node? id = some m) (hparent : m.parent = n.parent) :
    t'.Settled id := by
  cases h with
  | root hn' hp =>
    obtain rfl := Option.some.inj (hn.symm.trans hn')
    exact .root hm (hparent.trans hp)
  | beneath hn' hlt hp hh habove =>
    obtain rfl := Option.some.inj (hn.symm.trans hn')
    rw [← hparent] at hlt hp habove
    exact .beneath hm hlt ((hsame _ hlt).trans hp) hh
      (habove.of_le fun j hj => hsame j (hj.trans_lt hlt))

/-- The nodes above a node are the same in a tree that is the same up to it. -/
lemma climb_eq (h : t.Settled id) (hsame : ∀ j : Nat, j < id → t'.node? j = t.node? j)
    (hparent : t'.parent? id = t.parent? id) (steps : Nat) :
    t'.climb steps id = t.climb steps id := by
  induction steps generalizing id with
  | zero => rfl
  | succ steps ih =>
    rw [climb, climb, hparent]
    cases h with
    | root hn hp =>
      have hnone : t.parent? id = none := by simp [parent?, hn, hp]
      rw [hnone]
    | @beneath _ n p handler hn hlt hp hh habove =>
      have hup : t.parent? id = some n.parent := by simp [parent?, hn, hlt.ne]
      have habove' : t'.parent? n.parent = t.parent? n.parent := by
        rw [parent?, parent?, hsame _ hlt]
      rw [hup]
      exact congrArg _ (ih habove (fun j hj => hsame j (hj.trans hlt)) habove')

/-- What is dispatched at a node depends on nothing but the nodes above it. -/
lemma dispatch_eq (h : t.Settled id) (hsame : ∀ j : Nat, j < id → t'.node? j = t.node? j)
    (hparent : t'.parent? id = t.parent? id) (tag : Text) :
    r.dispatch t' id tag = r.dispatch t id tag := by
  have hway : t'.ancestors id = t.ancestors id := h.climb_eq hsame hparent id
  have habove : (t.ancestors id).filterMap t'.node? = (t.ancestors id).filterMap t.node? :=
    List.filterMap_congr fun a ha => hsame a (h.exists_of_mem_climb id a ha).1
  rw [Registry.dispatch, Registry.dispatch, hway, habove]

end Settled

/-! ## Looking for a handler -/

/-- A tree in which some nodes remember their handlers for the first time. -/
structure Recalls (t t' : Tree Handler) : Prop where
  journal : t'.journal = t.journal
  size_eq : t'.size = t.size
  node? : ∀ {j n}, t.node? j = some n → ∃ m, t'.node? j = some m ∧ n.Remembers m

namespace Recalls

lemma refl (t : Tree Handler) : t.Recalls t := ⟨rfl, rfl, fun h => ⟨_, h, .refl _⟩⟩

lemma trans (h : t.Recalls t') (h' : t'.Recalls t'') : t.Recalls t'' where
  journal := h'.journal.trans h.journal
  size_eq := h'.size_eq.trans h.size_eq
  node? hn := by
    obtain ⟨m, hm, hnm⟩ := h.node? hn
    obtain ⟨k, hk, hmk⟩ := h'.node? hm
    exact ⟨k, hk, hnm.trans hmk⟩

/-- All but the handlers stays as it is. -/
lemma map_node? (h : t.Recalls t') {α : Type} {part : Node Handler → α}
    (hpart : ∀ n h, part { n with handler := some h } = part n) (id : NodeId) :
    (t'.node? id).map part = (t.node? id).map part := by
  rcases hn : t.node? id with - | n
  · have hge : t.size ≤ id := Array.getElem?_eq_none_iff.mp hn
    rw [node?_eq_none (h.size_eq.trans_le hge)]
  · obtain ⟨n', hn', hremembers⟩ := h.node? hn
    rw [hn', Option.map_some, Option.map_some, hremembers.congr part hpart]

end Recalls

end Tree

namespace Registry

open TaggedOutline.Tree

variable (r : Registry)

lemma recalls_inherit {resolve : Tree Handler → NodeId → Handler × Tree Handler}
    (hresolve : ∀ (t : Tree Handler) id, t.Recalls (resolve t id).2) (tag : Text)
    (above : List NodeId) (t : Tree Handler) : t.Recalls (r.inherit resolve tag above t).2 := by
  induction above generalizing t with
  | nil => exact .refl t
  | cons id above ih =>
    rw [inherit]
    split
    · exact .refl t
    · split
      · exact .refl t
      · dsimp only
        split
        · exact hresolve t id
        · split
          · exact hresolve t id
          · exact (hresolve t id).trans (ih _)

lemma recalls_resolveWithin (height : Nat) (t : Tree Handler) (id : NodeId) :
    t.Recalls (r.resolveWithin height t id).2 := by
  induction height generalizing t id with
  | zero => exact .refl t
  | succ height ih =>
    rw [resolveWithin]
    split
    · exact .refl t
    · next n hn =>
      split
      · exact .refl t
      · next hnone =>
        have hway := r.recalls_inherit ih n.tag (t.ancestors id) t
        refine ⟨hway.journal, (size_update _ _ _).trans hway.size_eq, fun {j k} hk => ?_⟩
        by_cases hj : j = id
        · subst hj
          obtain rfl := Option.some.inj (hn.symm.trans hk)
          obtain ⟨m, hm, hnm⟩ := hway.node? hk
          refine ⟨_, node?_update_self hm _, .inr ⟨hnone, ?_⟩⟩
          rcases hnm with rfl | ⟨-, h, rfl⟩ <;> exact ⟨_, rfl⟩
        · obtain ⟨m, hm, hkm⟩ := hway.node? hk
          exact ⟨m, (node?_update_of_ne hj _).trans hm, hkm⟩

/-- To look for a handler changes only what nodes remember. -/
lemma recalls_resolve (t : Tree Handler) (id : NodeId) : t.Recalls (r.resolve t id).2 :=
  r.recalls_resolveWithin (id + 1) t id

variable {t : Tree Handler} {id : NodeId} {n : Node Handler}

lemma node?_inherit_of_lt {resolve : Tree Handler → NodeId → Handler × Tree Handler} {j : NodeId}
    (hresolve : ∀ {t : Tree Handler} {id : NodeId}, t.IsArena → id < j →
      (resolve t id).2.IsArena ∧ (resolve t id).2.node? j = t.node? j)
    (tag : Text) {above : List NodeId} (habove : ∀ a ∈ above, a < j) (h : t.IsArena) :
    (r.inherit resolve tag above t).2.node? j = t.node? j := by
  induction above generalizing t with
  | nil => rfl
  | cons a above ih =>
    obtain ⟨ha, habove⟩ := List.forall_mem_cons.mp habove
    obtain ⟨harena, hsame⟩ := hresolve h ha
    rw [inherit]
    split
    · rfl
    · split
      · rfl
      · dsimp only
        split
        · exact hsame
        · split
          · exact hsame
          · exact (ih habove harena).trans hsame

lemma node?_resolveWithin_of_lt (height : Nat) {j : NodeId} (h : t.IsArena) (hlt : id < j) :
    (r.resolveWithin height t id).2.node? j = t.node? j := by
  induction height generalizing t id with
  | zero => rfl
  | succ height ih =>
    rw [resolveWithin]
    split
    · rfl
    · next n hn =>
      split
      · rfl
      · refine (node?_update_of_ne hlt.ne' _).trans (r.node?_inherit_of_lt ?_ _ ?_ h)
        · exact fun {t id} h hlt => ⟨h.congr (r.place?_resolveWithin height t id), ih h hlt⟩
        · exact fun a ha => (h.lt_of_mem_climb id a ha).trans hlt

/-- Nothing behind a node changes when its handler is looked for. -/
lemma node?_resolve_of_lt {j : NodeId} (h : t.IsArena) (hlt : id < j) :
    (r.resolve t id).2.node? j = t.node? j := r.node?_resolveWithin_of_lt (id + 1) h hlt

lemma resolve_of_handler {h : Handler} (hn : t.node? id = some n) (hh : n.handler = some h) :
    r.resolve t id = (h, t) := by
  simp only [resolve, resolveWithin, hn, hh]

/-- The node remembers the handler that has been found for it. -/
lemma node?_resolve (hn : t.node? id = some n) :
    (r.resolve t id).2.node? id = some { n with handler := some (r.resolve t id).1 } := by
  rcases hh : n.handler with - | h
  · obtain ⟨m, hm, hnm⟩ := (r.recalls_inherit (r.recalls_resolveWithin id) n.tag
      (t.ancestors id) t).node? hn
    have hresolve : r.resolve t id =
        ((r.inherit (r.resolveWithin id) n.tag (t.ancestors id) t).1.getD
            ((r.handler? n.tag).getD .generic),
          (r.inherit (r.resolveWithin id) n.tag (t.ancestors id) t).2.update id fun m =>
            { m with handler := some ((r.inherit (r.resolveWithin id) n.tag
              (t.ancestors id) t).1.getD ((r.handler? n.tag).getD .generic)) }) := by
      simp only [resolve, resolveWithin, hn, hh]
    rw [hresolve]
    refine (node?_update_self hm _).trans (congrArg some ?_)
    rcases hnm with rfl | ⟨-, h, rfl⟩ <;> rfl
  · rw [r.resolve_of_handler hn hh]
    refine hn.trans (congrArg some ?_)
    cases n
    cases hh
    rfl

lemma inherit_of_known (height : Nat) (tag : Text) {above : List NodeId}
    (h : ∀ a ∈ above, ∃ n k, t.node? a = some n ∧ n.handler = some k) :
    r.inherit (r.resolveWithin (height + 1)) tag above t =
      ((above.filterMap t.node?).findSome? (r.offer? tag), t) := by
  induction above with
  | nil => rfl
  | cons a above ih =>
    obtain ⟨⟨n, k, hn, hk⟩, habove⟩ := List.forall_mem_cons.mp h
    have hknown : r.resolveWithin (height + 1) t a = (k, t) := by simp [resolveWithin, hn, hk]
    simp only [inherit, hn, hknown, List.filterMap_cons, List.findSome?_cons, Option.bind_some,
      offer?, hk]
    rcases n.overrides.lookup tag with - | h₁
    · rcases k.beneath.lookup tag with - | h₂
      · rcases r.handlerBeneath? n.tag tag with - | h₃
        · exact ih habove
        · rfl
      · rfl
    · rfl

/-- Beneath nodes that know their handlers a node gets the one that is dispatched at it, and no
other node changes. -/
lemma resolve_of_settled (h : t.Settled id) (hn : t.node? id = some n)
    (hnone : n.handler = none) :
    r.resolve t id = (r.dispatch t id n.tag,
      t.update id fun m => { m with handler := some (r.dispatch t id n.tag) }) := by
  have hway : r.inherit (r.resolveWithin id) n.tag (t.ancestors id) t =
      (((t.ancestors id).filterMap t.node?).findSome? (r.offer? n.tag), t) := by
    cases id with
    | zero => rfl
    | succ id => exact r.inherit_of_known id n.tag fun a ha => (h.exists_of_mem_climb _ a ha).2
  simp only [resolve, resolveWithin, hn, hnone, hway, dispatch]

end Registry

/-! ## Handlers that can come up -/

lemma mem_of_lookup {α β : Type} [BEq α] [LawfulBEq α] {l : List (α × β)} {a : α} {b : β}
    (h : l.lookup a = some b) : (a, b) ∈ l := by
  obtain ⟨before, after, rfl, -⟩ := List.lookup_eq_some_iff.mp h
  exact List.mem_append_right _ List.mem_cons_self

/-- All handlers that nodes remember or that are set on them can come up. -/
def Tree.IsOffered (s : Setup) (t : Tree Handler) : Prop :=
  ∀ id n, t.node? id = some n →
    (∀ h, n.handler = some h → s.Offers h) ∧ ∀ x ∈ n.overrides, s.Offers x.2

namespace Tree.IsOffered

variable {s : Setup} {t : Tree Handler} {id : NodeId}

lemma log (h : t.IsOffered s) (e : JournalEntry) : (t.log e).IsOffered s := h

lemma update (h : t.IsOffered s) {f : Node Handler → Node Handler}
    (hf : ∀ n, t.node? id = some n → (∀ k, (f n).handler = some k → s.Offers k) ∧
      ∀ x ∈ (f n).overrides, s.Offers x.2) : (t.update id f).IsOffered s := by
  intro j n hn
  by_cases hj : j = id
  · subst hj
    rcases hold : t.node? j with - | m
    · have hsize : j < t.size := (size_update t j f) ▸ lt_size_of_node? hn
      cases hold.symm.trans (Array.getElem?_eq_getElem hsize)
    · obtain rfl := Option.some.inj ((node?_update_self hold f).symm.trans hn)
      exact hf m hold
  · exact h j n ((node?_update_of_ne hj f).symm.trans hn)

/-- A change of a node that leaves its handlers alone. -/
lemma update_of_same (h : t.IsOffered s) {f : Node Handler → Node Handler}
    (hhandler : ∀ n, (f n).handler = n.handler) (hoverrides : ∀ n, (f n).overrides = n.overrides) :
    (t.update id f).IsOffered s :=
  h.update fun n hn => by
    rw [hhandler, hoverrides]
    exact h id n hn

lemma offers_inherit {resolve : Tree Handler → NodeId → Handler × Tree Handler}
    (hresolve : ∀ (t : Tree Handler) id, t.IsOffered s →
      s.Offers (resolve t id).1 ∧ (resolve t id).2.IsOffered s)
    (h : t.IsOffered s) (tag : Text) (above : List NodeId) :
    (∀ k, (s.registry.inherit resolve tag above t).1 = some k → s.Offers k) ∧
      (s.registry.inherit resolve tag above t).2.IsOffered s := by
  induction above generalizing t with
  | nil => exact ⟨fun _ h => (by cases h), h⟩
  | cons id above ih =>
    rw [Registry.inherit]
    split
    · exact ⟨fun _ h => (by cases h), h⟩
    · next n hn =>
      split
      · next k hk =>
        exact ⟨fun _ heq => Option.some.inj heq ▸ (h id n hn).2 _ (mem_of_lookup hk), h⟩
      · obtain ⟨hown, hresolved⟩ := hresolve t id h
        dsimp only
        split
        · next k hk =>
          exact ⟨fun _ heq => Option.some.inj heq ▸ .inner hown (mem_of_lookup hk), hresolved⟩
        · split
          · next k hk =>
            exact ⟨fun _ heq => Option.some.inj heq ▸ .beneath (mem_of_lookup hk), hresolved⟩
          · exact ih hresolved

lemma offers_resolveWithin (height : Nat) (t : Tree Handler) (id : NodeId) (h : t.IsOffered s) :
    s.Offers (s.registry.resolveWithin height t id).1 ∧
      (s.registry.resolveWithin height t id).2.IsOffered s := by
  induction height generalizing t id with
  | zero => exact ⟨.generic, h⟩
  | succ height ih =>
    rw [Registry.resolveWithin]
    split
    · exact ⟨.generic, h⟩
    · next n hn =>
      split
      · next k hk => exact ⟨(h id n hn).1 k hk, h⟩
      · obtain ⟨hfound, hway⟩ := offers_inherit ih h n.tag (t.ancestors id)
        have hoffers : s.Offers ((s.registry.inherit (s.registry.resolveWithin height) n.tag
            (t.ancestors id) t).1.getD ((s.registry.handler? n.tag).getD .generic)) := by
          rcases hin : (s.registry.inherit (s.registry.resolveWithin height) n.tag
            (t.ancestors id) t).1 with - | k
          · rcases hdefault : s.registry.handler? n.tag with - | k
            · exact .generic
            · exact .handlers (mem_of_lookup hdefault)
          · exact hfound k hin
        exact ⟨hoffers, hway.update fun m hm =>
          ⟨fun k hk => Option.some.inj hk ▸ hoffers, (hway id m hm).2⟩⟩

/-- What is found for a node can come up. -/
lemma offers_resolve (h : t.IsOffered s) (id : NodeId) :
    s.Offers (s.registry.resolve t id).1 ∧ (s.registry.resolve t id).2.IsOffered s :=
  offers_resolveWithin (id + 1) t id h

end Tree.IsOffered

/-! ## Work on one node -/

namespace Tree

/-- From `t` to `t'` there has been work on the node `id`, which was `n` and is `m`. -/
structure Tends (s : Setup) (t t' : Tree Handler) (id : NodeId) (n m : Node Handler) : Prop where
  size_le : t.size ≤ t'.size
  before : t.node? id = some n
  here : t'.node? id = some m
  tag : m.tag = n.tag
  parent : m.parent = n.parent
  memory : m.handler = n.handler ∨ n.handler = none ∧ ∃ h, m.handler = some h ∧
    (t.Settled id → h = s.registry.dispatch t id n.tag)
  others : ∀ {j k}, j ≠ id → t.node? j = some k → ∃ k', t'.node? j = some k' ∧ k.Remembers k'
  behind : ∀ j < t.size, id < j → t'.node? j = t.node? j
  exact : t.Settled id → ∀ j < t.size, j ≠ id → t'.node? j = t.node? j
  offered : t.IsOffered s → t'.IsOffered s

namespace Tends

variable {s : Setup} {t t' t'' : Tree Handler} {id : NodeId} {n m k : Node Handler}

lemma refl (s : Setup) (h : t.node? id = some n) : Tends s t t id n n :=
  ⟨le_rfl, h, h, rfl, rfl, .inl rfl, fun _ hk => ⟨_, hk, .refl _⟩, fun _ _ _ => rfl,
    fun _ _ _ _ => rfl, fun h => h⟩

lemma parent?_eq (h : Tends s t t' id n m) : t'.parent? id = t.parent? id := by
  rw [parent?, parent?, h.before, h.here]
  simp only [h.parent]

lemma same (h : Tends s t t' id n m) (hs : t.Settled id) :
    ∀ j : Nat, j < id → t'.node? j = t.node? j := fun j hj =>
  h.exact hs j (hj.trans (lt_size_of_node? h.before)) hj.ne

lemma settled (h : Tends s t t' id n m) (hs : t.Settled id) : t'.Settled id :=
  hs.congr (h.same hs) h.before h.here h.parent

lemma trans (h : Tends s t t' id n m) (h' : Tends s t' t'' id m k) : Tends s t t'' id n k where
  size_le := h.size_le.trans h'.size_le
  before := h.before
  here := h'.here
  tag := h'.tag.trans h.tag
  parent := h'.parent.trans h.parent
  memory := by
    rcases h.memory with heq | ⟨hnone, handler, hm, hdispatch⟩
    · rw [← heq]
      refine h'.memory.imp_right fun hmemory => ?_
      obtain ⟨hnone, handler, hk, hdispatch⟩ := hmemory
      refine ⟨hnone, handler, hk, fun hs => ?_⟩
      rw [hdispatch (h.settled hs), h.tag]
      exact hs.dispatch_eq (h.same hs) h.parent?_eq _
    · rcases h'.memory with heq | ⟨hnone', -⟩
      · exact .inr ⟨hnone, handler, heq.trans hm, hdispatch⟩
      · cases hm.symm.trans hnone'
  others hj hk := by
    obtain ⟨k', hk', hkk'⟩ := h.others hj hk
    obtain ⟨k'', hk'', hkk''⟩ := h'.others hj hk'
    exact ⟨k'', hk'', hkk'.trans hkk''⟩
  behind j hj hlt := (h'.behind j (hj.trans_le h.size_le) hlt).trans (h.behind j hj hlt)
  exact hs j hj hne :=
    (h'.exact (h.settled hs) j (hj.trans_le h.size_le) hne).trans (h.exact hs j hj hne)
  offered hoffered := h'.offered (h.offered hoffered)

/-- A change of the node that leaves its place and its handlers alone. -/
lemma update (h : Tends s t t' id n m) (f : Node Handler → Node Handler)
    (htag : (f m).tag = m.tag) (hparent : (f m).parent = m.parent)
    (hhandler : (f m).handler = m.handler) (hoverrides : (f m).overrides = m.overrides) :
    Tends s t (t'.update id f) id n (f m) := by
  refine h.trans ⟨(size_update t' id f).ge, h.here, node?_update_self h.here f, htag, hparent,
    .inl hhandler, fun {j k} hj hk => ⟨k, (node?_update_of_ne hj f).trans hk, .refl k⟩,
    fun j _ hj => node?_update_of_ne hj.ne' f, fun _ j _ hj => node?_update_of_ne hj f,
    fun hoffered => hoffered.update fun k hk => ?_⟩
  obtain rfl := Option.some.inj (h.here.symm.trans hk)
  rw [hhandler, hoverrides]
  exact hoffered id m h.here

lemma resolve (h : Tends s t t' id n m) (harena : t'.IsArena) :
    Tends s t (s.registry.resolve t' id).2 id n
      { m with handler := some (s.registry.resolve t' id).1 } := by
  refine h.trans ⟨(s.registry.recalls_resolve t' id).size_eq.ge, h.here,
    s.registry.node?_resolve h.here, rfl, rfl, ?_,
    fun _ hk => (s.registry.recalls_resolve t' id).node? hk,
    fun j _ hj => s.registry.node?_resolve_of_lt harena hj, fun hs j _ hj => ?_,
    fun hoffered => (hoffered.offers_resolve id).2⟩
  · rcases hh : m.handler with - | handler
    · refine .inr ⟨rfl, _, rfl, fun hs => ?_⟩
      rw [s.registry.resolve_of_settled hs h.here hh]
    · rw [s.registry.resolve_of_handler h.here hh]
      exact .inl rfl
  · rcases hh : m.handler with - | handler
    · rw [s.registry.resolve_of_settled hs h.here hh]
      exact node?_update_of_ne hj _
    · rw [s.registry.resolve_of_handler h.here hh]

end Tends

end Tree

end TaggedOutline
