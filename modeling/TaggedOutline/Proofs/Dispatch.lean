import TaggedOutline.Proofs.Local
import TaggedOutline.Proofs.Ranks

/-!
# Dispatch

With local handlers every node ends with the handler that is dispatched at it
(`Setup.handler_eq_dispatch`).

A build with such handlers comes to an end if bodies shrink (`Setup.exists_build_of_isLocal`).  Its
hooks enter no builds, and the ranks of nodes get smaller on the way down and stay as they are
(`Tree.IsRanked`), so that builds stand in each other no deeper than the rank of the first of them.
-/

namespace TaggedOutline

namespace Tree

/-! ## Ranks -/

/-- The body of the node with a number. -/
def body? {H : Type} (t : Tree H) (id : NodeId) : Option RawBody :=
  (t.node? id).map fun n => n.body

/-- The rank of the node with a number. -/
def rankOf {H : Type} (width : Nat) (t : Tree H) (id : NodeId) : Nat :=
  ((t.body? id).map (RawBody.rank width)).getD 0

/-- Nodes have smaller ranks than those they stand under. -/
def IsRanked {H : Type} (width : Nat) (t : Tree H) : Prop :=
  ∀ id parent, t.parent? id = some parent → t.rankOf width id < t.rankOf width parent

/-- From a tree to a later one in which the nodes have the bodies that they had, and new nodes have
smaller ranks than those they stand under. -/
structure Descends {H : Type} (width : Nat) (t t' : Tree H) : Prop where
  body : ∀ id < t.size, t'.body? id = t.body? id
  new : ∀ id parent, t.size ≤ id → t'.parent? id = some parent →
    t'.rankOf width id < t'.rankOf width parent

section

variable {H : Type} {width : Nat} {t t' : Tree H} {id : NodeId} {n : Node H}

lemma rankOf_of_node? (h : t.node? id = some n) : t.rankOf width id = n.rank width := by
  rw [rankOf, body?, h]
  rfl

lemma Descends.of_body?_eq (h : ∀ id, t'.body? id = t.body? id) : Descends width t t' := by
  refine ⟨fun id _ => h id, fun id parent hge hparent => ?_⟩
  have hnone : t'.body? id = none := by
    rw [h, body?, node?_eq_none hge, Option.map_none]
  rw [parent?, Option.map_eq_none_iff.mp hnone] at hparent
  cases hparent

lemma Descends.rankOf_eq (h : Descends width t t') (hid : id < t.size) :
    t'.rankOf width id = t.rankOf width id := by
  rw [rankOf, rankOf, h.body id hid]

lemma IsRanked.descends (hranked : t.IsRanked width) (harena : t.IsArena)
    (h : Descends width t t') (hextends : t.Extends t') : t'.IsRanked width := by
  intro id parent hparent
  rcases Nat.lt_or_ge id t.size with hlt | hge
  · rw [hextends.parent?_eq hlt] at hparent
    have hbefore := (harena.lt_of_parent? hparent).1.trans hlt
    rw [h.rankOf_eq hlt, h.rankOf_eq hbefore]
    exact hranked id parent hparent
  · exact h.new id parent hge hparent

end

end Tree

namespace Setup

open TaggedOutline.Tree

variable {s : Setup} {m m' : Moment} {t : Tree Handler} {id : NodeId} {n : Node Handler}
  {rest : List Work}

lemma body?_close {α : Type} (purpose : Purpose α) (result : Except BuildError α)
    (t : Tree Handler) (id : NodeId) : (purpose.close result t).2.body? id = t.body? id := by
  have hadvance : ∀ (t : Tree Handler) j state, (t.advance j state).body? id = t.body? id :=
    fun t j _ => map_node?_update (fun _ => by rfl) t j id
  have hrecord : ∀ (t : Tree Handler) j e, (t.record j e).body? id = t.body? id :=
    fun t j _ => map_node?_update (fun _ => by rfl) t j id
  cases purpose with
  | payload j =>
    simp only [Purpose.close, hadvance]
    split
    · exact map_node?_update (fun _ => by rfl) t j id
    · rfl
    · exact hrecord t j _
  | register j | post j =>
    simp only [Purpose.close, hadvance]
    split
    · rfl
    · exact hrecord t j _
  | client => rfl

/-- New children have smaller ranks than the node that is opened. -/
lemma descends_build (hshrinks : s.Shrinks) (harena : t.IsArena)
    (hoffered : t.IsOffered s) (id : NodeId) :
    Descends s.settings.layout.tabWidth t (s.perform (.build id) t).2 := by
  rw [perform]
  rcases hn : t.node? id with - | n
  · exact .of_body?_eq fun _ => rfl
  · by_cases hstate : n.state = .unparsed
    · obtain ⟨h, t', hresolve, hopens⟩ := s.opens_of_unparsed harena hn hstate
      simp only [hstate, if_true, hresolve]
      have hbody : ∀ j < t.size, t'.body? j = t.body? j := by
        intro j hj
        obtain ⟨k, hk⟩ := exists_node?_of_lt hj
        by_cases hne : j = id
        · subst hne
          rw [body?, body?, hopens.here, hn]
          exact congrArg some (s.body_opened h j n)
        · obtain ⟨k', hk', hremembers⟩ := hopens.others hne hk
          rw [body?, body?, hk, hk']
          exact congrArg some (hremembers.congr (fun n => n.body) fun _ _ => rfl)
      refine ⟨hbody, fun j parent hge hparent => ?_⟩
      obtain ⟨i, rfl⟩ := Nat.exists_eq_add_of_le hge
      obtain ⟨p, hp, hup, -⟩ := exists_place?_of_parent? hparent
      obtain ⟨k, hk, rfl⟩ := exists_node?_of_place? hp
      have hmem := List.mem_of_getElem? ((hopens.added i).symm.trans hk)
      obtain rfl : id = parent := (s.isSeed_of_mem_opened h id n k hmem).parent.symm.trans hup
      have hoffers := (hopens.offered hoffered id _ hopens.here).1 h rfl
      calc t'.rankOf _ (t.size + i) = k.rank _ := rankOf_of_node? hk
        _ < n.rank _ := hshrinks.rank_lt hoffers id n k hmem
        _ = t'.rankOf _ id := by
          rw [← rankOf_of_node? hn, rankOf, rankOf, hbody id (lt_size_of_node? hn)]
    · simp only [hstate, if_false]
      exact .of_body?_eq fun _ => rfl

/-- No step of local work changes a body. -/
lemma descends_perform (hshrinks : s.Shrinks) (hm : m.IsLocal s) {w : Work}
    (hwork : m.work = w :: rest) :
    Descends s.settings.layout.tabWidth m.tree (s.perform w m.tree).2 := by
  have hadvance : ∀ (t : Tree Handler) i state j, (t.advance i state).body? j = t.body? j :=
    fun t i _ j => map_node?_update (fun _ => by rfl) t i j
  have hresolve : ∀ (t : Tree Handler) i j, (s.registry.resolve t i).2.body? j = t.body? j :=
    fun t i j => (s.registry.recalls_resolve t i).map_node? (fun _ _ => rfl) j
  cases w with
  | build id => exact descends_build hshrinks hm.isRegular.isArena hm.isOffered id
  | program purpose hook =>
    obtain ⟨hallows, -⟩ := hm.work (.program purpose hook) (hwork ▸ List.mem_cons_self)
    cases hook with
    | done result => exact .of_body?_eq (body?_close purpose result m.tree)
    | look next | note line next => exact .of_body?_eq fun _ => rfl
    | override j tag k next =>
      exact .of_body?_eq fun i => map_node?_update (fun _ => by rfl) m.tree j i
    | edit | build | insertText | insertSpec | setAction =>
      cases purpose <;> exact False.elim hallows
  | children id => exact .of_body?_eq fun _ => rfl
  | register id =>
    refine .of_body?_eq fun j => ?_
    rw [perform]
    dsimp only
    split
    · rw [hadvance, hadvance]
    · exact (hresolve _ id j).trans (hadvance _ id _ j)
  | finish id => exact .of_body?_eq (hresolve m.tree id)

/-- A build with local handlers leaves ranks as they are, and those of new nodes get smaller on the
way down. -/
lemma isRanked_of_reaches (hlocal : s.IsLocal) (hshrinks : s.Shrinks)
    (hm : m.IsLocal s) (hranked : m.tree.IsRanked s.settings.layout.tabWidth)
    (h : s.Reaches m m') : m'.tree.IsRanked s.settings.layout.tabWidth ∧
      ∀ id < m.tree.size, m'.tree.rankOf s.settings.layout.tabWidth id =
        m.tree.rankOf s.settings.layout.tabWidth id := by
  induction h with
  | refl => exact ⟨hranked, fun _ _ => rfl⟩
  | tail hfirst hlast ih =>
    obtain ⟨hranked, hsame⟩ := ih
    have hm := isLocal_of_reaches hlocal hm hfirst
    have hextends := extends_of_next? hlast
    obtain ⟨w, rest, hwork, -, rfl⟩ := exists_of_next? hlast
    have hdescends := descends_perform hshrinks hm hwork
    refine ⟨hranked.descends hm.isRegular.isArena hdescends hextends, fun id hid => ?_⟩
    exact (hdescends.rankOf_eq ((extends_of_reaches hfirst).lt_size hid)).trans (hsame id hid)

/-! ## Builds that come to an end -/

section

variable (hlocal : s.IsLocal)

include hlocal

/-- Local work goes on. -/
lemma reaches_of_perform {w : Work} {ws : List Work} {t' : Tree Handler}
    (hm : (⟨w :: rest, t⟩ : Moment).IsLocal s) (h : s.perform w t = (ws, t')) :
    s.Reaches ⟨w :: rest, t⟩ ⟨ws ++ rest, t'⟩ ∧
      (⟨ws ++ rest, t'⟩ : Moment).IsLocal s := by
  have hcareful : w.isCareful t = true := isSafe_of_isLocal hlocal hm _ .refl w rfl
  have hnext : s.next? ⟨w :: rest, t⟩ = some ⟨ws ++ rest, t'⟩ := by
    simp only [next?, hcareful, h, if_true]
  exact ⟨.single hnext, isLocal_of_next? hlocal hm hnext⟩

/-- A local program comes to its end, whatever builds do. -/
lemma exists_run_of_isLocal {α : Type} {purpose : Purpose α} {hook : Hook α}
    (hm : (⟨.program purpose hook :: rest, t⟩ : Moment).IsLocal s) (build : Builder) :
    ∃ result t', s.run build hook t = some (result, t') ∧
      s.Reaches ⟨.program purpose hook :: rest, t⟩
        ⟨(purpose.close result t').1 ++ rest, (purpose.close result t').2⟩ := by
  induction hook generalizing t with
  | done result => exact ⟨result, t, rfl, (reaches_of_perform hlocal hm rfl).1⟩
  | look next ih =>
    obtain ⟨hfirst, hm⟩ := reaches_of_perform hlocal hm rfl
    obtain ⟨result, t', hrun, hrest⟩ := ih _ hm
    exact ⟨result, t', hrun, hfirst.trans hrest⟩
  | note line next ih | override j tag k next ih =>
    obtain ⟨hfirst, hm⟩ := reaches_of_perform hlocal hm rfl
    obtain ⟨result, t', hrun, hrest⟩ := ih hm
    exact ⟨result, t', hrun, hfirst.trans hrest⟩
  | edit | build | insertText | insertSpec | setAction =>
    have hallows := (hm.work _ List.mem_cons_self).1
    cases purpose <;> exact False.elim hallows

lemma exists_makePayload (hm : (⟨.build id :: rest, t⟩ : Moment).IsLocal s)
    (hn : t.node? id = some n) (hstate : n.state = .unparsed) (build : Builder) :
    ∃ t', s.makePayload build (s.expandBody (s.decodeHeader t id) id) id = some t' ∧
      s.Reaches ⟨.build id :: rest, t⟩ ⟨.children id :: rest, t'⟩ := by
  rcases hresolve : s.registry.resolve (s.expandBody (s.decodeHeader t id) id) id with ⟨h, t₁⟩
  have hperform : s.perform (.build id) t =
      ([.program (.payload id) (h.payload id)], t₁.log (.call .payload id)) := by
    simp only [perform, hn, hstate, if_true, hresolve]
  obtain ⟨hfirst, hm⟩ := reaches_of_perform hlocal hm hperform
  obtain ⟨result, t', hrun, hrest⟩ := exists_run_of_isLocal hlocal hm build
  refine ⟨_, ?_, hfirst.trans hrest⟩
  rw [makePayload, hresolve]
  exact Option.bind_eq_some_iff.mpr ⟨_, hrun, rfl⟩

lemma exists_registerNode (hm : (⟨.register id :: rest, t⟩ : Moment).IsLocal s)
    (build : Builder) :
    ∃ t', s.registerNode build (t.advance id .childrenBuilt) id = some t' ∧
      s.Reaches ⟨.register id :: rest, t⟩ ⟨.finish id :: rest, t'⟩ := by
  rw [registerNode]
  rcases hparent : (t.advance id .childrenBuilt).parent? id with - | parent
  · have hperform : s.perform (.register id) t =
        ([.finish id], (t.advance id .childrenBuilt).advance id .registered) := by
      simp only [perform, hparent]
    exact ⟨_, rfl, (reaches_of_perform hlocal hm hperform).1⟩
  · rcases hresolve : s.registry.resolve (t.advance id .childrenBuilt) id with ⟨h, t₁⟩
    have hperform : s.perform (.register id) t =
        ([.program (.register id) (h.register id parent)], t₁.log (.call .register id)) := by
      simp only [perform, hparent, hresolve]
    obtain ⟨hfirst, hm⟩ := reaches_of_perform hlocal hm hperform
    obtain ⟨result, t', hrun, hrest⟩ := exists_run_of_isLocal hlocal hm build
    exact ⟨_, Option.bind_eq_some_iff.mpr ⟨_, hrun, rfl⟩, hfirst.trans hrest⟩

lemma exists_finishNode (hm : (⟨.finish id :: rest, t⟩ : Moment).IsLocal s)
    (build : Builder) : ∃ t', s.finishNode build t id = some t' := by
  obtain ⟨-, hm⟩ := reaches_of_perform hlocal hm rfl
  obtain ⟨result, t', hrun, -⟩ := exists_run_of_isLocal hlocal hm build
  exact ⟨_, Option.bind_eq_some_iff.mpr ⟨_, hrun, rfl⟩⟩

variable (hshrinks : s.Shrinks)

include hshrinks

lemma exists_buildAll_of_isLocal {depth : Nat} {ids : List NodeId}
    (hbuild : ∀ {t : Tree Handler} {id : NodeId} {rest : List Work},
      (⟨.build id :: rest, t⟩ : Moment).IsLocal s →
      t.IsRanked s.settings.layout.tabWidth → t.rankOf s.settings.layout.tabWidth id < depth →
      ∃ t', s.build depth t id = some t')
    (hm : (⟨ids.map .build ++ rest, t⟩ : Moment).IsLocal s)
    (hranked : t.IsRanked s.settings.layout.tabWidth)
    (hdepth : ∀ id ∈ ids, t.rankOf s.settings.layout.tabWidth id < depth) :
    ∃ t', buildAll (s.build depth) ids t = some t' := by
  induction ids generalizing t with
  | nil => exact ⟨t, rfl⟩
  | cons id ids ih =>
    obtain ⟨hfirst, hdepth⟩ := List.forall_mem_cons.mp hdepth
    obtain ⟨t₁, ht₁⟩ := hbuild hm hranked hfirst
    have hreaches := does_of_build ht₁ _ (isSafe_of_isLocal hlocal hm)
    obtain ⟨hranked₁, hsame⟩ := isRanked_of_reaches hlocal hshrinks hm hranked hreaches
    have hdepth₁ : ∀ c ∈ ids, t₁.rankOf s.settings.layout.tabWidth c < depth := by
      intro c hc
      have hmem : Work.build c ∈ (id :: ids).map Work.build ++ rest :=
        List.mem_append_left _ (List.mem_map_of_mem (List.mem_cons_of_mem _ hc))
      exact (hsame c (hm.work _ hmem).1).trans_lt (hdepth c hc)
    obtain ⟨t', ht'⟩ := ih (isLocal_of_reaches hlocal hm hreaches) hranked₁ hdepth₁
    exact ⟨t', Option.bind_eq_some_iff.mpr ⟨t₁, ht₁, ht'⟩⟩

/-- At any depth beyond the rank of its node a build comes to an end. -/
theorem exists_build_of_isLocal {depth : Nat}
    (hm : (⟨.build id :: rest, t⟩ : Moment).IsLocal s)
    (hranked : t.IsRanked s.settings.layout.tabWidth)
    (hdepth : t.rankOf s.settings.layout.tabWidth id < depth) :
    ∃ t', s.build depth t id = some t' := by
  induction depth generalizing t id rest with
  | zero => exact absurd hdepth (Nat.not_lt_zero _)
  | succ depth ih =>
    obtain ⟨hid, -⟩ : id < t.size ∧ _ := hm.work (.build id) List.mem_cons_self
    obtain ⟨n, hn⟩ := exists_node?_of_lt hid
    simp only [build, buildOnce, hn]
    split
    · next hstate =>
      obtain ⟨t₁, hpayload, hreaches⟩ := exists_makePayload hlocal hm hn hstate (s.build depth)
      obtain ⟨hranked₁, hsame⟩ := isRanked_of_reaches hlocal hshrinks hm hranked hreaches
      have hm₁ := isLocal_of_reaches hlocal hm hreaches
      -- the children have smaller ranks than their node
      have hdepth₁ : ∀ c ∈ t₁.childNodes id, t₁.rankOf s.settings.layout.tabWidth c < depth := by
        intro c hc
        have hparent : t₁.parent? c = some id := hm₁.isRegular.isArena.mem_childNodes_iff.mp hc
        exact (hranked₁ c id hparent).trans_le ((hsame id hid).trans_le (Nat.le_of_lt_succ hdepth))
      have hm₂ := (reaches_of_perform hlocal hm₁ rfl).2
      rw [List.append_assoc] at hm₂
      obtain ⟨t₂, hall⟩ := exists_buildAll_of_isLocal hlocal hshrinks ih hm₂ hranked₁ hdepth₁
      have hdoes := does_of_buildAll (fun _ _ _ => does_of_build) hall
      have hm₃ := isLocal_of_reaches hlocal hm₂ (hdoes _ (isSafe_of_isLocal hlocal hm₂))
      obtain ⟨t₃, hregister, hreaches₃⟩ := exists_registerNode hlocal hm₃ (s.build depth)
      obtain ⟨t₄, hfinish⟩ := exists_finishNode hlocal (isLocal_of_reaches hlocal hm₃ hreaches₃)
        (s.build depth)
      refine ⟨t₄, ?_⟩
      simp only [buildSteps, hpayload, hall, hregister, Option.bind_eq_bind, Option.bind_some,
        hfinish]
    · exact ⟨t, rfl⟩

end

/-! ## Dispatch -/

lemma isRanked_of_isFresh {t₀ : Tree Handler} (hfresh : s.IsFresh t₀) (width : Nat) :
    t₀.IsRanked width := by
  intro id parent hparent
  have harena := (isRegular_of_isFresh hfresh).isArena
  have hid : id < t₀.size := (harena.lt_of_parent? hparent).2
  obtain rfl : id = root := by
    cases hfresh with
    | ofText text | ofSpec spec => exact Nat.lt_one_iff.mp hid
  cases harena.parent?_root.symm.trans hparent

/-- A build with local handlers comes to an end if bodies shrink. -/
lemma exists_build_of_isFresh (hlocal : s.IsLocal) (hshrinks : s.Shrinks)
    {t₀ : Tree Handler} (hfresh : s.IsFresh t₀) :
    ∃ bound, ∀ depth, bound < depth → ∃ t, s.build depth t₀ root = some t :=
  ⟨t₀.rankOf s.settings.layout.tabWidth root, fun _ hdepth =>
    exists_build_of_isLocal hlocal hshrinks (isLocal_of_isFresh hfresh)
      (isRanked_of_isFresh hfresh _) hdepth⟩

/-- Hooks change nothing but the overrides of their own nodes while they make the payloads.  Then a
build comes to an end if bodies shrink, and when it does, every node has the handler that is
dispatched at it: the nearest override of its tag on the way up to the root, or else the handler of
the registry for its tag, or else the generic one. -/
theorem handler_eq_dispatch (s : Setup) (hlocal : s.IsLocal) {t₀ : Tree Handler}
    (hfresh : s.IsFresh t₀) :
    (s.Shrinks → ∃ bound, ∀ depth, bound < depth → ∃ t, s.build depth t₀ root = some t) ∧
    ∀ depth t, s.build depth t₀ root = some t →
      ∀ id n, t.node? id = some n → n.handler = some (s.registry.dispatch t id n.tag) := by
  have hstart := isLocal_of_isFresh hfresh
  have hsafe := isSafe_of_isLocal hlocal hstart
  refine ⟨fun hshrinks => exists_build_of_isFresh hlocal hshrinks hfresh,
    fun depth t h id n hn => ?_⟩
  have hend := isLocal_of_reaches hlocal hstart (does_of_build h [] hsafe)
  have hdone := done_of_build hfresh hsafe h hn
  cases hend.isDispatched id n hn with
  | waits _ state =>
    have hbuilt := (state?_of_node? hn).symm.trans (congrArg Stage.state hdone)
    cases state.symm.trans (Option.some.inj hbuilt)
  | knows handler _ law => exact law ▸ handler

/-- A handler with a table of its own that sets itself for one more tag beneath its node. -/
def warden : Handler where
  name := "warden".toList
  beneath := [("a".toList, .constant "inner".toList (.whole 1))]
  payload id := .override id "b".toList "warden".toList (pure none)

/-- A setup with handlers for tags anywhere, and one for a tag beneath the root. -/
def guarded : Setup where
  registry :=
    { handlers := [("box".toList, warden), ("a".toList, .constant "plain".toList (.whole 3))]
      beneath := [(("root".toList, "c".toList), .constant "scoped".toList (.whole 4))] }
  known _ := warden

lemma offers_guarded {h : Handler} (hoffers : guarded.Offers h) :
    h = .generic ∨ h = warden ∨ ∃ name p, h = .constant name p := by
  induction hoffers with
  | generic => exact .inl rfl
  | handlers hmem =>
    rcases List.mem_cons.mp hmem with hmem | hmem
    · exact .inr (.inl (Prod.mk.inj hmem).2)
    · exact .inr (.inr ⟨_, _, (Prod.mk.inj (List.mem_singleton.mp hmem)).2⟩)
  | beneath hmem => exact .inr (.inr ⟨_, _, (Prod.mk.inj (List.mem_singleton.mp hmem)).2⟩)
  | inner _ hmem ih =>
    rcases ih with rfl | rfl | ⟨name, p, rfl⟩
    · exact absurd hmem List.not_mem_nil
    · exact .inr (.inr ⟨_, _, (Prod.mk.inj (List.mem_singleton.mp hmem)).2⟩)
    · exact absurd hmem List.not_mem_nil
  | installed _ hinstalls ih =>
    rcases ih with rfl | rfl | ⟨name, p, rfl⟩
    · rcases hinstalls with ⟨_, hook⟩ | ⟨_, _, hook⟩ | ⟨_, hook⟩ <;> cases hook
    · rcases hinstalls with ⟨_, hook⟩ | ⟨_, _, hook⟩ | ⟨_, hook⟩
      · exact .inr (.inl rfl)
      · cases hook
      · cases hook
    · rcases hinstalls with ⟨_, hook⟩ | ⟨_, _, hook⟩ | ⟨_, hook⟩ <;> cases hook

lemma isLocal_guarded : guarded.IsLocal := by
  intro h hoffers
  rcases offers_guarded hoffers with rfl | rfl | ⟨name, p, rfl⟩
  · exact ⟨fun _ => trivial, fun _ _ => trivial, fun _ => trivial⟩
  · exact ⟨fun _ => ⟨rfl, trivial⟩, fun _ _ => trivial, fun _ => trivial⟩
  · exact ⟨fun _ => trivial, fun _ _ => trivial, fun _ => trivial⟩

lemma shrinks_guarded : guarded.Shrinks where
  bodies name g hg := by cases hg
  handlers h g hoffers hbody := by
    rcases offers_guarded hoffers with rfl | rfl | ⟨name, p, rfl⟩ <;> cases hbody

/-- A document in which every kind of handler applies. -/
def guardedSpec : Spec :=
  { tag := "root".toList, children := [
    .node { tag := "box".toList, children := [
      .node { tag := "a".toList }, .node { tag := "b".toList }, .node { tag := "c".toList },
      .node { tag := "d".toList, children := [.node { tag := "a".toList }] }] },
    .node { tag := "a".toList }] }

theorem handler_eq_dispatch_in_guarded :
    (∃ bound, ∀ depth, bound < depth →
      ∃ t, guarded.build depth (ofSpec guardedSpec) root = some t) ∧
    ∃ t, guarded.build 5 (ofSpec guardedSpec) root = some t ∧
      ((List.range t.size).map fun id => ((t.node? id).bind Node.handler).map Handler.name) =
        ["generic", "warden", "plain", "inner", "warden", "scoped", "generic", "inner"].map
          (some ·.toList) ∧
      ∀ id n, t.node? id = some n → n.handler = some (guarded.registry.dispatch t id n.tag) := by
  have hnames : (guarded.build 5 (ofSpec guardedSpec) root).map (fun t =>
      (List.range t.size).map fun id => ((t.node? id).bind Node.handler).map Handler.name) =
        some (["generic", "warden", "plain", "inner", "warden", "scoped", "generic", "inner"].map
          (some ·.toList)) := by decide +kernel
  obtain ⟨t, ht, hnames⟩ := Option.map_eq_some_iff.mp hnames
  obtain ⟨hends, hlaw⟩ := handler_eq_dispatch guarded isLocal_guarded (.ofSpec guardedSpec)
  exact ⟨hends shrinks_guarded, t, ht, hnames, hlaw 5 t ht⟩

end Setup

end TaggedOutline
