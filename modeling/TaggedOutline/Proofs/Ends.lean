import TaggedOutline.Proofs.Grown
import TaggedOutline.Proofs.Ranks

/-!
# Builds that come to an end

Hooks that do nothing leave a build to itself, whatever has been done with the tree before.  If
bodies shrink (`Setup.Shrinks`), it comes to an end at any depth beyond the rank of its node
(`Setup.exists_build`).  If nodes of some kind always have one of that kind among their children
(`Setup.Recurs`), the build of such a node comes to an end at no depth
(`Setup.build_eq_none_of_recurs`).
-/

namespace TaggedOutline

namespace Setup

open TaggedOutline.Tree

variable {s : Setup} {depth : Nat} {t : Tree Handler} {id : NodeId} {n : Node Handler}

/-- Builds that have begun come to an end. -/
lemma buildAll_of_hasBegun {ids : List NodeId} (hbegun : ∀ c ∈ ids, t.HasBegun c) :
    buildAll (s.build (depth + 1)) ids t = some t := by
  induction ids with
  | nil => rfl
  | cons c ids ih =>
    obtain ⟨hc, hbegun⟩ := List.forall_mem_cons.mp hbegun
    rw [buildAll, build_of_hasBegun hc]
    exact ih hbegun

lemma exists_buildAll (hidle : s.IsIdle)
    (hbuild : ∀ {t : Tree Handler} {id : NodeId} {n : Node Handler}, t.IsSound s →
      t.node? id = some n → n.state = .unparsed → n.children = [] →
      n.rank s.settings.layout.tabWidth + 1 < depth → ∃ t', s.build depth t id = some t')
    {parent next : Nat} {seeds : List (Child (Node Handler))}
    (hseeds : ∀ n ∈ newNodes seeds, (∃ runtimeOnly, n.IsSeed parent runtimeOnly) ∧
      n.rank s.settings.layout.tabWidth + 1 < depth)
    (hsound : t.IsSound s) (hnodes : t.StandFrom next (newNodes seeds)) :
    ∃ t', buildAll (s.build depth) (List.range' next (newNodes seeds).length) t = some t' := by
  generalize newNodes seeds = nodes at hseeds hnodes
  induction nodes generalizing t next with
  | nil => exact ⟨t, rfl⟩
  | cons seed nodes ih =>
    obtain ⟨⟨⟨runtimeOnly, hseed⟩, hrank⟩, hseeds⟩ := List.forall_mem_cons.mp hseeds
    obtain ⟨n, hn, hremembers⟩ := hnodes 0 seed rfl
    have hstate := (hremembers.congr Node.state fun _ _ => rfl).trans hseed.state
    have hchildren := (hremembers.congr Node.children fun _ _ => rfl).trans hseed.children
    have hrank' : n.rank s.settings.layout.tabWidth = seed.rank s.settings.layout.tabWidth :=
      hremembers.congr (Node.rank _) fun _ _ => rfl
    obtain ⟨t₁, hfirst⟩ := hbuild hsound hn hstate hchildren (hrank' ▸ hrank)
    obtain ⟨m, news, hraised⟩ := raised_of_build hidle depth hsound hn hstate
      (hasBegun_of_children_eq_nil t hchildren) hfirst
    obtain ⟨t₂, hrest⟩ := ih hraised.isSound hseeds (hnodes.tail hraised.spares)
    refine ⟨t₂, ?_⟩
    rw [Nat.add_zero] at hfirst
    rw [List.length_cons, List.range'_succ, buildAll, hfirst]
    exact hrest

/-- A build comes to an end at any depth beyond the rank of its node, if hooks do nothing and bodies
shrink. -/
theorem exists_build (hidle : s.IsIdle) (hshrinks : s.Shrinks)
    (hsound : t.IsSound s) (hn : t.node? id = some n) (hstate : n.state = .unparsed)
    (hbegun : ∀ c ∈ n.childNodes, t.HasBegun c)
    (hdepth : n.rank s.settings.layout.tabWidth + 1 < depth) :
    ∃ t', s.build depth t id = some t' := by
  induction depth generalizing t id n with
  | zero => exact absurd hdepth (Nat.not_lt_zero _)
  | succ depth ih =>
    obtain ⟨handler, t₁, hbegins, hbuild⟩ := build_of_unparsed hidle hsound hn hstate
    obtain ⟨d, rfl⟩ : ∃ d, depth = d + 1 := Nat.exists_eq_succ_of_ne_zero (by omega)
    obtain ⟨t₂, hnew⟩ := exists_buildAll hidle
      (fun hsound hn hstate hnone => ih hsound hn hstate (hasBegun_of_children_eq_nil _ hnone))
      (fun m hm => ⟨⟨_, s.isSeed_of_mem_opened handler id n m hm⟩, by
        have := hshrinks.rank_lt hbegins.offers id n m hm
        omega⟩)
      hbegins.isSound (.of_added hbegins.added)
    have hall : buildAll (s.build (d + 1)) (t₁.childNodes id) t₁ = some t₂ := by
      rw [hbegins.childNodes, buildAll_append,
        buildAll_of_hasBegun (hbegins.hasBegun hsound hn hbegun)]
      exact hnew
    obtain ⟨news, hraised, hsame⟩ :=
      hbegins.exists_raisedAll hsound hn hbegun (raised_of_build hidle (d + 1)) hall
    obtain ⟨t₃, hsteps, -⟩ :=
      exists_lastSteps hidle hraised.isSound (hsame.trans hbegins.here) rfl rfl
    refine ⟨t₃, ?_⟩
    rw [hbuild, hall]
    exact hsteps _

end Setup

/-! ## Builds that come to no end -/

/-- Whichever handler opens a node of some kind, one of that kind is among the new children. -/
def Setup.Recurs (s : Setup) (P : Node Handler → Prop) : Prop :=
  ∀ h, s.Offers h → ∀ id n, P n → ∃ m, Child.node m ∈ (s.opened h id n).1 ∧ P m

namespace Subtree

variable {s : Setup} {P : Node Handler → Prop}

mutual

/-- Such a node has not grown, for what has grown has an end. -/
lemma IsGrown.not_of_recurs (hrecurs : s.Recurs P) :
    ∀ {sub : Subtree Handler} {n : Node Handler}, sub.IsGrown s n → ¬P n
  | ⟨id, _, _⟩, n, ⟨h, hoffers, _, _, hchildren⟩, hn => by
    obtain ⟨m, hm, hP⟩ := hrecurs h hoffers id n hn
    exact AreGrown.not_of_recurs hrecurs hchildren hm hP

lemma AreGrown.not_of_recurs (hrecurs : s.Recurs P) :
    ∀ {children : List (Child (Subtree Handler))} {seeds : List (Child (Node Handler))},
      AreGrown s children seeds → ∀ {m : Node Handler}, Child.node m ∈ seeds → ¬P m
  | _, [], _, _, hm, _ => List.not_mem_nil hm
  | [], _ :: _, hgrown, _, _, _ => hgrown
  | .text _ :: _, _ :: _, hgrown, _, hm, hP => by
    rcases List.mem_cons.mp hm with rfl | hm
    · exact hgrown.1
    · exact AreGrown.not_of_recurs hrecurs hgrown.2 hm hP
  | .node _ :: _, _ :: _, hgrown, _, hm, hP => by
    rcases List.mem_cons.mp hm with rfl | hm
    · exact IsGrown.not_of_recurs hrecurs hgrown.1 hP
    · exact AreGrown.not_of_recurs hrecurs hgrown.2 hm hP

end

end Subtree

/-- The build of a node of a kind that comes back in its children comes to no end. -/
theorem Setup.build_eq_none_of_recurs {s : Setup} {P : Node Handler → Prop} (hidle : s.IsIdle)
    (hrecurs : s.Recurs P) {t : Tree Handler} {id : NodeId} {n : Node Handler}
    (hsound : t.IsSound s) (hn : t.node? id = some n) (hstate : n.state = .unparsed)
    (hbegun : ∀ c ∈ n.childNodes, t.HasBegun c) (hP : P n) (depth : Nat) :
    s.build depth t id = none := by
  cases hbuild : s.build depth t id with
  | none => rfl
  | some t' =>
    obtain ⟨_, _, hraised⟩ := raised_of_build hidle depth hsound hn hstate hbegun hbuild
    exact absurd hP (Subtree.IsGrown.not_of_recurs hrecurs hraised.isGrown)

end TaggedOutline
