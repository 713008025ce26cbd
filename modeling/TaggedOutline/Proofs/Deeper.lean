import Mathlib.Tactic.Lemma
import TaggedOutline.Tree.Build

/-!
# Builds of greater depth

The depth of a build is only a bound for the builds inside it.  What comes to an end at one depth
comes to the same end at every greater one (`Setup.build_of_le`).
-/

namespace TaggedOutline

namespace Setup

/-- What one builder builds, another one builds in the same way. -/
def Agrees (build build' : Builder) : Prop :=
  ∀ {t id t'}, build t id = some t' → build' t id = some t'

variable {s : Setup} {build build' : Builder} {t t' : Tree Handler} {id : NodeId}

section

variable (hagrees : Agrees build build')

include hagrees

lemma buildAll_of_agrees {ids : List NodeId} (h : buildAll build ids t = some t') :
    buildAll build' ids t = some t' := by
  induction ids generalizing t with
  | nil => exact h
  | cons id ids ih =>
    obtain ⟨t₁, hfirst, hrest⟩ := Option.bind_eq_some_iff.mp h
    exact Option.bind_eq_some_iff.mpr ⟨t₁, hagrees hfirst, ih hrest⟩

lemma insertTextBy_of_agrees {parent : NodeId} {text : Text} {r : List NodeId × Tree Handler}
    (h : s.insertTextBy build t parent text = some r) :
    s.insertTextBy build' t parent text = some r := by
  obtain ⟨t₁, hall, hreturn⟩ := Option.bind_eq_some_iff.mp h
  exact Option.bind_eq_some_iff.mpr ⟨t₁, buildAll_of_agrees hagrees hall, hreturn⟩

lemma insertSpecBy_of_agrees {parent : NodeId} {spec : Spec} {r : NodeId × Tree Handler}
    (h : insertSpecBy build t parent spec = some r) :
    insertSpecBy build' t parent spec = some r := by
  obtain ⟨t₁, hfirst, hreturn⟩ := Option.bind_eq_some_iff.mp h
  exact Option.bind_eq_some_iff.mpr ⟨t₁, hagrees hfirst, hreturn⟩

lemma run_of_agrees {α : Type} {hook : Hook α} {r : Except BuildError α × Tree Handler}
    (h : s.run build hook t = some r) : s.run build' hook t = some r := by
  induction hook generalizing t with
  | done result => exact h
  | look next ih => exact ih _ h
  | edit id change next ih => exact ih h
  | note line next ih => exact ih h
  | build id next ih =>
    obtain ⟨t₁, hfirst, hrest⟩ := Option.bind_eq_some_iff.mp h
    exact Option.bind_eq_some_iff.mpr ⟨t₁, hagrees hfirst, ih _ hrest⟩
  | insertText parent text next ih =>
    obtain ⟨r₁, hinsert, hrest⟩ := Option.bind_eq_some_iff.mp h
    exact Option.bind_eq_some_iff.mpr ⟨r₁, insertTextBy_of_agrees hagrees hinsert, ih _ hrest⟩
  | insertSpec parent spec next ih =>
    obtain ⟨r₁, hinsert, hrest⟩ := Option.bind_eq_some_iff.mp h
    exact Option.bind_eq_some_iff.mpr ⟨r₁, insertSpecBy_of_agrees hagrees hinsert, ih _ hrest⟩
  | override id tag handler next ih => exact ih h
  | setAction id action next ih => exact ih h

lemma makePayload_of_agrees (h : s.makePayload build t id = some t') :
    s.makePayload build' t id = some t' := by
  obtain ⟨r, hrun, hreturn⟩ := Option.bind_eq_some_iff.mp h
  exact Option.bind_eq_some_iff.mpr ⟨r, run_of_agrees hagrees hrun, hreturn⟩

lemma registerNode_of_agrees (h : s.registerNode build t id = some t') :
    s.registerNode build' t id = some t' := by
  rw [registerNode] at h ⊢
  split at h
  · exact h
  · obtain ⟨r, hrun, hreturn⟩ := Option.bind_eq_some_iff.mp h
    exact Option.bind_eq_some_iff.mpr ⟨r, run_of_agrees hagrees hrun, hreturn⟩

lemma finishNode_of_agrees (h : s.finishNode build t id = some t') :
    s.finishNode build' t id = some t' := by
  obtain ⟨r, hrun, hreturn⟩ := Option.bind_eq_some_iff.mp h
  exact Option.bind_eq_some_iff.mpr ⟨r, run_of_agrees hagrees hrun, hreturn⟩

lemma buildOnce_of_agrees : Agrees (s.buildOnce build) (s.buildOnce build') := by
  intro t id t' h
  rw [buildOnce] at h ⊢
  split at h
  · exact h
  · split at h
    · obtain ⟨t₁, hmake, h⟩ := Option.bind_eq_some_iff.mp h
      obtain ⟨t₂, hall, h⟩ := Option.bind_eq_some_iff.mp h
      obtain ⟨t₃, hregister, hfinish⟩ := Option.bind_eq_some_iff.mp h
      refine (if_pos ‹_›).trans (Option.bind_eq_some_iff.mpr
        ⟨t₁, makePayload_of_agrees hagrees hmake, ?_⟩)
      refine Option.bind_eq_some_iff.mpr ⟨t₂, buildAll_of_agrees hagrees hall, ?_⟩
      exact Option.bind_eq_some_iff.mpr
        ⟨t₃, registerNode_of_agrees hagrees hregister, finishNode_of_agrees hagrees hfinish⟩
    · exact (if_neg ‹_›).trans h

end

lemma agrees_succ (s : Setup) (depth : Nat) : Agrees (s.build depth) (s.build (depth + 1)) := by
  induction depth with
  | zero => exact fun h => by cases h
  | succ depth ih => exact buildOnce_of_agrees ih

/-- A build that comes to an end comes to the same end at every greater depth. -/
theorem build_of_le {depth depth' : Nat} (hle : depth ≤ depth') :
    Agrees (s.build depth) (s.build depth') := by
  induction hle with
  | refl => exact fun h => h
  | step _ ih => exact fun h => s.agrees_succ _ (ih h)

/-- An insertion that comes to an end comes to the same end at every greater depth. -/
lemma insertText_of_le {depth depth' : Nat} (hle : depth ≤ depth') {parent : NodeId} {text : Text}
    {r : List NodeId × Tree Handler} (h : s.insertText depth t parent text = some r) :
    s.insertText depth' t parent text = some r :=
  insertTextBy_of_agrees (build_of_le hle) h

end Setup

end TaggedOutline
