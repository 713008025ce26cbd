import Mathlib.Tactic.Lemma
import TaggedOutline.Handler.Script

/-!
# Discreet handlers

A handler can do as it likes with a tree.  A discreet one keeps to the nodes from its own on: it
builds no earlier ones and changes nothing in them that the steps of a path see, though it may add
children to them.  Whatever handlers it brings are discreet as well, itself perhaps among them.  The
generic handler is discreet, and so is every script that brings itself and discreet handlers only
(`Handler.isDiscreet_scripted`).
-/

namespace TaggedOutline

/-- No step of a path tells one node from another. -/
def Node.LooksLike {H : Type} (m n : Node H) : Prop :=
  ∀ step : Step, step.accepts m = step.accepts n

/-- What stands under a node from some number on has such a number as well. -/
def Tree.IsParted {H : Type} (first : NodeId) (t : Tree H) : Prop :=
  ∀ id, first ≤ id → ∀ c ∈ t.childNodes id, first ≤ c

/-! ## Programs and handlers -/

namespace Hook

variable {α β : Type} {keys keys' : Text → Prop} {first : NodeId}

/-- Whether a program leaves the nodes before some number unbuilt and as the steps of a path see
them, and sets the handlers of given keys only. -/
def IsDiscreet (keys : Text → Prop) (first : NodeId) : Hook α → Prop
  | .done _ => True
  | .look next => ∀ t : Tree Text, t.IsParted first → (next t).IsDiscreet keys first
  | .edit id change next =>
    (first ≤ id ∨ ∀ n : Node Handler, (n.edit change).LooksLike n) ∧ next.IsDiscreet keys first
  | .note _ next => next.IsDiscreet keys first
  | .build id next => first ≤ id ∧ ∀ p, (next p).IsDiscreet keys first
  | .insertText _ _ next => ∀ ids, (∀ id ∈ ids, first ≤ id) → (next ids).IsDiscreet keys first
  | .insertSpec _ _ next => ∀ id, first ≤ id → (next id).IsDiscreet keys first
  | .override _ _ key next => keys key ∧ next.IsDiscreet keys first
  | .setAction _ _ next => next.IsDiscreet keys first

namespace IsDiscreet

lemma mono (hkeys : ∀ k, keys k → keys' k) {hook : Hook α}
    (h : hook.IsDiscreet keys first) : hook.IsDiscreet keys' first := by
  induction hook with
  | done result => trivial
  | look next ih => exact fun t ht => ih t (h t ht)
  | edit id change next ih => exact ⟨h.1, ih h.2⟩
  | note line next ih => exact ih h
  | build id next ih => exact ⟨h.1, fun p => ih p (h.2 p)⟩
  | insertText parent t next ih => exact fun ids hids => ih ids (h ids hids)
  | insertSpec parent s next ih => exact fun id hid => ih id (h id hid)
  | override id tag key next ih => exact ⟨hkeys key h.1, ih h.2⟩
  | setAction id action next ih => exact ih h

lemma bind {hook : Hook α} {f : α → Hook β} (h : hook.IsDiscreet keys first)
    (hf : ∀ a, (f a).IsDiscreet keys first) : (hook.bind f).IsDiscreet keys first := by
  induction hook with
  | done result =>
    cases result with
    | ok a => exact hf a
    | error e => trivial
  | look next ih => exact fun t ht => ih t (h t ht)
  | edit id change next ih => exact ⟨h.1, ih h.2⟩
  | note line next ih => exact ih h
  | build id next ih => exact ⟨h.1, fun p => ih p (h.2 p)⟩
  | insertText parent t next ih => exact fun ids hids => ih ids (h ids hids)
  | insertSpec parent s next ih => exact fun id hid => ih id (h id hid)
  | override id tag key next ih => exact ⟨h.1, ih h.2⟩
  | setAction id action next ih => exact ih h

end IsDiscreet

end Hook

namespace Handler

variable {s : Setup} {known known' : Handler → Prop} {h k : Handler}

/-- The hooks of a handler are discreet, and it brings handlers of a given kind only. -/
structure IsDiscreetAmong (s : Setup) (known : Handler → Prop) (h : Handler) : Prop where
  beneath : ∀ x ∈ h.beneath, known x.2
  payload : ∀ {first id}, first ≤ id →
    (h.payload id).IsDiscreet (fun key => known (s.known key)) first
  register : ∀ {first id} parent, first ≤ id →
    (h.register id parent).IsDiscreet (fun key => known (s.known key)) first
  post : ∀ {first id}, first ≤ id →
    (h.post id).IsDiscreet (fun key => known (s.known key)) first

/-- The hooks of a handler are discreet, and so are those of every handler that it brings. -/
def IsDiscreet (s : Setup) (h : Handler) : Prop :=
  ∃ known : Handler → Prop, known h ∧ ∀ k, known k → k.IsDiscreetAmong s known

lemma IsDiscreetAmong.mono (hknown : ∀ k, known k → known' k)
    (h : k.IsDiscreetAmong s known) : k.IsDiscreetAmong s known' where
  beneath x hx := hknown x.2 (h.beneath x hx)
  payload hid := (h.payload hid).mono fun _ => hknown _
  register parent hid := (h.register parent hid).mono fun _ => hknown _
  post hid := (h.post hid).mono fun _ => hknown _

lemma IsDiscreet.among (hh : h.IsDiscreet s) : h.IsDiscreetAmong s (IsDiscreet s) := by
  obtain ⟨known, hknown, hall⟩ := hh
  exact (hall h hknown).mono fun k hk => ⟨known, hk, hall⟩

/-- A handler is discreet if its hooks are and it brings itself and discreet handlers only. -/
lemma isDiscreet_of_among (hh : h.IsDiscreetAmong s fun k => k = h ∨ k.IsDiscreet s) :
    h.IsDiscreet s := by
  refine ⟨fun k => k = h ∨ k.IsDiscreet s, .inl rfl, ?_⟩
  rintro k (rfl | hk)
  · exact hh
  · exact hk.among.mono fun _ => .inr

lemma isDiscreet_generic : generic.IsDiscreet s :=
  isDiscreet_of_among ⟨fun _ hx => absurd hx List.not_mem_nil, fun _ => trivial,
    fun _ _ => trivial, fun _ => trivial⟩

end Handler

/-! ## Scripts -/

namespace Script

variable {keys : Text → Prop} {read : Matcher.Reader} {first id : NodeId}

lemma isDiscreet_withNode {α : Type} {next : Node Text → Hook α}
    (h : ∀ n, (next n).IsDiscreet keys first) : (withNode id next).IsDiscreet keys first := by
  intro t _
  dsimp only
  split
  · exact h _
  · trivial

lemma isDiscreet_buildEach {α : Type} {next : Hook α} (h : next.IsDiscreet keys first)
    {ids : List NodeId} (hids : ∀ id ∈ ids, first ≤ id) :
    (buildEach next ids).IsDiscreet keys first := by
  induction ids with
  | nil => exact h
  | cons id ids ih =>
    obtain ⟨hid, hids⟩ := List.forall_mem_cons.mp hids
    exact ⟨hid, fun _ => ih hids⟩

/-- A step of a script is discreet: of the nodes before its own it changes a counter only. -/
lemma Step.isDiscreet_run (hid : first ≤ id) (made : Option Payload) {step : Step}
    (hstep : ∀ tag key, step = .override tag key → keys key) :
    (step.run read id made).IsDiscreet keys first := by
  have hmade : (pure made : Hook (Option Payload)).IsDiscreet keys first := trivial
  cases step with
  | constant | fail => trivial
  | annotate | setLabel | setParam => exact ⟨.inl hid, hmade⟩
  | override tag key => exact ⟨hstep tag key rfl, hmade⟩
  | setAction => exact hmade
  | countAbove key =>
    intro t _
    dsimp only
    split
    · exact ⟨.inr fun _ _ => rfl, hmade⟩
    · exact hmade
  | insertText t => exact fun _ _ => hmade
  | insertTextAbove text =>
    intro t _
    dsimp only
    split
    · exact fun _ _ => hmade
    · exact hmade
  | insertSpec s => exact fun _ _ => hmade
  | buildSelf => exact ⟨hid, fun _ => hmade⟩
  | buildChildren => exact fun t ht => isDiscreet_buildEach hmade (ht id hid)
  | notePayloads | noteFound => exact fun _ _ => hmade
  | _ => exact isDiscreet_withNode fun n => trivial

lemma isDiscreet_run (hid : first ≤ id) (occasion : Occasion) {steps : List Step}
    (hsteps : ∀ tag key, .override tag key ∈ steps → keys key) :
    (run read occasion id steps).IsDiscreet keys first := by
  refine isDiscreet_withNode fun n => ?_
  suffices h : ∀ made, (runSteps read id made steps).IsDiscreet keys first from h none
  induction steps with
  | nil => exact fun _ => trivial
  | cons step steps ih =>
    intro made
    refine Hook.IsDiscreet.bind (Step.isDiscreet_run hid made ?_) ?_
    · rintro tag key rfl
      exact hsteps tag key List.mem_cons_self
    · exact ih fun tag key hkey => hsteps tag key (List.mem_cons_of_mem _ hkey)

end Script

/-- A script is discreet if the handlers are that it sets, itself apart. -/
theorem Handler.isDiscreet_scripted {s : Setup} {read : Matcher.Reader} {name : Text}
    {payload register post : List Script.Step}
    (h : ∀ tag key, .override tag key ∈ payload ++ register ++ post →
      s.known key = scripted read name payload register post ∨ (s.known key).IsDiscreet s) :
    (scripted read name payload register post).IsDiscreet s :=
  isDiscreet_of_among
    { beneath := fun _ hx => absurd hx List.not_mem_nil
      payload := fun hid => Script.isDiscreet_run hid _ fun tag key hkey =>
        h tag key (by simp [hkey])
      register := fun _ hid => (Script.isDiscreet_run hid _ fun tag key hkey =>
        h tag key (by simp [hkey])).bind fun _ => trivial
      post := fun hid => (Script.isDiscreet_run hid _ fun tag key hkey =>
        h tag key (by simp [hkey])).bind fun _ => trivial }

/-- All handlers in the tables of the registry are discreet. -/
structure Setup.IsDiscreet (s : Setup) : Prop where
  handlers : ∀ x ∈ s.registry.handlers, x.2.IsDiscreet s
  beneath : ∀ x ∈ s.registry.beneath, x.2.IsDiscreet s

lemma Setup.isDiscreet_of_empty {s : Setup} (h : s.registry = {}) : s.IsDiscreet := by
  constructor <;> rw [h] <;> exact fun _ hx => absurd hx List.not_mem_nil

end TaggedOutline
