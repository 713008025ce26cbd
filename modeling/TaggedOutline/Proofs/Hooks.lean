import Mathlib.Tactic.Lemma
import TaggedOutline.Handler

/-!
# What hooks may do

A hook is a program, and what holds of a build depends on what the programs in it can do.
`Setup.Offers` are the handlers that can come up in a build: those of the tables, and those that
hooks of such handlers set.  A setup is local, quiet or idle if the hooks of all these handlers
are: they change nothing but the overrides of their own node, or nothing at all, or they do nothing.
-/

namespace TaggedOutline

namespace Hook

variable {α : Type}

/-- Whether a program changes nothing in a tree. -/
def IsQuiet : Hook α → Prop
  | .done _ => True
  | .look next => ∀ t, (next t).IsQuiet
  | .note _ next => next.IsQuiet
  | _ => False

/-- Whether a program changes nothing in a tree but the overrides of one node. -/
def OnlyOverrides (id : NodeId) : Hook α → Prop
  | .done _ => True
  | .look next => ∀ t, (next t).OnlyOverrides id
  | .note _ next => next.OnlyOverrides id
  | .override j _ _ next => j = id ∧ next.OnlyOverrides id
  | _ => False

/-- Whether a program can set the handler with a key somewhere. -/
inductive Installs (k : Text) : Hook α → Prop
  | here {id tag next} : Installs k (.override id tag k next)
  | override {id tag key next} : Installs k next → Installs k (.override id tag key next)
  | look {next} (t : Tree Text) : Installs k (next t) → Installs k (.look next)
  | edit {id change next} : Installs k next → Installs k (.edit id change next)
  | note {line next} : Installs k next → Installs k (.note line next)
  | build {id next} (p : Option Payload) : Installs k (next p) → Installs k (.build id next)
  | insertText {parent t next} (ids : List NodeId) :
      Installs k (next ids) → Installs k (.insertText parent t next)
  | insertSpec {parent s next} (id : NodeId) :
      Installs k (next id) → Installs k (.insertSpec parent s next)
  | setAction {id action next} : Installs k next → Installs k (.setAction id action next)

lemma IsQuiet.onlyOverrides {hook : Hook α} (h : hook.IsQuiet) (id : NodeId) :
    hook.OnlyOverrides id := by
  induction hook with
  | done result => trivial
  | look next ih => exact fun t => ih t (h t)
  | note line next ih => exact ih h
  | edit | build | insertText | insertSpec | override | setAction => exact False.elim h

end Hook

/-- Whether the hooks of a handler can set the handler with a key somewhere. -/
inductive Handler.Installs (h : Handler) (k : Text) : Prop
  | payload (id : NodeId) (hook : (h.payload id).Installs k)
  | register (id parent : NodeId) (hook : (h.register id parent).Installs k)
  | post (id : NodeId) (hook : (h.post id).Installs k)

/-- The handlers that can come up in a build. -/
inductive Setup.Offers (s : Setup) : Handler → Prop
  | generic : Offers s .generic
  | handlers {tag : Text} {h : Handler} : (tag, h) ∈ s.registry.handlers → Offers s h
  | beneath {tags : Text × Text} {h : Handler} : (tags, h) ∈ s.registry.beneath → Offers s h
  | inner {h : Handler} {tag : Text} {k : Handler} :
      Offers s h → (tag, k) ∈ h.beneath → Offers s k
  | installed {h : Handler} {key : Text} : Offers s h → h.Installs key → Offers s (s.known key)

/-- The hooks of a handler change nothing but the overrides of their own node, and those only while
they make its payload. -/
structure Handler.IsLocal (h : Handler) : Prop where
  payload : ∀ id, (h.payload id).OnlyOverrides id
  register : ∀ id parent, (h.register id parent).IsQuiet
  post : ∀ id, (h.post id).IsQuiet

/-- All handlers that can come up are local. -/
def Setup.IsLocal (s : Setup) : Prop := ∀ h, s.Offers h → h.IsLocal

/-- The hooks of a handler change nothing. -/
structure Handler.IsQuiet (h : Handler) : Prop where
  payload : ∀ id, (h.payload id).IsQuiet
  register : ∀ id parent, (h.register id parent).IsQuiet
  post : ∀ id, (h.post id).IsQuiet

/-- The hooks of a handler do nothing. -/
structure Handler.IsIdle (h : Handler) : Prop where
  payload : ∀ id, h.payload id = pure none
  register : ∀ id parent, h.register id parent = pure ()
  post : ∀ id, h.post id = pure ()

/-- All handlers that can come up are quiet. -/
def Setup.IsQuiet (s : Setup) : Prop := ∀ h, s.Offers h → h.IsQuiet

/-- All handlers that can come up are idle. -/
def Setup.IsIdle (s : Setup) : Prop := ∀ h, s.Offers h → h.IsIdle

lemma Setup.IsQuiet.isLocal {s : Setup} (h : s.IsQuiet) : s.IsLocal := fun k hk =>
  ⟨fun id => ((h k hk).payload id).onlyOverrides id, (h k hk).register, (h k hk).post⟩

lemma Handler.isIdle_generic : Handler.generic.IsIdle :=
  ⟨fun _ => rfl, fun _ _ => rfl, fun _ => rfl⟩

lemma Handler.IsIdle.isQuiet {h : Handler} (hidle : h.IsIdle) : h.IsQuiet :=
  ⟨fun id => hidle.payload id ▸ trivial, fun id parent => hidle.register id parent ▸ trivial,
    fun id => hidle.post id ▸ trivial⟩

lemma Setup.IsIdle.isQuiet {s : Setup} (h : s.IsIdle) : s.IsQuiet := fun k hk => (h k hk).isQuiet

/-- A quiet program sets no handler. -/
lemma Hook.IsQuiet.not_installs {α : Type} {hook : Hook α} (hquiet : hook.IsQuiet) {k : Text} :
    ¬ hook.Installs k := by
  intro hinstalls
  induction hinstalls with
  | look t _ ih => exact ih (hquiet t)
  | note _ ih => exact ih hquiet
  | here | override | edit | build | insertText | insertSpec | setAction => exact hquiet

/-- A quiet handler sets none. -/
lemma Handler.IsQuiet.not_installs {h : Handler} {k : Text} (hquiet : h.IsQuiet) :
    ¬ h.Installs k := by
  rintro (⟨id, hook⟩ | ⟨id, parent, hook⟩ | ⟨id, hook⟩)
  · exact (hquiet.payload id).not_installs hook
  · exact (hquiet.register id parent).not_installs hook
  · exact (hquiet.post id).not_installs hook

end TaggedOutline
