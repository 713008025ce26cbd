import TaggedOutline.Text

/-!
# Parameters

Parameters and options are keyed values in the order in which their keys first appeared.  Setting a
key again changes its value and leaves its place, so each key is there once.
-/

namespace TaggedOutline

namespace Params

/-- The value of a key that was written without one. -/
def flagValue : Text := "yes".toList

/-- The entries after setting a key. -/
def setEntry (key value : Text) : List (Text × Text) → List (Text × Text)
  | [] => [(key, value)]
  | (k, v) :: rest => if k = key then (k, value) :: rest else (k, v) :: setEntry key value rest

theorem keys_setEntry (key value : Text) (entries : List (Text × Text)) :
    (setEntry key value entries).map Prod.fst =
      if key ∈ entries.map Prod.fst then entries.map Prod.fst
      else entries.map Prod.fst ++ [key] := by
  induction entries with
  | nil => simp [setEntry]
  | cons e entries ih =>
    obtain ⟨k, v⟩ := e
    by_cases hk : k = key
    · simp [setEntry, hk]
    · have hk' : key ≠ k := fun h => hk h.symm
      simp only [setEntry, hk, if_false, List.map_cons, ih, List.mem_cons, hk', false_or]
      split <;> rfl

theorem nodup_setEntry (key value : Text) {entries : List (Text × Text)}
    (h : (entries.map Prod.fst).Nodup) : ((setEntry key value entries).map Prod.fst).Nodup := by
  rw [keys_setEntry]
  split
  · exact h
  · rename_i hkey
    rw [List.nodup_append]
    refine ⟨h, by simp, ?_⟩
    intro a ha b hb hab
    simp only [List.mem_singleton] at hb
    exact hkey (hb ▸ hab ▸ ha)

end Params

/-- Keyed values, each key once. -/
structure Params where
  entries : List (Text × Text)
  nodup : (entries.map Prod.fst).Nodup
deriving DecidableEq

namespace Params

/-- No keys at all. -/
def empty : Params := ⟨[], List.Pairwise.nil⟩

instance : Inhabited Params := ⟨empty⟩

/-- Sets a key: a new one at the end, a known one in its place. -/
def insert (p : Params) (key value : Text) : Params :=
  ⟨setEntry key value p.entries, nodup_setEntry key value p.nodup⟩

/-- Sets a key that is written without a value. -/
def insertFlag (p : Params) (key : Text) : Params := p.insert key flagValue

/-- The parameters that come of setting the keys of a list in order. -/
def ofList (entries : List (Text × Text)) : Params :=
  entries.foldl (fun p e => p.insert e.1 e.2) empty

/-- The value of a key. -/
def get? (p : Params) (key : Text) : Option Text := p.entries.lookup key

/-- The entry at a place, counted from one. -/
def entryAt? (p : Params) (place : Nat) : Option (Text × Text) :=
  match place with
  | 0 => none
  | i + 1 => p.entries[i]?

/-- Whether a key is there. -/
def contains (p : Params) (key : Text) : Bool := (p.get? key).isSome

/-- Whether a key is there with the value of a flag. -/
def isSet (p : Params) (key : Text) : Bool := p.get? key == some flagValue

/-- The keys in order. -/
def keys (p : Params) : List Text := p.entries.map Prod.fst

/-- The number of keys. -/
def size (p : Params) : Nat := p.entries.length

/-- Whether there is no key. -/
def isEmpty (p : Params) : Bool := p.entries.isEmpty

end Params

end TaggedOutline
