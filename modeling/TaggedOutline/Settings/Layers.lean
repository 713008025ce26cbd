import TaggedOutline.Document.Toml.Reader
import TaggedOutline.Settings.Document
import TaggedOutline.Settings.Path

/-!
# Layers of settings

Settings are loaded from layers.  The lowest one holds the defaults; each document above it changes
the keys that it names, and single keys that are set last win over every document.
-/

namespace TaggedOutline

namespace Settings

open Document (Value)

/-- Where a layer comes from. -/
inductive Source where
  /-- A document that is at hand. -/
  | document (t : Text)
  /-- A document that is not there. -/
  | missing (required : Bool)
deriving DecidableEq, Repr

/-- What settings are loaded from. -/
structure Layers where
  /-- The documents, the lowest first. -/
  sources : List Source := []
  /-- The single keys, in the order in which they were set. -/
  overrides : List (Path × Value) := []

namespace Layers

/-- A document on top of the others. -/
def push (l : Layers) (s : Source) : Layers := { l with sources := l.sources ++ [s] }

/-- Sets a single key, which is given as a path. -/
def override (l : Layers) (path : Text) (v : Value) : Except Fault Layers :=
  match Path.ofText? path with
  | some p => .ok { l with overrides := l.overrides ++ [(p, v)] }
  | none => .error .badPath

/-- The entries of a document. -/
def entries : Source → Except Fault (List (Value × Value))
  | .missing true => .error .missingDocument
  | .missing false => .ok []
  | .document t =>
    match Document.Toml.read? t with
    | some v => .ok (Path.entriesOf v)
    | none => .error .malformed

/-- Puts an entry of a document into the settings.  Its key is a path if it is written as one. -/
def addEntry (settings : Value) : Value × Value → Value
  | (.text key, v) => Path.assign v ((Path.ofText? key).getD [.key key]) settings
  | _ => settings

/-- Puts a document on top of the settings below it. -/
def addSource (settings : Value) (s : Source) : Except Fault Value := do
  return (← entries s).foldl addEntry settings

/-- The settings that the layers make up. -/
def load (l : Layers) : Except Fault Settings := do
  let documents ← l.sources.foldlM addSource (toValue {})
  ofValue (l.overrides.foldl (fun settings (path, v) => Path.assign v path settings) documents)

end Layers

end Settings

end TaggedOutline
