import TaggedOutline.Document.Json.Reader
import TaggedOutline.Document.Yaml.Printer
import TaggedOutline.Sketch

/-!
# Sketches as documents

A sketch is a map of its fields, or a list of them in their order with the last ones missing.  What
is empty is left out on output.
-/

namespace TaggedOutline

namespace Sketch

open Document (Record Value)

/-! ## Writing -/

/-- The fields of a sketch with given documents for its children. -/
def toEntries (tag : Text) (names : List Text) (params : List (Text × Text))
    (children : List Value) : List (Value × Value) :=
  [(.text "tag".toList, .text tag)] ++
    (if names.isEmpty then [] else [(.text "names".toList, .ofTexts names)]) ++
    (if params.isEmpty then [] else [(.text "params".toList, .ofPairs params)]) ++
    (if children.isEmpty then [] else [(.text "children".toList, .list children)])

mutual

/-- A sketch as a document. -/
def toValue : Sketch → Value
  | ⟨tag, names, params, children⟩ => .map (toEntries tag names params (toValues children))

/-- The documents of a list of sketches. -/
def toValues : List Sketch → List Value
  | [] => []
  | s :: rest => s.toValue :: toValues rest

end

/-- A sketch as YAML. -/
def toYaml (s : Sketch) : Text := Document.Yaml.print s.toValue

/-! ## Reading -/

/-- The record of a sketch. -/
def record : Record where
  fields := [
    ("tag".toList, .text),
    ("names".toList, .list .text),
    ("params".toList, .list .pair),
    ("children".toList, .list .self)]
  needed := "tag".toList

/-- The sketch with one more field, given the sketches that its value holds. -/
def withField? (s : Sketch) (key v : Value) (children : Option (List Sketch)) : Option Sketch :=
  if key.isText "tag".toList then v.text?.map fun tag => { s with tag }
  else if key.isText "names".toList then v.texts?.map fun names => { s with names }
  else if key.isText "params".toList then v.pairs?.map fun params => { s with params }
  else if key.isText "children".toList then children.map fun children => { s with children }
  else none

mutual

/-- The sketch that a map of fields stands for. -/
def ofValue? : Value → Option Sketch
  | .map entries => ofEntries? entries
  | _ => none

/-- The sketch of a list of fields; what is not among them is empty. -/
def ofEntries? : List (Value × Value) → Option Sketch
  | [] => some { tag := [] }
  | entry :: entries => (ofEntries? entries).bind fun s => withEntry? s entry

/-- A sketch with one more entry. -/
def withEntry? (s : Sketch) : Value × Value → Option Sketch
  | (key, v) => s.withField? key v (ofItems? v)

/-- The sketches of the items of a list. -/
def ofItems? : Value → Option (List Sketch)
  | .list items => ofList? items
  | _ => none

/-- The sketches of a list. -/
def ofList? : List Value → Option (List Sketch)
  | [] => some []
  | v :: items =>
    match ofValue? v, ofList? items with
    | some s, some rest => some (s :: rest)
    | _, _ => none

end

/-- The sketch that a text in JSON stands for. -/
def ofJson (t : Text) : Except Document.Json.Fault Sketch := do
  match ofValue? (← Document.Json.read record t) with
  | some s => return s
  | none => throw .mismatch

end Sketch

end TaggedOutline
