import TaggedOutline.Document.Json.Printer
import TaggedOutline.Document.Json.Reader
import TaggedOutline.Document.Yaml.Reader
import TaggedOutline.Spec

/-!
# Descriptions as documents

A description is a map of its fields.  On output the fields stand in one fixed order and a field
with its default value is left out.  On input the entries may come in any order, entries with other
keys are passed over, and a description may also be a list of its fields in that order with the last
ones missing.
-/

namespace TaggedOutline

namespace Spec

open Document (Record Shape Value)

/-- The names of the fields in their order. -/
def fieldNames : List Text :=
  ["tag", "suppressed", "header", "name", "aliases", "params", "options", "label", "parser",
    "inline_code", "bracket", "comment", "body", "children"].map String.toList

/-- What the fields have to be, in their order, with a test for children. -/
def fieldShapes (isChild : Value → Bool) : List Shape :=
  [.text, .flag, .optionalText, .optionalText, .list .text, .list .pair, .list .pair,
    .optionalText, .optionalText, .optionalText, .flag, .optionalText, .optionalText,
    .list (.value isChild)]

/-- A field of a document by its name. -/
def field (name : String) (v : Value) : Value × Value := (.text name.toList, v)

/-- A field that is there only when it is set. -/
def flagField (name : String) (b : Bool) : List (Value × Value) :=
  if b then [field name (.bool true)] else []

/-- A field that is there only when it has a value. -/
def textField (name : String) (t : Option Text) : List (Value × Value) :=
  (t.map fun t => field name (.text t)).toList

/-- A field that is there only when it is not empty. -/
def listField (name : String) (items : List Value) : List (Value × Value) :=
  if items.isEmpty then [] else [field name (.list items)]

mutual

/-- A description as a document. -/
def toValue : Spec → Value
  | ⟨tag, suppressed, header, name, aliases, params, options, label, parser, inlineCode, bracket,
      comment, body, children⟩ =>
    .map <|
      [field "tag" (.text tag)] ++ flagField "suppressed" suppressed ++ textField "header" header ++
        textField "name" name ++ listField "aliases" (aliases.map .text) ++
        listField "params" (params.map fun p => .list [.text p.1, .text p.2]) ++
        listField "options" (options.map fun p => .list [.text p.1, .text p.2]) ++
        textField "label" label ++ textField "parser" parser ++
        textField "inline_code" inlineCode ++ flagField "bracket" bracket ++
        textField "comment" comment ++ textField "body" body ++
        listField "children" (childValues children)

/-- The documents of a list of children. -/
def childValues : List (Child Spec) → List Value
  | [] => []
  | child :: children => childValue child :: childValues children

/-- A child as a document. -/
def childValue : Child Spec → Value
  | .text t => .text t
  | .node s => s.toValue

end

/-! ## Reading -/

/-- The value of a field, with the children that it stands for if it is the list of children. -/
structure FieldValue where
  value : Value
  children : Option (List (Child Spec))

/-- The fields that have been found, by their places in the order of fields. -/
abbrev FoundFields := List (Nat × FieldValue)

/-- The place of the field that a key names: by its name, or by its number.  A key may name no
field; a key that is neither text nor number is an error. -/
def fieldPlace? : Value → Option (Option Nat)
  | .text name => some (fieldNames.findIdx? (· == name))
  | .whole (.ofNat n) => some (if n < fieldNames.length then some n else none)
  | _ => none

/-- The value of a field if it is there; the default otherwise. -/
def FoundFields.read {α : Type} (found : FoundFields) (name : String) (default : Option α)
    (decode : Value → Option α) : Option α :=
  match found.lookup (fieldNames.idxOf name.toList) with
  | some v => decode v.value
  | none => default

/-- The description with the fields that have been found.  The tag has to be among them. -/
def ofFields? (found : FoundFields) : Option Spec := do
  return {
    tag := ← found.read "tag" none Value.text?
    suppressed := ← found.read "suppressed" (some false) Value.bool?
    header := ← found.read "header" (some none) Value.optionalText?
    name := ← found.read "name" (some none) Value.optionalText?
    aliases := ← found.read "aliases" (some []) Value.texts?
    params := ← found.read "params" (some []) Value.pairs?
    options := ← found.read "options" (some []) Value.pairs?
    label := ← found.read "label" (some none) Value.optionalText?
    parser := ← found.read "parser" (some none) Value.optionalText?
    inlineCode := ← found.read "inline_code" (some none) Value.optionalText?
    bracket := ← found.read "bracket" (some false) Value.bool?
    comment := ← found.read "comment" (some none) Value.optionalText?
    body := ← found.read "body" (some none) Value.optionalText?
    children := ←
      match found.lookup (fieldNames.idxOf "children".toList) with
      | some v => v.children
      | none => some [] }

mutual

/-- The description that a document stands for. -/
def ofValue? : Value → Option Spec
  | .map entries => (mapFields? entries).bind ofFields?
  | .list items =>
    if items.length ≤ fieldNames.length then ofFields? (listFields 0 items) else none
  | _ => none

/-- The fields of a map.  Naming a field twice is an error. -/
def mapFields? : List (Value × Value) → Option FoundFields
  | [] => some []
  | entry :: entries =>
    match mapField? entry, mapFields? entries with
    | some none, some found => some found
    | some (some (place, v)), some found =>
      if (found.lookup place).isSome then none else some ((place, v) :: found)
    | _, _ => none

/-- The field of an entry. -/
def mapField? : Value × Value → Option (Option (Nat × FieldValue))
  | (key, v) => (fieldPlace? key).map (Option.map (·, ⟨v, childrenOf? v⟩))

/-- The fields of a list from a place on. -/
def listFields (place : Nat) : List Value → FoundFields
  | [] => []
  | v :: items => (place, ⟨v, childrenOf? v⟩) :: listFields (place + 1) items

/-- The children that a document stands for. -/
def childrenOf? : Value → Option (List (Child Spec))
  | .list items => childList? items
  | _ => none

/-- The children that a list of documents stands for. -/
def childList? : List Value → Option (List (Child Spec))
  | [] => some []
  | v :: items =>
    match childOf? v, childList? items with
    | some child, some children => some (child :: children)
    | _, _ => none

/-- The child that a document stands for: a text, or a description. -/
def childOf? : Value → Option (Child Spec)
  | .text t => some (.text t)
  | v => (ofValue? v).map .node

end

/-! ## Whole documents -/

/-- The record of a description. -/
def record : Record where
  fields := fieldNames.zip (fieldShapes fun v => (childOf? v).isSome)
  needed := "tag".toList

/-- A description as JSON. -/
def toJson (s : Spec) : Text := Document.Json.print s.toValue

/-- The description that a text in JSON stands for. -/
def ofJson (t : Text) : Except Document.Json.Fault Spec := do
  match ofValue? (← Document.Json.read record t) with
  | some s => return s
  | none => throw .mismatch

/-- The description that a text in YAML stands for. -/
def ofYaml? (t : Text) : Option Spec := (Document.Yaml.read? record t).bind ofValue?

end Spec

end TaggedOutline
