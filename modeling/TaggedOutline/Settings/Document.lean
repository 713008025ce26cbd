import TaggedOutline.Document.Value
import TaggedOutline.Settings
import TaggedOutline.Text.Number

/-!
# Settings as documents

Settings are a map of three maps.  `Settings.toValue` is that map, and `Settings.ofValue` reads it
back with leave: numbers and truth values may stand for texts, texts and truth values for numbers,
and each map may be a list of its fields in their order.  What has no place among the settings is
passed over.
-/

namespace TaggedOutline

namespace Settings

open Document (Value)

/-- Why settings cannot be read. -/
inductive Fault where
  /-- A path is not written as one. -/
  | badPath
  /-- A document that is needed is not there. -/
  | missingDocument
  /-- A document is not written as one. -/
  | malformed
  /-- A value is of a kind that its field cannot take. -/
  | wrongKind
  /-- A field is missing, or a list or a map of fields is something else. -/
  | wrongShape
deriving DecidableEq, Repr

/-! ## Fields -/

/-- A number as settings write it in a text: by its digits or as a word for a truth value. -/
def countOfText? (t : Text) : Option Nat :=
  let small := t.map Char.toLower
  if ["true".toList, "on".toList, "yes".toList].contains small then some 1
  else if ["false".toList, "off".toList, "no".toList].contains small then some 0
  else Text.nat? 64 t

/-- A value as a number of 64 bits.  A fraction is rounded. -/
def countOf : Value → Except Fault Nat
  | .whole n => if 0 ≤ n then .ok n.toNat else .error .wrongKind
  | .bool b => .ok b.toNat
  | .real x => .ok (x.toNat (Nat.pow 2 64 - 1))
  | .text t =>
    match countOfText? t with
    | some n => .ok n
    | none => .error .wrongKind
  | _ => .error .wrongKind

/-- A value as a text. -/
def textOf : Value → Except Fault Text
  | .text t => .ok t
  | .bool b => .ok (if b then "true" else "false").toList
  | .whole n => .ok (Text.ofInt n)
  | .real x => .ok x.render
  | _ => .error .wrongKind

/-- A value as a list of texts. -/
def textsOf : Value → Except Fault (List Text)
  | .list items => items.mapM textOf
  | _ => .error .wrongShape

/-- The fields of a value: the entries of a map, or the items of a list in the order of the
names. -/
def fieldsOf (names : List String) : Value → Except Fault (List (Text × Value))
  | .map entries => .ok (entries.filterMap fun (key, v) => key.text?.map (·, v))
  | .list items => .ok ((names.map String.toList).zip items)
  | _ => .error .wrongShape

/-- Reads a field, if it is there. -/
def field {α : Type} (fields : List (Text × Value)) (name : String)
    (read : Value → Except Fault α) : Except Fault (Option α) :=
  match fields.lookup name.toList with
  | none => .ok none
  | some v => (read v).map some

/-- A field that has to be there. -/
def needed {α : Type} : Option α → Except Fault α
  | some a => .ok a
  | none => .error .wrongShape

/-! ## Records -/

/-- The fields of the layout. -/
def layoutFields : List String :=
  ["tab_width", "comment_prefix", "suppress_marker", "open_bracket", "close_bracket",
    "freeform_tags"]

/-- The layout that a value is.  Fields that are there are read before one is missed. -/
def layoutOf (v : Value) : Except Fault LayoutSettings := do
  let fields ← fieldsOf layoutFields v
  let tabWidth ← field fields "tab_width" countOf
  let commentPrefix ← field fields "comment_prefix" textOf
  let suppressMarker ← field fields "suppress_marker" textOf
  let openBracket ← field fields "open_bracket" textOf
  let closeBracket ← field fields "close_bracket" textOf
  let freeformTags ← field fields "freeform_tags" textsOf
  return {
    tabWidth := ← needed tabWidth
    commentPrefix := ← needed commentPrefix
    suppressMarker := ← needed suppressMarker
    openBracket := ← needed openBracket
    closeBracket := ← needed closeBracket
    freeformTags := ← needed freeformTags }

/-- The text that is the only field of a value. -/
def onlyText (name : String) (v : Value) : Except Fault Text := do
  needed (← field (← fieldsOf [name] v) name textOf)

/-- The settings that a value is. -/
def ofValue (v : Value) : Except Fault Settings := do
  let fields ← fieldsOf ["layout", "format", "tree"] v
  let layout ← field fields "layout" layoutOf
  let indent ← field fields "format" (onlyText "indent")
  let rootTag ← field fields "tree" (onlyText "root_tag")
  return { layout := ← needed layout, indent := ← needed indent, rootTag := ← needed rootTag }

/-- A map with names as keys. -/
def named (fields : List (String × Value)) : Value :=
  .map (fields.map fun (name, v) => (.text name.toList, v))

/-- The layout as a map. -/
def layoutValue (s : LayoutSettings) : Value :=
  named [("tab_width", .whole s.tabWidth), ("comment_prefix", .text s.commentPrefix),
    ("suppress_marker", .text s.suppressMarker), ("open_bracket", .text s.openBracket),
    ("close_bracket", .text s.closeBracket), ("freeform_tags", .ofTexts s.freeformTags)]

/-- The settings as a map. -/
def toValue (s : Settings) : Value :=
  named [("layout", layoutValue s.layout), ("format", named [("indent", .text s.indent)]),
    ("tree", named [("root_tag", .text s.rootTag)])]

end Settings

end TaggedOutline
