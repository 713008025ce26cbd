import TaggedOutline.Document.Shape
import TaggedOutline.Document.Yaml.Node
import TaggedOutline.Document.Yaml.Scalar

/-!
# Reading YAML

A record is read from a document with one map.  Where a text is looked for, every scalar is one; a
truth value or nothing has to stand without quotes.  A place where nothing is written is an empty
list or an absent text.

A value of any kind is told apart by its form.  A tag of the standard says what a scalar is, and
other tags have no meaning here.
-/

namespace TaggedOutline

namespace Document

namespace Yaml

/-- How deep lists and maps nest. -/
def maxLevels : Nat := 128

/-- The lead of the tags of the standard. -/
def standardTag (name : String) : Text := "tag:yaml.org,2002:".toList ++ name.toList

namespace Node

/-- Whether nothing is written at a node. -/
def isNothing : Node → Bool
  | .scalar _ .plain [] => true
  | _ => false

/-- The node as a text, if it is a scalar. -/
def text? : Node → Option Text
  | .scalar _ _ t => some t
  | _ => none

/-- The node as a truth value, if it is one. -/
def flag? : Node → Option Bool
  | .scalar _ .plain t => bool? t
  | .scalar tag .literal t => if tag == some (standardTag "bool") then bool? t else none
  | _ => none

/-- The node as a text that may be absent. -/
def optionalText? : Node → Option Value
  | .scalar none .plain t => some (if t.isEmpty || isNull t then .null else .text t)
  | .scalar (some tag) .plain t =>
    if tag == standardTag "null" then if isNull t then some .null else none else some (.text t)
  | .scalar _ _ t => some (.text t)
  | _ => none

/-- The node as a list; nothing is an empty one. -/
def items? (n : Node) : Option (List Node) :=
  match n with
  | .list _ items => some items
  | _ => if n.isNothing then some [] else none

/-- The node as a list of two texts. -/
def pair? (n : Node) : Option Value :=
  match n.items? with
  | some [a, b] => do return .list [.text (← a.text?), .text (← b.text?)]
  | _ => none

/-! ## Values of any kind -/

/-- A whole number that has 64 bits. -/
def kept : Value → Option Value
  | .whole n =>
    if -(Nat.pow 2 63 : Int) ≤ n ∧ n < (Nat.pow 2 64 : Int) then some (.whole n) else none
  | v => some v

/-- The value of a scalar. -/
def scalarValue? (tag : Option Text) (style : Style) (t : Text) : Option Value :=
  match tag with
  | none => if style = .plain then kept (plain t) else some (.text t)
  | some tag =>
    if tag.head? == some '!' then none
    else if tag == standardTag "bool" then (bool? t).map .bool
    else if tag == standardTag "int" then (whole? t).bind fun n => kept (.whole n)
    else if tag == standardTag "float" then (real? t).map .real
    else if tag == standardTag "null" then if isNull t then some .null else none
    else some (.text t)

/-- Whether a tag has a meaning of its own that is not known here. -/
def isLocal (tag : Option Text) : Bool := (tag.bind List.head?) == some '!'

mutual

/-- The value of a node, with lists and maps at most a number of levels deep. -/
def value? (levels : Nat) : Node → Option Value
  | .scalar tag style t => scalarValue? tag style t
  | .list tag items =>
    if isLocal tag || levels == 0 then none else (values? (levels - 1) items).map .list
  | .map tag entries =>
    if isLocal tag || levels == 0 then none else (entryValues? (levels - 1) entries).map .map
  | .cycle => none

/-- The values of nodes. -/
def values? (levels : Nat) : List Node → Option (List Value)
  | [] => some []
  | n :: rest =>
    match value? levels n, values? levels rest with
    | some v, some vs => some (v :: vs)
    | _, _ => none

/-- The values of entries. -/
def entryValues? (levels : Nat) : List (Node × Node) → Option (List (Value × Value))
  | [] => some []
  | entry :: rest =>
    match entryValue? levels entry, entryValues? levels rest with
    | some v, some vs => some (v :: vs)
    | _, _ => none

/-- The values of an entry. -/
def entryValue? (levels : Nat) : Node × Node → Option (Value × Value)
  | (key, n) =>
    match value? levels key, value? levels n with
    | some k, some v => some (k, v)
    | _, _ => none

end

/-! ## Values that are looked for -/

/-- The value of a node that has a shape. -/
def shaped? (record : Node → Option Value) (levels : Nat) : Shape → Node → Option Value
  | .text, n => n.text?.map .text
  | .flag, n => n.flag?.map .bool
  | .optionalText, n => n.optionalText?
  | .pair, n => n.pair?
  | .value accept, n =>
    match n.value? levels with
    | some v => if accept v then some v else none
    | none => none
  | .self, n => record n
  | .list item, n =>
    if levels == 0 then none
    else do return .list (← (← n.items?).mapM (shaped? record (levels - 1) item))

/-- The fields of a record.  Naming a field twice is an error, and other keys are passed over. -/
def fields? (r : Record) (field : Shape → Node → Option Value) :
    List Text → List (Node × Node) → Option (List (Value × Value))
  | _, [] => some []
  | seen, (key, n) :: entries => do
    let name ← key.text?
    match r.shape? name with
    | none => fields? r field seen entries
    | some shape =>
      if seen.contains name then none
      else
        let v ← field shape n
        return (.text name, v) :: (← fields? r field (name :: seen) entries)

/-- The node as a record, with records inside it at most a number deep. -/
def record? (r : Record) : Nat → Node → Option Value
  | 0, _ => none
  | levels + 1, n => do
    let entries ←
      match n with
      | .map _ entries => some entries
      | _ => none
    let found ← fields? r (shaped? (record? r levels) levels) [] entries
    if found.any (·.1.isText r.needed) then return .map found else none

end Node

/-- The fields of the record that a text holds. -/
def read? (r : Record) (t : Text) : Option Value := do (← (← node? t)).record? r maxLevels

end Yaml

end Document

end TaggedOutline
