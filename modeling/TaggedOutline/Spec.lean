import TaggedOutline.Document.Value

/-!
# Element descriptions

A `Spec` describes an element and everything in it as plain data, so that a tree can be made without
a written outline and given back as data.  `Spec.Document` is its form in documents and
`Spec.Written` its form in an outline.
-/

namespace TaggedOutline

/-- A child: text between elements, or an element, given in whatever form `α`. -/
inductive Child (α : Type) where
  | text (t : Text)
  | node (a : α)
deriving BEq, DecidableEq, Repr, Inhabited

/-- The description of an element. -/
structure Spec where
  tag : Text
  /-- The tag stands behind the marker that keeps a body as it is. -/
  suppressed : Bool := false
  /-- The header line as it was found, for an element whose header says nothing readable. -/
  header : Option Text := none
  name : Option Text := none
  aliases : List Text := []
  params : List (Text × Text) := []
  options : List (Text × Text) := []
  label : Option Text := none
  parser : Option Text := none
  inlineCode : Option Text := none
  bracket : Bool := false
  comment : Option Text := none
  /-- The body as text; it counts only where there are no children. -/
  body : Option Text := none
  children : List (Child Spec) := []
deriving BEq, Repr, Inhabited

namespace Spec

/-- The description with one more name; the first becomes the name and the others aliases. -/
def named (s : Spec) (name : Text) : Spec :=
  match s.name with
  | none => { s with name := some name }
  | some _ => { s with aliases := s.aliases ++ [name] }

/-- The description with one more parameter. -/
def addParam (s : Spec) (key value : Text) : Spec := { s with params := s.params ++ [(key, value)] }

/-- The description with one more option. -/
def addOption (s : Spec) (key value : Text) : Spec :=
  { s with options := s.options ++ [(key, value)] }

/-- The description with one more child. -/
def addChild (s : Spec) (child : Spec) : Spec := { s with children := s.children ++ [.node child] }

/-- The description with one more text among its children. -/
def addText (s : Spec) (t : Text) : Spec := { s with children := s.children ++ [.text t] }

end Spec

end TaggedOutline
