import TaggedOutline.Document.Value

/-!
# Shapes of documents

A reader that knows what it is looking for can refuse a document at the first place where it is of
another kind.  A `Record` says what that is: the fields of a map in their order, which may also be
given as a list, with one field that has to be there.
-/

namespace TaggedOutline

namespace Document

/-- What is looked for in a document. -/
inductive Shape where
  | text
  | flag
  /-- A text, or nothing. -/
  | optionalText
  /-- A list of two texts. -/
  | pair
  /-- Any value that is accepted. -/
  | value (accept : Value → Bool)
  /-- The record that the shape is part of. -/
  | self
  | list (item : Shape)

/-- The fields of a map. -/
structure Record where
  fields : List (Text × Shape)
  /-- The field that has to be there. -/
  needed : Text

/-- The shape of a field. -/
def Record.shape? (r : Record) (name : Text) : Option Shape := r.fields.lookup name

end Document

end TaggedOutline
