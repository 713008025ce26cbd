import TaggedOutline.Text

/-!
# Settings

What a caller can choose about the written form: how lines are read (`LayoutSettings`), how deep a
level is indented on output, and the tag of the root.  `Settings.Layers` reads them from layers of
documents and single keys.
-/

namespace TaggedOutline

/-- How the lines of a body are read. -/
structure LayoutSettings where
  /-- The columns from one tab stop to the next. -/
  tabWidth : Nat := 4
  /-- A line that begins with this text is a comment. -/
  commentPrefix : Text := ['#']
  /-- A tag behind this marker keeps its body as it is. -/
  suppressMarker : Text := ['!']
  /-- A header that ends with this text owns every line up to the closing bracket. -/
  openBracket : Text := ['\x7b']
  closeBracket : Text := ['\x7d']
  /-- The tags whose bodies are kept as they are unless a handler says otherwise. -/
  freeformTags : List Text := []
deriving DecidableEq, Repr

/-- Whether the body of a tag is kept as it is. -/
def LayoutSettings.isFreeform (s : LayoutSettings) (tag : Text) : Bool :=
  s.freeformTags.contains tag

/-- The settings of the library. -/
structure Settings where
  layout : LayoutSettings := {}
  /-- The indentation of one level of the written form. -/
  indent : Text := [' ', ' ', ' ', ' ']
  rootTag : Text := "root".toList
deriving DecidableEq, Repr

end TaggedOutline
