import TaggedOutline.Text

/-!
# Comments and markers in a header line

A number sign outside quotes begins the comment of a header line.  A tag may be written behind a
marker that keeps its body as it is.
-/

namespace TaggedOutline

namespace Header

/-- The part of a line before its comment and the comment with its sign.  Inside quotes a backslash
takes the next character with it. -/
def cutCommentFrom (quoted escaped : Bool) : Text → Text × Text
  | [] => ([], [])
  | c :: rest =>
    if !escaped && !quoted && c == '#' then ([], c :: rest)
    else
      let (quoted, escaped) :=
        if escaped then (quoted, false)
        else if quoted && c == '\\' then (quoted, true)
        else if c == '"' then (!quoted, false)
        else (quoted, false)
      let (code, comment) := cutCommentFrom quoted escaped rest
      (c :: code, comment)

/-- The part of a line before its comment and the comment with its sign. -/
def cutComment (t : Text) : Text × Text := cutCommentFrom false false t

/-- The byte offset of the comment of a line, or the size of a line without one. -/
def commentOffset (t : Text) : Nat := Text.byteSize (cutComment t).1

/-- A tag without a marker before it, and whether the marker was there.  Nothing else than a marker
is a tag. -/
def splitMarker (marker tag : Text) : Text × Bool :=
  if marker.isEmpty then (tag, false)
  else match marker.isPrefixOf? tag with
    | some (c :: rest) => (c :: rest, true)
    | _ => (tag, false)

end Header

end TaggedOutline
