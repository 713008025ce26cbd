import TaggedOutline.Text

/-!
# Compiled patterns

Lexers and locators look for patterns in texts, and whoever sets them up compiles the patterns.  A
`Matcher` is what is used of a compiled pattern: where its leftmost match in a text ends.  All that
is known of this place is that it is one of the text, between two of its characters
(`Matcher.follows`).  Which written forms compile, and to what, is a `Matcher.Reader`.

`Pattern` is a language of patterns with a reader of its own, `Pattern.reader`; the fixed rules of
header lines and of paths are given in it.
-/

namespace TaggedOutline

/-- A place in a text: how many bytes stand before it, the character just before, and the rest. -/
structure Cursor where
  offset : Nat
  before : Option Char
  after : Text
deriving DecidableEq, Repr

namespace Cursor

/-- The head of a text. -/
def head (t : Text) : Cursor := ⟨0, none, t⟩

/-- A place of the same text as another one, at it or behind it. -/
def Follows (c d : Cursor) : Prop :=
  ∃ taken, c.after = taken ++ d.after ∧ d.offset = c.offset + Text.byteSize taken

theorem Follows.refl (c : Cursor) : c.Follows c := ⟨[], rfl, rfl⟩

theorem Follows.trans {c d e : Cursor} (h : c.Follows d) (h' : d.Follows e) : c.Follows e := by
  obtain ⟨taken, hafter, hoffset⟩ := h
  obtain ⟨taken', hafter', hoffset'⟩ := h'
  refine ⟨taken ++ taken', ?_, ?_⟩
  · rw [hafter, hafter', List.append_assoc]
  · rw [hoffset', hoffset, Text.byteSize_append, Nat.add_assoc]

end Cursor

/-- A compiled pattern. -/
structure Matcher where
  /-- The end of the leftmost match in a text. -/
  find : Text → Option Cursor
  /-- A match ends at a place of the text. -/
  follows : ∀ t c, find t = some c → (Cursor.head t).Follows c

namespace Matcher

/-- Whether the pattern matches somewhere in a text. -/
def occursIn (m : Matcher) (t : Text) : Bool := (m.find t).isSome

/-- What a written pattern compiles to, if it is one. -/
abbrev Reader := Text → Option Matcher

end Matcher

end TaggedOutline
