import TaggedOutline.Text

/-!
# Blank characters

White space is the Unicode property `White_Space`, in trimming, in the fallback of the lexer and in
the classes of patterns alike.
-/

namespace TaggedOutline

namespace Text

/-- The characters with the Unicode property `White_Space`. -/
def isBlank (c : Char) : Bool :=
  let n := c.toNat
  (9 ≤ n && n ≤ 13) || n == 0x20 || n == 0x85 || n == 0xa0 || n == 0x1680 ||
    (0x2000 ≤ n && n ≤ 0x200a) || n == 0x2028 || n == 0x2029 || n == 0x202f || n == 0x205f ||
    n == 0x3000

/-- The text without its leading blank characters. -/
def trimStart (t : Text) : Text := t.dropWhile isBlank

/-- The text without its trailing blank characters. -/
def trimEnd (t : Text) : Text := (t.reverse.dropWhile isBlank).reverse

/-- The text without blank characters at either end. -/
def trim (t : Text) : Text := trimEnd (trimStart t)

@[simp] theorem trimEnd_nil : trimEnd [] = [] := rfl

end Text

end TaggedOutline
