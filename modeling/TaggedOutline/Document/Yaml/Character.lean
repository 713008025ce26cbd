import TaggedOutline.Text

/-!
# Characters of YAML

Which characters break a line, which ones separate words, which ones are written as they are, and
which ones begin something else than plain text.
-/

namespace TaggedOutline

namespace Document

namespace Yaml

/-- Whether a character breaks a line. -/
def isBreak (c : Char) : Bool :=
  c == '\n' || c == '\r' || c == '\x85' || c == '\u2028' || c == '\u2029'

/-- Whether a character is written as it is. -/
def isPrinted (c : Char) : Bool :=
  c == '\n' || (0x20 ≤ c.toNat && c.toNat ≤ 0x7E) ||
    (0xA0 ≤ c.toNat && c.toNat ≤ 0xFFFD && c.toNat != 0xFEFF)

/-- Whether a character, or the end of the text, separates words. -/
def isGap : Option Char → Bool
  | none => true
  | some c => c == ' ' || c == '\t' || c == '\x00' || isBreak c

/-- Whether a character is a space. -/
def isSpace (c : Char) : Bool := c == ' '

/-- The characters that cannot stand at the front of a plain text. -/
def indicators : Text := "#,[]&*!|>'\"%@".toList ++ ['\x7b', '\x7d', '\x60']

end Yaml

end Document

end TaggedOutline
