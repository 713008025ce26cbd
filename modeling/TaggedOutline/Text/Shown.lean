import TaggedOutline.Text.Unseen

/-!
# The quoted display form

Messages show a text between double quotes with everything that could mislead a reader written as
an escape.  The form is for reading only; the quoted form that is read back is `Header.Quoted`.
-/

namespace TaggedOutline

namespace Text

/-- A number in base sixteen, lower case and without padding. -/
def hex (n : Nat) : Text := Nat.toDigits 16 n

/-- A character as it stands in the display form. -/
def shownChar (c : Char) : Text :=
  match c with
  | '"' => ['\\', '"']
  | '\\' => ['\\', '\\']
  | '\n' => ['\\', 'n']
  | '\r' => ['\\', 'r']
  | '\t' => ['\\', 't']
  | '\x00' => ['\\', '0']
  | c => if isUnseen c then ['\\', 'u', '\x7b'] ++ hex c.toNat ++ ['\x7d'] else [c]

/-- The display form of a text, in double quotes. -/
def shown (t : Text) : Text := '"' :: t.flatMap shownChar ++ ['"']

/-- The display form of a text that may be absent. -/
def shownOption : Option Text → Text
  | none => "None".toList
  | some t => "Some(".toList ++ shown t ++ [')']

/-- The display form of a list of texts. -/
def shownList (ts : List Text) : Text :=
  '[' :: join ", ".toList (ts.map shown) ++ [']']

end Text

end TaggedOutline
