import TaggedOutline.Text

/-!
# Quoted strings

In a header a text stands between double quotes, with a backslash before a quote or a backslash and
`\n` and `\t` for a line feed and a tab.  `unescape` reads what is between the quotes; a backslash
before any other character stands for itself.
-/

namespace TaggedOutline

namespace Header

/-- The text that stands between quotes. -/
def unescape : Text → Text
  | [] => []
  | ['\\'] => ['\\']
  | '\\' :: 'n' :: rest => '\n' :: unescape rest
  | '\\' :: 't' :: rest => '\t' :: unescape rest
  | '\\' :: '"' :: rest => '"' :: unescape rest
  | '\\' :: '\\' :: rest => '\\' :: unescape rest
  | '\\' :: c :: rest => '\\' :: c :: unescape rest
  | c :: rest => c :: unescape rest

/-- A character as it is written between quotes. -/
def escapeChar : Char → Text
  | '"' => ['\\', '"']
  | '\\' => ['\\', '\\']
  | '\n' => ['\\', 'n']
  | '\t' => ['\\', 't']
  | c => [c]

/-- What stands between the quotes of a text. -/
def escape (t : Text) : Text := t.flatMap escapeChar

/-- The quoted form of a text. -/
def quote (t : Text) : Text := '"' :: escape t ++ ['"']

/-- The text without its first and its last character. -/
def dropEnds (t : Text) : Text := t.tail.dropLast

end Header

end TaggedOutline
