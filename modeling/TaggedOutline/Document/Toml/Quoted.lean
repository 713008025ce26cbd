import TaggedOutline.Text.Number

/-!
# Quoted texts of TOML

A text stands between double or single quotes.  Between double quotes a backslash escapes; between
single quotes every character stands for itself.  Three quotes at either end make the text run over
several lines: a line feed right behind the opening quotes is dropped, and one or two quotes may
stand before the closing ones.  There a backslash at the end of a line takes the line feed away with
all white space behind it.

`Toml.quotedWith` reads such a text character by character, and what the next one belongs to is its
state (`Part`).  Lines end with single line feeds.
-/

namespace TaggedOutline

namespace Document

namespace Toml

/-- Whether a character may stand in a quoted text or a comment as it is. -/
def isPlain (c : Char) : Bool := c == '\t' || (0x20 ≤ c.toNat && c.toNat != 0x7F)

/-- Whether a character is a blank within a line. -/
def isBlank (c : Char) : Bool := c == ' ' || c == '\t'

/-- What the next character of a quoted text belongs to. -/
inductive Part where
  | text
  /-- It follows a backslash. -/
  | escape
  /-- It is one of the last digits of the number of a character. -/
  | code (left : Nat) (digits : Text)
  /-- It stands between a backslash and the end of the line. -/
  | trailing
  /-- It stands behind a line that ended with a backslash. -/
  | leading
deriving DecidableEq, Repr

/-- The character behind a backslash, if it is one of the short escapes. -/
def escaped? : Char → Option Char
  | '"' => some '"'
  | '\\' => some '\\'
  | 'b' => some '\x08'
  | 't' => some '\t'
  | 'n' => some '\n'
  | 'f' => some '\x0c'
  | 'r' => some '\r'
  | _ => none

/-- What a character behind a backslash begins, if it stands for none by itself. -/
def escapeStart? (long : Bool) : Char → Option Part
  | 'u' => some (.code 3 [])
  | 'U' => some (.code 7 [])
  | ' ' => if long then some .trailing else none
  | '\t' => if long then some .trailing else none
  | '\n' => if long then some .leading else none
  | _ => none

/-- The fewest quotes that end a text over several lines. -/
def longQuotes : Nat := 3

/-- The most quotes in a row at the end of a text over several lines. -/
def longEnding : Nat := 5

/-- What the end of a text over several lines leaves, at its first quote: quotes that belong to the
text, and what follows the closing ones. -/
def longEnd? (mark : Char) (t : Text) : Option (Text × Text) :=
  let run := (t.takeWhile (· == mark)).length
  if run < longQuotes then none
  else
    let run := min run longEnding
    some (List.replicate (run - longQuotes) mark, t.drop run)

/-- A text up to its closing quotes, and what follows them. -/
def quotedWith (mark : Char) (long : Bool) : Part → Text → Option (Text × Text)
  | _, [] => none
  | .text, c :: rest =>
    if c = mark then
      if long then
        match longEnd? mark (c :: rest) with
        | some ending => some ending
        | none => (quotedWith mark long .text rest).map fun (t, after) => (c :: t, after)
      else some ([], rest)
    else if c = '\\' ∧ mark = '"' then quotedWith mark long .escape rest
    else if isPlain c || (long && c == '\n') then
      (quotedWith mark long .text rest).map fun (t, after) => (c :: t, after)
    else none
  | .escape, c :: rest =>
    match escaped? c with
    | some e => (quotedWith mark long .text rest).map fun (t, after) => (e :: t, after)
    | none => (escapeStart? long c).bind fun part => quotedWith mark long part rest
  | .code (left + 1) digits, c :: rest => quotedWith mark long (.code left (digits ++ [c])) rest
  | .code 0 digits, c :: rest =>
    match (Text.digitsIn? 16 (digits ++ [c])).bind Text.codePoint? with
    | some e => (quotedWith mark long .text rest).map fun (t, after) => (e :: t, after)
    | none => none
  | .trailing, c :: rest =>
    if c = '\n' then quotedWith mark long .leading rest
    else if isBlank c then quotedWith mark long .trailing rest
    else none
  | .leading, c :: rest =>
    if c = '\n' ∨ isBlank c then quotedWith mark long .leading rest
    else if c = mark then
      match longEnd? mark (c :: rest) with
      | some ending => some ending
      | none => (quotedWith mark long .text rest).map fun (t, after) => (c :: t, after)
    else if c = '\\' then quotedWith mark long .escape rest
    else if isPlain c then
      (quotedWith mark long .text rest).map fun (t, after) => (c :: t, after)
    else none

/-- A quoted text on one line at its opening quote, and what follows it. -/
def shortQuoted? : Text → Option (Text × Text)
  | '"' :: rest => quotedWith '"' false .text rest
  | '\'' :: rest => quotedWith '\'' false .text rest
  | _ => none

/-- A text without a line feed at its front. -/
def dropLineFeed : Text → Text
  | '\n' :: rest => rest
  | t => t

/-- A quoted text at its opening quotes, and what follows it. -/
def quoted? : Text → Option (Text × Text)
  | '"' :: '"' :: '"' :: rest => quotedWith '"' true .text (dropLineFeed rest)
  | '\'' :: '\'' :: '\'' :: rest => quotedWith '\'' true .text (dropLineFeed rest)
  | t => shortQuoted? t

end Toml

end Document

end TaggedOutline
