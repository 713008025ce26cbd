import TaggedOutline.Document.Value
import TaggedOutline.Text.Number

/-!
# Lexemes of JSON

A text is cut into lexemes before it is read: marks, strings, numbers and words.  A lexeme that is
not whole ends the list, because nothing after it can be read.

Some faults count only where the value matters.  A value that is looked at has to be text without
half a surrogate pair, or a number within range; a value that is passed over need not be.  So those
lexemes carry their fault with them, and a broken lexeme has one fault for either case.
-/

namespace TaggedOutline

namespace Document

namespace Json

/-- What is wrong with a document. -/
inductive Fault where
  /-- It is no JSON. -/
  | malformed
  /-- It ends too early. -/
  | truncated
  /-- It is JSON and not what was looked for. -/
  | mismatch
deriving DecidableEq, Repr, Inhabited

/-- A piece of a document. -/
inductive Lexeme where
  /-- A bracket, a brace, a comma or a colon. -/
  | mark (c : Char)
  | string (t : Except Fault Text)
  | number (v : Value) (inRange : Bool)
  | bool (b : Bool)
  | null
  /-- Something that begins with a character and is not whole. -/
  | broken (lead : Char) (looked passed : Fault)

/-- Whether a character may stand between lexemes. -/
def isSpace (c : Char) : Bool := c == ' ' || c == '\n' || c == '\t' || c == '\r'

/-! ## Strings -/

/-- A part of a string: a character, or a sixteen-bit unit that was written as a number. -/
inductive Piece where
  | char (c : Char)
  | unit (n : Nat)

/-- The unit that four digits stand for. -/
def unit? (a b c d : Char) : Option Nat := Text.digitsIn? 16 [a, b, c, d]

/-- The character behind a backslash, if it is one of the short escapes. -/
def escaped? : Char → Option Char
  | '"' => some '"'
  | '\\' => some '\\'
  | '/' => some '/'
  | 'b' => some '\x08'
  | 'f' => some '\x0c'
  | 'n' => some '\n'
  | 'r' => some '\r'
  | 't' => some '\t'
  | _ => none

/-- The pieces of a string behind its opening quote, and what follows the closing one. -/
def pieces : Text → List Piece × Except Fault Text
  | [] => ([], .error .truncated)
  | '"' :: rest => ([], .ok rest)
  | '\\' :: 'u' :: a :: b :: c :: d :: rest =>
    match unit? a b c d with
    | some n => let (ps, tail) := pieces rest; (.unit n :: ps, tail)
    | none => ([], .error .malformed)
  | '\\' :: 'u' :: rest =>
    ([], .error (if Text.byteSize rest < 4 then .truncated else .malformed))
  | '\\' :: c :: rest =>
    match escaped? c with
    | some e => let (ps, tail) := pieces rest; (.char e :: ps, tail)
    | none => ([], .error .malformed)
  | ['\\'] => ([], .error .truncated)
  | c :: rest =>
    if c.toNat < 0x20 then ([], .error .malformed)
    else let (ps, tail) := pieces rest; (.char c :: ps, tail)

/-- Whether a unit is the first half of a pair. -/
def isLeading (n : Nat) : Bool := 0xD800 ≤ n && n ≤ 0xDBFF

/-- Whether a unit is the second half of a pair. -/
def isTrailing (n : Nat) : Bool := 0xDC00 ≤ n && n ≤ 0xDFFF

/-- The text of pieces that were read up to an end. -/
def decode (ending : Except Fault Text) : List Piece → Except Fault Text
  | [] => ending.map fun _ => []
  | .char c :: ps => (decode ending ps).map (c :: ·)
  | .unit n :: ps =>
    if isLeading n then
      match ps with
      | [] => ending.bind fun _ => .error .malformed
      | .unit m :: ps =>
        if isTrailing m then
          (decode ending ps).map
            (Char.ofNat (0x10000 + (n - 0xD800) * 0x400 + (m - 0xDC00)) :: ·)
        else .error .malformed
      | .char _ :: _ => .error .malformed
    else if isTrailing n then .error .malformed
    else (decode ending ps).map (Char.ofNat n :: ·)

/-- The lexeme of a string behind its opening quote, and what follows it. -/
def cutString (t : Text) : Lexeme × Text :=
  let (ps, ending) := pieces t
  match ending, decode ending ps with
  | .ok rest, text => (.string text, rest)
  | .error f, .ok _ => (.broken '"' f f, [])
  | .error f, .error g => (.broken '"' g f, [])

/-! ## Numbers -/

/-- Digits from the front of a text. -/
def digits (t : Text) : Text × Text := t.span Char.isDigit

/-- The value of a digit in base ten. -/
def digitValue (c : Char) : Nat := c.toNat - '0'.toNat

/-- The largest number that a significand can be. -/
def significandMax : Nat := Nat.pow 2 64 - 1

/-- A significand and the power of ten behind it, after the digits in front of the point.  Digits
that do not fit any more only raise the power. -/
def addWhole : Text → Nat → Nat × Int
  | [], n => (n, 0)
  | c :: cs, n =>
    if n * 10 + digitValue c ≤ significandMax then addWhole cs (n * 10 + digitValue c)
    else (n, (c :: cs).length)

/-- A significand and its power of ten after the digits behind the point.  Digits that do not fit
any more are dropped. -/
def addFraction : Text → Nat × Int → Nat × Int
  | [], p => p
  | c :: cs, (n, e) =>
    if n * 10 + digitValue c ≤ significandMax then addFraction cs (n * 10 + digitValue c, e - 1)
    else (n, e)

/-- The parts of a number as it is written. -/
structure NumberText where
  negative : Bool
  whole : Text
  fraction : Text := []
  /-- Whether the number has a point or an exponent. -/
  isReal : Bool := false
  exponent : Int := 0

namespace NumberText

/-- The significand of the number and its power of ten. -/
def scientific (n : NumberText) : Nat × Int :=
  let (significand, power) := addFraction n.fraction (addWhole n.whole 0)
  (significand, power + n.exponent)

/-- The number as one that need not be whole. -/
def real (n : NumberText) : Binary64 :=
  let (significand, power) := n.scientific
  .ofDecimal n.negative significand power

/-- Whether the number is small enough to be kept. -/
def inRange (n : NumberText) : Bool :=
  let (significand, power) := n.scientific
  significand == 0 || (power ≤ 308 && n.real != .infinite n.negative)

/-- The number as a value.  It is kept as a whole number if it has 64 bits; nought has no sign. -/
def value (n : NumberText) : Value :=
  let size := (Text.digits? n.whole).getD 0
  if n.isReal then .real n.real
  else if n.negative then
    if 1 ≤ size ∧ size ≤ Nat.pow 2 63 then .whole (-size) else .real n.real
  else if size ≤ significandMax then .whole size
  else .real n.real

end NumberText

/-- The fault of a number that stops where a digit is missing, if it is looked at. -/
def missingDigit (rest : Text) : Fault := if rest.isEmpty then .truncated else .malformed

/-- Reads an exponent behind its letter. -/
def exponent (n : NumberText) (t : Text) : Except Fault (NumberText × Text) :=
  let (negative, t) := match t with
    | '-' :: rest => (true, rest)
    | '+' :: rest => (false, rest)
    | t => (false, t)
  match digits t with
  | ([], rest) => .error (missingDigit rest)
  | (ds, rest) =>
    let size : Int := (Text.digits? ds).getD 0
    .ok ({ n with isReal := true, exponent := if negative then -size else size }, rest)

/-- Reads an exponent, if there is one. -/
def optionalExponent (n : NumberText) : Text → Except Fault (NumberText × Text)
  | 'e' :: rest => exponent n rest
  | 'E' :: rest => exponent n rest
  | t => .ok (n, t)

/-- Reads what follows the digits in front of the point. -/
def afterWhole (n : NumberText) : Text → Except Fault (NumberText × Text)
  | '.' :: t =>
    match digits t with
    | ([], rest) => .error (missingDigit rest)
    | (fraction, rest) => optionalExponent { n with isReal := true, fraction } rest
  | t => optionalExponent n t

/-- Reads a number behind its sign.  A zero in front stands alone. -/
def unsignedNumber (negative : Bool) (t : Text) : Except Fault (NumberText × Text) :=
  match digits t with
  | ([], rest) => .error (missingDigit rest)
  | ('0' :: _ :: _, _) => .error .malformed
  | (whole, rest) => afterWhole { negative, whole } rest

/-- The lexeme of a number behind its sign, and what follows it. -/
def cutNumber (lead : Char) (negative : Bool) (t : Text) : Lexeme × Text :=
  match unsignedNumber negative t with
  | .ok (n, rest) => (.number n.value n.inRange, rest)
  | .error f => (.broken lead f .malformed, [])

/-! ## All lexemes -/

/-- The fault of a word that is not written out. -/
def wordFault : Text → Text → Fault
  | _, [] => .truncated
  | [], _ => .malformed
  | w :: ws, c :: cs => if w = c then wordFault ws cs else .malformed

/-- The lexeme of a word behind its first character, and what follows it. -/
def cutWord (lead : Char) (remaining : Text) (l : Lexeme) (t : Text) : Lexeme × Text :=
  if remaining.isPrefixOf t then (l, t.drop remaining.length)
  else let f := wordFault remaining t; (.broken lead f f, [])

/-- The lexeme that begins with a character, and what follows it. -/
def cutLexeme (c : Char) (rest : Text) : Lexeme × Text :=
  if ['[', ']', '\x7b', '\x7d', ',', ':'].contains c then (.mark c, rest)
  else if c = '"' then cutString rest
  else if c = '-' then cutNumber c true rest
  else if c.isDigit then cutNumber c false (c :: rest)
  else if c = 'n' then cutWord c "ull".toList .null rest
  else if c = 't' then cutWord c "rue".toList (.bool true) rest
  else if c = 'f' then cutWord c "alse".toList (.bool false) rest
  else (.broken c .malformed .malformed, [])

/-- At most a number of lexemes of a text. -/
def lexemesWithin : Nat → Text → List Lexeme
  | 0, _ => []
  | n + 1, t =>
    match t.dropWhile isSpace with
    | [] => []
    | c :: rest => let (l, rest) := cutLexeme c rest; l :: lexemesWithin n rest

/-- The lexemes of a text.  There are no more of them than characters. -/
def lexemes (t : Text) : List Lexeme := lexemesWithin t.length t

end Json

end Document

end TaggedOutline
