import TaggedOutline.Document.Value
import TaggedOutline.Text.Number

/-!
# Numbers of TOML

A whole number has 64 bits.  In base ten it may have a sign and begins with a zero only if that is
all; behind `0x`, `0o` or `0b` it has digits of that base and no sign.  A number with a fraction or
an exponent is rounded to binary64, and so are the infinities.  Single underscores may stand between
digits.
-/

namespace TaggedOutline

namespace Document

namespace Toml

/-- The digits of a text, without the single underscores between them. -/
def plainDigits? (isDigit : Char → Bool) : Text → Option Text
  | [] => none
  | [c] => if isDigit c then some [c] else none
  | c :: '_' :: rest => if isDigit c then (plainDigits? isDigit rest).map (c :: ·) else none
  | c :: d :: rest => if isDigit c then (plainDigits? isDigit (d :: rest)).map (c :: ·) else none

/-- The digits in base ten of a text that begins with a zero only if that is all. -/
def wholeDigits? (t : Text) : Option Text :=
  match t with
  | '0' :: _ :: _ => none
  | _ => plainDigits? Char.isDigit t

/-- Whether a text begins with a minus sign, and the text behind its sign. -/
def splitSign : Text → Bool × Text
  | '-' :: t => (true, t)
  | '+' :: t => (false, t)
  | t => (false, t)

/-! ## Whole numbers -/

/-- The largest whole number. -/
def wholeMax : Nat := Nat.pow 2 63 - 1

/-- The number below `2 ^ 63` that digits of a base stand for. -/
def based? (base : Nat) (t : Text) : Option Int := do
  let digits ← plainDigits? (fun c => (Text.hexDigit? c).any (· < base)) t
  let n ← Text.digitsIn? base digits
  if n ≤ wholeMax then some n else none

/-- The whole number that a text is. -/
def whole? : Text → Option Int
  | '0' :: 'x' :: t => based? 16 t
  | '0' :: 'o' :: t => based? 8 t
  | '0' :: 'b' :: t => based? 2 t
  | t => do
    let (negative, t) := splitSign t
    let n ← Text.digits? (← wholeDigits? t)
    if negative then if n ≤ wholeMax + 1 then some (-n) else none
    else if n ≤ wholeMax then some n else none

/-! ## Other numbers -/

/-- The power of ten that an exponent stands for, behind its letter. -/
def exponent? (t : Text) : Option Int := do
  let (negative, t) := splitSign t
  let n ← Text.digits? (← plainDigits? Char.isDigit t)
  return if negative then -n else n

/-- The number that a text with a fraction or an exponent is.  One that is too large is none, but
its negative is an infinity. -/
def decimal? (t : Text) : Option Binary64 := do
  let (negative, t) := splitSign t
  let (significand, power) := t.span fun c => c != 'e' && c != 'E'
  let (whole, fraction) := significand.span (· != '.')
  if power.isEmpty ∧ fraction.isEmpty then none
  else
    let whole ← wholeDigits? whole
    let fraction ← if fraction.isEmpty then some [] else plainDigits? Char.isDigit fraction.tail
    let power ← if power.isEmpty then some 0 else exponent? power.tail
    let x := Binary64.ofDecimal negative ((Text.digits? (whole ++ fraction)).getD 0)
      (power - fraction.length)
    if x = .infinite false then none else some x

/-- The number that a word stands for. -/
def special? (t : Text) : Option Binary64 :=
  let (negative, t) := splitSign t
  if t = "inf".toList then some (.infinite negative)
  else if t = "nan".toList then some .notANumber
  else none

/-- The number that a text is. -/
def number? (t : Text) : Option Value :=
  (whole? t).map .whole <|> (decimal? t <|> special? t).map .real

end Toml

end Document

end TaggedOutline
