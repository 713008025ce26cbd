import TaggedOutline.Text

/-!
# Written numbers

Reading and writing of whole numbers.  In base ten a sign may stand before the digits; a number that
does not fit the width that is asked for is not read.  `Text.digitsIn?` reads digits of another base
and `Text.codePoint?` the character with a number.
-/

namespace TaggedOutline

namespace Text

/-- The digits of a number. -/
def ofNat (n : Nat) : Text := Nat.toDigits 10 n

/-- The digits of a whole number, after a minus sign if it is negative. -/
def ofInt : Int → Text
  | .ofNat n => ofNat n
  | .negSucc n => '-' :: ofNat (n + 1)

/-- The value of a list of decimal digits, of which there has to be one. -/
def digits? (t : Text) : Option Nat :=
  if !t.isEmpty && t.all Char.isDigit then
    some (t.foldl (fun n c => n * 10 + (c.toNat - '0'.toNat)) 0)
  else none

/-- The number below `2 ^ bits` that a text writes, with or without a plus sign. -/
def nat? (bits : Nat) (t : Text) : Option Nat :=
  let digits := match t with
    | '+' :: rest => rest
    | _ => t
  (digits? digits).filter fun n => n < Nat.pow 2 bits

/-- The number of a signed width that a text writes. -/
def int? (bits : Nat) (t : Text) : Option Int :=
  match t with
  | '-' :: rest =>
    ((digits? rest).filter fun n => n ≤ Nat.pow 2 (bits - 1)).map fun n => -(n : Int)
  | _ => ((nat? (bits - 1) t).map Int.ofNat)

/-! ## Other bases -/

/-- The value of a digit in base sixteen. -/
def hexDigit? (c : Char) : Option Nat :=
  if '0' ≤ c ∧ c ≤ '9' then some (c.toNat - '0'.toNat)
  else if 'a' ≤ c ∧ c ≤ 'f' then some (c.toNat - 'a'.toNat + 10)
  else if 'A' ≤ c ∧ c ≤ 'F' then some (c.toNat - 'A'.toNat + 10)
  else none

/-- The number that digits of a base up to sixteen stand for, of which there has to be one. -/
def digitsIn? (base : Nat) (t : Text) : Option Nat :=
  if t.isEmpty then none
  else t.foldlM (fun n c => do
    let d ← hexDigit? c
    if d < base then some (n * base + d) else none) 0

/-- The character with a number, if there is one. -/
def codePoint? (n : Nat) : Option Char :=
  if h : n.isValidChar then some (Char.ofNatAux n h) else none

end Text

end TaggedOutline
