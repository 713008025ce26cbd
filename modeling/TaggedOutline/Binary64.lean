import TaggedOutline.Text.Number

/-!
# Binary64 numbers

The numbers that most programs keep: at most 53 binary digits and a power of two, with infinities.
`Binary64.ofDecimal` rounds a decimal number to the nearest one, an exact tie to the even one.
`Binary64.shortest` finds the fewest decimal digits that read back as the number, and
`Binary64.render` writes them without an exponent.  All of it is exact arithmetic on whole numbers.
-/

namespace TaggedOutline

/-- A binary64 number. -/
inductive Binary64 where
  /-- The number `m` times two to the power `q`, or its negative. -/
  | finite (negative : Bool) (m : Nat) (q : Int)
  | infinite (negative : Bool)
  | notANumber
deriving DecidableEq, Repr, Inhabited

namespace Binary64

/-- The least power of two of a number. -/
def minPower : Int := -1074

/-- The greatest power of two of a number. -/
def maxPower : Int := 971

/-- A quotient rounded to the nearest whole number, a tie to the even one. -/
def roundDiv (num den : Nat) : Nat :=
  let n := num / den
  let twice := 2 * (num % den)
  if twice < den then n else if den < twice then n + 1 else n + n % 2

/-- A fraction times a power of two, as a fraction. -/
def scale (num den : Nat) (power : Int) : Nat × Nat :=
  if 0 ≤ power then (num * Nat.pow 2 power.toNat, den)
  else (num, den * Nat.pow 2 (-power).toNat)

/-- The number nearest to a fraction that is not nought. -/
def ofFraction (negative : Bool) (num den : Nat) : Binary64 :=
  let guess : Int := (num.log2 : Int) - den.log2 - 52
  let (n, d) := scale num den (-guess)
  let q := max minPower (if n < d * Nat.pow 2 52 then guess - 1 else guess)
  let (n, d) := scale num den (-q)
  let m := roundDiv n d
  let (m, q) := if m = Nat.pow 2 53 then (Nat.pow 2 52, q + 1) else (m, q)
  if maxPower < q then .infinite negative else .finite negative m q

/-- The number nearest to `n` times ten to the power `e`. -/
def ofDecimal (negative : Bool) (n : Nat) (e : Int) : Binary64 :=
  let size : Int := (Text.ofNat n).length + e
  if n = 0 ∨ size < -330 then .finite negative 0 minPower
  else if 310 < size then .infinite negative
  else if 0 ≤ e then ofFraction negative (n * Nat.pow 10 e.toNat) 1
  else ofFraction negative n (Nat.pow 10 (-e).toNat)

/-! ## Rounding to whole numbers -/

/-- The nearest whole number from nought to `limit`, a half rounded up. -/
def toNat (limit : Nat) : Binary64 → Nat
  | .finite false m q =>
    let (n, d) := scale m 1 q
    min limit ((2 * n + d) / (2 * d))
  | .infinite false => limit
  | _ => 0

/-! ## The shortest decimal digits -/

/-- How `c` times ten to the power `j` compares with `b` times two to the power `s`. -/
def compareDecimal (c : Nat) (j : Int) (b : Nat) (s : Int) : Ordering :=
  compare (c * Nat.pow 10 j.toNat * Nat.pow 2 (-s).toNat)
    (b * Nat.pow 2 s.toNat * Nat.pow 10 (-j).toNat)

/-- Whether `c` times ten to the power `j` rounds to `m` times two to the power `q`.  The ends of
the interval around the number belong to it when `m` is even. -/
def roundsTo (m : Nat) (q : Int) (c : Nat) (j : Int) : Bool :=
  let gap := if m = Nat.pow 2 52 ∧ minPower < q then 1 else 2
  let low := compareDecimal c j (4 * m - gap) (q - 2)
  let high := compareDecimal c j (4 * m + 2) (q - 2)
  if m % 2 = 0 then low != .lt && high != .gt else low == .gt && high == .lt

/-- How often ten to the power `j` goes into `m` times two to the power `q`. -/
def quotientAt (m : Nat) (q j : Int) : Nat :=
  m * Nat.pow 2 q.toNat * Nat.pow 10 (-j).toNat / (Nat.pow 2 (-q).toNat * Nat.pow 10 j.toNat)

/-- The power of ten of the first digit of `m` times two to the power `q`. -/
def leadingPower (m : Nat) (q : Int) : Int := (Text.ofNat (quotientAt m q (-400))).length - 401

/-- The nearer one of the two neighbours of the number among the multiples of ten to the power `j`,
of those that read back as the number. -/
def neighbour? (m : Nat) (q j : Int) : Option Nat :=
  let c := quotientAt m q j
  match roundsTo m q c j, roundsTo m q (c + 1) j with
  | true, true => some (if compareDecimal (2 * c + 1) j (2 * m) q == .lt then c + 1 else c)
  | true, false => some c
  | false, true => some (c + 1)
  | false, false => none

/-- The most decimal digits that a number needs. -/
def maxDigits : Nat := 17

/-- The fewest digits that read back as `m` times two to the power `q`, and their power of ten. -/
def shortest (m : Nat) (q : Int) : Nat × Int :=
  let powers : List Int := (List.range maxDigits).map fun (k : Nat) => leadingPower m q - k
  (powers.findSome? fun j => (neighbour? m q j).map (·, j)).getD (quotientAt m q 0, 0)

/-- A decimal number without an exponent. -/
def positional (c : Nat) (j : Int) : Text :=
  let digits := Text.ofNat c
  if 0 ≤ j then digits ++ List.replicate j.toNat '0'
  else
    let places := (-j).toNat
    let digits := List.replicate (places + 1 - digits.length) '0' ++ digits
    let whole := digits.take (digits.length - places)
    let fraction := digits.drop (digits.length - places)
    let fraction := (fraction.reverse.dropWhile (· == '0')).reverse
    if fraction.isEmpty then whole else whole ++ '.' :: fraction

/-- A number as text, with the fewest digits and without an exponent. -/
def render : Binary64 → Text
  | .finite negative m q =>
    let (c, j) := if m = 0 then (0, 0) else shortest m q
    (if negative then ['-'] else []) ++ positional c j
  | .infinite negative => (if negative then "-inf" else "inf").toList
  | .notANumber => "NaN".toList

end Binary64

end TaggedOutline
