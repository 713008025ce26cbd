import TaggedOutline.Document.Value
import TaggedOutline.Text.Number

/-!
# Plain scalars of YAML

A scalar that stands without quotes may be nothing, a truth value or a number; otherwise it is text.
`Yaml.plain` says what it is, for reading it and for knowing which texts need quotes.
-/

namespace TaggedOutline

namespace Document

namespace Yaml

/-- Whether a scalar is a word for nothing. -/
def isNull (t : Text) : Bool := ["null", "Null", "NULL", "~"].any (t == ·.toList)

/-- The truth value that a scalar is a word for. -/
def bool? (t : Text) : Option Bool :=
  if ["true", "True", "TRUE"].any (t == ·.toList) then some true
  else if ["false", "False", "FALSE"].any (t == ·.toList) then some false
  else none

/-- A text behind a sign, if it has one. -/
def unsigned : Text → Text
  | '+' :: t => t
  | '-' :: t => t
  | t => t

/-- Whether a scalar is digits with needless zeros in front, which is no number. -/
def isPadded (t : Text) : Bool :=
  match unsigned t with
  | '0' :: c :: rest => (c :: rest).all Char.isDigit
  | _ => false

/-- The number that digits behind the mark of a base stand for. -/
def based? : Text → Option Nat
  | '0' :: 'x' :: t => Text.digitsIn? 16 t
  | '0' :: 'o' :: t => Text.digitsIn? 8 t
  | '0' :: 'b' :: t => Text.digitsIn? 2 t
  | _ => none

/-- The whole number without a sign that a text is, by the mark of a base or in base ten. -/
def natural? (padded : Bool) (t : Text) : Option Nat :=
  match based? t with
  | some n => some n
  | none => if padded then none else Text.digitsIn? 10 t

/-- The whole number that a scalar is, if it has at most 128 bits. -/
def whole? (t : Text) : Option Int :=
  let padded := isPadded t
  match t with
  | '-' :: rest =>
    (natural? padded rest).bind fun n => if n ≤ Nat.pow 2 127 then some (-n) else none
  | '+' :: rest => (natural? padded rest).bind fun n => if n < Nat.pow 2 128 then some n else none
  | rest => (natural? padded rest).bind fun n => if n < Nat.pow 2 128 then some n else none

/-- Whether a text is digits with at most one point, and at least one digit. -/
def isDecimal (t : Text) : Bool :=
  let (front, rest) := t.span Char.isDigit
  match rest with
  | [] => !front.isEmpty
  | '.' :: back => back.all Char.isDigit && !(front.isEmpty && back.isEmpty)
  | _ => false

/-- Whether a text is the part of a number behind the letter of its exponent. -/
def isExponent (t : Text) : Bool :=
  let digits := unsigned t
  !digits.isEmpty && digits.all Char.isDigit

/-- The size of a number written with a point or an exponent, as a significand and a power of
ten. -/
def decimal (t : Text) : Nat × Int :=
  let (front, rest) := t.span fun c => c != 'e' && c != 'E'
  let (whole, fraction) := front.span (· != '.')
  let digits := whole ++ fraction.drop 1
  let power : Int :=
    match rest with
    | _ :: '-' :: e => -((Text.digits? e).getD 0 : Int)
    | _ :: e => (Text.digits? (unsigned e)).getD 0
    | [] => 0
  ((Text.digits? digits).getD 0, power - (fraction.drop 1).length)

/-- The number that a text behind its sign is, if it is small enough to be kept. -/
def unsignedReal? (negative : Bool) (t : Text) : Option Binary64 :=
  let (front, rest) := t.span fun c => c != 'e' && c != 'E'
  if isDecimal front && (rest.isEmpty || isExponent (rest.drop 1)) then
    let (significand, power) := decimal t
    let x := Binary64.ofDecimal negative significand power
    if x = .infinite negative then none else some x
  else none

/-- Whether a text is a word for infinity. -/
def isInfinity (t : Text) : Bool := [".inf", ".Inf", ".INF"].any (t == ·.toList)

/-- The number that a scalar is; it need not be whole. -/
def real? (t : Text) : Option Binary64 :=
  match t with
  | '+' :: rest => if isInfinity rest then some (.infinite false) else unsignedReal? false rest
  | '-' :: rest => if isInfinity rest then some (.infinite true) else unsignedReal? true rest
  | _ =>
    if isInfinity t then some (.infinite false)
    else if [".nan", ".NaN", ".NAN"].any (t == ·.toList) then some .notANumber
    else unsignedReal? false t

/-- What a plain scalar is. -/
def plain (t : Text) : Value :=
  if t.isEmpty || isNull t then .null
  else
    match bool? t with
    | some b => .bool b
    | none =>
      match whole? t with
      | some n => .whole n
      | none =>
        match real? t with
        | some x => if isPadded t then .text t else .real x
        | none => .text t

end Yaml

end Document

end TaggedOutline
