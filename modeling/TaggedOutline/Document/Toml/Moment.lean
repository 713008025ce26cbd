import TaggedOutline.Text.Number

/-!
# Dates and times of TOML

A document holds dates, times of day and both together, with or without the distance from world
time.  They are values as texts of one form: date and time are joined by `T`, world time is `Z`, and
the fraction of a second has at most nine digits and ends with none that is a zero.
-/

namespace TaggedOutline

namespace Document

namespace Toml

/-- Whether a year has a twenty-ninth of February. -/
def isLeapYear (year : Nat) : Bool := year % 4 == 0 && (year % 100 != 0 || year % 400 == 0)

/-- The number of days of a month. -/
def daysOf (year month : Nat) : Nat :=
  if month = 2 then if isLeapYear year then 29 else 28
  else if [4, 6, 9, 11].contains month then 30 else 31

/-- A date at the front of a text, and what follows it. -/
def date? : Text → Option (Text × Text)
  | y₁ :: y₂ :: y₃ :: y₄ :: '-' :: m₁ :: m₂ :: '-' :: d₁ :: d₂ :: rest => do
    let year ← Text.digits? [y₁, y₂, y₃, y₄]
    let month ← Text.digits? [m₁, m₂]
    let day ← Text.digits? [d₁, d₂]
    if 1 ≤ month ∧ month ≤ 12 ∧ 1 ≤ day ∧ day ≤ daysOf year month then
      some ([y₁, y₂, y₃, y₄, '-', m₁, m₂, '-', d₁, d₂], rest)
    else none
  | _ => none

/-- An hour and a minute as they are written, if there is such a time. -/
def hourMinute? (h₁ h₂ m₁ m₂ : Char) : Option Text := do
  let hour ← Text.digits? [h₁, h₂]
  let minute ← Text.digits? [m₁, m₂]
  if hour ≤ 23 ∧ minute ≤ 59 then some [h₁, h₂, ':', m₁, m₂] else none

/-- The fraction of a second by its digits, behind its point. -/
def fractionOf (digits : Text) : Text :=
  match ((digits.take 9).reverse.dropWhile (· == '0')).reverse with
  | [] => []
  | kept => '.' :: kept

/-- A time of day at the front of a text, and what follows it.  A minute may have a leap second. -/
def time? : Text → Option (Text × Text)
  | h₁ :: h₂ :: ':' :: m₁ :: m₂ :: ':' :: s₁ :: s₂ :: rest => do
    let start ← hourMinute? h₁ h₂ m₁ m₂
    let second ← Text.digits? [s₁, s₂]
    if 60 < second then none
    else
      let t := start ++ [':', s₁, s₂]
      match rest with
      | '.' :: rest =>
        match rest.span Char.isDigit with
        | ([], _) => none
        | (digits, rest) => some (t ++ fractionOf digits, rest)
      | _ => some (t, rest)
  | _ => none

/-- The distance from world time at the front of a text, if it has one, and what follows it. -/
def offset : Text → Text × Text
  | 'Z' :: rest => (['Z'], rest)
  | 'z' :: rest => (['Z'], rest)
  | sign :: h₁ :: h₂ :: ':' :: m₁ :: m₂ :: rest =>
    match hourMinute? h₁ h₂ m₁ m₂ with
    | none => ([], sign :: h₁ :: h₂ :: ':' :: m₁ :: m₂ :: rest)
    | some t =>
      if sign = '+' ∨ (sign = '-' ∧ t = "00:00".toList) then ('+' :: t, rest)
      else if sign = '-' then ('-' :: t, rest)
      else ([], sign :: h₁ :: h₂ :: ':' :: m₁ :: m₂ :: rest)
  | t => ([], t)

/-- A date or a time at the front of a text, and what follows it. -/
def moment? (t : Text) : Option (Text × Text) :=
  match date? t with
  | none => time? t
  | some (date, rest) =>
    match rest with
    | [] => some (date, rest)
    | c :: behind =>
      if ['T', 't', ' '].contains c then
        match time? behind with
        | none => some (date, rest)
        | some (time, rest) =>
          let (distance, rest) := offset rest
          some (date ++ 'T' :: time ++ distance, rest)
      else some (date, rest)

end Toml

end Document

end TaggedOutline
