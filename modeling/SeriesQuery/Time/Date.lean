import SeriesQuery.Number.Decimal

/-!
# Dates

A point in time may be written as a date and time of day with an offset from universal time:

    2024-01-31T09:30:00.25+01:00

The `T` may be small or a space, the offset may be `Z`, and its sign may also be the minus sign
`−`. Every minute admits a second 60, as leap seconds need. Fractions of a second count to the
millisecond.
-/

namespace SeriesQuery

/-- A day of the Gregorian calendar. -/
structure Day where
  /-- The year. -/
  year : Nat
  /-- The month, from one. -/
  month : Nat
  /-- The day of the month, from one. -/
  day : Nat
  deriving DecidableEq, Repr

namespace Day

/-- Whether a year has a day more in February. -/
def isLeap (year : Nat) : Bool := year % 4 == 0 && (year % 100 != 0 || year % 400 == 0)

/-- The days of a month. -/
def daysInMonth (year month : Nat) : Nat :=
  if month == 2 then (if isLeap year then 29 else 28)
  else if month == 4 || month == 6 || month == 9 || month == 11 then 30
  else 31

/-- Whether the calendar has the day. -/
def isValid (d : Day) : Bool :=
  1 ≤ d.month && d.month ≤ 12 && 1 ≤ d.day && d.day ≤ daysInMonth d.year d.month

/-- Days from the first of January of year zero to the first of January of a year. -/
def daysBeforeYear (year : Nat) : Nat :=
  if year == 0 then 0
  else 365 * year + (year - 1) / 4 - (year - 1) / 100 + (year - 1) / 400 + 1

/-- Days of a year before a month. -/
def daysBeforeMonth (year month : Nat) : Nat :=
  (List.range (month - 1)).foldl (fun days m => days + daysInMonth year (m + 1)) 0

/-- Days since the first of January 1970. -/
def sinceEpoch (d : Day) : Int :=
  (daysBeforeYear d.year + daysBeforeMonth d.year d.month + (d.day - 1) : Nat)
    - (daysBeforeYear 1970 : Nat)

end Day

namespace Date

/-- A number of exactly `count` digits at the front, and what follows. -/
def digits? (count : Nat) (t : Text) : Option (Nat × Text) :=
  let digits := t.take count
  if digits.length == count && digits.all Char.isDigit then
    some (Decimal.natOfDigits digits, t.drop count)
  else none

/-- What follows a character. -/
def after? (c : Char) : Text → Option Text
  | [] => none
  | d :: rest => if d == c then some rest else none

/-- Milliseconds of a fraction of a second after its point, and what follows. -/
def fraction? (t : Text) : Option (Nat × Text) :=
  let (digits, rest) := Decimal.spanDigits t
  if digits.isEmpty then none
  else some (Decimal.natOfDigits ((digits ++ ['0', '0', '0']).take 3), rest)

/-- Minutes of an offset that makes up a whole text. -/
def offset? : Text → Option Int
  | ['Z'] => some 0
  | ['z'] => some 0
  | [] => none
  | sign :: rest => do
    let negative ← if sign == '+' then some false else if sign == '-' || sign == '−' then some true
      else none
    let (hours, rest) ← digits? 2 rest
    let (minutes, rest) ← digits? 2 (← after? ':' rest)
    if !rest.isEmpty || 23 < hours || 59 < minutes then failure
    let total : Int := (60 * hours + minutes : Nat)
    return if negative then -total else total

/-- Milliseconds since the start of 1970 of the date that makes up a whole text. -/
def parse? (t : Text) : Option Int := do
  let (year, rest) ← digits? 4 t
  let (month, rest) ← digits? 2 (← after? '-' rest)
  let (day, rest) ← digits? 2 (← after? '-' rest)
  let rest ← ((after? 'T' rest).or (after? 't' rest)).or (after? ' ' rest)
  let (hour, rest) ← digits? 2 rest
  let (minute, rest) ← digits? 2 (← after? ':' rest)
  let (second, rest) ← digits? 2 (← after? ':' rest)
  let (millis, rest) ←
    match after? '.' rest with
    | some rest => fraction? rest
    | none => some (0, rest)
  let offset ← offset? rest
  let d : Day := ⟨year, month, day⟩
  if !d.isValid || 23 < hour || 59 < minute || 60 < second then failure
  let seconds := d.sinceEpoch * 86400 + (hour * 3600 + minute * 60 + second : Nat) - offset * 60
  return seconds * 1000 + (millis : Nat)

end Date

end SeriesQuery
