import SeriesQuery.Number.Power
import SeriesQuery.Text.Basic

/-!
# Decimal numerals

A decimal numeral is a natural number scaled by a power of ten. This module reads numerals, and
turns them into the binary64 number nearest to them.
-/

namespace SeriesQuery

/-- `digits · 10 ^ exponent`. -/
structure Decimal where
  /-- All digits of the numeral, as one natural number. -/
  digits : Nat
  /-- The power of ten by which the digits are scaled. -/
  exponent : Int
  deriving DecidableEq, Repr

/-- The value of an ASCII digit. -/
def digitValue (c : Char) : Nat := c.toNat - '0'.toNat

namespace Decimal

/-- The natural number that a run of ASCII digits spells. -/
def natOfDigits (t : Text) : Nat := t.foldl (fun n c => 10 * n + digitValue c) 0

/-- A run of digits at the front of a text, and what follows it. -/
def spanDigits (t : Text) : Text × Text := (t.takeWhile Char.isDigit, t.dropWhile Char.isDigit)

/-- A sign at the front of a text (true for minus), and what follows it. -/
def readSign : Text → Bool × Text
  | '-' :: rest => (true, rest)
  | '+' :: rest => (false, rest)
  | t => (false, t)

/-- An exponent part that makes up a whole text: nothing, or `e`, an optional sign and digits. -/
def readExponent? : Text → Option Int
  | [] => some 0
  | c :: rest =>
    if c == 'e' || c == 'E' then
      let (negative, digits) := readSign rest
      if digits.isEmpty || !digits.all Char.isDigit then none
      else if negative then some (-(natOfDigits digits : Int))
      else some (natOfDigits digits)
    else none

/-- The numeral without sign that makes up a whole text: digits with an optional point among or
beside them, and an optional exponent. -/
def read? (t : Text) : Option Decimal :=
  let (whole, rest) := spanDigits t
  let (fraction, rest) :=
    match rest with
    | '.' :: rest => spanDigits rest
    | _ => ([], rest)
  if whole.isEmpty && fraction.isEmpty then none
  else
    (readExponent? rest).map fun exponent =>
      ⟨natOfDigits (whole ++ fraction), exponent - fraction.length⟩

/-- The number of digits of a natural number. -/
def digitCount (n : Nat) : Nat := (Nat.toDigits 10 n).length

/-- The nearest binary64 number, ties to even. Numerals beyond the largest finite number are
infinite and numerals far below the smallest positive one are zero. -/
def toFloat (d : Decimal) : Float :=
  let magnitude := (digitCount d.digits : Int) + d.exponent
  if d.digits == 0 || magnitude < -400 then 0.0
  else if magnitude > 400 then 1.0 / 0.0
  else if d.exponent < 0 then Float.ofScientific d.digits true d.exponent.natAbs
  else Float.ofScientific d.digits false d.exponent.natAbs

end Decimal

/-- Not a number. -/
def notANumber : Float := 0.0 / 0.0

/-- Positive infinity. -/
def positiveInfinity : Float := 1.0 / 0.0

/-- The number that makes up a whole text: an optional sign, then a decimal numeral or one of
`inf`, `infinity` and `nan` in any case. -/
def readFloat? (t : Text) : Option Float :=
  let (negative, body) := Decimal.readSign t
  let lower := Text.asciiLower body
  let magnitude? :=
    if lower == ['i', 'n', 'f'] || lower == Text.of "infinity" then some positiveInfinity
    else if lower == ['n', 'a', 'n'] then some notANumber
    else (Decimal.read? body).map Decimal.toFloat
  magnitude?.map fun x => if negative then -x else x

/-- The natural number that makes up a whole text, an optional plus sign and digits, when it is
below `bound`. -/
def readNatBelow? (bound : Nat) (t : Text) : Option Nat :=
  let digits := match t with
    | '+' :: rest => rest
    | _ => t
  if digits.isEmpty || !digits.all Char.isDigit then none
  else
    let n := Decimal.natOfDigits digits
    if n < bound then some n else none

/-- The integer that makes up a whole text, an optional sign and digits, when it fits into
`bits` bits of two's complement. -/
def readInt? (bits : Nat) (t : Text) : Option Int :=
  let (negative, digits) := Decimal.readSign t
  if digits.isEmpty || !digits.all Char.isDigit then none
  else
    let n : Int := Decimal.natOfDigits digits
    let n := if negative then -n else n
    if -(twoTo (bits - 1) : Int) ≤ n ∧ n < twoTo (bits - 1) then some n else none

end SeriesQuery
