import SeriesQuery.Number.Power

/-!
# Binary64 numbers as exact fractions

A finite binary64 number is a natural number scaled by a power of two, with a sign. Rounding to a
whole number and finding the shortest decimal text both start from this form, in exact
arithmetic.
-/

namespace SeriesQuery

/-- `± mantissa · 2 ^ exponent`. -/
structure Binary where
  /-- Below zero; also the sign of a zero. -/
  negative : Bool
  /-- Below `2 ^ 53`, and at least `2 ^ 52` but for the smallest numbers. -/
  mantissa : Nat
  /-- At least `-1074`. -/
  exponent : Int
  deriving DecidableEq, Repr

namespace Binary

/-- The exact value of a finite number; none of infinities and what is not a number. -/
def ofFloat? (x : Float) : Option Binary :=
  let bits := x.toBits.toNat
  let negative := bits / twoTo 63 == 1
  let biased : Nat := bits / twoTo 52 % twoTo 11
  let fraction : Nat := bits % twoTo 52
  if biased == 2047 then none
  else if biased == 0 then some ⟨negative, fraction, -1074⟩
  else some ⟨negative, twoTo 52 + fraction, (biased : Int) - 1075⟩

/-- A whole number of at most 53 bits with a sign, zero keeping it. -/
def signed (negative : Bool) (n : Nat) : Float :=
  if negative then -(Float.ofNat n) else Float.ofNat n

end Binary

/-- How a number between two whole numbers is rounded. -/
inductive Rounding where
  /-- Toward zero. -/
  | truncate
  /-- Down. -/
  | floor
  /-- Up. -/
  | ceiling
  /-- To the nearer, a half away from zero. -/
  | nearest
  deriving DecidableEq, Repr

/-- Whether a magnitude between `n` and `n + 1` goes to `n + 1`, where `remainder / unit` is its
part above `n`. -/
def Rounding.goesOut (mode : Rounding) (negative : Bool) (remainder unit : Nat) : Bool :=
  match mode with
  | .truncate => false
  | .floor => negative && remainder != 0
  | .ceiling => !negative && remainder != 0
  | .nearest => unit ≤ 2 * remainder

/-- A number rounded to a whole number. The sign stays, also that of a zero; infinities and what
is not a number stay as they are. -/
def roundFloat (mode : Rounding) (x : Float) : Float :=
  match Binary.ofFloat? x with
  | none => x
  | some ⟨negative, mantissa, exponent⟩ =>
    if 0 ≤ exponent then x
    else
      let unit := twoTo exponent.natAbs
      let whole := mantissa / unit
      if mode.goesOut negative (mantissa % unit) unit then Binary.signed negative (whole + 1)
      else Binary.signed negative whole

/-- The largest whole number that is not above. -/
def floorFloat : Float → Float := roundFloat .floor

end SeriesQuery
