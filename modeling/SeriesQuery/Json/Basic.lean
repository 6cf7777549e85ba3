import SeriesQuery.Number.Printing

/-!
# JSON values

Requests and data sets come as JSON and answers leave as JSON. A number is kept as it is written
and read as a binary64 number or a natural number where it is used; an object keeps its members
in order, repeated names included.
-/

namespace SeriesQuery

/-- A JSON value. -/
inductive Json where
  | null
  | bool (value : Bool)
  /-- A number as it is written. -/
  | number (token : Text)
  | string (value : Text)
  | array (items : List Json)
  | object (members : List (Text × Json))

namespace Json

/-! ## Numbers -/

/-- The parts of a number as it is written. -/
structure NumberParts where
  /-- Below zero. -/
  negative : Bool
  /-- The digits before the point. -/
  whole : Text
  /-- The digits after the point. -/
  fraction : Text
  /-- The exponent. -/
  exponent : Int
  /-- Neither point nor exponent is written. -/
  isInteger : Bool

/-- The parts of a number as it is written. -/
def NumberParts.ofToken (token : Text) : NumberParts :=
  let (negative, body) :=
    match token with
    | '-' :: rest => (true, rest)
    | _ => (false, token)
  let (whole, rest) := Decimal.spanDigits body
  let isInteger := rest.isEmpty
  let (fraction, rest) :=
    match rest with
    | '.' :: rest => Decimal.spanDigits rest
    | _ => ([], rest)
  ⟨negative, whole, fraction, (Decimal.readExponent? rest).getD 0, isInteger⟩

/-- The leading digits that fit into 64 bits, and how many more there are. -/
def significand (acc : Nat) : Text → Nat × Nat
  | [] => (acc, 0)
  | c :: rest =>
    let next := 10 * acc + digitValue c
    if next < twoTo 64 then significand next rest else (acc, rest.length + 1)

/-- A number times a power of ten, one rounding for each step; none when it overflows. Powers
below `-308` are reached in steps. -/
def scaleByTen (x : Float) (exponent : Int) : Nat → Option Float
  | 0 => some x
  | fuel + 1 =>
    let power (n : Nat) : Float := Decimal.toFloat ⟨1, n⟩
    if exponent.natAbs ≤ 308 then
      if 0 ≤ exponent then
        let y := x * power exponent.natAbs
        if y.isInf then none else some y
      else some (x / power exponent.natAbs)
    else if x == 0.0 then some x
    else if 0 ≤ exponent then none
    else scaleByTen (x / power 308) (exponent + 308) fuel

/-- The binary64 number of a token: the digits that fit into 64 bits, rounded, then scaled by the
power of ten, rounded. None when the number is too large. Each side of the point takes digits for
as long as they fit. -/
def numberToFloat? (token : Text) : Option Float :=
  let parts := NumberParts.ofToken token
  let (digits, dropped) := significand 0 parts.whole
  let (digits, left) := significand digits parts.fraction
  let after := parts.fraction.length - left
  let magnitude := Float.ofNat digits
  (scaleByTen magnitude (parts.exponent + (dropped : Int) - (after : Int)) 5).map fun x =>
    if parts.negative then -x else x

/-- The natural number of a token without sign, point and exponent, below a bound. -/
def numberToNat? (bound : Nat) (token : Text) : Option Nat :=
  let parts := NumberParts.ofToken token
  if parts.negative || !parts.isInteger then none
  else
    let n := Decimal.natOfDigits parts.whole
    if n < bound then some n else none

/-- A number, or `null` for what is not finite. -/
def ofFloat (x : Float) : Json :=
  match jsonNumber? x with
  | some token => number token
  | none => null

/-- A natural number. -/
def ofNat (n : Nat) : Json := number (Text.ofNat n)

/-! ## Access -/

/-- The first member of a name. -/
def get? (name : String) : Json → Option Json
  | object members => (members.find? (·.1 == Text.of name)).map (·.2)
  | _ => none

end Json

end SeriesQuery
