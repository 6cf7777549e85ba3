import SeriesQuery.Number.Binary
import SeriesQuery.Number.Decimal

/-!
# The shortest decimal that reads back

Every finite binary64 number is the nearest such number to all reals of an interval around it. Of
the decimals in that interval those with the fewest digits are sought, and of these the nearest
to the number.

On each grid of `n` significant digits only the two neighbours of the number can qualify, so the
first grid with a hit gives the answer; seventeen digits always suffice.
-/

namespace SeriesQuery

/-- Which of two equally near decimals is taken. -/
inductive Tie where
  /-- The larger magnitude. -/
  | up
  /-- The one whose last digit is even. -/
  | even
  deriving DecidableEq, Repr

namespace Shortest

/-- A positive number and the interval that reads back as it, as numerators over one
denominator. -/
structure Interval where
  /-- Numerator of the number. -/
  value : Nat
  /-- Numerator of the lower end. -/
  low : Nat
  /-- Numerator of the upper end. -/
  high : Nat
  /-- The common denominator. -/
  denominator : Nat
  /-- Whether the ends themselves read back as the number. -/
  closed : Bool

/-- The interval of a positive binary number: half way to each neighbour, and the lower
neighbour of a power of two is nearer. -/
def Interval.ofBinary (b : Binary) : Interval :=
  let below := if b.mantissa == twoTo 52 && b.exponent > -1074 then 1 else 2
  let scale := b.exponent - 2
  let up := twoTo scale.toNat
  ⟨4 * b.mantissa * up, (4 * b.mantissa - below) * up, (4 * b.mantissa + 2) * up,
    twoTo (-scale).toNat, b.mantissa % 2 == 0⟩

/-- Whether `n / d`, over another denominator, lies in the interval. -/
def Interval.contains (i : Interval) (n d : Nat) : Bool :=
  if i.closed then i.low * d ≤ n * i.denominator && n * i.denominator ≤ i.high * d
  else i.low * d < n * i.denominator && n * i.denominator < i.high * d

/-- The decimal on the grid `10 ^ p` that is nearest to the number among those in the interval. -/
def onGrid? (tie : Tie) (i : Interval) (p : Int) : Option Decimal :=
  let up := tenTo p.toNat
  let down := tenTo (-p).toNat
  let numerator := i.value * down
  let unit := i.denominator * up
  let floor := numerator / unit
  let remainder := numerator % unit
  let lower := i.contains (floor * up) down
  let upper := i.contains ((floor + 1) * up) down
  let upperNearer :=
    match compare (2 * remainder) unit with
    | .gt => true
    | .lt => false
    | .eq => match tie with
      | .up => true
      | .even => floor % 2 == 1
  if upper && (!lower || upperNearer) then some ⟨floor + 1, p⟩
  else if lower then some ⟨floor, p⟩
  else none

/-- The number of digits before the point: the least `k ≥ bottom` with the number below
`10 ^ k`, counted upwards for at most `fuel` steps. -/
def digitsBefore (i : Interval) : Nat → Int → Int
  | 0, k => k
  | fuel + 1, k =>
    if i.value * tenTo (-k).toNat < i.denominator * tenTo k.toNat then k
    else digitsBefore i fuel (k + 1)

/-- The first hit among the grids of `n`, `n + 1`, … significant digits. -/
def firstGrid (tie : Tie) (i : Interval) (k : Int) : Nat → Nat → Decimal
  | 0, n => ⟨0, n⟩
  | fuel + 1, n =>
    match onGrid? tie i (k - n) with
    | some d => d
    | none => firstGrid tie i k fuel (n + 1)

/-- The digits without zeros at the end. -/
def stripZeros : Nat → Decimal → Decimal
  | 0, d => d
  | fuel + 1, d =>
    if d.digits != 0 && d.digits % 10 == 0 then stripZeros fuel ⟨d.digits / 10, d.exponent + 1⟩
    else d

/-- A lower bound of the digits before the point of `m · 2 ^ e`, from the length of `m` in bits. -/
def digitsBound (b : Binary) : Int := ((b.mantissa.log2 : Int) + b.exponent) * 30103 / 100000 - 1

end Shortest

/-- The shortest decimal that reads back as a positive binary number, and of those the
nearest. -/
def Binary.shortest (tie : Tie) (b : Binary) : Decimal :=
  let i := Shortest.Interval.ofBinary b
  let k := Shortest.digitsBefore i 8 (Shortest.digitsBound b)
  Shortest.stripZeros 20 (Shortest.firstGrid tie i k 18 1)

end SeriesQuery
