import SeriesQuery.Fault
import SeriesQuery.Number.Binary
import SeriesQuery.Text.Blank

/-!
# Durations

A duration is a natural number of nanoseconds, of less than `2 ^ 64` seconds. Requests spell one
as a number and a unit: `500ms`, `1s`, `5m`, `2h`, `1d`, `1w`; a bare number counts seconds.
-/

namespace SeriesQuery

/-- A span of time. -/
structure Duration where
  /-- Its nanoseconds. -/
  nanos : Nat
  deriving DecidableEq, Repr

namespace Duration

/-- Nanoseconds in a second. -/
def perSecond : Nat := 1000000000

/-- Whole seconds. -/
def seconds (d : Duration) : Nat := d.nanos / perSecond

/-- Nanoseconds beyond the whole seconds. -/
def subsecond (d : Duration) : Nat := d.nanos % perSecond

/-- Whole milliseconds. -/
def millis (d : Duration) : Nat := d.nanos / 1000000

/-- The duration of whole milliseconds. -/
def ofMillis (n : Nat) : Duration := ⟨n * 1000000⟩

/-- `n / d` rounded to the nearest natural number, a half to the even one. -/
def roundToEven (n d : Nat) : Nat :=
  let floor := n / d
  match compare (2 * (n % d)) d with
  | .lt => floor
  | .gt => floor + 1
  | .eq => if floor % 2 == 0 then floor else floor + 1

/-- The duration of a number of seconds, to the nearest nanosecond. None for numbers below zero,
for `2 ^ 64` and above, and for what is not a number. -/
def ofSeconds? (x : Float) : Option Duration :=
  match Binary.ofFloat? x with
  | none => none
  | some b =>
    if b.negative && b.mantissa != 0 then none
    else
      let nanos :=
        roundToEven (b.mantissa * twoTo b.exponent.toNat * perSecond) (twoTo (-b.exponent).toNat)
      if nanos < twoTo 64 * perSecond then some ⟨nanos⟩ else none

/-- Seconds for a number in a unit, none for an unknown unit. -/
def inSeconds? (value : Float) (unit : Text) : Option Float :=
  if unit == ['m', 's'] then some (value / 1000.0)
  else if unit.isEmpty || unit == ['s'] then some value
  else if unit == ['m'] then some (value * 60.0)
  else if unit == ['h'] then some (value * 3600.0)
  else if unit == ['d'] then some (value * 86400.0)
  else if unit == ['w'] then some (value * 604800.0)
  else none

/-- The duration that a text spells. The unit begins at the first letter. -/
def parse (t : Text) : Except Fault Duration := do
  let text := Text.trim t
  let number := text.takeWhile (!Text.isAsciiLetter ·)
  let unit := Text.asciiLower (Text.trim (text.dropWhile (!Text.isAsciiLetter ·)))
  let some value := readFloat? (Text.trim number) | throw (.notInterval text)
  let some seconds := inSeconds? value unit | throw (.notIntervalUnit unit text)
  let some duration := ofSeconds? seconds | throw (.intervalOutOfRange text)
  return duration

end Duration

end SeriesQuery
