import SeriesQuery.Fault
import SeriesQuery.Text.Blank
import SeriesQuery.Time.Date

/-!
# Time ranges

The window of a query, both ends included. A bound is a number of milliseconds since the start of
1970 or a date.
-/

namespace SeriesQuery

/-- A window of time, in milliseconds since the start of 1970. -/
structure TimeRange where
  /-- The first moment. -/
  start : Float
  /-- The last moment. -/
  finish : Float
  deriving DecidableEq

namespace TimeRange

/-- An integer as a binary64 number. -/
def floatOfInt (n : Int) : Float :=
  if n < 0 then -(Float.ofNat n.natAbs) else Float.ofNat n.natAbs

/-- The moment that a text spells. -/
def bound (t : Text) : Except Fault Float :=
  let text := Text.trim t
  match readFloat? text with
  | some x => .ok x
  | none =>
    match Date.parse? text with
    | some millis => .ok (floatOfInt millis)
    | none => .error (.notTimestamp text)

/-- The window between two moments, which must not be reversed. -/
def ofBounds (start finish : Float) : Except Fault TimeRange :=
  if finish < start then .error (.reversedRange start finish) else .ok ⟨start, finish⟩

/-- The window between the moments that two texts spell. -/
def parse (start finish : Text) : Except Fault TimeRange := do
  ofBounds (← bound start) (← bound finish)

/-- Whether a moment is in the window. -/
def contains (r : TimeRange) (time : Float) : Bool := r.start ≤ time && time ≤ r.finish

/-- The length of the window in milliseconds. -/
def length (r : TimeRange) : Float := r.finish - r.start

end TimeRange

end SeriesQuery
