import SeriesQuery.Fault
import SeriesQuery.Text.Blank

/-!
# Units of time

Sample times are milliseconds; parameters and results of functions may be in any of these units.
Conversions go through seconds.
-/

namespace SeriesQuery

/-- Units of time. -/
inductive TimeUnit where
  | seconds
  | nanoseconds
  | microseconds
  | milliseconds
  | minutes
  | hours
  | days
  | weeks
  /-- A hundredth of a day. -/
  | ke
  /-- A hundred nanoseconds. -/
  | ticks
  /-- The atomic unit of time. -/
  | atomicUnits
  /-- The Planck time. -/
  | planckTime
  deriving DecidableEq, Repr

namespace TimeUnit

/-- The canonical name. -/
def name : TimeUnit → String
  | seconds => "Seconds"
  | nanoseconds => "Nanoseconds"
  | microseconds => "Microseconds"
  | milliseconds => "Milliseconds"
  | minutes => "Minutes"
  | hours => "Hours"
  | days => "Days"
  | weeks => "Weeks"
  | ke => "Ke"
  | ticks => "Ticks"
  | atomicUnits => "AtomicUnitsOfTime"
  | planckTime => "PlanckTime"

/-- Seconds in one unit. -/
def inSeconds : TimeUnit → Float
  | seconds => 1.0
  | nanoseconds => 1e-9
  | microseconds => 1e-6
  | milliseconds => 1e-3
  | minutes => 60.0
  | hours => 3600.0
  | days => 86400.0
  | weeks => 604800.0
  | ke => 864.0
  | ticks => 1e-7
  | atomicUnits => 2.418884326505e-17
  | planckTime => 5.39116e-44

/-- A span of milliseconds in this unit. -/
def ofMillis (unit : TimeUnit) (millis : Float) : Float := millis / 1000.0 / unit.inSeconds

/-- A value in this unit in milliseconds. -/
def toMillis (unit : TimeUnit) (value : Float) : Float := value * unit.inSeconds * 1000.0

/-- The spellings of each unit, in lower case. -/
def spellings : List (String × TimeUnit) := [
  ("seconds", seconds), ("second", seconds), ("secs", seconds), ("sec", seconds), ("s", seconds),
  ("nanoseconds", nanoseconds), ("nanosecond", nanoseconds), ("ns", nanoseconds),
  ("microseconds", microseconds), ("microsecond", microseconds), ("us", microseconds),
  ("µs", microseconds),
  ("milliseconds", milliseconds), ("millisecond", milliseconds), ("ms", milliseconds),
  ("minutes", minutes), ("minute", minutes), ("mins", minutes), ("min", minutes),
  ("hours", hours), ("hour", hours), ("h", hours),
  ("days", days), ("day", days), ("d", days),
  ("weeks", weeks), ("week", weeks), ("w", weeks),
  ("ke", ke),
  ("ticks", ticks), ("tick", ticks),
  ("atomicunitsoftime", atomicUnits), ("atomicunitoftime", atomicUnits), ("au", atomicUnits),
  ("plancktime", planckTime), ("tp", planckTime)]

/-- The unit that a text spells, up to white space around it and the case of its letters. -/
def read (t : Text) : Except Fault TimeUnit :=
  let trimmed := Text.trim t
  match spellings.find? fun (s, _) => Text.of s == Text.asciiLower trimmed with
  | some (_, unit) => .ok unit
  | none => .error (.notTimeUnit trimmed)

end TimeUnit

end SeriesQuery
