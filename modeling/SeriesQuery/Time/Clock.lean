/-!
# Clocks

What depends on time reads a clock, and every reading may be later than the one before. A clock
is its last reading together with the steps that the coming readings advance by, so readings
never decrease; when the steps are used up, time stands still.
-/

namespace SeriesQuery

/-- A clock in milliseconds. -/
structure Clock where
  /-- The last reading. -/
  now : Nat
  /-- By how much each coming reading is later than the one before it. -/
  steps : List Nat

namespace Clock

/-- A clock that stands still. -/
def still (now : Nat) : Clock := ⟨now, []⟩

/-- The next reading. -/
def read (c : Clock) : Nat × Clock :=
  match c.steps with
  | [] => (c.now, c)
  | step :: steps => (c.now + step, ⟨c.now + step, steps⟩)

/-- The clock after an idle time. -/
def idle (c : Clock) (millis : Nat) : Clock := { c with now := c.now + millis }

end Clock

end SeriesQuery
