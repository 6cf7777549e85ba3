import SeriesQuery.Fault
import SeriesQuery.Number.Binary
import SeriesQuery.Text.Blank

/-!
# Units of angle

A unit of angle is the size of its full circle. Angles are wrapped into one circle around zero,
and sequences of wrapped angles are unwrapped again by adding whole circles wherever two
neighbours are more than half a circle apart.

Wrapping and unwrapping are stated over any arithmetic with division and rounding down, so that
they can be read over the rational numbers as well as over binary64.
-/

namespace SeriesQuery

/-- Units of angle. -/
inductive AngleUnit where
  | radians
  | degrees
  | grads
  | arcMinutes
  | arcSeconds
  /-- A circle has 6400. -/
  | mils
  deriving DecidableEq, Repr

/-- What angles are computed with. -/
class CircleArithmetic (α : Type) extends Add α, Sub α, Mul α, Div α, Neg α where
  /-- Zero. -/
  zero : α
  /-- Two. -/
  two : α
  /-- The largest whole number that is not above. -/
  floor : α → α
  /-- Strictly below. -/
  below : α → α → Bool
  /-- Numerically equal. -/
  equal : α → α → Bool

instance : CircleArithmetic Float where
  zero := 0.0
  two := 2.0
  floor := floorFloat
  below a b := a < b
  equal a b := a == b

section Circle

variable {α : Type} [CircleArithmetic α]

open CircleArithmetic

/-- The angle between minus half a circle and half a circle that differs by whole circles; of the
two ends the upper one is taken. -/
def wrapAngle (full value : α) : α :=
  let half := full / two
  let wrapped := value - full * floor ((value + half) / full)
  if equal wrapped (-half) then half else wrapped

/-- The change of offset in whole circles that brings a step `delta` between neighbours down to
at most half a circle. -/
def circleOffset (full offset delta : α) : α :=
  let half := full / two
  if below half delta then offset - full * floor ((delta + half) / full)
  else if below delta (-half) then offset + full * floor ((-delta + half) / full)
  else offset

/-- The angles after `previous`, each with the offset that has been reached. -/
def unwrapFrom (full previous offset : α) : List α → List α
  | [] => []
  | value :: rest =>
    let offset := circleOffset full offset (value - previous)
    (value + offset) :: unwrapFrom full value offset rest

/-- A sequence of angles without jumps of more than half a circle. -/
def unwrapAngles (full : α) : List α → List α
  | [] => []
  | value :: rest => (value + zero) :: unwrapFrom full value zero rest

end Circle

namespace AngleUnit

/-- The ratio of a circle to its diameter. -/
def pi : Float := 3.141592653589793

/-- The size of a full circle. -/
def fullCircle : AngleUnit → Float
  | radians => 2.0 * pi
  | degrees => 360.0
  | grads => 400.0
  | arcMinutes => 21600.0
  | arcSeconds => 1296000.0
  | mils => 6400.0

/-- A value in this unit in radians. -/
def toRadians (unit : AngleUnit) (value : Float) : Float := value * 2.0 * pi / unit.fullCircle

/-- Radians in this unit. -/
def ofRadians (unit : AngleUnit) (radians : Float) : Float :=
  radians * unit.fullCircle / (2.0 * pi)

/-- The canonical name. -/
def name : AngleUnit → String
  | radians => "Radians"
  | degrees => "Degrees"
  | grads => "Grads"
  | arcMinutes => "ArcMinutes"
  | arcSeconds => "ArcSeconds"
  | mils => "AngularMil"

/-- The spellings of each unit, in lower case. -/
def spellings : List (String × AngleUnit) := [
  ("radians", radians), ("radian", radians), ("rad", radians),
  ("degrees", degrees), ("degree", degrees), ("deg", degrees),
  ("grads", grads), ("grad", grads), ("gradians", grads), ("gon", grads),
  ("arcminutes", arcMinutes), ("arcminute", arcMinutes), ("arcmin", arcMinutes),
  ("arcseconds", arcSeconds), ("arcsecond", arcSeconds), ("arcsec", arcSeconds),
  ("angularmil", mils), ("angularmils", mils), ("mil", mils), ("mils", mils)]

/-- The unit that a text spells, up to white space around it and the case of its letters. -/
def read (t : Text) : Except Fault AngleUnit :=
  let trimmed := Text.trim t
  match spellings.find? fun (s, _) => Text.of s == Text.asciiLower trimmed with
  | some (_, unit) => .ok unit
  | none => .error (.notAngleUnit trimmed)

end AngleUnit

end SeriesQuery
