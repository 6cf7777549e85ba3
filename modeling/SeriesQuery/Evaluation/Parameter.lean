import SeriesQuery.Evaluation.Scope
import SeriesQuery.Fault
import SeriesQuery.Unit.Angle
import SeriesQuery.Unit.Time

/-!
# Parameters

A parameter is text until the function of its call reads it: as a number, a count, a percentage,
an integer, a flag or a unit. A number may also be the name of a series, whose first sample at
hand gives the value; `name;default` says what to take when there is none.
-/

namespace SeriesQuery.Parameter

/-- A number. -/
def number (t : Text) : Except Fault Float :=
  let trimmed := Text.trim t
  match readFloat? trimmed with
  | some x => .ok x
  | none => .error (.notNumber trimmed)

/-- The value that a parameter names. Without a sample and without a default, a slice takes
`sliceDefault`. -/
def named (scope : Scope) (samples : List Sample) (sliceDefault : Float) (parameter : Text) :
    Except Fault Float := do
  let (name, default?) ←
    match Text.splitOnce? ';' parameter with
    | some (name, default) => do pure (Text.trim name, some (← number default))
    | none => pure (parameter, none)
  match scope.valueOf? samples name, default? with
  | some value, _ => .ok value
  | none, some value => .ok value
  | none, none =>
    if scope.grouping == .slice then .ok sliceDefault else .error (.unresolvedParameter name)

/-- A number, spelled or named. -/
def float (scope : Scope) (samples : List Sample) (fromZero : Bool) (t : Text) :
    Except Fault Float := do
  let parameter := Text.trim t
  let value ←
    match readFloat? parameter with
    | some x => .ok x
    | none => named scope samples 0.0 parameter
  if fromZero && value < 0.0 then .error (.belowZero parameter) else .ok value

/-- A percentage with or without its sign, up to a hundred; zero is accepted or not. -/
def percentage (fromZero : Bool) (t : Text) : Except Fault Float := do
  let trimmed := Text.trim t
  let digits :=
    match trimmed.getLast? with
    | some '%' => Text.trim trimmed.dropLast
    | _ => trimmed
  let percent ← number digits
  let inRange := (if fromZero then 0.0 ≤ percent else 0.0 < percent) && percent ≤ 100.0
  if inRange then .ok percent else .error (.percentageOutOfRange digits fromZero)

/-- How many of the samples are meant: a number, a percentage of them, or a fraction between zero
and one of them. Nothing is read when there are no samples. -/
def count (scope : Scope) (samples : List Sample) (t : Text) : Except Fault Nat := do
  let length := Float.ofNat samples.length
  if samples.isEmpty then return 0
  let parameter := Text.trim t
  if parameter.getLast? == some '%' then
    let percent ← percentage false parameter
    return max 1 (length * (percent / 100.0)).toUInt64.toNat
  let value ←
    match readFloat? parameter with
    | some x => .ok x
    | none => named scope samples 1.0 parameter
  let size := if 0.0 < value && value < 1.0 then length * value else value
  let n := size.toModel.toInt64.toInt
  if n < 1 then .error (.countBelowOne parameter) else .ok n.toNat

/-- An integer from zero to `2 ^ 31 - 1`. -/
def integer (t : Text) : Except Fault Nat :=
  let trimmed := Text.trim t
  match readInt? 32 trimmed with
  | none => .error (.notInteger trimmed)
  | some n => if n < 0 then .error (.belowZero trimmed) else .ok n.toNat

/-- The spellings of a flag that is set. -/
def trueSpellings : List String := ["true", "1", "yes", "y", "t", "on"]

/-- The spellings of a flag that is not set. -/
def falseSpellings : List String := ["false", "0", "no", "n", "f", "off"]

/-- A flag. -/
def flag (t : Text) : Except Fault Bool :=
  let lower := Text.asciiLower (Text.trim t)
  if trueSpellings.any fun s => Text.of s == lower then .ok true
  else if falseSpellings.any fun s => Text.of s == lower then .ok false
  else .error (.notFlag lower)

/-- The parameter at a position read by `read`, or a default where there is none. -/
def optional {α : Type} (read : Text → Except Fault α) (parameters : List Text) (index : Nat)
    (default : α) : Except Fault α :=
  match parameters[index]? with
  | some t => read t
  | none => .ok default

/-- The parameter at a position, which the function requires. -/
def required (f : Operator) (parameters : List Text) (index : Nat) : Except Fault Text :=
  match parameters[index]? with
  | some t => .ok t
  | none => .error (.parameterCount f.name parameters.length f.signature.required)

end SeriesQuery.Parameter
