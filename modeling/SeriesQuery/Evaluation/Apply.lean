import SeriesQuery.Evaluation.Choice
import SeriesQuery.Evaluation.Parameter

/-!
# Applying a function

A function is applied to one list of samples. Its parameters are read first, in a fixed order,
so a fault in a parameter is reported whatever the samples are. After that only a percentile can
fail, by reading past the last sample.
-/

namespace SeriesQuery

/-- Samples with each value changed by `f`. -/
def mapValues (f : Float → Float) (samples : List Sample) : List Sample :=
  samples.map fun s => s.withValue (f s.value)

/-- `x` to the power `n` by repeated squaring, multiplied onto `r`. -/
def powerFrom (r x : Float) (n : Nat) : Float :=
  let r := if n % 2 == 1 then r * x else r
  if h : n / 2 = 0 then r else powerFrom r (x * x) (n / 2)
termination_by n
decreasing_by omega

/-- Ten to the power `n`, what so many decimals are scaled by. -/
def decimalFactor (n : Nat) : Float := powerFrom 1.0 10.0 n

/-- A value rounded to so many decimals. -/
def roundTo (decimals : Nat) (value : Float) : Float :=
  let factor := decimalFactor decimals
  roundFloat .nearest (value * factor) / factor

/-- One sample for each but the first, computed from it and the one before it, whose key it
has. -/
def pairwise (f : Sample → Sample → Float) (previous : Sample) : List Sample → List Sample
  | [] => []
  | s :: rest =>
    .of previous.key (f previous s) s.time s.flags :: pairwise f s rest

/-- One sample for each neighbouring pair. -/
def lookback (f : Sample → Sample → Float) : List Sample → List Sample
  | [] => []
  | s :: rest => pairwise f s rest

/-- Below a bound, or also on it. -/
def below (inclusive : Bool) (x bound : Float) : Bool :=
  if inclusive then x ≤ bound else x < bound

/-- The bounds of a range of values. -/
structure ValueRange where
  /-- The lower bound. -/
  low : Float
  /-- The upper bound. -/
  high : Float
  /-- Whether the lower bound belongs to the range. -/
  lowInclusive : Bool
  /-- Whether the upper bound belongs to the range. -/
  highInclusive : Bool

namespace ValueRange

/-- Between the bounds. -/
def includes (r : ValueRange) (x : Float) : Bool :=
  below r.lowInclusive r.low x && below r.highInclusive x r.high

/-- Outside the bounds; inclusive bounds lie outside. -/
def excludes (r : ValueRange) (x : Float) : Bool :=
  below r.lowInclusive x r.low || below r.highInclusive r.high x

/-- The bounds that the parameters of a call give. -/
def read (f : Operator) (parameters : List Text) (scope : Scope) (samples : List Sample) :
    Except Fault ValueRange := do
  let low ← Parameter.float scope samples false (← Parameter.required f parameters 0)
  let high ← Parameter.float scope samples false (← Parameter.required f parameters 1)
  let lowInclusive ← Parameter.optional Parameter.flag parameters 2 false
  let highInclusive ← Parameter.optional Parameter.flag parameters 3 lowInclusive
  return ⟨low, high, lowInclusive, highInclusive⟩

end ValueRange

/-- The number that the first parameter of a call spells or names. -/
def operand (f : Operator) (parameters : List Text) (scope : Scope) (samples : List Sample) :
    Except Fault Float := do
  Parameter.float scope samples false (← Parameter.required f parameters 0)

/-- The count and the flag for even times of a call that ranks samples. -/
def ranking (f : Operator) (parameters : List Text) (scope : Scope) (samples : List Sample) :
    Except Fault (Nat × Bool) := do
  let count ← Parameter.count scope samples (← Parameter.required f parameters 0)
  let normalize ← Parameter.optional Parameter.flag parameters 1 true
  return (count, normalize)

/-- The samples that a function yields for samples. The tolerance of a slice is not among the
parameters. -/
def Operator.apply (f : Operator) (parameters : List Text) (scope : Scope)
    (samples : List Sample) : Except Fault (List Sample) := do
  match f with
  | .average => return (Reduction.average samples).toList
  | .minimum => return (Reduction.minimum samples).toList
  | .maximum => return (Reduction.maximum samples).toList
  | .total => return (Reduction.total samples).toList
  | .range => return (Reduction.range samples).toList
  | .count => return (Reduction.count samples).toList
  | .distinct => return Choice.distinct samples
  | .absoluteValue => return samples.map Sample.withoutSign
  | .add =>
    let x ← operand f parameters scope samples
    return mapValues (· + x) samples
  | .subtract =>
    let x ← operand f parameters scope samples
    return mapValues (· - x) samples
  | .multiply =>
    let x ← operand f parameters scope samples
    return mapValues (· * x) samples
  | .divide =>
    let x ← operand f parameters scope samples
    return mapValues (· / x) samples
  | .round =>
    let decimals ← Parameter.optional Parameter.integer parameters 0 0
    return mapValues (roundTo decimals) samples
  | .floor => return mapValues (roundFloat .floor) samples
  | .ceiling => return mapValues (roundFloat .ceiling) samples
  | .truncate => return mapValues (roundFloat .truncate) samples
  | .standardDeviation =>
    let drawn ← Parameter.optional Parameter.flag parameters 0 false
    return (Reduction.standardDeviation drawn samples).toList
  | .median => return (Reduction.median samples).toList
  | .mode => return (Reduction.mode samples).toList
  | .top =>
    let (size, normalize) ← ranking f parameters scope samples
    return Choice.top samples size normalize
  | .bottom =>
    let (size, normalize) ← ranking f parameters scope samples
    return Choice.bottom samples size normalize
  | .random =>
    let (size, normalize) ← ranking f parameters scope samples
    return Choice.take samples (scope.shuffle samples) size normalize
  | .first =>
    let size ← Parameter.optional (Parameter.count scope samples) parameters 0 1
    return Choice.first samples size
  | .last =>
    let size ← Parameter.optional (Parameter.count scope samples) parameters 0 1
    return Choice.last samples size
  | .percentile =>
    let percent ← Parameter.percentage true (← Parameter.required f parameters 0)
    if Reduction.overruns percent samples then
      throw (.overrun samples.length (Reduction.upperPlace percent samples.length))
    else return (Reduction.percentile percent samples).toList
  | .difference => return lookback (fun previous s => s.value - previous.value) samples
  | .timeDifference =>
    let unit ← Parameter.optional TimeUnit.read parameters 0 .seconds
    return lookback (fun previous s => unit.ofMillis (s.time - previous.time)) samples
  | .derivative =>
    let unit ← Parameter.optional TimeUnit.read parameters 0 .seconds
    return lookback
      (fun previous s => (s.value - previous.value) / unit.ofMillis (s.time - previous.time))
      samples
  | .timeIntegration =>
    let unit ← Parameter.optional TimeUnit.read parameters 0 .hours
    return (Reduction.timeIntegration unit.inSeconds samples).toList
  | .interval =>
    let unit ← Parameter.optional TimeUnit.read parameters 1 .seconds
    let span ← Parameter.float scope samples true (← Parameter.required f parameters 0)
    return Choice.spaced (unit.toMillis span) samples
  | .includeRange =>
    let range ← ValueRange.read f parameters scope samples
    return samples.filter fun s => range.includes s.value
  | .excludeRange =>
    let range ← ValueRange.read f parameters scope samples
    return samples.filter fun s => range.excludes s.value
  | .filterNaN =>
    let alsoInfinite ← Parameter.optional Parameter.flag parameters 0 true
    return samples.filter fun s => !(s.value.isNaN || (alsoInfinite && s.value.isInf))
  | .unwrapAngle =>
    let unit ← Parameter.optional AngleUnit.read parameters 0 .degrees
    let angles := unwrapAngles unit.fullCircle (samples.map (·.value))
    return List.zipWith Sample.withValue samples angles
  | .wrapAngle =>
    let unit ← Parameter.optional AngleUnit.read parameters 0 .degrees
    return mapValues (SeriesQuery.wrapAngle unit.fullCircle) samples
  | .label => return samples

end SeriesQuery
