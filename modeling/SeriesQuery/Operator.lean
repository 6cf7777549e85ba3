import SeriesQuery.Text.Blank

/-!
# Functions of the expression language

The closed table of functions that an expression may call. A call names its function by the
canonical name or one of its aliases, in any letter case, and may put `Set` or `Slice` in front
to say how the function is applied to several series.
-/

namespace SeriesQuery

/-- How a function is applied to several series. -/
inductive Grouping where
  /-- To each series by itself. -/
  | each
  /-- Once, to all samples of all series. -/
  | set
  /-- To one slice of time after the other, across the series. -/
  | slice
  deriving DecidableEq, Repr

/-- What a grouping puts in front of a function's name. -/
def Grouping.lead : Grouping → Text
  | .each => []
  | .set => ['S', 'e', 't']
  | .slice => ['S', 'l', 'i', 'c', 'e']

/-- Functions. -/
inductive Operator where
  | average | minimum | maximum | total | range | count | distinct | absoluteValue | add
  | subtract | multiply | divide | round | floor | ceiling | truncate | standardDeviation
  | median | mode | top | bottom | random | first | last | percentile | difference
  | timeDifference | derivative | timeIntegration | interval | includeRange | excludeRange
  | filterNaN | unwrapAngle | wrapAngle | label
  deriving DecidableEq, Repr

/-- What a function yields for one series. -/
inductive Yield where
  /-- At most one sample. -/
  | scalar
  /-- A series of samples. -/
  | series
  deriving DecidableEq, Repr

/-- How a function reads its input. -/
inductive Reading where
  /-- Once through, for one sample. -/
  | reducing
  /-- Sample by sample as its output is read. -/
  | streaming
  /-- As a whole. -/
  | whole
  /-- Not at all: only names change. -/
  | renaming
  deriving DecidableEq, Repr

/-- What the table says of a function. -/
structure Signature where
  /-- The canonical name. -/
  name : String
  /-- Other names. -/
  aliases : List String
  /-- Parameters that must be given. -/
  required : Nat
  /-- Further parameters that may be given. -/
  optional : Nat
  /-- What it yields. -/
  yields : Yield
  /-- How it reads its input. -/
  reads : Reading

namespace Operator

/-- All functions, in the order of the table. -/
def all : List Operator := [
  average, minimum, maximum, total, range, count, distinct, absoluteValue, add, subtract,
  multiply, divide, round, floor, ceiling, truncate, standardDeviation, median, mode, top,
  bottom, random, first, last, percentile, difference, timeDifference, derivative,
  timeIntegration, interval, includeRange, excludeRange, filterNaN, unwrapAngle, wrapAngle,
  label]

/-- The entry of a function. -/
def signature : Operator → Signature
  | average => ⟨"Average", ["Avg", "Mean"], 0, 0, .scalar, .reducing⟩
  | minimum => ⟨"Minimum", ["Min"], 0, 0, .scalar, .reducing⟩
  | maximum => ⟨"Maximum", ["Max"], 0, 0, .scalar, .reducing⟩
  | total => ⟨"Total", ["Sum"], 0, 0, .scalar, .reducing⟩
  | range => ⟨"Range", [], 0, 0, .scalar, .reducing⟩
  | count => ⟨"Count", [], 0, 0, .scalar, .reducing⟩
  | distinct => ⟨"Distinct", ["Unique"], 0, 0, .series, .whole⟩
  | absoluteValue => ⟨"AbsoluteValue", ["Abs"], 0, 0, .series, .streaming⟩
  | add => ⟨"Add", [], 1, 0, .series, .streaming⟩
  | subtract => ⟨"Subtract", ["Sub"], 1, 0, .series, .streaming⟩
  | multiply => ⟨"Multiply", ["Mul"], 1, 0, .series, .streaming⟩
  | divide => ⟨"Divide", ["Div"], 1, 0, .series, .streaming⟩
  | round => ⟨"Round", [], 0, 1, .series, .streaming⟩
  | floor => ⟨"Floor", [], 0, 0, .series, .streaming⟩
  | ceiling => ⟨"Ceiling", ["Ceil"], 0, 0, .series, .streaming⟩
  | truncate => ⟨"Truncate", ["Trunc"], 0, 0, .series, .streaming⟩
  | standardDeviation => ⟨"StandardDeviation", ["StdDev"], 0, 1, .scalar, .whole⟩
  | median => ⟨"Median", ["Med", "Mid"], 0, 0, .scalar, .whole⟩
  | mode => ⟨"Mode", [], 0, 0, .scalar, .whole⟩
  | top => ⟨"Top", ["Largest"], 1, 1, .series, .whole⟩
  | bottom => ⟨"Bottom", ["Bot", "Smallest"], 1, 1, .series, .whole⟩
  | random => ⟨"Random", ["Rand", "Sample"], 1, 1, .series, .whole⟩
  | first => ⟨"First", [], 0, 1, .series, .whole⟩
  | last => ⟨"Last", [], 0, 1, .series, .whole⟩
  | percentile => ⟨"Percentile", ["Pctl"], 1, 0, .scalar, .whole⟩
  | difference => ⟨"Difference", ["Diff"], 0, 0, .series, .streaming⟩
  | timeDifference => ⟨"TimeDifference", ["TimeDiff", "Elapsed"], 0, 1, .series, .streaming⟩
  | derivative => ⟨"Derivative", ["Der"], 0, 1, .series, .streaming⟩
  | timeIntegration => ⟨"TimeIntegration", ["TimeInt"], 0, 1, .scalar, .reducing⟩
  | interval => ⟨"Interval", [], 1, 1, .series, .streaming⟩
  | includeRange => ⟨"IncludeRange", ["Include"], 2, 2, .series, .streaming⟩
  | excludeRange => ⟨"ExcludeRange", ["Exclude"], 2, 2, .series, .streaming⟩
  | filterNaN => ⟨"FilterNaN", [], 0, 1, .series, .streaming⟩
  | unwrapAngle => ⟨"UnwrapAngle", ["Unwrap"], 0, 1, .series, .whole⟩
  | wrapAngle => ⟨"WrapAngle", ["Wrap"], 0, 1, .series, .streaming⟩
  | label => ⟨"Label", ["Name"], 1, 0, .series, .renaming⟩

/-- The canonical name. -/
def name (f : Operator) : Text := Text.of f.signature.name

/-- All names of a function, in lower case. -/
def lowerNames (f : Operator) : List Text :=
  (f.signature.name :: f.signature.aliases).map fun n => Text.asciiLower (Text.of n)

/-- The function of a name in lower case. -/
def ofLowerName? (lower : Text) : Option Operator := all.find? (·.lowerNames.contains lower)

/-- The function that a name or alias stands for, in any letter case. -/
def ofName? (t : Text) : Option Operator := ofLowerName? (Text.asciiLower (Text.trim t))

/-- The function and grouping that the word before a parenthesis stands for. A word that is a
name as it stands has no grouping: `Sample` is no slice of anything. -/
def ofCallName? (t : Text) : Option (Grouping × Operator) :=
  let lower := Text.asciiLower (Text.trim t)
  match ofLowerName? lower with
  | some f => some (.each, f)
  | none =>
    match (Text.afterExact? ['s', 'l', 'i', 'c', 'e'] lower).bind ofName? with
    | some f => some (.slice, f)
    | none =>
      match (Text.afterExact? ['s', 'e', 't'] lower).bind ofName? with
      | some f => some (.set, f)
      | none => none

/-- Whether a function yields at most one sample per series. -/
def isScalar (f : Operator) : Bool := f.signature.yields == .scalar

/-- Whether what a function yields over a set is one of the samples of the set, so that it can be
named after the series it comes from. -/
def isRepresentative : Operator → Bool
  | minimum | maximum | median => true
  | _ => false

end Operator

end SeriesQuery
