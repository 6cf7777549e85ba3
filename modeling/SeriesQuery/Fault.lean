import SeriesQuery.Number.Printing
import SeriesQuery.Text.Mismatch

/-!
# Faults

What can go wrong while a query is read, planned and evaluated, each with its cause. `kind` sorts
causes into the classes that callers tell apart, `message` words them.

One fault is not reported to anyone: to read past the end of a list ends the program.
-/

namespace SeriesQuery

/-- Classes of faults. -/
inductive FaultKind where
  /-- The text of an expression, clause or predicate is malformed. -/
  | parse
  /-- No function has the name of a call. -/
  | unrecognizedFunction
  /-- A call has too few parameters. -/
  | parameterCount
  /-- The text of a parameter is no number, count, unit or flag. -/
  | format
  /-- A parameter is outside the range it is accepted in. -/
  | outOfRange
  /-- A parameter names a series that has no sample here. -/
  | unresolvedParameter
  /-- The catalog has no such table. -/
  | resolution
  /-- The source of samples failed. -/
  | source
  /-- The caller gave the query up. -/
  | cancelled
  /-- The program read past the end of a list. -/
  | overrun
  deriving DecidableEq, Repr

/-- The name of a class in answers. -/
def FaultKind.name : FaultKind → String
  | .parse => "ParseError"
  | .unrecognizedFunction => "UnrecognizedFunction"
  | .parameterCount => "ParameterCountMismatch"
  | .format => "FormatError"
  | .outOfRange => "OutOfRange"
  | .unresolvedParameter => "UnresolvedParameterTarget"
  | .resolution => "ResolutionError"
  | .source => "DataSourceError"
  | .cancelled => "Cancelled"
  | .overrun => "Panic"

/-- Causes of failure. -/
inductive Fault where
  /-- The parenthesis that opens at a byte of the text is never closed. -/
  | unclosed (position : Nat) (text : Text)
  /-- A parenthesis closes at a byte of the text where none is open. -/
  | unexpectedClose (position : Nat) (text : Text)
  /-- A FILTER clause without table or WHERE. -/
  | malformedFilter (text : Text) (mismatch : Text.Mismatch)
  /-- A SELECT clause without FROM, table or WHERE. -/
  | malformedSelect (text : Text)
  /-- ORDER BY without a field. -/
  | malformedOrder (text : Text) (mismatch : Text.Mismatch)
  /-- Nothing between WHERE and the end of a clause. -/
  | missingPredicate (text : Text)
  /-- A predicate that goes on after its end. -/
  | unexpectedText (rest text : Text)
  /-- A predicate that does not begin as one. -/
  | malformedPredicate (text : Text) (mismatch : Text.Mismatch)
  /-- A call of an unknown function. -/
  | unrecognizedFunction (name : Text)
  /-- A call with fewer parameters than its function requires. -/
  | parameterCount (name : Text) (found expected : Nat)
  /-- A parameter that should be a number. -/
  | notNumber (text : Text)
  /-- A parameter that should be an integer. -/
  | notInteger (text : Text)
  /-- A parameter that should be a flag. -/
  | notFlag (text : Text)
  /-- A parameter that should be a unit of time. -/
  | notTimeUnit (text : Text)
  /-- A parameter that should be a unit of angle. -/
  | notAngleUnit (text : Text)
  /-- A bound of a time range that is neither a number nor a date. -/
  | notTimestamp (text : Text)
  /-- An interval without a number in front. -/
  | notInterval (text : Text)
  /-- An interval in an unknown unit. -/
  | notIntervalUnit (unit text : Text)
  /-- A number that should not be below zero. -/
  | belowZero (text : Text)
  /-- A count below one. -/
  | countBelowOne (text : Text)
  /-- A percentage outside its range, which may or may not include zero. -/
  | percentageOutOfRange (text : Text) (fromZero : Bool)
  /-- A time range that ends before it starts. -/
  | reversedRange (start finish : Float)
  /-- An interval that no duration can hold. -/
  | intervalOutOfRange (text : Text)
  /-- A parameter that names a series without a sample. -/
  | unresolvedParameter (name : Text)
  /-- A selection from a table that the catalog does not have. -/
  | unknownTable (name : Text)
  /-- The source failed, in its own words. -/
  | sourceFailed (message : Text)
  /-- The caller gave the query up. -/
  | cancelled
  /-- A place past the end of so many entries was read. -/
  | overrun (count place : Nat)
  deriving DecidableEq

namespace Fault

/-- The class of a cause. -/
def kind : Fault → FaultKind
  | unclosed .. | unexpectedClose .. | malformedFilter .. | malformedSelect _
  | malformedOrder .. | missingPredicate _ | unexpectedText .. | malformedPredicate .. => .parse
  | unrecognizedFunction _ => .unrecognizedFunction
  | parameterCount .. => .parameterCount
  | notNumber _ | notInteger _ | notFlag _ | notTimeUnit _ | notAngleUnit _ | notTimestamp _
  | notInterval _ | notIntervalUnit .. => .format
  | belowZero _ | countBelowOne _ | percentageOutOfRange .. | reversedRange ..
  | intervalOutOfRange _ => .outOfRange
  | unresolvedParameter _ => .unresolvedParameter
  | unknownTable _ => .resolution
  | sourceFailed _ => .source
  | cancelled => .cancelled
  | overrun .. => .overrun

/-- Whether a fault ends the program, so that nothing is answered to anyone. -/
def endsProgram : Fault → Bool
  | overrun .. => true
  | _ => false

/-- The pieces of a message in a row. -/
def words (pieces : List Text) : Text := pieces.flatten

/-- A text between single quotes. -/
def single (t : Text) : Text := '\'' :: t ++ ['\'']

/-- A text between double quotes. -/
def double (t : Text) : Text := '"' :: t ++ ['"']

/-- The wording of a cause. -/
def message : Fault → Text
  | unclosed position t =>
    words [.of "Unbalanced parentheses: '(' at position ", .ofNat position,
      .of " is never closed in ", double t]
  | unexpectedClose position t =>
    words [.of "Unbalanced parentheses: unexpected ')' at position ", .ofNat position,
      .of " in ", double t]
  | malformedFilter t mismatch =>
    words [.of "Malformed FILTER expression ", double t, .of ": ", mismatch.shown]
  | malformedSelect t => .of "Malformed SELECT expression " ++ double t
  | malformedOrder t mismatch =>
    words [.of "Malformed ORDER BY in ", double t, .of ": ", mismatch.shown]
  | missingPredicate t => .of "Missing WHERE predicate in " ++ double t
  | unexpectedText rest t =>
    words [.of "Unexpected text ", single rest, .of " in predicate ", double t]
  | malformedPredicate t mismatch =>
    words [.of "Malformed predicate ", double t, .of ": ", mismatch.shown]
  | unrecognizedFunction name => .of "Unrecognized function " ++ single name
  | parameterCount name found expected =>
    words [.of "Expected ", .ofNat expected,
      if expected == 1 then .of " parameter for " else .of " parameters for ", name,
      .of ", received ", .ofNat found]
  | notNumber t =>
    words [.of "Could not parse ", single t, .of " as a floating-point value"]
  | notInteger t => words [.of "Could not parse ", single t, .of " as an integer value"]
  | notFlag t => words [.of "Could not parse ", single t, .of " as a boolean value"]
  | notTimeUnit t => single t ++ .of " is not a recognized time unit"
  | notAngleUnit t => single t ++ .of " is not a recognized angle unit"
  | notTimestamp t => .of "Invalid timestamp " ++ single t
  | notInterval t => .of "Invalid interval " ++ single t
  | notIntervalUnit unit t =>
    words [.of "Invalid interval unit ", single unit, .of " in ", single t]
  | belowZero t => words [.of "Value ", single t, .of " is less than zero"]
  | countBelowOne t => words [.of "Count ", single t, .of " is less than one"]
  | percentageOutOfRange t fromZero =>
    words [.of "Percentage ", single t, .of " is outside range of ",
      if fromZero then .of "0" else .of "greater than 0", .of " to 100"]
  | reversedRange start finish =>
    words [.of "Invalid time range: start ", messageNumber start, .of " > end ",
      messageNumber finish]
  | intervalOutOfRange t => .of "Invalid interval " ++ single t
  | unresolvedParameter name =>
    words [.of "Parameter ", single name,
      .of " is not a number and no matching target was found in the data set"]
  | unknownTable name => .of "Unknown metadata table " ++ single name
  | sourceFailed m => m
  | cancelled => .of "Query was cancelled"
  | overrun count place =>
    words [.of "index out of bounds: the len is ", .ofNat count, .of " but the index is ",
      .ofNat place]

/-- A fault as it is reported with an answer: its class and its wording. -/
def report (f : Fault) : Text := words [.of f.kind.name, .of ": ", f.message]

end Fault

end SeriesQuery
