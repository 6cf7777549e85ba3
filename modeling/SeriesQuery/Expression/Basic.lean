import SeriesQuery.Expression.Scan

/-!
# Expressions

An expression is a list of calls and what is left of its text when they are taken out: literal
targets. The inside of a call begins with its parameters and ends with the expression it is
applied to, which is kept as text and read when it is needed.
-/

namespace SeriesQuery

/-- A call with its parameters. -/
structure Call where
  /-- How the function is applied. -/
  grouping : Grouping
  /-- The function. -/
  operator : Operator
  /-- The parameters; of a slice the tolerance comes first. -/
  parameters : List Text
  /-- The expression that the function is applied to. -/
  inner : Text
  deriving DecidableEq, Repr

/-- Calls and literal targets. -/
structure Expression where
  /-- The calls at the top level, in order. -/
  calls : List Call
  /-- The text without the calls. -/
  remainder : Text
  deriving DecidableEq, Repr

namespace Call

/-- The name of a function with what its grouping puts in front. -/
def fullName (grouping : Grouping) (operator : Operator) : Text := grouping.lead ++ operator.name

/-- How many parameters a call must have: a slice needs its tolerance besides. -/
def requiredCount (grouping : Grouping) (operator : Operator) : Nat :=
  match grouping with
  | .slice => operator.signature.required + 1
  | _ => operator.signature.required

/-- A field that begins like a clause or holds a parenthesis is no optional parameter: the
expression has begun. -/
def looksLikeExpression (field : Text) : Bool :=
  let upper := Text.asciiUpper (Text.trimStart field)
  (Text.afterExact? (Text.of "FILTER") upper).isSome
    || (Text.afterExact? (Text.of "SELECT ") upper).isSome
    || field.contains '('

/-- The optional parameters at the front of the fields, at most so many, and the fields that
remain, of which there is at least one. -/
def spanOptional : Nat → List Text → List Text × List Text
  | 0, fields => ([], fields)
  | _ + 1, [] => ([], [])
  | _ + 1, [field] => ([], [field])
  | n + 1, field :: next :: fields =>
    if looksLikeExpression field then ([], field :: next :: fields)
    else
      let (taken, left) := spanOptional n (next :: fields)
      (field :: taken, left)

/-- What stands between parameters. -/
def comma : Text := [',', ' ']

/-- The call with the fields between its parentheses. -/
def ofFields (grouping : Grouping) (operator : Operator) (fields : List Text) :
    Except Fault Call :=
  let required := requiredCount grouping operator
  let name := fullName grouping operator
  if fields.length < required || (fields.take required).any (·.isEmpty) then
    let found := fields.countP (!·.isEmpty)
    .error (.parameterCount name (min found required) required)
  else if fields.length == required then
    .error (.parameterCount name (required - 1) required)
  else
    let (optional, rest) := spanOptional operator.signature.optional (fields.drop required)
    .ok ⟨grouping, operator, fields.take required ++ optional, Text.join comma rest⟩

/-- The call that a text is. -/
def ofText (c : CallText) : Except Fault Call :=
  ofFields c.grouping c.operator (Text.fields ',' c.body)

/-- A function around an input: its full name, some parameters, the input. -/
def spell (grouping : Grouping) (operator : Operator) (parameters : List Text) (input : Text) :
    Text :=
  fullName grouping operator ++ '(' :: parameters.flatMap (· ++ comma) ++ input ++ [')']

/-- The call as text, in canonical names. -/
def spelling (c : Call) : Text := spell c.grouping c.operator c.parameters c.inner

end Call

namespace Expression

/-- The calls of a list of texts, or the first fault. -/
def callsOf : List CallText → Except Fault (List Call)
  | [] => .ok []
  | c :: rest => do
    let call ← Call.ofText c
    let calls ← callsOf rest
    return call :: calls

/-- The expression that a text is. White space around it does not matter. -/
def parse (text : Text) : Except Fault Expression := do
  let pieces ← scan (Text.trim text)
  let calls ← callsOf (callTexts pieces)
  return ⟨calls, SeriesQuery.remainder pieces⟩

end Expression

end SeriesQuery
