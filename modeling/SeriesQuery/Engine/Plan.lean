import SeriesQuery.Engine.Session
import SeriesQuery.Expression.Outline
import SeriesQuery.RawData

/-!
# Planning

Before an expression is evaluated all literal targets anywhere in its calls are resolved, so that
the source is asked once for all keys, and so that parameters can name any of the series.

An interval of zero asks for every sample, so the source need not keep extremes for it.
-/

namespace SeriesQuery

/-- What is known of an expression before it is evaluated. -/
structure Plan where
  /-- The keys of all literal targets, each once. -/
  keys : List Text
  /-- The names that parameters may use. -/
  names : NameTable
  /-- Whether a call asks for every sample. -/
  everySample : Bool
  deriving DecidableEq

namespace Plan

/-- Nothing known. -/
def empty : Plan := ⟨[], NameTable.empty, false⟩

/-- Adds keys that are not among the keys yet. -/
def addKeys (keys : List Text) : List Text → List Text
  | [] => keys
  | key :: rest => addKeys (if keys.contains key then keys else keys ++ [key]) rest

/-- Adds resolved targets. -/
def addTargets (p : Plan) (m : Targets) : Plan :=
  { p with keys := addKeys p.keys m.keys, names := p.names.addAll m.names }

/-- Whether a call is an interval whose span is zero. -/
def asksEverySample (call : Call) : Bool :=
  call.operator == .interval &&
    match call.parameters[if call.grouping == .slice then 1 else 0]? with
    | some t =>
      match readFloat? (Text.trim t) with
      | some x => x == 0.0
      | none => false
    | none => false

/-- Takes note of a call. -/
def addCall (p : Plan) (call : Call) : Plan :=
  { p with everySample := p.everySample || asksEverySample call }

/-- Adds what an expression and the insides of its calls hold. `depth` bounds how deep calls nest
by the parentheses of the text: a text without any holds no call. -/
def collectFrom (engine : Engine) (depth : Nat) (p : Plan) (text : Text) : Step Plan := do
  let e ← Step.parse text
  let p ←
    match depth with
    | 0 => pure p
    | depth + 1 =>
      e.calls.foldlM (fun p call => collectFrom engine depth (p.addCall call) call.inner) p
  if e.remainder.isEmpty then return p
  return p.addTargets (← Step.resolve engine e.remainder)

/-- What is known of an expression before it is evaluated. -/
def collect (engine : Engine) (text : Text) : Step Plan :=
  collectFrom engine (parens text) empty text

/-- The raw data of a plan: what the source gives for its keys, if it has any. -/
def fetch (engine : Engine) (p : Plan) (range : TimeRange) (hints : FetchHints)
    (quality : QualityFilter) : Step RawData := do
  if p.keys.isEmpty then return RawData.empty
  let hints := { hints with includePeaks := hints.includePeaks && !p.everySample }
  modify fun s => { s with fetches := s.fetches ++ [⟨p.keys, range, hints⟩] }
  let stream ← Step.ofExcept (engine.source p.keys range hints)
  let data ← Step.ofExcept (RawData.collect quality stream.items)
  if stream.givenUp then modify fun s => { s with patience := some 0 }
  Step.checkPatience
  return data

end Plan

end SeriesQuery
