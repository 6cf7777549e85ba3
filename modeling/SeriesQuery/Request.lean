import SeriesQuery.Json.Record
import SeriesQuery.RawData
import SeriesQuery.Time.Duration
import SeriesQuery.Time.Range

/-!
# Requests

A request asks for several expressions over one window of time. What else it says holds for all
of its expressions: how fine the samples need be, how many points a series may have, and which
samples are left out by their flags.
-/

namespace SeriesQuery

/-- A moment as a request gives it. -/
inductive Moment where
  /-- Milliseconds since the start of 1970. -/
  | millis (value : Float)
  /-- A number or a date, as text. -/
  | text (value : Text)
  deriving DecidableEq

/-- A moment in milliseconds since the start of 1970. -/
def Moment.read : Moment → Except Fault Float
  | millis x => .ok x
  | text t => TimeRange.bound t

/-- One expression of a request. -/
structure TargetRequest where
  /-- What the answers to it are marked with. -/
  refId : Text
  /-- The expression with its commands. -/
  expression : Text
  deriving DecidableEq

/-- Expressions over one window of time. -/
structure Request where
  /-- The expressions. -/
  targets : List TargetRequest
  /-- Where the window begins. -/
  start : Moment
  /-- Where the window ends. -/
  finish : Moment
  /-- The resolution that is enough. -/
  interval : Option Text
  /-- How many points a series may have. -/
  maxPoints : Option Nat
  /-- Which samples are left out. -/
  quality : QualityFilter
  deriving DecidableEq

namespace Request

/-- The window of a request. -/
def range (r : Request) : Except Fault TimeRange := do
  TimeRange.ofBounds (← r.start.read) (← r.finish.read)

/-- The resolution that is enough, as a duration. -/
def resolution (r : Request) : Except Fault (Option Duration) :=
  match r.interval with
  | none => .ok none
  | some t => (Duration.parse t).map some

end Request

/-! ## Requests in JSON -/

/-- A moment is a number or a string. -/
def Moment.ofJson? : Json → Option Moment
  | .string t => some (text t)
  | j => j.float?.map millis

/-- An expression is the record `refId`, `target`. -/
def TargetRequest.ofJson? (j : Json) : Option TargetRequest := do
  match ← j.fields? [["refId"], ["target", "targetExpression"]] with
  | [refId, target] =>
    return ⟨← Json.optional? [] Json.text? refId, ← Json.required? Json.text? target⟩
  | _ => none

/-- A window is the record `from`, `to`. -/
def Request.windowOfJson? (j : Json) : Option (Moment × Moment) := do
  match ← j.fields? [["from"], ["to"]] with
  | [start, finish] =>
    return (← Json.required? Moment.ofJson? start, ← Json.required? Moment.ofJson? finish)
  | _ => none

/-- A request is the record `targets`, `range`, `interval`, `maxDataPoints`, `excludeFlags`,
`excludeNormalFlag`; only the first two must be there. -/
def Request.ofJson? (j : Json) : Option Request := do
  match ← j.fields? [["targets"], ["range", "timeRange"], ["interval"], ["maxDataPoints"],
    ["excludeFlags"], ["excludeNormalFlag"]] with
  | [targets, window, interval, maxPoints, excluded, excludeNormal] =>
    let (start, finish) ← Json.required? windowOfJson? window
    let excluded ← Json.optional? 0 (Json.nat? (twoTo 32)) excluded
    return {
      targets := ← Json.required? (Json.list? TargetRequest.ofJson?) targets
      start
      finish
      interval := ← Json.optional? none (Json.nullable? Json.text?) interval
      maxPoints := ← Json.optional? none (Json.nullable? (Json.nat? (twoTo 64))) maxPoints
      quality := ⟨excluded.toUInt32, ← Json.optional? false Json.bool? excludeNormal⟩ }
  | _ => none

end SeriesQuery
