import SeriesQuery.Fault
import SeriesQuery.Fields
import SeriesQuery.Json.Basic
import SeriesQuery.Sample

/-!
# Responses

The answer to a request is a list of responses: one for each series that an expression yields, or
a single one with the fault that kept an expression from being evaluated.
-/

namespace SeriesQuery

/-- One series of an answer, or the fault of an expression. -/
structure Response where
  /-- The name of the series; with a fault, the expression. -/
  target : Text
  /-- The root of the series; with a fault, the expression. -/
  root : Text
  /-- The mark of the expression in the request. -/
  refId : Text
  /-- Catalog fields and settings that commands of the expression copy. -/
  metadata : Fields
  /-- Values with their times. -/
  points : List (Float × Float)
  /-- What kept the expression from being evaluated. -/
  fault : Option Fault
  deriving DecidableEq

namespace Response

/-- The response for a series. -/
def ofSeries (refId : Text) (metadata : Fields) (s : Series) : Response where
  target := s.name
  root := s.root
  refId := refId
  metadata := metadata
  points := s.samples.map fun sample => (sample.value, sample.time)
  fault := none

/-- The response for an expression that could not be evaluated. -/
def ofFault (refId expression : Text) (f : Fault) : Response where
  target := expression
  root := expression
  refId := refId
  metadata := Fields.empty
  points := []
  fault := some f

/-- A response in JSON. Metadata and fault are left out where there are none. -/
def toJson (r : Response) : Json :=
  let point (p : Float × Float) : Json := .array [.ofFloat p.1, .ofFloat p.2]
  let member (name : String) (value : Json) : Text × Json := (Text.of name, value)
  let metadata :=
    if r.metadata.entries.isEmpty then []
    else [member "metadata" (.object (r.metadata.entries.map fun (n, t) => (n, .string t)))]
  let fault :=
    match r.fault with
    | none => []
    | some f => [member "syntaxError" (.string f.report)]
  .object <|
    [member "target" (.string r.target), member "rootTarget" (.string r.root),
      member "refId" (.string r.refId)] ++ metadata
    ++ [member "datapoints" (.array (r.points.map point))] ++ fault

end Response

end SeriesQuery
