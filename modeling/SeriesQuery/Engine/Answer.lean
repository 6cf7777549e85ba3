import SeriesQuery.Commands
import SeriesQuery.Engine.Evaluate
import SeriesQuery.Request
import SeriesQuery.Response
import SeriesQuery.Thinning

/-!
# Answering a request

Every expression of a request is evaluated on its own, and the answer lists their responses in
the order of the request. A fault of one expression becomes its response and does not touch the
others. There is no answer at all when the caller has given the query up, which is looked at when
all expressions have been evaluated, or when evaluating one of them ends the program. A malformed
window or interval is a fault of the whole request.
-/

namespace SeriesQuery

/-- What holds for all expressions of a request. -/
structure RequestFrame where
  /-- The window. -/
  range : TimeRange
  /-- The resolution that is enough. -/
  resolution : Option Duration
  /-- How many points a series may have. -/
  maxPoints : Option Nat
  /-- Which samples are left out. -/
  quality : QualityFilter

/-- What holds for all expressions of a request. -/
def Request.frame (r : Request) : Except Fault RequestFrame := do
  return ⟨← r.range, ← r.resolution, r.maxPoints, r.quality⟩

namespace Commands

/-- What the source is told. -/
def hints (c : Commands) (resolution : Option Duration) : FetchHints :=
  ⟨if c.fullResolution then Option.none else resolution, c.includePeaks⟩

/-- How series are thinned out. -/
def thinning (c : Commands) : Thinning := if c.includePeaks then .peaks else .even

/-- What a setting is called in the metadata. -/
def settingName (name : Text) : Text := Text.of "RadialDistribution." ++ name

/-- The catalog fields of a series that commands import, then the settings. A field that the
catalog does not have is left out. -/
def metadata (c : Commands) (engine : Engine) (root : Text) : Fields :=
  let imported : List (Text × Text) :=
    if c.imports.isEmpty then []
    else
      match Resolver.describe? engine.catalog engine.layout Option.none root with
      | Option.none => []
      | some row => c.imports.filterMap fun name => (row.get? name).map (name, ·)
  let settings := c.radialDistribution.entries.map fun (name, value) => (settingName name, value)
  Fields.ofList (imported ++ settings)

/-- The response for a series, if it is to have one. -/
def response? (c : Commands) (engine : Engine) (frame : RequestFrame) (refId : Text)
    (s : Series) : Option Response :=
  if c.dropEmptySeries && s.samples.isEmpty then Option.none
  else
    let samples :=
      match frame.maxPoints with
      | some limit => if c.fullResolution then s.samples else c.thinning.apply limit s.samples
      | Option.none => s.samples
    some (Response.ofSeries refId (c.metadata engine s.root) { s with samples })

end Commands

/-- The responses for the series of an expression. Commands alone have none. -/
def TargetRequest.evaluate (engine : Engine) (frame : RequestFrame) (t : TargetRequest) :
    Step (List Response) := do
  let (commands, text) := Commands.extract t.expression
  if text.isEmpty then return []
  let series ← Expression.execute engine frame.range (commands.hints frame.resolution)
    frame.quality text
  return series.filterMap (commands.response? engine frame t.refId)

/-- Whether a fault of an expression is passed on in place of a response: the caller has given the
query up, or the program ends. -/
def Fault.isPassedOn (f : Fault) : Bool := f == .cancelled || f.endsProgram

/-- The responses for an expression, whose fault becomes a response. -/
def TargetRequest.answer (engine : Engine) (frame : RequestFrame) (t : TargetRequest) :
    Step (List Response) :=
  tryCatch (t.evaluate engine frame) fun f =>
    if f.isPassedOn then throw f else pure [Response.ofFault t.refId t.expression f]

namespace Request

/-- The answers to the expressions of a request, each with the responses or what is passed on. -/
def answers (engine : Engine) (r : Request) : Step (List (Except Fault (List Response))) := do
  let frame ← Step.ofExcept r.frame
  r.targets.mapM fun t => (t.answer engine frame).outcome

/-- Answers put together: their responses in order, or the first that is passed on. -/
def join (answers : List (Except Fault (List Response))) : Except Fault (List Response) :=
  (answers.mapM id).map List.flatten

/-- The answer to a request. -/
def answer (engine : Engine) (r : Request) : Step (List Response) := do
  Step.ofExcept (join (← r.answers engine))

end Request

end SeriesQuery
