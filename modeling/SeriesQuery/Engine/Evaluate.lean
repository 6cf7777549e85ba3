import SeriesQuery.Engine.Label
import SeriesQuery.Engine.Plan
import SeriesQuery.Evaluation.Apply
import SeriesQuery.Slicer

/-!
# Evaluating an expression

Calls are evaluated inside out. A call is applied to the series of its inside: to each of them,
to all their samples at once, or to one slice of time after the other. A label only gives them
new names. The series of the literal targets come after those of the calls.
-/

namespace SeriesQuery

/-- What an expression is evaluated over. -/
structure Material where
  /-- The raw data of all literal targets. -/
  data : RawData
  /-- The names that parameters may use. -/
  names : NameTable

namespace Slicer

/-- All slices that are still to be read. Each reads a sample or ends the reading, so there are
no more than samples. -/
def slicesFrom (keepLastOfKey : Bool) : Nat → Slicer → List (List Sample)
  | 0, _ => []
  | fuel + 1, s =>
    if s.isComplete then []
    else
      let (slice, s) := s.next keepLastOfKey
      slice :: slicesFrom keepLastOfKey fuel s

/-- All slices that are still to be read. -/
def slices (keepLastOfKey : Bool) (s : Slicer) : List (List Sample) :=
  slicesFrom keepLastOfKey s.pending s

end Slicer

/-- All samples of a list of series. -/
def allSamples (series : List Series) : List Sample := series.flatMap (·.samples)

/-- The first of the series whose first sample has a key. -/
def seriesOfKey? (series : List Series) (key : Text) : Option Series :=
  series.find? fun s =>
    match s.samples.head? with
    | some first => first.key == key
    | none => false

namespace Call

/-- The name of what a call yields for an input of a name. The tolerance of a slice is left
out. -/
def nameFor (c : Call) (input : Text) : Text :=
  spell c.grouping c.operator (if c.grouping == .slice then c.parameters.drop 1 else c.parameters)
    input

/-- The call applied to each series. -/
def applyEach (engine : Engine) (m : Material) (c : Call) (inputs : List Series) :
    Step (List Series) :=
  inputs.mapM fun input => do
    Step.checkPatience
    let samples ← Step.ofExcept
      (c.operator.apply c.parameters ⟨.each, m.names, engine.shuffle⟩ input.samples)
    return ⟨c.nameFor input.name, input.root, samples⟩

/-- The one series of a call over a set. If what it yields is one of the samples, the series is
named after the one that the sample comes from. -/
def setSeries (c : Call) (inputs : List Series) (samples : List Sample) : Series :=
  let source? :=
    if c.operator.isRepresentative then
      samples.head?.bind fun first => seriesOfKey? inputs first.key
    else none
  match source? with
  | some source =>
    ⟨fullName .set c.operator ++ [' ', '=', ' '] ++ source.root, source.root, samples⟩
  | none => ⟨c.spelling, c.inner, samples⟩

/-- The call applied to all samples of all series at once. -/
def applySet (engine : Engine) (m : Material) (c : Call) (inputs : List Series) :
    Step (List Series) := do
  Step.checkPatience
  let samples ← Step.ofExcept
    (c.operator.apply c.parameters ⟨.set, m.names, engine.shuffle⟩ (allSamples inputs))
  return [c.setSeries inputs samples]

/-- The series of the samples that a call yields over slices: one for each key, in the order in
which the keys first appear, named after the input that the key comes from. -/
def sliceSeries (c : Call) (inputs : List Series) (samples : List Sample) : List Series :=
  (samples.map (·.key)).eraseDups.map fun key =>
    let (name, root) :=
      match seriesOfKey? inputs key with
      | some input => (input.name, input.root)
      | none => (key, key)
    ⟨c.nameFor name, root, samples.filter (·.key == key)⟩

/-- The call applied to one slice of time after the other. -/
def applySlices (engine : Engine) (m : Material) (c : Call) (inputs : List Series) :
    Step (List Series) := do
  match c.parameters with
  | [] => throw (.parameterCount (fullName .slice c.operator) 0 (requiredCount .slice c.operator))
  | tolerance :: parameters =>
    let seconds ← Step.ofExcept
      (Parameter.float ⟨.set, m.names, engine.shuffle⟩ (allSamples inputs) true tolerance)
    let slicer := Slicer.ofInputs (seconds * 1000.0) (inputs.map (·.samples))
    let results ← (slicer.slices true).mapM fun slice => do
      Step.checkPatience
      Step.ofExcept
        (c.operator.apply parameters ⟨.slice, m.names, engine.shuffle⟩ slice)
    let samples := results.flatten
    if c.operator.isScalar then return [⟨c.nameFor c.inner, c.inner, samples⟩]
    return c.sliceSeries inputs samples

/-- The series under the names that the template in the first parameter gives. If the template
puts nothing in, several names are numbered from one. -/
def applyLabel (engine : Engine) (c : Call) (inputs : List Series) : Step (List Series) := do
  match c.parameters with
  | [] => throw (.parameterCount c.operator.name 0 1)
  | parameter :: _ =>
    let template := Template.ofText engine.catalog (Text.unquote parameter)
    let names ← inputs.mapM fun input => template.renderCached engine input.root
    let names :=
      if names.all (· == template.body) && 1 < names.length then
        enumerated template.body names.length
      else names
    return List.zipWith (fun input name => { input with name }) inputs (distinctNames names)

/-- The call applied to the series of its inside. A label is the same with any grouping. -/
def apply (engine : Engine) (m : Material) (c : Call) (inputs : List Series) :
    Step (List Series) :=
  if c.operator == .label then c.applyLabel engine inputs
  else
    match c.grouping with
    | .each => c.applyEach engine m inputs
    | .set => c.applySet engine m inputs
    | .slice => c.applySlices engine m inputs

end Call

/-- The series of resolved targets. The root of a series under an alias is its key. -/
def Targets.series (m : Targets) (data : RawData) : List Series :=
  m.entries.map fun t =>
    ⟨t.display, if t.aliased then t.key else t.display, data.samplesOf t.key⟩

namespace Expression

/-- The series of an expression. `depth` bounds how deep calls nest by the parentheses of the
text: a text without any holds no call. -/
def evaluateFrom (engine : Engine) (m : Material) (depth : Nat) (text : Text) :
    Step (List Series) := do
  let e ← Step.parse text
  let called ←
    match depth with
    | 0 => pure []
    | depth + 1 =>
      e.calls.mapM fun call => do
        Step.checkPatience
        call.apply engine m (← evaluateFrom engine m depth call.inner)
  if e.remainder.isEmpty then return called.flatten
  let targets ← Step.resolve engine e.remainder
  return called.flatten ++ targets.series m.data

/-- The series of an expression over its material. -/
def evaluate (engine : Engine) (m : Material) (text : Text) : Step (List Series) :=
  evaluateFrom engine m (parens text) text

/-- The series of an expression: it is planned, its samples are fetched, and it is evaluated. -/
def execute (engine : Engine) (range : TimeRange) (hints : FetchHints) (quality : QualityFilter)
    (text : Text) : Step (List Series) := do
  Step.checkPatience
  let plan ← Plan.collect engine text
  let data ← plan.fetch engine range hints quality
  evaluate engine ⟨data, plan.names⟩ text

end Expression

end SeriesQuery
