import SeriesQuery.Number.Decimal
import SeriesQuery.Sample

/-!
# Slices of time

Several lists of samples are read side by side, one slice of time after the other. A slice begins
with the earliest sample at hand and reaches as far as the tolerance. Within a slice either every
list gives all samples that fall into it and the last one of each key is kept, or every list
gives one sample.
-/

namespace SeriesQuery

/-- Samples that are still to be read. -/
structure Slicer where
  /-- The lists that still hold samples. -/
  inputs : List (List Sample)
  /-- How many milliseconds a slice reaches beyond its first sample. -/
  tolerance : Float

namespace Slicer

/-- Lists that hold a sample. -/
def nonempty (inputs : List (List Sample)) : List (List Sample) := inputs.filter (!·.isEmpty)

/-- A slicer over lists of samples. A tolerance that is below zero or no number counts as
zero. -/
def ofInputs (tolerance : Float) (inputs : List (List Sample)) : Slicer :=
  ⟨nonempty inputs, if 0.0 < tolerance then tolerance else 0.0⟩

/-- Whether all samples have been read. -/
def isComplete (s : Slicer) : Bool := s.inputs.isEmpty

/-- The number of lists that still hold samples. -/
def active (s : Slicer) : Nat := s.inputs.length

/-- The smaller of two times; what is no number is passed over. -/
def earlier (a b : Float) : Float := if b < a then b else a

/-- The earliest time at the front of the lists; infinite when there is none. -/
def firstTime (inputs : List (List Sample)) : Float :=
  (inputs.filterMap fun l => l.head?.map (·.time)).foldl earlier positiveInfinity

/-- A slice with a sample more, in the place of one with the same key. -/
def keepLast (s : Sample) : List Sample → List Sample
  | [] => [s]
  | t :: rest => if t.key == s.key then s :: rest else t :: keepLast s rest

/-- Adds the samples of one list up to a time, keeping the last of each key. -/
def drain (stop : Float) (slice : List Sample) : List Sample → List Sample × List Sample
  | [] => (slice, [])
  | s :: rest => if s.time ≤ stop then drain stop (keepLast s slice) rest else (slice, s :: rest)

/-- Adds the first sample of one list if it is not after a time. -/
def drainOne (stop : Float) (slice : List Sample) : List Sample → List Sample × List Sample
  | [] => (slice, [])
  | s :: rest => if s.time ≤ stop then (slice ++ [s], rest) else (slice, s :: rest)

/-- The slice up to a time and the lists as they are left. -/
def sweep (drain : List Sample → List Sample → List Sample × List Sample) (slice : List Sample) :
    List (List Sample) → List Sample × List (List Sample)
  | [] => (slice, [])
  | input :: inputs =>
    let (slice, left) := drain slice input
    let (slice, lefts) := sweep drain slice inputs
    (slice, left :: lefts)

/-- The next slice. Without any finite time at the front of the lists nothing more is read. -/
def next (s : Slicer) (keepLastOfKey : Bool) : List Sample × Slicer :=
  let start := firstTime s.inputs
  if start.isFinite then
    let stop := start + s.tolerance
    let (slice, inputs) := sweep (if keepLastOfKey then drain stop else drainOne stop) [] s.inputs
    (slice, { s with inputs := nonempty inputs })
  else ([], { s with inputs := [] })

/-- The number of samples still to be read. -/
def pending (s : Slicer) : Nat := s.inputs.flatten.length

end Slicer

end SeriesQuery
