import SeriesQuery.Evaluation.Reduction

/-!
# Some samples out of many

The functions that choose samples: the largest, the smallest, the first, the last, one for each
value, or those that keep a distance in time.
-/

namespace SeriesQuery.Choice

/-- The first sample of each value, bit for bit; `seen` holds the values met so far. -/
def distinctFrom (seen : List UInt64) : List Sample → List Sample
  | [] => []
  | s :: rest =>
    if seen.contains s.bits then distinctFrom seen rest
    else s :: distinctFrom (s.bits :: seen) rest

/-- The first sample of each value. -/
def distinct (samples : List Sample) : List Sample := distinctFrom [] samples

/-- Sets the times of samples to `base`, `base + step`, `base + 2 · step`, … -/
def retime (base step : Float) (samples : List Sample) : List Sample :=
  samples.zipIdx.map fun (s, i) => s.withTime (base + Float.ofNat i * step)

/-- The first `count` of the samples as they are `ordered`. Normalised, they are spread evenly
from the first to the last time of the samples as they were. -/
def take (samples ordered : List Sample) (count : Nat) (normalize : Bool) : List Sample :=
  let count := min count ordered.length
  match samples.head?, samples.getLast? with
  | some head, some tail =>
    let step := (tail.time - head.time) / Float.ofNat (max (count - 1) 1)
    let chosen := ordered.take count
    if normalize then retime head.time step chosen else chosen
  | _, _ => []

/-- The largest samples, largest first. -/
def top (samples : List Sample) (count : Nat) (normalize : Bool) : List Sample :=
  take samples (sortedDown samples) count normalize

/-- The smallest samples, smallest first. -/
def bottom (samples : List Sample) (count : Nat) (normalize : Bool) : List Sample :=
  take samples (sortedUp samples) count normalize

/-- The first samples. -/
def first (samples : List Sample) (count : Nat) : List Sample := samples.take count

/-- The last samples, newest first. -/
def last (samples : List Sample) (count : Nat) : List Sample := samples.reverse.take count

/-- The samples more than a span after `last`, the time of the sample kept before. -/
def spacedAfter (span last : Float) : List Sample → List Sample
  | [] => []
  | s :: rest =>
    if s.time - last ≤ span then spacedAfter span last rest
    else s :: spacedAfter span s.time rest

/-- The first sample, and from then on each that is more than a span after the last one kept. -/
def spaced (span : Float) : List Sample → List Sample
  | [] => []
  | s :: rest => s :: spacedAfter span s.time rest

end SeriesQuery.Choice
