import SeriesQuery.Sample
import SeriesQuery.Sorting

/-!
# One sample from many

The functions that reduce samples to at most one. A mean, sum or spread is stamped with the key,
time and flags of the sample named in its comment; a minimum, maximum or percentile end is a
sample of the input as it stands.

Minimum, maximum and range leave out samples at time zero and before.
-/

namespace SeriesQuery

/-- Ordered by increasing value, equal values in the order of the input. What is not a number is
neither below nor above anything. -/
def sortedUp (samples : List Sample) : List Sample := sorted (fun a b => a.value < b.value) samples

/-- Ordered by decreasing value, equal values in the order of the input. -/
def sortedDown (samples : List Sample) : List Sample :=
  sorted (fun a b => b.value < a.value) samples

namespace Reduction

/-- The sum of the values from the left. -/
def sum (samples : List Sample) : Float := samples.foldl (fun sum s => sum + s.value) 0.0

/-- The last sample with a value computed from all. -/
def stampLast (samples : List Sample) (value : Float) : Option Sample :=
  samples.getLast?.map (·.withValue value)

/-- The mean of the values, stamped with the last sample. -/
def average (samples : List Sample) : Option Sample :=
  stampLast samples (sum samples / Float.ofNat samples.length)

/-- The sum of the values, stamped with the last sample. -/
def total (samples : List Sample) : Option Sample := stampLast samples (sum samples)

/-- The number of samples, stamped with the last one. -/
def count (samples : List Sample) : Option Sample :=
  stampLast samples (Float.ofNat samples.length)

/-- The samples after time zero. -/
def dated (samples : List Sample) : List Sample := samples.filter fun s => 0.0 < s.time

/-- The best sample so far, replaced where `better` says so. -/
def keepBetter (better : Float → Float → Bool) (best : Option Sample) (s : Sample) :
    Option Sample :=
  match best with
  | none => some s
  | some b => if better s.value b.value then some s else some b

/-- The sample of the smallest value, the first of several. -/
def minimum (samples : List Sample) : Option Sample :=
  (dated samples).foldl (keepBetter fun x y => x < y) none

/-- The sample of the largest value, the first of several. -/
def maximum (samples : List Sample) : Option Sample :=
  (dated samples).foldl (keepBetter fun x y => y < x) none

/-- The smallest value and the largest sample so far. -/
structure Extent where
  /-- The smallest value. -/
  low : Float
  /-- The sample of the largest value. -/
  high : Sample

/-- An extent widened by one more sample. -/
def Extent.add : Option Extent → Sample → Option Extent
  | none, s => some ⟨s.value, s⟩
  | some e, s =>
    some ⟨if s.value < e.low then s.value else e.low,
      if e.high.value < s.value then s else e.high⟩

/-- The largest value less the smallest, stamped with the largest sample. -/
def range (samples : List Sample) : Option Sample :=
  ((dated samples).foldl Extent.add none).map fun e => e.high.withValue (e.high.value - e.low)

/-- Each value times the time since the sample before it, summed. -/
def integral (unitSeconds : Float) (sum : Float) (previous : Sample) : List Sample → Float
  | [] => sum
  | s :: rest =>
    let sum := sum + s.value * ((s.time - previous.time) / 1000.0) / unitSeconds
    integral unitSeconds sum s rest

/-- The integral over time in units of so many seconds, stamped with the last sample. -/
def timeIntegration (unitSeconds : Float) : List Sample → Option Sample
  | [] => none
  | s :: rest => stampLast (s :: rest) (integral unitSeconds 0.0 s rest)

/-- The standard deviation, of the samples themselves or of what they are drawn from, stamped
with the last sample. -/
def standardDeviation (drawn : Bool) (samples : List Sample) : Option Sample :=
  let n := Float.ofNat samples.length
  let mean := sum samples / n
  let squares := samples.foldl (fun sum s => sum + (s.value - mean) * (s.value - mean)) 0.0
  let divisor := if drawn then n - 1.0 else n
  stampLast samples (if 0.0 < divisor then (squares / divisor).sqrt else 0.0)

/-- The middle sample by value. Of an even number the upper middle one, its value the mean of the
two middle values. -/
def median (samples : List Sample) : Option Sample :=
  let sorted := sortedUp samples
  let middle := sorted.length / 2
  if sorted.length % 2 == 1 then sorted[middle]?
  else
    match sorted[middle - 1]?, sorted[middle]? with
    | some lower, some upper => some (upper.withValue ((lower.value + upper.value) / 2.0))
    | _, _ => none

/-- How often a value occurs, bit for bit. -/
def occurrences (bits : UInt64) (samples : List Sample) : Nat :=
  samples.countP fun s => s.bits == bits

/-- The value that has occurred most often, and how often; `before` holds the samples read so
far. A value takes over when it has occurred more often than any before it. -/
def mostFrequent (best : UInt64 × Nat) (before : List Sample) : List Sample → UInt64 × Nat
  | [] => best
  | s :: rest =>
    let seen := occurrences s.bits before + 1
    mostFrequent (if best.2 < seen then (s.bits, seen) else best) (s :: before) rest

/-- The most frequent value, stamped with the last sample. -/
def mode : List Sample → Option Sample
  | [] => none
  | s :: rest =>
    (s :: rest).getLast?.map (·.withBits (mostFrequent (s.bits, 0) [] (s :: rest)).1)

/-- Where among so many sorted samples, counted from one, a percentage of them ends. -/
def position (percent : Float) (count : Nat) : Float :=
  Float.ofNat (count - 1) * (percent / 100.0) + 1.0

/-- The upper neighbour of that position, counted from zero. -/
def upperPlace (percent : Float) (count : Nat) : Nat := (position percent count).toUInt64.toNat

/-- The value below which a percentage of the samples lies, between two neighbours by linear
interpolation. Zero and a hundred give the smallest and the largest sample as they stand. -/
def percentile (percent : Float) (samples : List Sample) : Option Sample :=
  let sorted := sortedUp samples
  if percent ≤ 0.0 then sorted.head?
  else if 100.0 ≤ percent || sorted.length == 1 then sorted.getLast?
  else
    let k := upperPlace percent sorted.length
    let part := position percent sorted.length - Float.ofNat k
    match sorted[k - 1]?, sorted[k]? with
    | some lower, some upper =>
      some (upper.withValue (lower.value + part * (upper.value - lower.value)))
    | _, _ => none

/-- Whether the upper neighbour is to be read past the last sample: `percentile` has no sample to
give then, and the program ends. -/
def overruns (percent : Float) (samples : List Sample) : Bool :=
  0.0 < percent && percent < 100.0 && 1 < samples.length
    && samples.length ≤ upperPlace percent samples.length

end Reduction

end SeriesQuery
