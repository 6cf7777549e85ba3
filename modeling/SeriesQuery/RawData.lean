import SeriesQuery.Number.Power
import SeriesQuery.Source

/-!
# Raw data

The samples that an expression is evaluated over: those of a stream that pass a filter on their
flags, by key and in the order of their times.
-/

namespace SeriesQuery

/-- Which samples are kept by their flags. -/
structure QualityFilter where
  /-- Samples with any of these flags are left out. -/
  excluded : UInt32
  /-- Samples without any flag are left out. -/
  excludeNormal : Bool
  deriving DecidableEq, Repr

/-- Whether a sample is kept. -/
def QualityFilter.keeps (q : QualityFilter) (s : Sample) : Bool :=
  !(q.excludeNormal && s.flags == 0) && s.flags &&& q.excluded == 0

/-- The place of a number in the total order of binary64: minus zero before zero, what is no
number after infinity. -/
def totalRank (x : Float) : Int :=
  let bits := x.toBits.toNat
  if bits < twoTo 63 then bits else -((bits - twoTo 63 : Nat) : Int) - 1

/-- Samples in the order of their times, those of one time as they came. -/
def sortByTime (samples : List Sample) : List Sample :=
  samples.mergeSort fun a b => totalRank a.time ≤ totalRank b.time

/-- Samples as they came. -/
structure RawData where
  /-- The samples. -/
  kept : List Sample

namespace RawData

/-- No samples. -/
def empty : RawData := ⟨[]⟩

/-- The samples of a stream that a filter keeps, or its first fault. -/
def collect (q : QualityFilter) : List (Except Fault Sample) → Except Fault RawData
  | [] => .ok empty
  | .error f :: _ => .error f
  | .ok s :: rest => (collect q rest).map fun d => if q.keeps s then ⟨s :: d.kept⟩ else d

/-- The samples of a key, in the order of their times. -/
def samplesOf (d : RawData) (key : Text) : List Sample :=
  sortByTime (d.kept.filter (·.key == key))

/-- The keys that have samples. -/
def keys (d : RawData) : List Text := (d.kept.map (·.key)).eraseDups

end RawData

end SeriesQuery
