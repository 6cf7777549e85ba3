import SeriesQuery.Sample

/-!
# Thinning out

An answer may be asked for with at most so many samples. The samples are cut into buckets as
equal as can be, and of each bucket either the first sample is kept or the smallest and the
largest.
-/

namespace SeriesQuery

/-- What is kept of a bucket. -/
inductive Thinning where
  /-- The first sample. -/
  | even
  /-- The smallest and the largest sample. -/
  | peaks
  deriving DecidableEq, Repr

namespace Thinning

/-- Where a bucket begins among `n` samples in so many buckets, and where it ends, in whatever
numbers places are counted. -/
def bucketBounds {α : Type} [OfNat α 1] [Add α] [Mul α] [Div α] (n buckets bucket : α) : α × α :=
  (bucket * n / buckets, (bucket + 1) * n / buckets)

/-- The samples of a bucket. -/
def bucketOf (samples : List Sample) (buckets bucket : Nat) : List Sample :=
  let (start, stop) := bucketBounds samples.length buckets bucket
  (samples.drop start).take (stop - start)

/-- The first sample of each bucket. -/
def firsts (buckets : Nat) (samples : List Sample) : List Sample :=
  (List.range buckets).filterMap fun bucket =>
    samples[(bucketBounds samples.length buckets bucket).1]?

/-- A sample and its place in a bucket. -/
abbrev Placed := Sample × Nat

/-- The smallest and the largest sample so far, with one more sample. -/
def widen (extremes : Placed × Placed) (s : Placed) : Placed × Placed :=
  let (low, high) := extremes
  (if s.1.value < low.1.value then s else low, if high.1.value < s.1.value then s else high)

/-- The smallest and the largest sample of a bucket in the order of their places, once if they
are the same. -/
def extremes : List Sample → List Sample
  | [] => []
  | s :: rest =>
    let (low, high) := (rest.zipIdx 1).foldl widen ((s, 0), (s, 0))
    if low.2 == high.2 then [low.1]
    else if low.2 < high.2 then [low.1, high.1]
    else [high.1, low.1]

/-- At most `limit` of the samples. A limit of zero is none, and peaks need room for two. -/
def apply (method : Thinning) (limit : Nat) (samples : List Sample) : List Sample :=
  if limit == 0 || samples.length ≤ limit then samples
  else if method == .peaks && 2 ≤ limit then
    (List.range (limit / 2)).flatMap fun bucket => extremes (bucketOf samples (limit / 2) bucket)
  else firsts limit samples

end Thinning

end SeriesQuery
