import SeriesQuery.Fault
import SeriesQuery.Sample
import SeriesQuery.Time.Duration
import SeriesQuery.Time.Range

/-!
# Sources of samples

Samples come from outside. A source is asked once for all keys that an expression needs, and
answers with a stream: samples in any order, perhaps a fault, perhaps the news that the caller
has given the query up meanwhile.

`Archive` is a source that holds its samples itself, and finds those of a key by their places.
-/

namespace SeriesQuery

/-- What a source is told besides the keys and the window. -/
structure FetchHints where
  /-- The resolution that is enough; none asks for all samples. -/
  interval : Option Duration
  /-- Whether a coarser resolution must keep the extremes. -/
  includePeaks : Bool
  deriving DecidableEq, Repr

/-- What a source answers with. -/
structure SampleStream where
  /-- The samples, and faults in between, in the order they arrive. -/
  items : List (Except Fault Sample)
  /-- Whether the query has been given up when the last item has arrived. -/
  givenUp : Bool

/-- Where samples come from: an answer for keys, a window and hints. -/
abbrev Source := List Text → TimeRange → FetchHints → Except Fault SampleStream

/-! ## Archives -/

/-- The places of samples in an archive, by key. -/
structure Index where
  /-- The keys, each with the places of its samples from the last to the first. -/
  entries : List (Text × List Nat)

namespace Index

/-- No places. -/
def empty : Index := ⟨[]⟩

/-- The entries with one more place for a key. -/
def noteEntry (key : Text) (place : Nat) : List (Text × List Nat) → List (Text × List Nat)
  | [] => [(key, [place])]
  | (k, places) :: rest =>
    if k == key then (k, place :: places) :: rest else (k, places) :: noteEntry key place rest

/-- Adds the place of a sample of a key. -/
def note (x : Index) (key : Text) (place : Nat) : Index := ⟨noteEntry key place x.entries⟩

/-- The places of the samples of a key, from the first to the last. -/
def placesOf (x : Index) (key : Text) : List Nat :=
  match x.entries.find? (·.1 == key) with
  | some (_, places) => places.reverse
  | none => []

end Index

/-- Numbers with each run of equal ones made one. -/
def dropRepeats : List Nat → List Nat
  | a :: b :: rest => if a == b then dropRepeats (b :: rest) else a :: dropRepeats (b :: rest)
  | numbers => numbers

/-- Samples held in memory, in the order they were added. -/
structure Archive where
  /-- The samples. -/
  samples : List Sample

namespace Archive

/-- No samples. -/
def empty : Archive := ⟨[]⟩

/-- Adds a sample. -/
def push (a : Archive) (s : Sample) : Archive := ⟨a.samples ++ [s]⟩

/-- Where the samples of each key are. -/
def index (a : Archive) : Index :=
  a.samples.zipIdx.foldl (fun x (s, place) => x.note s.key place) Index.empty

/-- The places of the samples of some keys, each once, from the first to the last. -/
def places (a : Archive) (keys : List Text) : List Nat :=
  let index := a.index
  dropRepeats ((keys.flatMap index.placesOf).mergeSort (· ≤ ·))

/-- The samples of some keys in a window, in the order they were added. -/
def select (a : Archive) (keys : List Text) (range : TimeRange) : List Sample :=
  let samples := a.samples.toArray
  ((a.places keys).filterMap (samples[·]?)).filter fun s => range.contains s.time

/-- An archive as a source. It gives the samples as they are whatever the hints. -/
def source (a : Archive) : Source := fun keys range _ =>
  .ok ⟨(a.select keys range).map .ok, false⟩

end Archive

end SeriesQuery
