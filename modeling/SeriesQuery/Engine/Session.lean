import SeriesQuery.Cache
import SeriesQuery.Expression.Basic
import SeriesQuery.Resolver
import SeriesQuery.Source

/-!
# Engines and sessions

An engine is what stays the same from query to query: the catalog, the source of samples and
where the catalog keeps what resolving needs. A session is what changes: caches, the clock that
they read, whether the caller still waits, and a record of what the source has been asked.

A step of a query takes a session and gives a result or a fault, and the session in either case:
what has been cached before a fault stays cached.
-/

namespace SeriesQuery

/-- What stays the same from query to query. -/
structure Engine where
  /-- The catalog. -/
  catalog : Catalog
  /-- Where the catalog keeps what resolving needs. -/
  layout : Layout
  /-- The source of samples. -/
  source : Source
  /-- The order in which a random choice visits samples. -/
  shuffle : List Sample → List Sample

/-- What has been read and resolved before. -/
structure Caches where
  /-- Expressions by their text. -/
  expressions : Cache Text Expression
  /-- Resolved targets by table and text. -/
  targets : Cache (Text × Text) Targets
  /-- Labels by template and root. -/
  labels : Cache Text Text

namespace Caches

/-- Caches without entries, all with one idle window in milliseconds. -/
def empty (idle now : Nat) : Caches :=
  ⟨Cache.empty idle now, Cache.empty idle now, Cache.empty idle now⟩

/-- Removes all entries. -/
def clear (c : Caches) : Caches := ⟨c.expressions.clear, c.targets.clear, c.labels.clear⟩

/-- Removes expired entries and counts them. Each cache reads the clock for itself. -/
def sweep (c : Caches) (clock : Clock) : Nat × Caches × Clock :=
  let (now, clock) := clock.read
  let (e, expressions) := c.expressions.sweep now
  let (now, clock) := clock.read
  let (t, targets) := c.targets.sweep now
  let (now, clock) := clock.read
  let (l, labels) := c.labels.sweep now
  (e + t + l, ⟨expressions, targets, labels⟩, clock)

end Caches

/-- A question put to the source. -/
structure Fetch where
  /-- The keys. -/
  keys : List Text
  /-- The window. -/
  range : TimeRange
  /-- The hints. -/
  hints : FetchHints
  deriving DecidableEq

/-- What changes from step to step. -/
structure Session where
  /-- What has been read and resolved before. -/
  caches : Caches
  /-- The clock that the caches read. -/
  clock : Clock
  /-- After how many more looks the caller is found to have given the query up; none if never. -/
  patience : Option Nat
  /-- What the source has been asked, in order. -/
  fetches : List Fetch

/-- A session that begins. Its caches have an idle window in milliseconds. -/
def Session.start (idle : Nat) (clock : Clock) : Session :=
  ⟨Caches.empty idle clock.now, clock, none, []⟩

/-- A step of a query. -/
abbrev Step := ExceptT Fault (StateM Session)

namespace Step

/-- A result as a step that changes nothing. -/
def ofExcept {α : Type} : Except Fault α → Step α
  | .ok a => pure a
  | .error f => throw f

/-- What a step comes to, its fault included. Only a fault that ends the program is passed on. -/
def outcome {α : Type} (p : Step α) : Step (Except Fault α) :=
  tryCatch (return .ok (← p)) fun f => if f.endsProgram then throw f else return .error f

/-- Fails if the caller has given the query up. -/
def checkPatience : Step Unit := do
  let s ← get
  match s.patience with
  | none => pure ()
  | some 0 => throw .cancelled
  | some (n + 1) => set { s with patience := some n }

/-- The expression of a text, read once for as long as it is used. -/
def parse (text : Text) : Step Expression := do
  let s ← get
  let key := Text.trim text
  let (result, expressions, clock) :=
    s.caches.expressions.getOrTry s.clock key fun _ => Expression.parse key
  set { s with caches := { s.caches with expressions }, clock }
  ofExcept result

/-- The series of a list of targets, resolved once for as long as it is used. -/
def resolve (engine : Engine) (text : Text) : Step Targets := do
  let s ← get
  let key := (engine.layout.table, Text.trim text)
  let (result, targets, clock) :=
    s.caches.targets.getOrTry s.clock key fun _ =>
      Resolver.resolve engine.catalog engine.layout text
  set { s with caches := { s.caches with targets }, clock }
  ofExcept result

/-- The label of a key, made once for as long as it is used. -/
def label (key : Text) (make : Unit → Text) : Step Text := do
  let s ← get
  let (result, labels, clock) := s.caches.labels.getOrInsert s.clock key make
  set { s with caches := { s.caches with labels }, clock }
  return result

end Step

end SeriesQuery
