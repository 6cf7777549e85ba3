import SeriesQuery.Time.Clock

/-!
# Caches

A cache keeps an entry for as long as it is used: one that has not been read or written for
longer than the idle window has expired. An expired entry is never given out. It still takes room
until a sweep removes it, and a write sweeps when the last sweep is longer ago than the idle
window.
-/

namespace SeriesQuery

/-- A value and when it was last used. -/
structure CacheEntry (β : Type) where
  /-- The value. -/
  value : β
  /-- When it was last read or written. -/
  lastUsed : Nat

/-- Counts of what a cache has done. -/
structure CacheCounts where
  /-- Look-ups that gave a value. -/
  hits : Nat
  /-- Look-ups that gave none. -/
  misses : Nat
  /-- Entries removed by sweeps. -/
  evictions : Nat
  deriving DecidableEq, Repr

/-- The share of look-ups that gave a value; zero before any. -/
def CacheCounts.hitRate (c : CacheCounts) : Float :=
  if c.hits + c.misses == 0 then 0.0
  else Float.ofNat c.hits / Float.ofNat (c.hits + c.misses)

/-- Values by key, each for as long as it is used. Times are in milliseconds. -/
structure Cache (κ β : Type) where
  /-- The entries, at most one for a key. -/
  entries : List (κ × CacheEntry β)
  /-- How long an entry may stay unused. -/
  idle : Nat
  /-- When expired entries were last removed. -/
  lastSweep : Nat
  /-- What has been done. -/
  counts : CacheCounts

namespace Cache

variable {κ β : Type} [BEq κ]

/-- A cache without entries. -/
def empty (idle now : Nat) : Cache κ β := ⟨[], idle, now, ⟨0, 0, 0⟩⟩

/-- Whether an entry has been unused for too long. -/
def isExpired (c : Cache κ β) (now : Nat) (entry : CacheEntry β) : Bool :=
  entry.lastUsed + c.idle < now

/-- The entry of a key, expired or not. -/
def find? (c : Cache κ β) (key : κ) : Option (CacheEntry β) :=
  (c.entries.find? fun (k, _) => k == key).map (·.2)

/-- Entries with the one of a key set. -/
def setEntry (key : κ) (entry : CacheEntry β) :
    List (κ × CacheEntry β) → List (κ × CacheEntry β)
  | [] => [(key, entry)]
  | (k, e) :: rest =>
    if k == key then (key, entry) :: rest else (k, e) :: setEntry key entry rest

/-- Sets a value, used now. -/
def put (c : Cache κ β) (now : Nat) (key : κ) (value : β) : Cache κ β :=
  { c with entries := setEntry key ⟨value, now⟩ c.entries }

/-- The value of a key unless it has expired. A value that is given out has been used. -/
def get (c : Cache κ β) (now : Nat) (key : κ) : Option β × Cache κ β :=
  let miss := { c with counts := { c.counts with misses := c.counts.misses + 1 } }
  match c.find? key with
  | none => (none, miss)
  | some entry =>
    if c.isExpired now entry then (none, miss)
    else
      (some entry.value,
        { c.put now key entry.value with
          counts := { c.counts with hits := c.counts.hits + 1 } })

/-- Removes expired entries and counts them. -/
def sweep (c : Cache κ β) (now : Nat) : Nat × Cache κ β :=
  let live := c.entries.filter fun (_, entry) => !c.isExpired now entry
  let evicted := c.entries.length - live.length
  (evicted,
    { c with
      entries := live
      lastSweep := now
      counts := { c.counts with evictions := c.counts.evictions + evicted } })

/-- Whether a sweep is due. -/
def isSweepDue (c : Cache κ β) (now : Nat) : Bool := c.lastSweep + c.idle < now

/-- Sets a value after a sweep that is due. The clock is read to see whether one is, by the sweep
itself, and for the new entry. -/
def insert (c : Cache κ β) (clock : Clock) (key : κ) (value : β) : Cache κ β × Clock :=
  let (now, clock) := clock.read
  let (c, clock) :=
    if c.isSweepDue now then
      let (now, clock) := clock.read
      ((c.sweep now).2, clock)
    else (c, clock)
  let (now, clock) := clock.read
  (c.put now key value, clock)

/-- The value of a key, computed and set when there is none. A fault is not kept. -/
def getOrTry {ε : Type} (c : Cache κ β) (clock : Clock) (key : κ) (compute : Unit → Except ε β) :
    Except ε β × Cache κ β × Clock :=
  let (now, clock) := clock.read
  match c.get now key with
  | (some value, c) => (.ok value, c, clock)
  | (none, c) =>
    match compute () with
    | .error f => (.error f, c, clock)
    | .ok value =>
      let (c, clock) := c.insert clock key value
      (.ok value, c, clock)

/-- The value of a key, computed and set when there is none. -/
def getOrInsert (c : Cache κ β) (clock : Clock) (key : κ) (compute : Unit → β) :
    β × Cache κ β × Clock :=
  let (now, clock) := clock.read
  match c.get now key with
  | (some value, c) => (value, c, clock)
  | (none, c) =>
    let value := compute ()
    let (c, clock) := c.insert clock key value
    (value, c, clock)

/-- Removes all entries. What has been counted stays. -/
def clear (c : Cache κ β) : Cache κ β := { c with entries := [] }

/-- The number of entries, expired ones included. -/
def size (c : Cache κ β) : Nat := c.entries.length

end Cache

end SeriesQuery
