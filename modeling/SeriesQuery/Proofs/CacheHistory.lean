import Mathlib.Data.List.Basic
import SeriesQuery.Proofs.CacheFaithful

/-!
# Entries last as long as they are used

What a look-up finds is settled by what has been done to its key: it finds the value last written
unless all has been cleared since, and provided that from the writing on no two times at which the
key was used lie further apart than the idle window, the time of the look-up included. `Current`
says this of a list of deeds, newest first, so that each new deed is a new head.

Entries that have expired stay until a sweep removes them, and when that happens depends on the
uses of other keys. It does not show. A cache is only ever known through look-ups, and an entry
that a sweep removes is one that no look-up at that time or later would have found. So the relation
that every use preserves, `Ledger.Sound`, speaks of what look-ups find from some time on, and of
the entries only that no key has two; caches that have been swept at different times can all be
sound for the same deeds.

A use may read the clock several times, and a sweep in it takes a reading of its own. A `Moment` is
a use with the readings that matter taken apart, so that sweeps can be put in and left out while
everything else stays when it was.
-/

namespace SeriesQuery.Cache

variable {κ ε β : Type}

/-! ## Uses and moments -/

/-- What may be asked of a cache. -/
inductive Use (κ ε β : Type) where
  | get (key : κ)
  | insert (key : κ) (value : β)
  | getOrInsert (key : κ) (make : Unit → β)
  | getOrTry (key : κ) (compute : Unit → Except ε β)
  | sweep
  | clear

/-- What a look-up gives: a value or a fault, or nothing. -/
abbrev Answer (ε β : Type) := Option (Except ε β)

/-- A use with the times of its look-up and its writing, and of the sweeps before the writing. -/
structure Moment (κ ε β : Type) where
  use : Use κ ε β
  look : Nat
  sweeps : List Nat
  write : Nat

/-- The times of moments are in order, none before `start`. -/
def InOrder (start : Nat) : List (Moment κ ε β) → Prop
  | [] => True
  | m :: rest =>
    (start ≤ m.look ∧ m.look ≤ m.write ∧ ∀ now ∈ m.sweeps, m.look ≤ now ∧ now ≤ m.write)
      ∧ InOrder m.write rest

/-- When the last of some moments ends. -/
def ending (start : Nat) : List (Moment κ ε β) → Nat
  | [] => start
  | m :: rest => ending m.write rest

/-- Moments without sweeps, neither those that are asked for nor those within other uses. -/
def withoutSweeps : List (Moment κ ε β) → List (Moment κ ε β)
  | [] => []
  | m :: rest =>
    match m.use with
    | .sweep => withoutSweeps rest
    | _ => { m with sweeps := [] } :: withoutSweeps rest

/-! ## Deeds -/

/-- Something done on which later look-ups depend. -/
inductive Deed (κ β : Type) where
  | found (key : κ)
  | written (key : κ) (value : β)
  | cleared

/-- The times at which a key has been found. -/
def timesFound [BEq κ] (key : κ) (deeds : List (Nat × Deed κ β)) : List Nat :=
  deeds.filterMap fun
    | (now, .found k) => if k == key then some now else none
    | _ => none

/-- By its deeds, newest first, a cache has a value for a key at a time: the value was the last to
be written for the key, nothing has been cleared since, and from the writing to the time the key
has never been left alone for longer than the idle window. -/
def Current [BEq κ] (idle : Nat) (deeds : List (Nat × Deed κ β)) (now : Nat) (key : κ)
    (value : β) : Prop :=
  ∃ after written before, deeds = after ++ (written, .written key value) :: before
    ∧ (∀ deed ∈ after, deed.2 ≠ .cleared ∧ ∀ v, deed.2 ≠ .written key v)
    ∧ (now :: (timesFound key after ++ [written])).IsChain fun later earlier =>
        later - earlier ≤ idle

/-- A cache and what has been done to it, newest first. -/
structure Ledger (κ β : Type) where
  cache : Cache κ β
  deeds : List (Nat × Deed κ β)

section Keys

variable [BEq κ]

/-- What uses give, and the cache and clock after them. -/
def Use.run (c : Cache κ β) (clock : Clock) :
    Use κ ε β → List (Answer ε β) × Cache κ β × Clock
  | .get key =>
    let (now, clock) := clock.read
    let (found, c) := c.get now key
    ([found.map .ok], c, clock)
  | .insert key value => ([], c.insert clock key value)
  | .getOrInsert key make =>
    let (value, c, clock) := c.getOrInsert clock key make
    ([some (.ok value)], c, clock)
  | .getOrTry key compute =>
    let (result, c, clock) := c.getOrTry clock key compute
    ([some result], c, clock)
  | .sweep =>
    let (now, clock) := clock.read
    ([], (c.sweep now).2, clock)
  | .clear => ([], c.clear, clock)

def Use.runAll (c : Cache κ β) (clock : Clock) :
    List (Use κ ε β) → List (Answer ε β) × Cache κ β × Clock
  | [] => ([], c, clock)
  | use :: rest =>
    let (answers, c, clock) := use.run c clock
    let (more, c, clock) := Use.runAll c clock rest
    (answers ++ more, c, clock)

/-- The times of the sweeps within an insertion. -/
def sweepTimes (c : Cache κ β) (clock : Clock) : List Nat :=
  let (now, clock) := clock.read
  if c.isSweepDue now then [clock.read.1] else []

/-- The moment at which a use reads the clock. -/
def Use.moment (c : Cache κ β) (clock : Clock) (use : Use κ ε β) : Moment κ ε β :=
  let (now, later) := clock.read
  let write := (use.run c clock).2.2.now
  match use with
  | .get _ => ⟨use, now, [], write⟩
  | .insert _ _ => ⟨use, now, c.sweepTimes clock, write⟩
  | .getOrInsert key _ =>
    match (c.get now key).1 with
    | some _ => ⟨use, now, [], write⟩
    | none => ⟨use, now, c.sweepTimes later, write⟩
  | .getOrTry key compute =>
    match (c.get now key).1, compute () with
    | none, .ok _ => ⟨use, now, c.sweepTimes later, write⟩
    | _, _ => ⟨use, now, [], write⟩
  | .sweep => ⟨use, now, [], write⟩
  | .clear => ⟨use, write, [], write⟩

/-- The moments of uses one after the other. -/
def Use.moments (c : Cache κ β) (clock : Clock) : List (Use κ ε β) → List (Moment κ ε β)
  | [] => []
  | use :: rest =>
    let (_, c', clock') := use.run c clock
    use.moment c clock :: Use.moments c' clock' rest

namespace Ledger

def look (l : Ledger κ β) (now : Nat) (key : κ) : Option β × Ledger κ β :=
  match l.cache.get now key with
  | (some value, c) => (some value, ⟨c, (now, .found key) :: l.deeds⟩)
  | (none, c) => (none, ⟨c, l.deeds⟩)

def sweep (l : Ledger κ β) (now : Nat) : Ledger κ β := { l with cache := (l.cache.sweep now).2 }

/-- Sweeps at some times, then a value set. -/
def write (l : Ledger κ β) (sweeps : List Nat) (now : Nat) (key : κ) (value : β) : Ledger κ β :=
  let l := sweeps.foldl sweep l
  ⟨l.cache.put now key value, (now, .written key value) :: l.deeds⟩

/-- A look-up that writes a computed value if it finds none. -/
def fetch (l : Ledger κ β) (m : Moment κ ε β) (key : κ) (computed : Except ε β) :
    List (Answer ε β) × Ledger κ β :=
  match l.look m.look key, computed with
  | (some value, l), _ => ([some (.ok value)], l)
  | (none, l), .ok value => ([some (.ok value)], l.write m.sweeps m.write key value)
  | (none, l), .error f => ([some (.error f)], l)

/-- What a moment gives, and the cache and its deeds after it. -/
def run (l : Ledger κ β) (m : Moment κ ε β) : List (Answer ε β) × Ledger κ β :=
  match m.use with
  | .get key =>
    let (found, l) := l.look m.look key
    ([found.map .ok], l)
  | .insert key value => ([], l.write m.sweeps m.write key value)
  | .getOrInsert key make => l.fetch m key (.ok (make ()))
  | .getOrTry key compute => l.fetch m key (compute ())
  | .sweep => ([], l.sweep m.look)
  | .clear => ([], ⟨l.cache.clear, (m.look, .cleared) :: l.deeds⟩)

def runAll (l : Ledger κ β) : List (Moment κ ε β) → List (Answer ε β) × Ledger κ β
  | [] => ([], l)
  | m :: rest =>
    let (answers, l) := l.run m
    let (more, l) := l.runAll rest
    (answers ++ more, l)

end Ledger

end Keys

variable [BEq κ]

/-! ## What deeds come to -/

section Current

variable {idle now time : Nat} {key k : κ} {value v : β} {deeds : List (Nat × Deed κ β)}

/-- The newest deed is the writing of the value, or it neither ends nor replaces an older one. -/
theorem current_cons {deed : Deed κ β} :
    Current idle ((time, deed) :: deeds) now key value
      ↔ (deed = .written key value ∧ now - time ≤ idle)
        ∨ (deed ≠ .cleared ∧ (∀ v, deed ≠ .written key v)
          ∧ ∃ after written before, deeds = after ++ (written, .written key value) :: before
            ∧ (∀ deed ∈ after, deed.2 ≠ .cleared ∧ ∀ v, deed.2 ≠ .written key v)
            ∧ (now :: (timesFound key ((time, deed) :: after) ++ [written])).IsChain
                fun later earlier => later - earlier ≤ idle) := by
  constructor
  · rintro ⟨after, written, before, hdeeds, hafter, hchain⟩
    rcases List.cons_eq_append_iff.mp hdeeds with ⟨rfl, hhead⟩ | ⟨older, rfl, hrest⟩
    · left
      simp only [List.cons.injEq, Prod.mk.injEq] at hhead
      obtain ⟨⟨rfl, rfl⟩, -⟩ := hhead
      exact ⟨rfl, (List.isChain_cons_cons.mp hchain).1⟩
    · right
      have hdeed := hafter (time, deed) List.mem_cons_self
      exact ⟨hdeed.1, hdeed.2, older, written, before, hrest,
        fun d hd => hafter d (List.mem_cons_of_mem _ hd), hchain⟩
  · rintro (⟨rfl, hgap⟩ | ⟨hclear, hwrite, after, written, before, hdeeds, hafter, hchain⟩)
    · refine ⟨[], time, deeds, rfl, by simp, ?_⟩
      exact List.isChain_cons_cons.mpr ⟨hgap, .singleton _⟩
    · refine ⟨(time, deed) :: after, written, before, by rw [hdeeds]; rfl, ?_, hchain⟩
      rintro d hd
      rcases List.mem_cons.mp hd with rfl | hd
      · exact ⟨hclear, hwrite⟩
      · exact hafter d hd

theorem not_current_nil : ¬ Current idle ([] : List (Nat × Deed κ β)) now key value := by
  rintro ⟨after, written, before, hdeeds, -⟩
  simp at hdeeds

theorem not_current_cleared : ¬ Current idle ((time, .cleared) :: deeds) now key value := by
  rw [current_cons]
  simp

theorem current_written : Current idle ((time, .written key v) :: deeds) now key value
    ↔ v = value ∧ now - time ≤ idle := by
  rw [current_cons]
  simp

variable [LawfulBEq κ]

theorem current_found : Current idle ((time, .found key) :: deeds) now key value
    ↔ now - time ≤ idle ∧ Current idle deeds time key value := by
  have htimes : ∀ after : List (Nat × Deed κ β),
      timesFound key ((time, .found key) :: after) = time :: timesFound key after := by
    intro after
    simp [timesFound]
  rw [current_cons]
  simp only [htimes, List.cons_append, List.isChain_cons_cons]
  constructor
  · rintro (⟨hdeed, -⟩ | ⟨-, -, after, written, before, hdeeds, hafter, hgap, hchain⟩)
    · cases hdeed
    · exact ⟨hgap, after, written, before, hdeeds, hafter, hchain⟩
  · rintro ⟨hgap, after, written, before, hdeeds, hafter, hchain⟩
    exact .inr ⟨nofun, nofun, after, written, before, hdeeds, hafter, hgap, hchain⟩

/-- A deed that concerns other keys alone. -/
theorem current_apart {deed : Deed κ β} (hclear : deed ≠ .cleared)
    (hwrite : ∀ v, deed ≠ .written key v) (hfound : deed ≠ .found key) :
    Current idle ((time, deed) :: deeds) now key value ↔ Current idle deeds now key value := by
  have htimes : ∀ after : List (Nat × Deed κ β),
      timesFound key ((time, deed) :: after) = timesFound key after := by
    intro after
    cases deed with
    | found k =>
        have hk : k ≠ key := fun h => hfound (h ▸ rfl)
        simp [timesFound, hk]
    | written k v => rfl
    | cleared => rfl
  rw [current_cons]
  simp only [htimes]
  constructor
  · rintro (⟨hdeed, -⟩ | ⟨-, -, h⟩)
    · exact absurd hdeed (hwrite value)
    · exact h
  · exact fun h => .inr ⟨hclear, hwrite, h⟩

end Current

/-! ## What entries come to -/

/-- No key has two entries. -/
def OnePerKey (c : Cache κ β) : Prop := (c.entries.map Prod.fst).Nodup

theorem find?_eq (c : Cache κ β) (key : κ) :
    c.find? key = (c.entries.find? (·.1 == key)).map (·.2) := rfl

theorem get_fst (c : Cache κ β) (now : Nat) (key : κ) :
    (c.get now key).1 = ((c.find? key).filter fun e => !c.isExpired now e).map (·.value) := by
  unfold get
  cases c.find? key with
  | none => rfl
  | some e =>
      cases he : c.isExpired now e with
      | true => simp [he, Option.filter]
      | false => simp [he, Option.filter]

section Entries

variable {entries : List (κ × CacheEntry β)} {key k : κ} {new : CacheEntry β}

theorem mem_keys_setEntry (h : k ∈ (setEntry key new entries).map Prod.fst) :
    k = key ∨ k ∈ entries.map Prod.fst := by
  induction entries with
  | nil => simpa [setEntry] using h
  | cons first rest ih =>
      rw [setEntry] at h
      split at h
      · rcases List.mem_cons.mp h with rfl | h
        · exact .inl rfl
        · exact .inr (List.mem_cons_of_mem _ h)
      · rcases List.mem_cons.mp h with rfl | h
        · exact .inr List.mem_cons_self
        · exact (ih h).imp_right (List.mem_cons_of_mem _)

variable [LawfulBEq κ]

theorem nodup_keys_setEntry (h : (entries.map Prod.fst).Nodup) :
    ((setEntry key new entries).map Prod.fst).Nodup := by
  induction entries with
  | nil => simp [setEntry]
  | cons first rest ih =>
      obtain ⟨hfirst, hrest⟩ := List.nodup_cons.mp h
      rw [setEntry]
      split
      · next hk => rwa [List.map_cons, ← eq_of_beq hk]
      · next hk =>
          refine List.nodup_cons.mpr ⟨fun hmem => ?_, ih hrest⟩
          rcases mem_keys_setEntry hmem with heq | hmem
          · exact hk (beq_iff_eq.mpr heq)
          · exact hfirst hmem

theorem find?_setEntry_of_ne (h : k ≠ key) :
    (setEntry key new entries).find? (·.1 == k) = entries.find? (·.1 == k) := by
  induction entries with
  | nil => simp [setEntry, h.symm]
  | cons first rest ih =>
      rw [setEntry]
      split
      · next hk =>
          have hfirst : first.1 ≠ k := eq_of_beq hk ▸ h.symm
          simp [List.find?_cons_of_neg, h.symm, hfirst]
      · rw [List.find?_cons, List.find?_cons, ih]

/-- Where no key has two entries, no other takes the place of one that is left out. -/
theorem find?_filter_of_nodup (h : (entries.map Prod.fst).Nodup) (p : CacheEntry β → Bool) :
    (entries.filter fun e => p e.2).find? (·.1 == key)
      = (entries.find? (·.1 == key)).filter fun e => p e.2 := by
  induction entries with
  | nil => rfl
  | cons first rest ih =>
      obtain ⟨hfirst, hrest⟩ := List.nodup_cons.mp h
      by_cases hk : first.1 = key
      · have hnone : (rest.filter fun e => p e.2).find? (·.1 == key) = none := by
          rw [List.find?_eq_none]
          intro e he hek
          rw [hk, ← eq_of_beq hek] at hfirst
          exact hfirst (List.mem_map_of_mem (List.mem_filter.mp he).1)
        rw [List.find?_cons_of_pos (by simpa using hk)]
        cases hp : p first.2 with
        | true => simp [hp, hk, Option.filter]
        | false => simp [hp, hnone, Option.filter]
      · rw [List.find?_cons_of_neg (by simpa using hk), ← ih hrest]
        cases hp : p first.2 with
        | true => simp [hp, hk]
        | false => simp [hp]

end Entries

section Finding

variable {c : Cache κ β} {now time : Nat} {key k : κ} {value : β}

omit [BEq κ] in
theorem OnePerKey.sweep (h : c.OnePerKey) : (c.sweep now).2.OnePerKey :=
  h.sublist (List.filter_sublist.map Prod.fst)

/-- A look-up that finds nothing leaves all entries as they are. -/
theorem entries_of_get_eq_none (h : (c.get time key).1 = none) :
    (c.get time key).2.entries = c.entries ∧ (c.get time key).2.idle = c.idle := by
  unfold get at *
  cases hf : c.find? key with
  | none => exact ⟨rfl, rfl⟩
  | some e =>
      rw [hf] at h
      dsimp only at h ⊢
      split
      · exact ⟨rfl, rfl⟩
      · next he =>
          rw [if_neg he] at h
          cases h

/-- A look-up that finds a value sets it again. -/
theorem entries_of_get_eq_some (h : (c.get time key).1 = some value) :
    (c.get time key).2.entries = (c.put time key value).entries
      ∧ (c.get time key).2.idle = c.idle := by
  unfold get at *
  cases hf : c.find? key with
  | none =>
      rw [hf] at h
      cases h
  | some e =>
      rw [hf] at h
      dsimp only at h ⊢
      split
      · next he =>
          rw [if_pos he] at h
          cases h
      · next he =>
          rw [if_neg he] at h
          cases h
          exact ⟨rfl, rfl⟩

/-- What is found depends on the entries and the idle window alone. -/
theorem get_congr {c' : Cache κ β} (hentries : c.entries = c'.entries) (hidle : c.idle = c'.idle) :
    (c.get now key).1 = (c'.get now key).1 := by
  rw [get_fst, get_fst, find?, find?, hentries]
  simp only [isExpired, hidle]

variable [LawfulBEq κ]

theorem OnePerKey.put (h : c.OnePerKey) : (c.put now key value).OnePerKey :=
  nodup_keys_setEntry h

/-- A sweep takes nothing away that could still be found. -/
theorem get_sweep (h : c.OnePerKey) (hle : time ≤ now) :
    ((c.sweep time).2.get now key).1 = (c.get now key).1 := by
  have hidle : (c.sweep time).2.idle = c.idle := rfl
  rw [get_fst, get_fst, find?_eq, find?_eq, show (c.sweep time).2.entries
    = c.entries.filter fun e => !c.isExpired time e.2 from rfl,
    find?_filter_of_nodup h fun e => !c.isExpired time e]
  cases c.entries.find? (·.1 == key) with
  | none => rfl
  | some e =>
      simp only [isExpired, hidle, Option.filter]
      by_cases hlive : e.2.lastUsed + c.idle < time
      · simp [hlive, show e.2.lastUsed + c.idle < now by omega]
      · simp [hlive]

theorem get_put : ((c.put time key value).get now key).1
    = if now - time ≤ c.idle then some value else none := by
  have hidle : (c.put time key value).idle = c.idle := rfl
  rw [get_fst, find?_put]
  simp only [isExpired, hidle, Option.filter]
  by_cases hlive : now - time ≤ c.idle
  · simp [hlive, show ¬ time + c.idle < now by omega]
  · simp [hlive, show time + c.idle < now by omega]

theorem get_put_of_ne (h : k ≠ key) :
    ((c.put time key value).get now k).1 = (c.get now k).1 := by
  rw [get_fst, get_fst, find?_eq, find?_eq, show (c.put time key value).entries
    = setEntry key ⟨value, time⟩ c.entries from rfl, find?_setEntry_of_ne h]
  rfl

end Finding

/-! ## What every use preserves -/

namespace Ledger

/-- From `start` on look-ups find what the deeds come to. -/
structure Sound (idle start : Nat) (l : Ledger κ β) : Prop where
  idle_eq : l.cache.idle = idle
  onePerKey : l.cache.OnePerKey
  current : ∀ now, start ≤ now → ∀ key value,
    (l.cache.get now key).1 = some value ↔ Current idle l.deeds now key value

theorem look_fst (l : Ledger κ β) (now : Nat) (key : κ) :
    (l.look now key).1 = (l.cache.get now key).1 := by
  unfold look
  split <;> next h => rw [h]

theorem deeds_look (l : Ledger κ β) (now : Nat) (key : κ) : (l.look now key).2.deeds
    = match (l.look now key).1 with
      | some _ => (now, .found key) :: l.deeds
      | none => l.deeds := by
  unfold look
  split <;> rfl

theorem cache_look (l : Ledger κ β) (now : Nat) (key : κ) :
    (l.look now key).2.cache = (l.cache.get now key).2 := by
  unfold look
  split <;> next h => rw [h]

omit [BEq κ] in
theorem deeds_sweeps (l : Ledger κ β) (sweeps : List Nat) :
    (sweeps.foldl sweep l).deeds = l.deeds := by
  induction sweeps generalizing l with
  | nil => rfl
  | cons now sweeps ih => exact ih (l.sweep now)

namespace Sound

variable {idle start time : Nat} {l l' : Ledger κ β} {key : κ} {value : β}

theorem empty (idle start now : Nat) :
    Sound idle start (⟨Cache.empty idle now, []⟩ : Ledger κ β) where
  idle_eq := rfl
  onePerKey := List.nodup_nil
  current _ _ _ _ := ⟨nofun, fun h => absurd h not_current_nil⟩

theorem later (h : l.Sound idle start) (hle : start ≤ time) : l.Sound idle time where
  idle_eq := h.idle_eq
  onePerKey := h.onePerKey
  current now hnow := h.current now (Nat.le_trans hle hnow)

theorem clear (h : l.Sound idle start) :
    (⟨l.cache.clear, (time, .cleared) :: l.deeds⟩ : Ledger κ β).Sound idle start where
  idle_eq := h.idle_eq
  onePerKey := List.nodup_nil
  current _ _ _ _ := ⟨nofun, fun h => absurd h not_current_cleared⟩

variable [LawfulBEq κ]

theorem sweep (h : l.Sound idle start) (hle : time ≤ start) : (l.sweep time).Sound idle start where
  idle_eq := h.idle_eq
  onePerKey := h.onePerKey.sweep
  current now hnow key value := by
    have hfound : ((l.cache.sweep time).2.get now key).1 = (l.cache.get now key).1 :=
      get_sweep h.onePerKey (Nat.le_trans hle hnow)
    exact (congrArg (· = some value) hfound).to_iff.trans (h.current now hnow key value)

theorem sweeps (h : l.Sound idle start) {times : List Nat} (hle : ∀ now ∈ times, now ≤ start) :
    (times.foldl Ledger.sweep l).Sound idle start := by
  induction times generalizing l with
  | nil => exact h
  | cons now times ih =>
      exact ih (h.sweep (hle now List.mem_cons_self))
        fun now hnow => hle now (List.mem_cons_of_mem _ hnow)

theorem put (h : l.Sound idle start) (hle : start ≤ time) :
    (⟨l.cache.put time key value, (time, .written key value) :: l.deeds⟩ : Ledger κ β).Sound
      idle time where
  idle_eq := h.idle_eq
  onePerKey := h.onePerKey.put
  current now hnow k v := by
    by_cases hk : k = key
    · subst hk
      rw [get_put, current_written, h.idle_eq]
      split
      · next hgap => exact ⟨fun hv => ⟨Option.some.inj hv, hgap⟩, fun hv => congrArg some hv.1⟩
      · next hgap => exact ⟨nofun, fun hv => absurd hv.2 hgap⟩
    · rw [get_put_of_ne hk, h.current now (Nat.le_trans hle hnow),
        current_apart (by simp) (by simp [Ne.symm hk]) (by simp)]

theorem write (h : l.Sound idle start) (hle : start ≤ time) {times : List Nat}
    (htimes : ∀ now ∈ times, now ≤ time) : (l.write times time key value).Sound idle time := by
  unfold Ledger.write
  exact ((h.later hle).sweeps htimes).put (Nat.le_refl _)

theorem look (h : l.Sound idle start) (hle : start ≤ time) (key : κ) :
    (l.look time key).2.Sound idle time := by
  cases hget : (l.cache.get time key).1 with
  | none =>
      obtain ⟨hentries, hidle⟩ := entries_of_get_eq_none hget
      have hdeeds : (l.look time key).2.deeds = l.deeds := by rw [deeds_look, look_fst, hget]
      refine ⟨?_, ?_, fun now hnow k v => ?_⟩
      · rw [cache_look, hidle, h.idle_eq]
      · rw [cache_look, OnePerKey, hentries]
        exact h.onePerKey
      · rw [cache_look, get_congr hentries hidle, hdeeds,
          h.current now (Nat.le_trans hle hnow)]
  | some found =>
      obtain ⟨hentries, hidle⟩ := entries_of_get_eq_some hget
      have hdeeds : (l.look time key).2.deeds = (time, .found key) :: l.deeds := by
        rw [deeds_look, look_fst, hget]
      have hput : (l.cache.put time key found).OnePerKey := h.onePerKey.put
      refine ⟨?_, ?_, fun now hnow k v => ?_⟩
      · rw [cache_look, hidle, h.idle_eq]
      · rw [cache_look, OnePerKey, hentries]
        exact hput
      · have hfound : ((l.cache.get time key).2.get now k).1
            = ((l.cache.put time key found).get now k).1 := get_congr hentries hidle
        rw [cache_look, hfound, hdeeds]
        by_cases hk : k = key
        · subst hk
          rw [get_put, current_found, ← h.current time hle, hget, h.idle_eq]
          split
          · next hgap => exact ⟨fun hv => ⟨hgap, hv⟩, And.right⟩
          · next hgap => exact ⟨nofun, fun hv => absurd hv.1 hgap⟩
        · rw [get_put_of_ne hk, h.current now (Nat.le_trans hle hnow),
            current_apart (by simp) (by simp) (by simp [Ne.symm hk])]

theorem fetch (h : l.Sound idle start) {m : Moment κ ε β} (hlook : start ≤ m.look)
    (hwrite : m.look ≤ m.write) (hsweeps : ∀ now ∈ m.sweeps, now ≤ m.write)
    (computed : Except ε β) : (l.fetch m key computed).2.Sound idle m.write := by
  have hlooked := h.look hlook key
  unfold Ledger.fetch
  split
  · next hl =>
      rw [hl] at hlooked
      exact hlooked.later hwrite
  · next hl =>
      rw [hl] at hlooked
      exact hlooked.write hwrite hsweeps
  · next hl =>
      rw [hl] at hlooked
      exact hlooked.later hwrite

/-- What a use does leaves a ledger sound from the end of its moment on. -/
theorem run (h : l.Sound idle start) {m : Moment κ ε β} (hlook : start ≤ m.look)
    (hwrite : m.look ≤ m.write) (hsweeps : ∀ now ∈ m.sweeps, now ≤ m.write) :
    (l.run m).2.Sound idle m.write := by
  have hlater := h.later (Nat.le_trans hlook hwrite)
  unfold Ledger.run
  split
  · exact (h.look hlook _).later hwrite
  · exact h.write (Nat.le_trans hlook hwrite) hsweeps
  · exact h.fetch hlook hwrite hsweeps _
  · exact h.fetch hlook hwrite hsweeps _
  · exact hlater.sweep hwrite
  · exact hlater.clear

theorem runAll (h : l.Sound idle start) {ms : List (Moment κ ε β)} (hms : InOrder start ms) :
    (l.runAll ms).2.Sound idle (ending start ms) := by
  induction ms generalizing l start with
  | nil => exact h
  | cons m rest ih =>
      obtain ⟨⟨hlook, hwrite, hsweeps⟩, hrest⟩ := hms
      exact ih (h.run hlook hwrite fun now hnow => (hsweeps now hnow).2) hrest

omit [LawfulBEq κ] in
/-- Ledgers with the same deeds find the same. -/
theorem look_eq (h : l.Sound idle start) (h' : l'.Sound idle start) (hdeeds : l.deeds = l'.deeds)
    (hle : start ≤ time) (key : κ) : (l.look time key).1 = (l'.look time key).1
      ∧ (l.look time key).2.deeds = (l'.look time key).2.deeds := by
  have hfound : (l.look time key).1 = (l'.look time key).1 := by
    refine Option.ext fun value => ?_
    rw [look_fst, look_fst, h.current time hle, h'.current time hle, hdeeds]
  refine ⟨hfound, ?_⟩
  rw [deeds_look, deeds_look, hfound, hdeeds]

end Sound

section Sweeps

variable {idle start : Nat} {l l' : Ledger κ β}

theorem deeds_write (l : Ledger κ β) (sweeps : List Nat) (now : Nat) (key : κ) (value : β) :
    (l.write sweeps now key value).deeds = (now, .written key value) :: l.deeds := by
  unfold write
  dsimp only
  rw [deeds_sweeps]

theorem fetch_congr (h : l.Sound idle start) (h' : l'.Sound idle start)
    (hdeeds : l.deeds = l'.deeds) {m : Moment κ ε β} (hlook : start ≤ m.look) (sweeps : List Nat)
    (key : κ) (computed : Except ε β) :
    (l.fetch m key computed).1 = (l'.fetch { m with sweeps } key computed).1
      ∧ (l.fetch m key computed).2.deeds
        = (l'.fetch { m with sweeps } key computed).2.deeds := by
  obtain ⟨hfound, hafter⟩ := h.look_eq h' hdeeds hlook key
  unfold fetch
  dsimp only
  cases hl : l.look m.look key with
  | mk found c =>
      cases hl' : l'.look m.look key with
      | mk found' c' =>
          rw [hl, hl'] at hfound hafter
          obtain rfl : found = found' := hfound
          cases found with
          | some value => exact ⟨rfl, hafter⟩
          | none =>
              cases computed with
              | ok value => exact ⟨rfl, by rw [deeds_write, deeds_write, hafter]⟩
              | error f => exact ⟨rfl, hafter⟩

/-- Neither what a use gives nor what it does depends on sweeps, those within it included. -/
theorem run_congr (h : l.Sound idle start) (h' : l'.Sound idle start)
    (hdeeds : l.deeds = l'.deeds) {m : Moment κ ε β} (hlook : start ≤ m.look) (sweeps : List Nat) :
    (l.run m).1 = (l'.run { m with sweeps }).1
      ∧ (l.run m).2.deeds = (l'.run { m with sweeps }).2.deeds := by
  unfold run
  cases m.use with
  | get key =>
      obtain ⟨hfound, hafter⟩ := h.look_eq h' hdeeds hlook key
      exact ⟨congrArg (fun found => ([found.map .ok] : List (Answer ε β))) hfound, hafter⟩
  | insert key value => exact ⟨rfl, by rw [deeds_write, deeds_write, hdeeds]⟩
  | getOrInsert key make => exact fetch_congr h h' hdeeds hlook sweeps key _
  | getOrTry key compute => exact fetch_congr h h' hdeeds hlook sweeps key _
  | sweep => exact ⟨rfl, hdeeds⟩
  | clear => exact ⟨rfl, by rw [hdeeds]⟩

variable [LawfulBEq κ]

/-- Moments give and do the same with their sweeps and without. -/
theorem runAll_withoutSweeps (h : l.Sound idle start) (h' : l'.Sound idle start)
    (hdeeds : l.deeds = l'.deeds) {ms : List (Moment κ ε β)} (hms : InOrder start ms) :
    (l.runAll ms).1 = (l'.runAll (withoutSweeps ms)).1
      ∧ (l.runAll ms).2.deeds = (l'.runAll (withoutSweeps ms)).2.deeds := by
  induction ms generalizing l l' start with
  | nil => exact ⟨rfl, hdeeds⟩
  | cons m rest ih =>
      obtain ⟨⟨hlook, hwrite, hsweeps⟩, hrest⟩ := hms
      have hsound := h.run hlook hwrite fun now hnow => (hsweeps now hnow).2
      simp only [withoutSweeps, runAll]
      split
      · next huse =>
          have hsame : (l.run m).1 = [] ∧ (l.run m).2.deeds = l.deeds := by
            rw [run, huse]
            exact ⟨rfl, rfl⟩
          have hlater := h'.later (Nat.le_trans hlook hwrite)
          rw [hsame.1, List.nil_append]
          exact ih hsound hlater (hsame.2.trans hdeeds) hrest
      · obtain ⟨hanswers, hafter⟩ := run_congr h h' hdeeds hlook []
        have hsound' := h'.run (m := { m with sweeps := [] }) hlook hwrite (by simp)
        obtain ⟨hmore, hend⟩ := ih hsound hsound' hafter hrest
        exact ⟨congrArg₂ (· ++ ·) hanswers hmore, hend⟩

end Sweeps

end Ledger

/-! ## Uses are moments -/

theorem read_now (clock : Clock) : clock.read.2.now = clock.read.1 := by
  unfold Clock.read
  split <;> rfl

theorem now_le_read (clock : Clock) : clock.now ≤ clock.read.1 := by
  unfold Clock.read
  split
  · exact Nat.le_refl _
  · exact Nat.le_add_right _ _

theorem sweepTimes_get (c : Cache κ β) (now : Nat) (key : κ) (clock : Clock) :
    (c.get now key).2.sweepTimes clock = c.sweepTimes clock := by
  unfold get
  cases c.find? key with
  | none => rfl
  | some e =>
      dsimp only
      split <;> rfl

/-- An insertion sweeps if it is due, and then sets its value at its last reading. -/
theorem insert_spec (l : Ledger κ β) (clock : Clock) (key : κ) (value : β) :
    let inserted := l.cache.insert clock key value
    (l.write (l.cache.sweepTimes clock) inserted.2.now key value).cache = inserted.1
      ∧ clock.read.1 ≤ inserted.2.now
      ∧ ∀ now ∈ l.cache.sweepTimes clock, clock.read.1 ≤ now ∧ now ≤ inserted.2.now := by
  have h1 := now_le_read clock
  have h2 := now_le_read clock.read.2
  have h3 := now_le_read clock.read.2.read.2
  have hr1 := read_now clock
  have hr2 := read_now clock.read.2
  unfold insert sweepTimes
  dsimp only
  by_cases hdue : l.cache.isSweepDue clock.read.1 = true
  · simp only [if_pos hdue, read_now, List.mem_singleton, forall_eq]
    exact ⟨rfl, by omega, by omega⟩
  · simp only [if_neg hdue, read_now, List.not_mem_nil, false_imp_iff, implies_true, and_true]
    exact ⟨rfl, by omega⟩

/-- A use does what its moment does, at times that the clock reads in its course. -/
structure Use.Timed (l : Ledger κ β) (clock : Clock) (use : Use κ ε β) : Prop where
  use_eq : (use.moment l.cache clock).use = use
  answers : (l.run (use.moment l.cache clock)).1 = (use.run l.cache clock).1
  cache : (l.run (use.moment l.cache clock)).2.cache = (use.run l.cache clock).2.1
  write_eq : (use.moment l.cache clock).write = (use.run l.cache clock).2.2.now
  now_le : clock.now ≤ (use.moment l.cache clock).look
  look_le : (use.moment l.cache clock).look ≤ (use.moment l.cache clock).write
  sweeps : ∀ now ∈ (use.moment l.cache clock).sweeps,
    (use.moment l.cache clock).look ≤ now ∧ now ≤ (use.moment l.cache clock).write

theorem timed_getOrTry (l : Ledger κ β) (clock : Clock) (key : κ) (compute : Unit → Except ε β) :
    (Use.getOrTry key compute).Timed l clock := by
  have hread := read_now clock
  have hnow := now_le_read clock
  have hcache := l.cache_look clock.read.1 key
  have hfound := l.look_fst clock.read.1 key
  cases hget : l.cache.get clock.read.1 key with
  | mk found c =>
      cases hlook : l.look clock.read.1 key with
      | mk found' l' =>
          rw [hget, hlook] at hcache hfound
          obtain rfl : found' = found := hfound
          obtain rfl : l'.cache = c := hcache
          cases found' with
          | some value =>
              constructor <;>
                simp [Use.moment, Use.run, getOrTry, Ledger.run, Ledger.fetch, hget, hlook, hread,
                  hnow]
          | none =>
              cases hcompute : compute () with
              | error f =>
                  constructor <;>
                    simp [Use.moment, Use.run, getOrTry, Ledger.run, Ledger.fetch, hget, hlook,
                      hread, hnow, hcompute]
              | ok value =>
                  have hdue := sweepTimes_get l.cache clock.read.1 key clock.read.2
                  rw [hget] at hdue
                  obtain ⟨hspec, hle, hsweeps⟩ := insert_spec l' clock.read.2 key value
                  have hlater := now_le_read clock.read.2
                  rw [hread] at hlater
                  rw [hdue] at hspec hsweeps
                  constructor <;>
                    simp only [Use.moment, Use.run, getOrTry, Ledger.run, Ledger.fetch, hget, hlook,
                      hcompute]
                  · exact hspec
                  · exact hnow
                  · exact Nat.le_trans hlater hle
                  · exact fun now h => ⟨Nat.le_trans hlater (hsweeps now h).1, (hsweeps now h).2⟩

/-- An infallible computation is one that never fails. -/
theorem run_getOrInsert (c : Cache κ β) (clock : Clock) (key : κ) (make : Unit → β) :
    (Use.getOrInsert key make : Use κ ε β).run c clock
      = (Use.getOrTry key fun u => .ok (make u) : Use κ ε β).run c clock := by
  simp only [Use.run, getOrInsert, getOrTry]
  cases c.get clock.read.1 key with
  | mk found c =>
      cases found with
      | some value => rfl
      | none => rfl

theorem moment_getOrInsert (c : Cache κ β) (clock : Clock) (key : κ) (make : Unit → β) :
    (Use.getOrInsert key make : Use κ ε β).moment c clock
      = { (Use.getOrTry key fun u => .ok (make u) : Use κ ε β).moment c clock with
          use := .getOrInsert key make } := by
  simp only [Use.moment, run_getOrInsert]
  cases (c.get clock.read.1 key).1 with
  | some value => rfl
  | none => rfl

theorem timed (l : Ledger κ β) (clock : Clock) (use : Use κ ε β) : use.Timed l clock := by
  have hread := read_now clock
  have hnow := now_le_read clock
  cases use with
  | get key =>
      have hcache := l.cache_look clock.read.1 key
      have hfound := l.look_fst clock.read.1 key
      constructor <;> simp [Use.moment, Use.run, Ledger.run, hcache, hfound, hread, hnow]
  | insert key value =>
      obtain ⟨hspec, hle, hsweeps⟩ := insert_spec l clock key value
      constructor <;> simp only [Use.moment, Use.run, Ledger.run]
      · exact hspec
      · exact hnow
      · exact hle
      · exact hsweeps
  | getOrInsert key make =>
      have h := timed_getOrTry l clock key fun u => (.ok (make u) : Except ε β)
      have hanswers := h.answers
      have hcache := h.cache
      rw [Ledger.run, h.use_eq] at hanswers hcache
      constructor <;> simp only [moment_getOrInsert, run_getOrInsert]
      · exact hanswers
      · exact hcache
      · exact h.write_eq
      · exact h.now_le
      · exact h.look_le
      · exact h.sweeps
  | getOrTry key compute => exact timed_getOrTry l clock key compute
  | sweep => constructor <;> simp [Use.moment, Use.run, Ledger.run, Ledger.sweep, hread, hnow]
  | clear => constructor <;> simp [Use.moment, Use.run, Ledger.run]

/-- Uses one after the other do what their moments do. -/
theorem runAll_moments (l : Ledger κ β) (clock : Clock) (uses : List (Use κ ε β)) :
    let ran := Use.runAll l.cache clock uses
    let moments := Use.moments l.cache clock uses
    moments.map Moment.use = uses
      ∧ (l.runAll moments).1 = ran.1
      ∧ (l.runAll moments).2.cache = ran.2.1
      ∧ InOrder clock.now moments
      ∧ ending clock.now moments = ran.2.2.now := by
  induction uses generalizing l clock with
  | nil => exact ⟨rfl, rfl, rfl, trivial, rfl⟩
  | cons use rest ih =>
      have h := timed l clock use
      have hrest := ih (l.run (use.moment l.cache clock)).2 (use.run l.cache clock).2.2
      rw [h.cache, ← h.write_eq] at hrest
      obtain ⟨huses, hanswers, hcache, horder, hending⟩ := hrest
      simp only [Use.runAll, Use.moments, Ledger.runAll, List.map_cons, InOrder, ending]
      refine ⟨?_, ?_, hcache, ⟨⟨h.now_le, h.look_le, h.sweeps⟩, horder⟩, hending⟩
      · rw [h.use_eq, huses]
      · rw [h.answers, hanswers]

/-! ## Computing -/

section Computing

variable {c : Cache κ β} {clock : Clock} {key : κ} {value : β} {compute : Unit → Except ε β}

/-- Where there is a value nothing is computed, whatever could be. -/
theorem getOrTry_of_found (h : (c.get clock.read.1 key).1 = some value) :
    c.getOrTry clock key compute = (.ok value, (c.get clock.read.1 key).2, clock.read.2) := by
  cases hget : c.get clock.read.1 key with
  | mk found c' =>
      rw [hget] at h
      cases h
      simp only [getOrTry, hget]

theorem getOrTry_fst_of_missing (h : (c.get clock.read.1 key).1 = none) :
    (c.getOrTry clock key compute).1 = compute () := by
  cases hget : c.get clock.read.1 key with
  | mk found c' =>
      rw [hget] at h
      cases h
      simp only [getOrTry, hget]
      split <;> next hcompute => rw [hcompute]

/-- A fault leaves the entries as they are. -/
theorem entries_getOrTry_of_error {f : ε} (h : (c.getOrTry clock key compute).1 = .error f) :
    (c.getOrTry clock key compute).2.1.entries = c.entries := by
  cases hget : c.get clock.read.1 key with
  | mk found c' =>
      have hfound : (c.get clock.read.1 key).1 = found := congrArg Prod.fst hget
      cases found with
      | some value =>
          rw [getOrTry_of_found hfound] at h
          cases h
      | none =>
          obtain ⟨hentries, -⟩ := entries_of_get_eq_none hfound
          rw [getOrTry_fst_of_missing hfound] at h
          rw [hget] at hentries
          simp only [getOrTry, hget, h]
          exact hentries

theorem getOrInsert_of_found {make : Unit → β} (h : (c.get clock.read.1 key).1 = some value) :
    c.getOrInsert clock key make = (value, (c.get clock.read.1 key).2, clock.read.2) := by
  cases hget : c.get clock.read.1 key with
  | mk found c' =>
      rw [hget] at h
      cases h
      simp only [getOrInsert, hget]

theorem getOrInsert_fst_of_missing {make : Unit → β} (h : (c.get clock.read.1 key).1 = none) :
    (c.getOrInsert clock key make).1 = make () := by
  cases hget : c.get clock.read.1 key with
  | mk found c' =>
      rw [hget] at h
      cases h
      simp only [getOrInsert, hget]

end Computing

/-! ## Histories -/

variable [LawfulBEq κ]

/-- Any uses of a cache come to moments at times that never decrease. After them a look-up at any
time finds the value last written for its key if nothing was cleared since and no gap between the
uses of the key, up to that time, is longer than the idle window; a computation takes place
exactly where the look-up finds nothing, and one that fails changes no entry; and with other
sweeps, or with none, the same moments give and do the same. -/
theorem history_decides (idle created : Nat) (clock : Clock) (uses : List (Use κ ε β)) :
    let ran := Use.runAll (empty idle created) clock uses
    let c := ran.2.1
    let now := ran.2.2.read.1
    let moments := Use.moments (empty idle created) clock uses
    let ledger : Ledger κ β := (Ledger.runAll ⟨empty idle created, []⟩ moments).2
    (moments.map Moment.use = uses ∧ InOrder clock.now moments ∧ ledger.cache = c
        ∧ (Ledger.runAll ⟨empty idle created, []⟩ moments).1 = ran.1)
      ∧ (∀ time, ran.2.2.now ≤ time → ∀ key value,
          (c.get time key).1 = some value ↔ Current idle ledger.deeds time key value)
      ∧ (∀ key,
          (∀ value, (c.get now key).1 = some value →
              (∀ compute : Unit → Except ε β, c.getOrTry ran.2.2 key compute
                = (.ok value, (c.get now key).2, ran.2.2.read.2))
              ∧ ∀ make, c.getOrInsert ran.2.2 key make
                = (value, (c.get now key).2, ran.2.2.read.2))
          ∧ ((c.get now key).1 = none →
              (∀ compute : Unit → Except ε β,
                (c.getOrTry ran.2.2 key compute).1 = compute ())
              ∧ ∀ make, (c.getOrInsert ran.2.2 key make).1 = make ()))
      ∧ (∀ key (compute : Unit → Except ε β) f, (c.getOrTry ran.2.2 key compute).1 = .error f →
          (c.getOrTry ran.2.2 key compute).2.1.entries = c.entries)
      ∧ ∀ others : List (Moment κ ε β), InOrder clock.now others →
          withoutSweeps others = withoutSweeps moments →
          let ledger' : Ledger κ β := (Ledger.runAll ⟨empty idle created, []⟩ others).2
          (Ledger.runAll ⟨empty idle created, []⟩ others).1 = ran.1
            ∧ ledger'.deeds = ledger.deeds
            ∧ ∀ time, ran.2.2.now ≤ time → ending clock.now others ≤ time → ∀ key,
              (ledger'.cache.get time key).1 = (c.get time key).1 := by
  intro ran c now moments ledger
  have hstart : (⟨empty idle created, []⟩ : Ledger κ β).Sound idle clock.now :=
    .empty idle clock.now created
  obtain ⟨huses, hanswers, hcache, horder, hending⟩ :=
    runAll_moments (⟨empty idle created, []⟩ : Ledger κ β) clock uses
  have hsound : ledger.Sound idle ran.2.2.now := hending ▸ hstart.runAll horder
  have hcurrent : ∀ time, ran.2.2.now ≤ time → ∀ key value,
      (c.get time key).1 = some value ↔ Current idle ledger.deeds time key value := by
    intro time htime key value
    have hfound := hsound.current time htime key value
    rwa [show ledger.cache = c from hcache] at hfound
  refine ⟨⟨huses, horder, hcache, hanswers⟩, hcurrent, fun key => ⟨fun value hfound => ?_,
    fun hnone => ?_⟩, fun key compute f => entries_getOrTry_of_error, ?_⟩
  · exact ⟨fun compute => getOrTry_of_found hfound, fun make => getOrInsert_of_found hfound⟩
  · exact ⟨fun compute => getOrTry_fst_of_missing hnone,
      fun make => getOrInsert_fst_of_missing hnone⟩
  · intro others hothers hsame ledger'
    -- both give and do what the moments without any sweeps do
    obtain ⟨hgive, hdo⟩ := Ledger.runAll_withoutSweeps hstart hstart rfl hothers
    obtain ⟨hgive', hdo'⟩ := Ledger.runAll_withoutSweeps hstart hstart rfl horder
    rw [hsame] at hgive hdo
    have hdeeds : ledger'.deeds = ledger.deeds := hdo.trans hdo'.symm
    refine ⟨hgive.trans (hgive'.symm.trans hanswers), hdeeds, fun time hran hend key => ?_⟩
    refine Option.ext fun value => ?_
    rw [(hstart.runAll hothers).current time hend, hcurrent time hran, ← hdeeds]

/-- A value is found as long as no gap is longer than 10 ms, though a sweep has come between. -/
theorem history_decides_gap :
    let deeds : List (Nat × Deed Nat Nat) := [(12, .written 2 5), (8, .found 1), (0, .written 1 7)]
    Current 10 deeds 18 1 7 ∧ ¬ Current 10 deeds 19 1 7 := by
  let uses : List (Use Nat Empty Nat) := [.insert 1 7, .get 1, .insert 2 5]
  have h := (history_decides 10 0 ⟨0, [0, 0, 8, 4]⟩ uses).2.1
  exact ⟨(h 18 (by decide) 1 7).mp (by decide), fun hgap => absurd ((h 19 (by decide) 1 7).mpr hgap)
    (by decide)⟩

end SeriesQuery.Cache
