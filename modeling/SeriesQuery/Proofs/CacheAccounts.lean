import SeriesQuery.Proofs.CacheHistory

/-!
# The accounts of a cache

A cache counts the look-ups that gave a value, those that gave none, and the entries that sweeps
removed. The counts leave nothing out. Every look-up is a hit or a miss, the one within a use that
computes what it does not find included. And every entry that has come in is still there, or a
sweep has counted it, or it was cleared away.

An entry comes in where a key is set that is not in the table at that moment, and the moment
matters: an insertion that is due for a sweep sweeps first, so a key whose own entry has expired
comes in again, while without that sweep its entry is only replaced. `Use.insertion?` says when a
use sets a key, and `swept` what the table is by then.
-/

namespace SeriesQuery.Cache

variable {κ ε β : Type}

/-- Whether a use looks a key up. -/
def Use.looksUp : Use κ ε β → Bool
  | .get _ => true
  | .getOrInsert _ _ => true
  | .getOrTry _ _ => true
  | .insert _ _ => false
  | .sweep => false
  | .clear => false

/-- How many entries a use clears away. -/
def Use.cleared (c : Cache κ β) : Use κ ε β → Nat
  | .clear => c.size
  | _ => 0

variable [BEq κ]

/-- The value that a use finds when it looks its key up. -/
def Use.found? (c : Cache κ β) (clock : Clock) : Use κ ε β → Option β
  | .get key => (c.get clock.read.1 key).1
  | .getOrInsert key _ => (c.get clock.read.1 key).1
  | .getOrTry key _ => (c.get clock.read.1 key).1
  | _ => none

/-- The key that a use sets, if it sets one, with the cache and the clock when it comes to that: at
once, or after a look-up that found nothing and a computation that gave a value. -/
def Use.insertion? (c : Cache κ β) (clock : Clock) : Use κ ε β → Option (κ × Cache κ β × Clock)
  | .insert key _ => some (key, c, clock)
  | .getOrInsert key _ =>
    let (now, clock) := clock.read
    match c.get now key with
    | (some _, _) => none
    | (none, c) => some (key, c, clock)
  | .getOrTry key compute =>
    let (now, clock) := clock.read
    match c.get now key, compute () with
    | (none, c), .ok _ => some (key, c, clock)
    | _, _ => none
  | _ => none

/-- The cache after the sweep that is due at an insertion, if one is. -/
def swept (c : Cache κ β) (clock : Clock) : Cache κ β :=
  (c.sweepTimes clock).foldl (fun c now => (c.sweep now).2) c

/-- How many entries come in when a key is set: one if the table, swept, has none for the key. -/
def arrivals (key : κ) (c : Cache κ β) (clock : Clock) : Nat :=
  ((c.swept clock).find? key).isNone.toNat

/-- How many entries come in by a use. -/
def Use.arrived (c : Cache κ β) (clock : Clock) (use : Use κ ε β) : Nat :=
  match use.insertion? c clock with
  | some (key, c, clock) => arrivals key c clock
  | none => 0

/-- What is counted at each of some uses, added up over all of them. -/
def Use.total (count : Cache κ β → Clock → Use κ ε β → Nat) (c : Cache κ β) (clock : Clock) :
    List (Use κ ε β) → Nat
  | [] => 0
  | use :: rest =>
    let (_, c', clock') := use.run c clock
    count c clock use + Use.total count c' clock' rest

/-! ## The steps of a use -/

section Steps

variable {entries : List (κ × CacheEntry β)} {key : κ} {new : CacheEntry β}

theorem length_setEntry : (setEntry key new entries).length
    = entries.length + (entries.find? (·.1 == key)).isNone.toNat := by
  induction entries with
  | nil => rfl
  | cons first rest ih =>
      rw [setEntry, List.find?_cons]
      split
      · next hk => simp [hk]
      · next hk =>
          simp only [hk, List.length_cons, ih]
          omega

variable (c : Cache κ β) (now : Nat) (clock : Clock) (value : β)

theorem size_put : (c.put now key value).size
    = c.size + (c.find? key).isNone.toNat := by
  rw [find?_eq, Option.isNone_map]
  exact length_setEntry

theorem insert_fst : (c.insert clock key value).1
    = (c.swept clock).put (c.insert clock key value).2.now key value := by
  unfold insert swept sweepTimes
  dsimp only
  by_cases hdue : c.isSweepDue clock.read.1 = true
  · simp only [if_pos hdue, read_now]
    rfl
  · simp only [if_neg hdue, read_now]
    rfl

end Steps

/-! ## From one cache to a later one -/

/-- From one cache to a later one so many look-ups have been made, of which so many found a value;
so many entries have come in, and so many were cleared away. -/
structure Accounted (c c' : Cache κ β) (found looks arrived cleared : Nat) : Prop where
  hits : c'.counts.hits = c.counts.hits + found
  looks : c'.counts.hits + c'.counts.misses = c.counts.hits + c.counts.misses + looks
  entries : c'.size + c'.counts.evictions + cleared = c.size + c.counts.evictions + arrived

namespace Accounted

variable {c c' c'' : Cache κ β} {found looks arrived cleared found' looks' arrived' cleared' : Nat}

omit [BEq κ] in
theorem refl (c : Cache κ β) : Accounted c c 0 0 0 0 := ⟨rfl, rfl, rfl⟩

omit [BEq κ] in
theorem trans (h : Accounted c c' found looks arrived cleared)
    (h' : Accounted c' c'' found' looks' arrived' cleared') :
    Accounted c c'' (found + found') (looks + looks') (arrived + arrived')
      (cleared + cleared') := by
  obtain ⟨hhits, hlooks, hentries⟩ := h
  obtain ⟨hhits', hlooks', hentries'⟩ := h'
  constructor <;> omega

omit [BEq κ] in
/-- An entry that a sweep removes is counted. -/
theorem sweep (c : Cache κ β) (now : Nat) : Accounted c (c.sweep now).2 0 0 0 0 where
  hits := rfl
  looks := rfl
  entries := by
    have hle : (c.entries.filter fun e => !c.isExpired now e.2).length ≤ c.entries.length :=
      List.length_filter_le ..
    simp only [Cache.sweep, size]
    omega

omit [BEq κ] in
theorem swept (c : Cache κ β) (clock : Clock) : Accounted c (c.swept clock) 0 0 0 0 := by
  unfold Cache.swept
  generalize c.sweepTimes clock = times
  induction times generalizing c with
  | nil => exact refl c
  | cons now times ih => exact (sweep c now).trans (ih _)

omit [BEq κ] in
theorem clear (c : Cache κ β) : Accounted c c.clear 0 0 0 c.size where
  hits := rfl
  looks := rfl
  entries := by
    show 0 + c.counts.evictions + c.size = c.size + c.counts.evictions + 0
    omega

theorem put (c : Cache κ β) (now : Nat) (key : κ) (value : β) :
    Accounted c (c.put now key value) 0 0 (c.find? key).isNone.toNat 0 where
  hits := rfl
  looks := rfl
  entries := by
    rw [size_put]
    show _ + c.counts.evictions + 0 = _
    omega

theorem insert (c : Cache κ β) (clock : Clock) (key : κ) (value : β) :
    Accounted c (c.insert clock key value).1 0 0 (arrivals key c clock) 0 := by
  rw [insert_fst]
  simpa [arrivals] using (swept c clock).trans (put (c.swept clock) _ key value)

/-- A look-up that gives a value is a hit, any other a miss, and neither changes the number of
entries. -/
theorem get (c : Cache κ β) (now : Nat) (key : κ) :
    Accounted c (c.get now key).2 (c.get now key).1.isSome.toNat 1 0 0 := by
  unfold Cache.get
  cases hfind : c.find? key with
  | none => exact ⟨rfl, (Nat.add_assoc ..).symm, rfl⟩
  | some entry =>
      dsimp only
      split
      · exact ⟨rfl, (Nat.add_assoc ..).symm, rfl⟩
      · have hput : (c.put now key entry.value).size = _ := c.size_put now entry.value
        rw [hfind] at hput
        refine ⟨rfl, Nat.add_right_comm .., ?_⟩
        show (c.put now key entry.value).size + c.counts.evictions + 0 = _
        rw [hput]
        rfl

/-- A look-up that finds nothing, and the insertion that follows it. -/
theorem get_insert {c c' : Cache κ β} {now : Nat} {key : κ} (h : c.get now key = (none, c'))
    (clock : Clock) (value : β) :
    Accounted c (c'.insert clock key value).1 0 1 (arrivals key c' clock) 0 := by
  have hget := get c now key
  rw [h] at hget
  have hboth := hget.trans (insert c' clock key value)
  rwa [Nat.zero_add] at hboth

end Accounted

/-! ## Uses -/

/-- Each use adds what it looks up, and its entries come and go as it says. -/
theorem accounted_run (c : Cache κ β) (clock : Clock) (use : Use κ ε β) :
    Accounted c (use.run c clock).2.1 (use.found? c clock).isSome.toNat
      use.looksUp.toNat (use.arrived c clock) (use.cleared c) := by
  cases use with
  | get key => exact .get c _ key
  | insert key value => exact .insert c clock key value
  | getOrInsert key make =>
      have hget := Accounted.get c clock.read.1 key
      simp only [Use.run, Use.found?, Use.arrived, Use.insertion?, getOrInsert]
      cases hfound : c.get clock.read.1 key with
      | mk found c' =>
          rw [hfound] at hget
          cases found with
          | some value => exact hget
          | none => exact .get_insert hfound clock.read.2 (make ())
  | getOrTry key compute =>
      have hget := Accounted.get c clock.read.1 key
      simp only [Use.run, Use.found?, Use.arrived, Use.insertion?, getOrTry]
      cases hfound : c.get clock.read.1 key with
      | mk found c' =>
          rw [hfound] at hget
          cases found with
          | some value => exact hget
          | none =>
              cases hcompute : compute () with
              | error f => exact hget
              | ok value => exact .get_insert hfound clock.read.2 value
  | sweep => exact .sweep c _
  | clear => exact .clear c

theorem accounted_runAll (c : Cache κ β) (clock : Clock) (uses : List (Use κ ε β)) :
    Accounted c (Use.runAll c clock uses).2.1
      (Use.total (fun c clock use => (use.found? c clock).isSome.toNat) c clock uses)
      (uses.countP Use.looksUp) (Use.total (fun c clock use => use.arrived c clock) c clock uses)
      (Use.total (fun c _ use => use.cleared c) c clock uses) := by
  induction uses generalizing c clock with
  | nil => exact .refl c
  | cons use rest ih =>
      have hboth := (accounted_run c clock use).trans
        (ih (use.run c clock).2.1 (use.run c clock).2.2)
      have hlooks : (use :: rest).countP Use.looksUp
          = use.looksUp.toNat + rest.countP Use.looksUp := by
        rw [List.countP_cons, Nat.add_comm]
        cases use.looksUp <;> rfl
      rw [← hlooks] at hboth
      exact hboth

/-- After any uses of a cache the hits are the look-ups that gave a value, hits and misses together
are all look-ups, and the entries that have come in are those that are there, those that sweeps
have counted and those that were cleared away. -/
theorem entries_accounted (idle created : Nat) (clock : Clock) (uses : List (Use κ ε β)) :
    let start : Cache κ β := empty idle created
    let c := (Use.runAll start clock uses).2.1
    c.counts.hits
        = Use.total (fun c clock use => (use.found? c clock).isSome.toNat) start clock uses
      ∧ c.counts.hits + c.counts.misses = uses.countP Use.looksUp
      ∧ Use.total (fun c clock use => use.arrived c clock) start clock uses
        = c.size + c.counts.evictions
          + Use.total (fun c _ use => use.cleared c) start clock uses := by
  intro start c
  obtain ⟨hhits, hlooks, hentries⟩ := accounted_runAll start clock uses
  have hnone : start.size + start.counts.evictions = 0 := rfl
  rw [hnone, Nat.zero_add] at hentries
  exact ⟨hhits.trans (Nat.zero_add _), hlooks.trans (Nat.zero_add _), hentries.symm⟩

/-- Set again 20 ms later, a key whose entry lasts 10 ms comes in twice, and a sweep counts the
first of the two. -/
example :
    let uses : List (Use Nat Empty Nat) := [.insert 1 7, .get 1, .insert 1 8, .get 1, .clear]
    let c := (Use.runAll (empty 10 0) ⟨0, [0, 0, 20]⟩ uses).2.1
    c.counts = ⟨1, 1, 1⟩
      ∧ Use.total (fun c clock use => use.arrived c clock) (empty 10 0) ⟨0, [0, 0, 20]⟩ uses
        = 2 := by
  decide

end SeriesQuery.Cache
