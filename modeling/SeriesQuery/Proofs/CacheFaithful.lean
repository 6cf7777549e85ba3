import SeriesQuery.Cache

/-!
# What caches hold

A cache that is only ever given values that agree with a law holds nothing else, whatever the
clock reads: an entry is written whole, and sweeping and expiry only take entries away. The
value that a computing look-up returns is then either the one it has just computed or one that an
equal computation gave before, so for a law that has one value for each key the two cannot be told
apart.
-/

namespace SeriesQuery.Cache

variable {κ β : Type}

/-- Every entry, expired or not, has a value that the law allows for its key. -/
def Holds (law : κ → β → Prop) (c : Cache κ β) : Prop :=
  ∀ entry ∈ c.entries, law entry.1 entry.2.value

namespace Holds

variable {law : κ → β → Prop} {c : Cache κ β}

theorem empty (idle now : Nat) : Holds law (Cache.empty idle now) := by
  intro entry h
  cases h

theorem clear : Holds law c.clear := by
  intro entry h
  cases h

theorem sweep (h : Holds law c) (now : Nat) : Holds law (c.sweep now).2 := by
  intro entry hmem
  exact h entry (List.mem_filter.mp hmem).1

variable [BEq κ]

theorem setEntry {entries : List (κ × CacheEntry β)} {key : κ} {new : CacheEntry β}
    (h : ∀ entry ∈ entries, law entry.1 entry.2.value) (hnew : law key new.value) :
    ∀ entry ∈ Cache.setEntry key new entries, law entry.1 entry.2.value := by
  induction entries with
  | nil =>
      intro entry hmem
      rw [Cache.setEntry, List.mem_singleton] at hmem
      rw [hmem]
      exact hnew
  | cons first rest ih =>
      have hrest := ih fun entry hmem => h entry (List.mem_cons_of_mem _ hmem)
      intro entry hmem
      rw [Cache.setEntry] at hmem
      split at hmem
      · rcases List.mem_cons.mp hmem with rfl | hmem
        · exact hnew
        · exact h entry (List.mem_cons_of_mem _ hmem)
      · rcases List.mem_cons.mp hmem with rfl | hmem
        · exact h _ List.mem_cons_self
        · exact hrest entry hmem

theorem put (h : Holds law c) (now : Nat) {key : κ} {value : β} (hv : law key value) :
    Holds law (c.put now key value) :=
  setEntry h hv

theorem insert (h : Holds law c) (clock : Clock) {key : κ} {value : β} (hv : law key value) :
    Holds law (c.insert clock key value).1 := by
  unfold Cache.insert
  dsimp only
  split
  · exact put (sweep h _) _ hv
  · exact put h _ hv

variable [LawfulBEq κ]

theorem find? (h : Holds law c) {key : κ} {entry : CacheEntry β} (hf : c.find? key = some entry) :
    law key entry.value := by
  unfold Cache.find? at hf
  rw [Option.map_eq_some_iff] at hf
  obtain ⟨⟨k, e⟩, hfound, rfl⟩ := hf
  have hbeq := List.find?_some hfound
  have hkey : k = key := eq_of_beq hbeq
  have := h (k, e) (List.mem_of_find?_eq_some hfound)
  rwa [hkey] at this

theorem get (h : Holds law c) (now : Nat) (key : κ) :
    Holds law (c.get now key).2 ∧ ∀ value, (c.get now key).1 = some value → law key value := by
  unfold Cache.get
  dsimp only
  split
  · exact ⟨h, fun value hv => by cases hv⟩
  · next entry hf =>
      have hlaw := h.find? hf
      split
      · exact ⟨h, fun value hv => by cases hv⟩
      · refine ⟨put h now hlaw, fun value hv => ?_⟩
        cases hv
        exact hlaw

/-- A look-up that computes what it does not find gives what the computation would have given,
faults included, and a fault leaves nothing behind. -/
theorem getOrTry {ε : Type} (compute : κ → Except ε β) {c : Cache κ β}
    (h : Holds (fun key value => compute key = .ok value) c) (clock : Clock) (key : κ)
    (thunk : Unit → Except ε β) (ht : thunk () = compute key) :
    (c.getOrTry clock key thunk).1 = compute key
      ∧ Holds (fun key value => compute key = .ok value) (c.getOrTry clock key thunk).2.1 := by
  unfold Cache.getOrTry
  dsimp only
  obtain ⟨hkeep, hval⟩ := h.get clock.read.1 key
  split
  · next value c' hg =>
      rw [hg] at hkeep hval
      exact ⟨(hval value rfl).symm, hkeep⟩
  · next c' hg =>
      rw [hg] at hkeep
      split
      · next f hf => exact ⟨by rw [← ht, hf], hkeep⟩
      · next value hv =>
          rw [ht] at hv
          exact ⟨hv.symm, insert hkeep _ hv⟩

/-- A look-up that makes what it does not find gives a value that the law allows, if what it makes
is one. -/
theorem getOrInsert (h : Holds law c) (clock : Clock) {key : κ} {make : Unit → β}
    (hmake : law key (make ())) :
    law key (c.getOrInsert clock key make).1 ∧ Holds law (c.getOrInsert clock key make).2.1 := by
  unfold Cache.getOrInsert
  dsimp only
  obtain ⟨hkeep, hval⟩ := h.get clock.read.1 key
  split
  · next value c' hg =>
      rw [hg] at hkeep hval
      exact ⟨hval value rfl, hkeep⟩
  · next c' hg =>
      rw [hg] at hkeep
      exact ⟨hmake, insert hkeep _ hmake⟩

end Holds

/-! ## Look-ups one after the other -/

section Again

variable [BEq κ]

/-- An entry that was used just now is found. -/
theorem get_of_find? {c : Cache κ β} {now : Nat} {key : κ} {value : β}
    (h : c.find? key = some ⟨value, now⟩) : (c.get now key).1 = some value := by
  have hlive : c.isExpired now ⟨value, now⟩ = false :=
    decide_eq_false (Nat.not_lt.mpr (Nat.le_add_right _ _))
  unfold get
  dsimp only
  rw [h]
  dsimp only
  rw [hlive]
  rfl

/-- Whether or not a sweep is due, a value is set last, and a clock that stands still goes on
standing still. -/
theorem insert_still (c : Cache κ β) (now : Nat) (key : κ) (value : β) :
    ∃ c' : Cache κ β, c.insert (Clock.still now) key value
      = (c'.put now key value, Clock.still now) := by
  unfold insert
  dsimp only [Clock.read, Clock.still]
  by_cases hdue : c.isSweepDue now = true
  · exact ⟨(c.sweep now).2, by rw [if_pos hdue]⟩
  · exact ⟨c, by rw [if_neg hdue]⟩

variable [LawfulBEq κ]

theorem find?_put (c : Cache κ β) (now : Nat) (key : κ) (value : β) :
    (c.put now key value).find? key = some ⟨value, now⟩ := by
  unfold find? put
  dsimp only
  induction c.entries with
  | nil => simp [setEntry]
  | cons first rest ih =>
      rw [setEntry]
      split
      · simp
      · next hne =>
          rw [List.find?_cons_of_neg (by simpa using hne)]
          exact ih

/-- What a look-up gives is in the cache afterwards, used just now. -/
theorem find?_getOrInsert (c : Cache κ β) (now : Nat) (key : κ) (make : Unit → β) :
    (c.getOrInsert (Clock.still now) key make).2.2 = Clock.still now
      ∧ (c.getOrInsert (Clock.still now) key make).2.1.find? key
        = some ⟨(c.getOrInsert (Clock.still now) key make).1, now⟩ := by
  have hread : (Clock.still now).read = (now, Clock.still now) := rfl
  unfold getOrInsert
  rw [hread]
  dsimp only
  split
  · next value c' hg =>
      refine ⟨rfl, ?_⟩
      unfold get at hg
      dsimp only at hg
      split at hg
      · cases hg
      · split at hg
        · cases hg
        · cases hg
          exact find?_put _ _ _ _
  · next c' hg =>
      obtain ⟨c'', hinsert⟩ := insert_still c' now key (make ())
      rw [hinsert]
      exact ⟨rfl, find?_put _ _ _ _⟩

/-- As long as the clock stands still, what has been looked up or made for a key is what the next
look-up of the key gives, whatever it would make itself. -/
theorem getOrInsert_again (c : Cache κ β) (now : Nat) (key : κ) (make other : Unit → β) :
    let first := c.getOrInsert (Clock.still now) key make
    (first.2.1.getOrInsert first.2.2 key other).1 = first.1 := by
  obtain ⟨hclock, hfind⟩ := find?_getOrInsert c now key make
  dsimp only
  rw [hclock]
  have hget := get_of_find? hfind
  generalize (c.getOrInsert (Clock.still now) key make).2.1 = c' at hget ⊢
  unfold getOrInsert
  dsimp only [Clock.read, Clock.still]
  split
  · next value c'' hg =>
      rw [hg] at hget
      exact Option.some.inj hget
  · next c'' hg =>
      rw [hg] at hget
      cases hget

end Again

end SeriesQuery.Cache
