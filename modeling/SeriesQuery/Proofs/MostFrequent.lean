import Mathlib
import SeriesQuery.Evaluation.Reduction

/-!
# The most frequent value

The values are counted while the samples are read, and a value takes the lead when it has occurred
more often than any before it. One that only draws level does not take over, so of several values
that occur equally often the one stays in the lead that got there first. What is found is said by
places, without the counting: among the values that occur most often it is the one whose last
occurrence comes first. That is the invariant, too, said of the samples read so far.
-/

namespace SeriesQuery.Reduction

/-! ## Occurrences -/

theorem occurrences_concat (bits : UInt64) (samples : List Sample) (s : Sample) :
    occurrences bits (samples ++ [s])
      = occurrences bits samples + if s.bits = bits then 1 else 0 := by
  unfold occurrences
  rw [List.countP_append, List.countP_singleton]
  simp only [beq_iff_eq]

theorem occurrences_take_le (bits : UInt64) (samples : List Sample) (n : Nat) :
    occurrences bits (samples.take n) ≤ occurrences bits samples :=
  (List.take_sublist n samples).countP_le

/-- The `n`-th occurrence of a value stands at a place. -/
structure OccursAt (samples : List Sample) (bits : UInt64) (n place : Nat) : Prop where
  /-- The value stands there … -/
  here : ∃ s, samples[place]? = some s ∧ s.bits = bits
  /-- … and so many times before. -/
  before : occurrences bits (samples.take place) + 1 = n

namespace OccursAt

variable {samples : List Sample} {bits : UInt64} {n place : Nat}

theorem lt_length (h : OccursAt samples bits n place) : place < samples.length := by
  obtain ⟨s, hs, -⟩ := h.here
  exact (List.getElem?_eq_some_iff.mp hs).1

theorem concat (h : OccursAt samples bits n place) (s : Sample) :
    OccursAt (samples ++ [s]) bits n place where
  here := by
    rw [List.getElem?_append_left h.lt_length]
    exact h.here
  before := by
    rw [List.take_append_of_le_length (Nat.le_of_lt h.lt_length)]
    exact h.before

/-- An occurrence is an earlier one or the sample that has come last. -/
theorem of_concat {s : Sample} (h : OccursAt (samples ++ [s]) bits n place) :
    OccursAt samples bits n place
      ∨ place = samples.length ∧ s.bits = bits ∧ occurrences bits samples + 1 = n := by
  rcases Nat.lt_or_ge place samples.length with hlt | hge
  · left
    obtain ⟨hhere, hbefore⟩ := h
    rw [List.getElem?_append_left hlt] at hhere
    rw [List.take_append_of_le_length (Nat.le_of_lt hlt)] at hbefore
    exact ⟨hhere, hbefore⟩
  · right
    have hlast : place = samples.length := by
      have hlt := h.lt_length
      rw [List.length_append, List.length_singleton] at hlt
      omega
    subst hlast
    obtain ⟨t, ht, hbits⟩ := h.here
    have hcount := h.before
    rw [List.getElem?_concat_length, Option.some_inj] at ht
    rw [List.take_left] at hcount
    exact ⟨rfl, ht ▸ hbits, hcount⟩

theorem le_occurrences (h : OccursAt samples bits n place) : n ≤ occurrences bits samples := by
  obtain ⟨s, hs, hbits⟩ := h.here
  have htake := occurrences_take_le bits samples (place + 1)
  rw [List.take_add_one, hs, Option.toList_some, occurrences_concat, if_pos hbits,
    h.before] at htake
  exact htake

end OccursAt

/-! ## The value in the lead -/

/-- A value that occurs most often, and of those that do so the one whose last occurrence comes
first. -/
structure IsMode (samples : List Sample) (bits : UInt64) : Prop where
  /-- No value occurs more often. -/
  most : ∀ w, occurrences w samples ≤ occurrences bits samples
  /-- None that occurs as often has done so before. -/
  first : ∃ place, OccursAt samples bits (occurrences bits samples) place
    ∧ ∀ w place', OccursAt samples w (occurrences bits samples) place' → place ≤ place'

variable {samples : List Sample} {s : Sample}

/-- A value that has occurred more often than any before it takes the lead. -/
theorem isMode_of_overtakes {n : Nat} (hmost : ∀ w, occurrences w samples ≤ n)
    (hmore : n < occurrences s.bits samples + 1) : IsMode (samples ++ [s]) s.bits := by
  have hn : occurrences s.bits samples = n := by
    have := hmost s.bits
    omega
  have hcount : occurrences s.bits (samples ++ [s]) = n + 1 := by
    rw [occurrences_concat, if_pos rfl, hn]
  refine ⟨fun w => ?_, samples.length, ?_, fun w place hw => ?_⟩
  · have := hmost w
    rw [hcount, occurrences_concat]
    split <;> omega
  · rw [hcount]
    refine ⟨⟨s, List.getElem?_concat_length, rfl⟩, ?_⟩
    rw [List.take_left, hn]
  · -- no value has occurred so often before
    rw [hcount] at hw
    rcases hw.of_concat with hw | ⟨hplace, -⟩
    · have := hw.le_occurrences
      have := hmost w
      omega
    · exact Nat.le_of_eq hplace.symm

/-- A sample by which a value is not overtaken does not hold it. -/
theorem occurrences_of_not_overtaken {v : UInt64}
    (hnot : ¬ occurrences v samples < occurrences s.bits samples + 1) :
    occurrences v (samples ++ [s]) = occurrences v samples := by
  have hne : s.bits ≠ v := by
    rintro rfl
    omega
  rw [occurrences_concat, if_neg hne, Nat.add_zero]

/-- A value stays in the lead while none occurs more often. -/
theorem IsMode.concat {v : UInt64} (h : IsMode samples v)
    (hnot : ¬ occurrences v samples < occurrences s.bits samples + 1) :
    IsMode (samples ++ [s]) v := by
  have hcount := occurrences_of_not_overtaken hnot
  obtain ⟨place, hplace, hfirst⟩ := h.first
  refine ⟨fun w => ?_, place, ?_, fun w place' hw => ?_⟩
  · rw [hcount, occurrences_concat]
    split
    · next hbits =>
        subst hbits
        omega
    · exact h.most w
  · rw [hcount]
    exact hplace.concat s
  · rw [hcount] at hw
    rcases hw.of_concat with hw | ⟨hlast, -⟩
    · exact hfirst w place' hw
    · have := hplace.lt_length
      omega

/-! ## The whole reading -/

/-- The value in the lead after some samples, with its count, leads to the one in the lead after
all of them. -/
theorem isMode_mostFrequent {v : UInt64} (h : IsMode samples v) (rest : List Sample) :
    IsMode (samples ++ rest)
      (mostFrequent (v, occurrences v samples) samples.reverse rest).1 := by
  -- by induction on what is to be read; what has been read is kept in reverse
  induction rest generalizing samples v with
  | nil => rwa [List.append_nil]
  | cons s rest ih =>
      have hback : occurrences s.bits samples.reverse = occurrences s.bits samples :=
        List.countP_reverse
      have hread : s :: samples.reverse = (samples ++ [s]).reverse := by
        rw [List.reverse_append, List.reverse_singleton, List.singleton_append]
      unfold mostFrequent
      dsimp only
      rw [hback, hread, List.append_cons]
      split
      · next hmore =>
          have hstep := ih (isMode_of_overtakes h.most hmore)
          rwa [occurrences_concat, if_pos rfl] at hstep
      · next hnot =>
          have hstep := ih (h.concat hnot)
          rwa [occurrences_of_not_overtaken hnot] at hstep

theorem IsMode.unique {v w : UInt64} (hv : IsMode samples v) (hw : IsMode samples w) :
    w = v := by
  have hcount : occurrences w samples = occurrences v samples :=
    Nat.le_antisymm (hv.most w) (hw.most v)
  obtain ⟨i, hi, hfirst⟩ := hv.first
  obtain ⟨j, hj, hfirst'⟩ := hw.first
  rw [hcount] at hj hfirst'
  -- the greatest count is first reached at one place, which holds one value
  obtain rfl : i = j := Nat.le_antisymm (hfirst w j hj) (hfirst' v i hi)
  obtain ⟨s, hs, hbits⟩ := hi.here
  obtain ⟨t, ht, hbits'⟩ := hj.here
  rw [hs, Option.some_inj] at ht
  rw [← hbits, ← hbits', ht]

theorem mostFrequent_start (s : Sample) (rest : List Sample) :
    mostFrequent (s.bits, 0) [] (s :: rest)
      = mostFrequent (s.bits, occurrences s.bits [s]) [s].reverse rest := by
  have hone : occurrences s.bits [s] = 1 := by
    rw [← List.nil_append [s], occurrences_concat, if_pos rfl]
    rfl
  rw [hone]
  rfl

/-- Of samples the last is given the value that occurs most often, bit for bit, and of several
such values the one that was the first to have occurred so often. -/
theorem mode_most_frequent (hsome : samples ≠ []) :
    ∃ bits, mode samples = some ((samples.getLast hsome).withBits bits)
      ∧ ∀ w, IsMode samples w ↔ w = bits := by
  cases samples with
  | nil => exact absurd rfl hsome
  | cons s rest =>
      have hfirst : IsMode [s] s.bits :=
        @isMode_of_overtakes [] s 0 (fun _ => Nat.le_refl 0) Nat.zero_lt_one
      have hmode := isMode_mostFrequent hfirst rest
      rw [← mostFrequent_start, List.singleton_append] at hmode
      refine ⟨(mostFrequent (s.bits, 0) [] (s :: rest)).1, ?_, fun w => ⟨hmode.unique, ?_⟩⟩
      · rw [mode, List.getLast?_eq_some_getLast hsome]
        rfl
      · rintro rfl
        exact hmode

/-- Of two values that occur twice the second to appear is the first to have done so. Of what is not
a number there are two patterns of bits, each of which occurs once. -/
theorem mode_most_frequent_ties :
    let point (bits : UInt64) (time : Float) : Sample := ⟨Text.of "A", bits, time, 0⟩
    let one := (1.0 : Float).toBits
    let two := (2.0 : Float).toBits
    let samples := [point 0x7ff8000000000000 1000.0, point one 2000.0,
      point 0xfff8000000000000 3000.0, point two 4000.0, point two 5000.0, point one 6000.0]
    samples ≠ [] ∧ mode samples = some (point two 6000.0) ∧ IsMode samples two := by
  intro point one two samples
  have hsome : samples ≠ [] := List.cons_ne_nil _ _
  have hresult : mode samples = some (point two 6000.0) := by decide +kernel
  obtain ⟨bits, hmode, hiff⟩ := mode_most_frequent hsome
  refine ⟨hsome, hresult, (hiff two).mpr ?_⟩
  rw [hresult, Option.some_inj] at hmode
  exact congrArg (·.bits) hmode

end SeriesQuery.Reduction
