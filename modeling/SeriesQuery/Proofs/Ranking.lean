import SeriesQuery.Proofs.ValueRanks

/-!
# The largest and the smallest samples

Top and Bottom take the front of the samples in the order of their values. So what they take is in
that order, with level samples as they were, and whatever they leave out comes after all that they
take: it is not better than any of it, and where it is level it stands further back. Normalised,
they take the same samples and change nothing but the times.
-/

namespace SeriesQuery

open Binary64

/-- Samples chosen from some of the places, at most `count` of them: they are in order, and all
other places come after the chosen ones. -/
structure Selects (better : Float → Float → Bool) (samples : List Sample) (count : ℕ)
    (chosen : List Sample) (places : List (Fin samples.length)) : Prop where
  /-- The chosen samples are those at the places. -/
  chosen_eq : chosen = places.map samples.get
  /-- As many are chosen as can be. -/
  length_eq : places.length = min count samples.length
  /-- No place is chosen twice. -/
  nodup : places.Nodup
  /-- Better samples come first, and level ones as they were. -/
  inOrder : places.Pairwise (Precedes better samples)
  /-- A sample that is left out is not better than a chosen one, and if it is level it was
  behind it. -/
  left_out : ∀ i ∈ places, ∀ j ∉ places, Precedes better samples i j

variable {better : Float → Float → Bool} {rank : Float → ℚ} {samples ordered : List Sample}

/-- The front of the places in order. -/
theorem selects_front (h : RanksBy better rank) (hn : ∀ s ∈ samples, ¬ IsNaN s.value)
    (count : ℕ) : Selects better samples count
      ((sorted (fun a b => better a.value b.value) samples).take count)
      ((placesInOrder better samples).take count) := by
  have hin := pairwise_placesInOrder h hn
  have hcross : ∀ i ∈ (placesInOrder better samples).take count,
      ∀ j ∈ (placesInOrder better samples).drop count, Precedes better samples i j := by
    rw [← List.take_append_drop count (placesInOrder better samples)] at hin
    exact (List.pairwise_append.mp hin).2.2
  refine ⟨?_, ?_, ?_, hin.sublist (List.take_sublist _ _), fun i hi j hj => hcross i hi j ?_⟩
  · rw [List.map_take, map_get_placesInOrder]
  · rw [List.length_take, length_placesInOrder]
  · exact (nodup_placesInOrder better samples).sublist (List.take_sublist _ _)
  · have hall := mem_placesInOrder better j
    rw [← List.take_append_drop count (placesInOrder better samples), List.mem_append] at hall
    exact hall.resolve_left hj

namespace Choice

/-- Not normalised, the front of the ordered samples is taken. -/
theorem take_eq_take (h : ordered.length = samples.length) (count : ℕ) :
    take samples ordered count false = ordered.take count := by
  cases samples with
  | nil =>
      obtain rfl := List.length_eq_zero_iff.mp h
      exact List.take_nil.symm
  | cons s rest =>
      unfold take
      rw [List.head?_cons, List.getLast?_cons]
      exact List.take_eq_take_min.symm

/-- The times are those of an even axis. -/
theorem getElem?_retime (base step : Float) (l : List Sample) (i : ℕ) :
    (retime base step l)[i]? = l[i]?.map fun s => s.withTime (base + Float.ofNat i * step) := by
  simp [retime, List.getElem?_zipIdx, Function.comp_def]

/-- Other times, and nothing else changed. -/
theorem retime_forall₂ (base step : Float) (l : List Sample) :
    List.Forall₂ (fun retimed s => ∃ time, retimed = s.withTime time) (retime base step l) l := by
  rw [retime, List.forall₂_map_left_iff]
  have hsame : List.Forall₂ (fun p s => p.1 = s) l.zipIdx l := by
    rw [← List.forall₂_map_left_iff (f := Prod.fst), List.zipIdx_map_fst]
    exact List.forall₂_same.mpr fun s _ => rfl
  exact hsame.imp fun p s hp => ⟨base + Float.ofNat p.2 * step, hp ▸ rfl⟩

/-- Normalised, the same samples are taken at other times. -/
theorem take_normalized (samples ordered : List Sample) (count : ℕ) :
    List.Forall₂ (fun retimed s => ∃ time, retimed = s.withTime time)
      (take samples ordered count true) (take samples ordered count false) := by
  unfold take
  dsimp only
  split
  · exact retime_forall₂ _ _ _
  · exact .nil

/-- Normalised, the samples that are taken stand at even distances from the first time on, so many
that the last of them would stand at the last time. -/
theorem getElem?_take_normalized {head tail : Sample} (hhead : samples.head? = some head)
    (htail : samples.getLast? = some tail) (count i : ℕ) :
    let step := (tail.time - head.time) / Float.ofNat (max (min count ordered.length - 1) 1)
    (take samples ordered count true)[i]? = (take samples ordered count false)[i]?.map fun s =>
      s.withTime (head.time + Float.ofNat i * step) := by
  unfold take
  simp only [hhead, htail, if_true, Bool.false_eq_true, if_false]
  exact getElem?_retime _ _ _ _

theorem exists_selects_take (h : RanksBy better rank) (hn : ∀ s ∈ samples, ¬ IsNaN s.value)
    (count : ℕ) : ∃ places, Selects better samples count
      (take samples (sorted (fun a b => better a.value b.value) samples) count false) places := by
  rw [take_eq_take (length_sorted _ _)]
  exact ⟨_, selects_front h hn count⟩

/-- Among samples that are all numbers Top chooses the largest and Bottom the smallest, level ones
from the front, and normalising changes no more than their times. -/
theorem ranking_selects (hn : ∀ s ∈ samples, ¬ IsNaN s.value) (count : ℕ) :
    (∃ places, Selects (fun x y => y < x) samples count (top samples count false) places)
      ∧ (∃ places, Selects (fun x y => x < y) samples count (bottom samples count false) places)
      ∧ List.Forall₂ (fun retimed s => ∃ time, retimed = s.withTime time)
        (top samples count true) (top samples count false)
      ∧ List.Forall₂ (fun retimed s => ∃ time, retimed = s.withTime time)
        (bottom samples count true) (bottom samples count false) :=
  ⟨exists_selects_take ranksBy_neg_value hn count, exists_selects_take ranksBy_value hn count,
    take_normalized _ _ _, take_normalized _ _ _⟩

/-- Of two level samples on either side of the cut the earlier one is chosen, minus zero and zero
being level. -/
theorem ranking_selects_level :
    let point (value time : Float) : Sample := .of (Text.of "A") value time 0
    let samples := [point (-1.0) 1000.0, point (-0.0) 2000.0, point (-5.0) 3000.0,
      point 0.0 4000.0]
    (∀ s ∈ samples, ¬ IsNaN s.value)
      ∧ (∃ places, Selects (fun x y => y < x) samples 1 (top samples 1 false) places)
      ∧ top samples 1 false = [point (-0.0) 2000.0] := by
  intro point samples
  have hfinite : ∀ s ∈ samples, s.value.isFinite = true := by decide +kernel
  have hn : ∀ s ∈ samples, ¬ IsNaN s.value := fun s hs => not_isNaN_of_isFinite (hfinite s hs)
  exact ⟨hn, (ranking_selects hn 1).1, by decide +kernel⟩

end Choice

end SeriesQuery
