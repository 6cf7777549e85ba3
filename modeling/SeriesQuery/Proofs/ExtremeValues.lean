import SeriesQuery.Proofs.Ranking

/-!
# Ways to the smallest and the largest sample

The smallest sample is found by going through the samples once, by taking one from the bottom, and
by reading where no part of the samples lies below. All three give the first sample of the samples
in order: to go through them and keep the better one is to watch the front of the list that they
are sorted into. The largest sample is found likewise in the opposite order, going through or
taking one from the top. But where all of the samples lie below, the last one of the increasing
order is read. It is as large as the largest, and of several the one that came last.
-/

namespace SeriesQuery

open Binary64

variable {better : Float → Float → Bool} {rank : Float → ℚ} {samples : List Sample}

/-! ## The front of the order -/

namespace Reduction

theorem keepBetter_eq_front (better : Float → Float → Bool) :
    keepBetter better = front fun a b => better a.value b.value := by
  funext best s
  cases best with
  | none => rfl
  | some b => rfl

/-- The better one is kept all along: it is the first of the samples in order. -/
theorem foldl_keepBetter_eq_head? (h : RanksBy better rank)
    (hn : ∀ s ∈ samples, ¬ IsNaN s.value) : samples.foldl (keepBetter better) none
      = (sorted (fun a b => better a.value b.value) samples).head? := by
  rw [keepBetter_eq_front, head?_sorted (h.orderOn hn)]

theorem dated_eq_self (hpos : ∀ s ∈ samples, 0.0 < s.time) : dated samples = samples :=
  List.filter_eq_self.mpr fun s hs => decide_eq_true (hpos s hs)

theorem percentile_zero (samples : List Sample) :
    percentile 0.0 samples = (sortedUp samples).head? := by
  unfold percentile
  rw [if_pos (by decide +kernel)]

theorem percentile_hundred (samples : List Sample) :
    percentile 100.0 samples = (sortedUp samples).getLast? := by
  have hnotLow : ¬ (100.0 : Float) ≤ 0.0 := by decide +kernel
  have hhigh : (decide ((100.0 : Float) ≤ 100.0)) = true := by decide +kernel
  unfold percentile
  rw [if_neg hnotLow, hhigh, Bool.true_or, if_pos rfl]

end Reduction

theorem Choice.take_one {ordered : List Sample} (h : ordered.length = samples.length) {s : Sample}
    (hs : ordered.head? = some s) : Choice.take samples ordered 1 false = [s] := by
  obtain ⟨rest, rfl⟩ := List.head?_eq_some_iff.mp hs
  rw [Choice.take_eq_take h]
  rfl

/-! ## The two ends of the order -/

theorem placesInOrder_ne_nil (better : Float → Float → Bool) (hsome : samples ≠ []) :
    placesInOrder better samples ≠ [] := by
  rw [← List.length_pos_iff, length_placesInOrder]
  exact List.length_pos_iff.mpr hsome

/-- The first sample of the order stands at a place that comes before all others. -/
theorem exists_first_place (h : RanksBy better rank) (hsome : samples ≠ [])
    (hn : ∀ s ∈ samples, ¬ IsNaN s.value) :
    ∃ i : Fin samples.length, (∀ j ≠ i, Precedes better samples i j)
      ∧ (sorted (fun a b => better a.value b.value) samples).head? = some (samples.get i) := by
  have hin := pairwise_placesInOrder h hn
  have hmap := map_get_placesInOrder better samples
  have hmem : ∀ j, j ∈ placesInOrder better samples := mem_placesInOrder better
  obtain ⟨i, rest, hplaces⟩ := List.exists_cons_of_ne_nil (placesInOrder_ne_nil better hsome)
  rw [hplaces] at hin hmap hmem
  refine ⟨i, fun j hj => ?_, ?_⟩
  · exact (List.pairwise_cons.mp hin).1 j ((List.mem_cons.mp (hmem j)).resolve_left hj)
  · rw [← hmap]
    rfl

/-- The last sample of the order stands at a place that comes after all others. -/
theorem exists_last_place (h : RanksBy better rank) (hsome : samples ≠ [])
    (hn : ∀ s ∈ samples, ¬ IsNaN s.value) :
    ∃ k : Fin samples.length, (∀ j ≠ k, Precedes better samples j k)
      ∧ (sorted (fun a b => better a.value b.value) samples).getLast? = some (samples.get k) := by
  have hin := pairwise_placesInOrder h hn
  have hmap := map_get_placesInOrder better samples
  have hmem : ∀ j, j ∈ placesInOrder better samples := mem_placesInOrder better
  obtain ⟨front, k, hplaces⟩ := (List.eq_nil_or_concat _).resolve_left
    (placesInOrder_ne_nil better hsome)
  rw [hplaces, List.concat_eq_append] at hin hmap hmem
  refine ⟨k, fun j hj => ?_, ?_⟩
  · have hfront : j ∈ front := by
      rcases List.mem_append.mp (hmem j) with hj' | hj'
      · exact hj'
      · exact absurd (List.mem_singleton.mp hj') hj
    exact (List.pairwise_append.mp hin).2.2 j hfront k (List.mem_singleton_self k)
  · rw [← hmap, List.map_append, List.map_singleton, List.getLast?_append]
    rfl

/-- The place that comes last in increasing order is the one that comes first in decreasing order
exactly if nothing else is as large. -/
theorem last_eq_first_iff {i k : Fin samples.length}
    (hi : ∀ j ≠ i, Precedes (fun x y => y < x) samples i j)
    (hk : ∀ j ≠ k, Precedes (fun x y => x < y) samples j k) :
    k = i ↔ ∀ j ≠ i, (samples.get j).value < (samples.get i).value := by
  constructor
  · rintro rfl j hj
    obtain ⟨hle, hlevel⟩ := hi j hj
    obtain ⟨-, hlevel'⟩ := hk j hj
    -- were the two level, each place would be the earlier one
    by_contra hnot
    have hearly := hlevel (decide_eq_false hnot)
    have hlate := hlevel' (decide_eq_false hnot)
    omega
  · intro hall
    by_contra hne
    have hnot : ¬ (samples.get k).value < (samples.get i).value :=
      of_decide_eq_false (hk i (Ne.symm hne)).1
    exact hnot (hall k hne)

/-- Of samples that are all numbers after time zero the smallest is found in three ways, which
all give the first one of several. The largest is found in two ways, which do so, too; the sample
that all others lie below is the last one of several, and so it is the same exactly if nothing
else is as large. -/
theorem extremes_agree (hsome : samples ≠ []) (hn : ∀ s ∈ samples, ¬ IsNaN s.value)
    (hpos : ∀ s ∈ samples, 0.0 < s.time) :
    (∃ i : Fin samples.length, (∀ j ≠ i, Precedes (fun x y => x < y) samples i j)
        ∧ Reduction.minimum samples = some (samples.get i)
        ∧ Choice.bottom samples 1 false = [samples.get i]
        ∧ Reduction.percentile 0.0 samples = some (samples.get i))
      ∧ ∃ i k : Fin samples.length, (∀ j ≠ i, Precedes (fun x y => y < x) samples i j)
        ∧ Reduction.maximum samples = some (samples.get i)
        ∧ Choice.top samples 1 false = [samples.get i]
        ∧ Reduction.percentile 100.0 samples = some (samples.get k)
        ∧ (∀ j ≠ k, Precedes (fun x y => x < y) samples j k)
        ∧ (k = i ↔ ∀ j ≠ i, (samples.get j).value < (samples.get i).value) := by
  have hdated := Reduction.dated_eq_self hpos
  constructor
  · obtain ⟨i, hi, hhead⟩ := exists_first_place ranksBy_value hsome hn
    refine ⟨i, hi, ?_, Choice.take_one (length_sorted _ _) hhead, ?_⟩
    · rw [Reduction.minimum, hdated, Reduction.foldl_keepBetter_eq_head? ranksBy_value hn, hhead]
    · rw [Reduction.percentile_zero]
      exact hhead
  · obtain ⟨i, hi, hhead⟩ := exists_first_place ranksBy_neg_value hsome hn
    obtain ⟨k, hk, hlast⟩ := exists_last_place ranksBy_value hsome hn
    refine ⟨i, k, hi, ?_, Choice.take_one (length_sorted _ _) hhead, ?_, hk,
      last_eq_first_iff hi hk⟩
    · rw [Reduction.maximum, hdated, Reduction.foldl_keepBetter_eq_head? ranksBy_neg_value hn,
        hhead]
    · rw [Reduction.percentile_hundred]
      exact hlast

/-- Two smallest and two largest samples. -/
theorem extremes_agree_ties :
    let point (value time : Float) : Sample := .of (Text.of "A") value time 0
    let samples := [point 5.0 1000.0, point (-0.0) 2000.0, point 0.0 3000.0, point 5.0 4000.0]
    samples ≠ [] ∧ (∀ s ∈ samples, ¬ IsNaN s.value) ∧ (∀ s ∈ samples, 0.0 < s.time)
      ∧ (∃ s, Reduction.minimum samples = some s ∧ Choice.bottom samples 1 false = [s]
        ∧ Reduction.percentile 0.0 samples = some s)
      ∧ ∃ s, Reduction.maximum samples = some s ∧ Choice.top samples 1 false = [s] := by
  intro point samples
  have hfinite : ∀ s ∈ samples, s.value.isFinite = true := by decide +kernel
  have hn : ∀ s ∈ samples, ¬ IsNaN s.value := fun s hs => not_isNaN_of_isFinite (hfinite s hs)
  have hpos : ∀ s ∈ samples, 0.0 < s.time := by decide +kernel
  have hsome : samples ≠ [] := List.cons_ne_nil _ _
  obtain ⟨⟨i, -, hmin, hbottom, hzero⟩, i', -, -, hmax, htop, -⟩ := extremes_agree hsome hn hpos
  exact ⟨hsome, hn, hpos, ⟨samples.get i, hmin, hbottom, hzero⟩, samples.get i', hmax, htop⟩

/-- Of two largest samples the first is the maximum, and all of the samples lie at or below the
second. -/
theorem extremes_disagree_level :
    let point (value time : Float) : Sample := .of (Text.of "A") value time 0
    let samples := [point 5.0 1000.0, point 5.0 2000.0]
    samples ≠ [] ∧ (∀ s ∈ samples, ¬ IsNaN s.value) ∧ (∀ s ∈ samples, 0.0 < s.time)
      ∧ Reduction.maximum samples = some (point 5.0 1000.0)
      ∧ Reduction.percentile 100.0 samples = some (point 5.0 2000.0)
      ∧ Reduction.percentile 100.0 samples ≠ Reduction.maximum samples := by
  intro point samples
  have hfinite : ∀ s ∈ samples, s.value.isFinite = true := by decide +kernel
  exact ⟨List.cons_ne_nil _ _, fun s hs => not_isNaN_of_isFinite (hfinite s hs),
    by decide +kernel, by decide +kernel, by decide +kernel, by decide +kernel⟩

end SeriesQuery
