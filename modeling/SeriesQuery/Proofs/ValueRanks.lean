import SeriesQuery.Evaluation.Choice
import SeriesQuery.Proofs.Binary64.Arithmetic

/-!
# Values by rank

Smallest first and largest first are two orders of the same kind: each compares numbers by a
rank, the value or its opposite, and leaves what is no number level with everything. What is said
of both here is proved once, from the rank alone.

Samples that are all numbers are put in order by either. The order is said of places rather than
of samples, which may be equal: a place comes ahead of another if the sample there is not worse,
and where the two are level it must also be the earlier place.
-/

namespace SeriesQuery

open Binary64

/-- The better one of two numbers is the one of the lower rank, and nothing else is better than
anything. -/
def RanksBy (better : Float → Float → Bool) (rank : Float → ℚ) : Prop :=
  ∀ x y, better x y = true ↔ ¬ IsNaN x ∧ ¬ IsNaN y ∧ rank x < rank y

theorem ranksBy_value : RanksBy (fun x y => x < y) value := by
  intro x y
  rw [decide_eq_true_iff, lt_iff]

theorem ranksBy_neg_value : RanksBy (fun x y => y < x) fun x => -value x := by
  intro x y
  rw [decide_eq_true_iff, lt_iff, neg_lt_neg_iff]
  exact and_left_comm

variable {better : Float → Float → Bool} {rank : Float → ℚ} {samples : List Sample}

theorem RanksBy.eq_false_iff (h : RanksBy better rank) {x y : Float} (hx : ¬ IsNaN x)
    (hy : ¬ IsNaN y) : better x y = false ↔ rank y ≤ rank x := by
  rw [← Bool.not_eq_true, h x y, ← not_lt]
  simp [hx, hy]

/-- Numbers are ordered by their ranks. -/
theorem RanksBy.orderOn (h : RanksBy better rank) {α : Type} {l : List α} {f : α → Float}
    (hn : ∀ a ∈ l, ¬ IsNaN (f a)) : OrderOn (fun a b => better (f a) (f b)) l where
  asymm a ha b hb hab := by
    rw [h.eq_false_iff (hn b hb) (hn a ha)]
    exact ((h _ _).mp hab).2.2.le
  trans a ha b hb c hc hab hbc := by
    rw [h.eq_false_iff (hn _ ha) (hn _ hb)] at hab
    rw [h.eq_false_iff (hn _ hb) (hn _ hc)] at hbc
    rw [h.eq_false_iff (hn _ ha) (hn _ hc)]
    exact hbc.trans hab

/-! ## Places -/

/-- A place whose sample is not worse than that of another place, and if the two are level it is
the earlier place. -/
def Precedes (better : Float → Float → Bool) (samples : List Sample)
    (i j : Fin samples.length) : Prop :=
  better (samples.get j).value (samples.get i).value = false
    ∧ (better (samples.get i).value (samples.get j).value = false → i < j)

/-- The places of samples in the order of what they hold. -/
def placesInOrder (better : Float → Float → Bool) (samples : List Sample) :
    List (Fin samples.length) :=
  sorted (fun i j => better (samples.get i).value (samples.get j).value)
    (List.finRange samples.length)

theorem placesInOrder_perm (better : Float → Float → Bool) (samples : List Sample) :
    (placesInOrder better samples).Perm (List.finRange samples.length) :=
  sorted_perm _ _

theorem length_placesInOrder (better : Float → Float → Bool) (samples : List Sample) :
    (placesInOrder better samples).length = samples.length := by
  rw [(placesInOrder_perm better samples).length_eq, List.length_finRange]

theorem mem_placesInOrder (better : Float → Float → Bool) (i : Fin samples.length) :
    i ∈ placesInOrder better samples :=
  (placesInOrder_perm better samples).mem_iff.mpr (List.mem_finRange i)

theorem nodup_placesInOrder (better : Float → Float → Bool) (samples : List Sample) :
    (placesInOrder better samples).Nodup :=
  (placesInOrder_perm better samples).nodup_iff.mpr (List.nodup_finRange _)

theorem map_get_placesInOrder (better : Float → Float → Bool) (samples : List Sample) :
    (placesInOrder better samples).map samples.get
      = sorted (fun a b => better a.value b.value) samples := by
  conv_rhs => rw [← List.map_get_finRange samples]
  exact (sorted_map (fun a b => better a.value b.value) samples.get _).symm

/-- The places of numbers come out in order. -/
theorem pairwise_placesInOrder (h : RanksBy better rank) (hn : ∀ s ∈ samples, ¬ IsNaN s.value) :
    (placesInOrder better samples).Pairwise (Precedes better samples) := by
  have horder : OrderOn (fun i j => better (samples.get i).value (samples.get j).value)
      (List.finRange samples.length) :=
    h.orderOn fun i _ => hn _ (List.get_mem samples i)
  have hearlier := pairwise_sorted_earlier
    (fun i j : Fin samples.length => better (samples.get i).value (samples.get j).value)
    (List.pairwise_lt_finRange samples.length)
  refine ((pairwise_sorted horder).and hearlier).imp fun {i j} hij => ⟨hij.1, fun hlevel => ?_⟩
  rcases hij.2 with hbetter | hlt
  · rw [hlevel] at hbetter
    cases hbetter
  · exact hlt

end SeriesQuery
