import SeriesQuery.Evaluation.Reduction

/-!
# The spread between the largest and the smallest sample

The spread of samples is found in one pass, which keeps the smallest value and the largest sample
so far. It is what two passes give, one for the smallest and one for the largest sample, whatever
the values are: the one pass makes the comparisons of both. A value that is no number is never
replaced if it comes first and passed over if it comes later, on all three ways. The two passes
run side by side over the same samples, so at no time has one of them found something and the
other nothing.
-/

namespace SeriesQuery.Reduction

variable {low high : Option Sample}

/-! ## One pass and two -/

/-- The extent from the smallest to the largest sample so far, once both are there. -/
def Extent.between : Option Sample → Option Sample → Option Extent
  | some low, some high => some ⟨low.value, high⟩
  | _, _ => none

/-- To widen an extent is to go one sample further in the search for each of its ends. -/
theorem Extent.add_between (h : low.isSome = high.isSome) (s : Sample) :
    Extent.add (Extent.between low high) s
      = Extent.between (keepBetter (fun x y => x < y) low s)
          (keepBetter (fun x y => y < x) high s) := by
  cases low with
  | none =>
      cases high with
      | none => rfl
      | some high => cases h
  | some low =>
      cases high with
      | none => cases h
      | some high =>
          simp only [Extent.between, Extent.add, keepBetter, decide_eq_true_iff]
          split <;> split <;> rfl

theorem isSome_keepBetter (better : Float → Float → Bool) (best : Option Sample) (s : Sample) :
    (keepBetter better best s).isSome = true := by
  cases best with
  | none => rfl
  | some b =>
      unfold keepBetter
      dsimp only
      split <;> rfl

/-- The one pass over samples keeps what the two passes keep. -/
theorem foldl_add_between (h : low.isSome = high.isSome) (l : List Sample) :
    l.foldl Extent.add (Extent.between low high)
      = Extent.between (l.foldl (keepBetter fun x y => x < y) low)
          (l.foldl (keepBetter fun x y => y < x) high) := by
  induction l generalizing low high with
  | nil => rfl
  | cons s l ih =>
      rw [List.foldl_cons, List.foldl_cons, List.foldl_cons, Extent.add_between h]
      -- after a sample both passes have found something
      exact ih (by rw [isSome_keepBetter, isSome_keepBetter])

theorem range_eq_between (samples : List Sample) :
    range samples = (Extent.between (minimum samples) (maximum samples)).map fun e =>
      e.high.withValue (e.high.value - e.low) := by
  have hnone : (none : Option Sample).isSome = (none : Option Sample).isSome := rfl
  have hpasses := foldl_add_between hnone (dated samples)
  unfold range minimum maximum
  rw [← hpasses]
  rfl

/-! ## When there is nothing -/

theorem isSome_foldl_keepBetter (better : Float → Float → Bool) (best : Option Sample)
    (l : List Sample) :
    (l.foldl (keepBetter better) best).isSome = (best.isSome || !l.isEmpty) := by
  induction l generalizing best with
  | nil => exact (Bool.or_false _).symm
  | cons s l ih =>
      rw [List.foldl_cons, ih, isSome_keepBetter, Bool.true_or, List.isEmpty_cons, Bool.not_false,
        Bool.or_true]

/-- A search finds nothing only where no sample is after time zero. -/
theorem foldl_keepBetter_eq_none_iff (better : Float → Float → Bool) (samples : List Sample) :
    (dated samples).foldl (keepBetter better) none = none ↔ ∀ s ∈ samples, ¬ 0.0 < s.time := by
  rw [← Option.isNone_iff_eq_none, ← Option.not_isSome, isSome_foldl_keepBetter,
    Option.isSome_none, Bool.false_or, Bool.not_not, List.isEmpty_iff]
  unfold dated
  rw [List.filter_eq_nil_iff]
  simp only [decide_eq_true_iff]

/-- Of any samples the smallest, the largest and the spread are found together, where a sample is
after time zero. The spread is then the largest sample, its value less that of the smallest. -/
theorem range_agrees (samples : List Sample) :
    (range samples = none ↔ ∀ s ∈ samples, ¬ 0.0 < s.time)
      ∧ (range samples = none ↔ maximum samples = none ∧ minimum samples = none)
      ∧ ∀ spread, range samples = some spread ↔
        ∃ high low, maximum samples = some high ∧ minimum samples = some low
          ∧ spread = high.withValue (high.value - low.value) := by
  have hhigh := foldl_keepBetter_eq_none_iff (fun x y => y < x) samples
  have hlow := foldl_keepBetter_eq_none_iff (fun x y => x < y) samples
  rw [← maximum] at hhigh
  rw [← minimum] at hlow
  rw [range_eq_between]
  by_cases hundated : ∀ s ∈ samples, ¬ 0.0 < s.time
  · rw [hhigh.mpr hundated, hlow.mpr hundated]
    refine ⟨iff_of_true rfl hundated, iff_of_true rfl ⟨rfl, rfl⟩, fun spread => ?_⟩
    simp [Extent.between]
  · obtain ⟨high, hmax⟩ := Option.ne_none_iff_exists'.mp (mt hhigh.mp hundated)
    obtain ⟨low, hmin⟩ := Option.ne_none_iff_exists'.mp (mt hlow.mp hundated)
    rw [hmax, hmin]
    refine ⟨iff_of_false (by rintro ⟨⟩) hundated, ?_, fun spread => ?_⟩
    · simp [Extent.between]
    · simp [Extent.between, eq_comm]

end SeriesQuery.Reduction
