import SeriesQuery.Evaluation.Apply
import SeriesQuery.Proofs.SampleValues

/-!
# One sample for each value

A sample is passed over if its value has been met before, and the values met are remembered by
their bits. So what is kept is the first sample of each pattern of bits. Numbers that are equal
have the same bits, but for zero: zero and minus zero are equal and differ in their sign. Over
samples that are all numbers there is one sample for each number exactly if not both zeros occur.
Both do occur where small values of either sign have been rounded toward zero.
-/

namespace SeriesQuery

open Binary64

/-! ## The first of each -/

/-- A sample that is not the same, by a comparison, as any before it. -/
def IsNew (same : Sample → Sample → Bool) (before : List Sample) (s : Sample) : Prop :=
  ∀ t ∈ before, same t s = false

instance (same : Sample → Sample → Bool) (before : List Sample) (s : Sample) :
    Decidable (IsNew same before s) :=
  inferInstanceAs (Decidable (∀ t ∈ before, same t s = false))

/-- The samples that are not the same as one before them. -/
def firstOfEach (same : Sample → Sample → Bool) (samples : List Sample) : List Sample :=
  (samples.zipIdx.filter fun p => IsNew same (samples.take p.2) p.1).map Prod.fst

section FirstOfEach

variable {same : Sample → Sample → Bool} {samples : List Sample}

theorem isNew_cons {t s : Sample} :
    IsNew same (t :: samples) s ↔ same t s = false ∧ IsNew same samples s :=
  List.forall_mem_cons

theorem firstOfEach_concat (same : Sample → Sample → Bool) (samples : List Sample) (s : Sample) :
    firstOfEach same (samples ++ [s])
      = firstOfEach same samples ++ if IsNew same samples s then [s] else [] := by
  have hearlier : samples.zipIdx.filter (fun p => IsNew same ((samples ++ [s]).take p.2) p.1)
      = samples.zipIdx.filter fun p => IsNew same (samples.take p.2) p.1 := by
    refine List.filter_congr fun p hp => ?_
    have hplace : p.2 < samples.length := by simpa using List.snd_lt_of_mem_zipIdx hp
    rw [List.take_append_of_le_length hplace.le]
  unfold firstOfEach
  rw [List.zipIdx_append, List.filter_append, List.map_append, hearlier, Nat.zero_add,
    List.zipIdx_singleton, List.filter_singleton, List.take_left]
  by_cases hnew : IsNew same samples s <;> simp [hnew]

theorem mem_firstOfEach {s : Sample} : s ∈ firstOfEach same samples ↔
    ∃ i, samples[i]? = some s ∧ IsNew same (samples.take i) s := by
  unfold firstOfEach
  rw [List.mem_map]
  constructor
  · rintro ⟨⟨t, i⟩, hp, rfl⟩
    obtain ⟨hat, hnew⟩ := List.mem_filter.mp hp
    exact ⟨i, List.mem_zipIdx_iff_getElem?.mp hat, of_decide_eq_true hnew⟩
  · rintro ⟨i, hat, hnew⟩
    exact ⟨(s, i), List.mem_filter.mpr ⟨List.mem_zipIdx_iff_getElem?.mpr hat, decide_eq_true hnew⟩,
      rfl⟩

theorem pairwise_firstOfEach (same : Sample → Sample → Bool) (samples : List Sample) :
    (firstOfEach same samples).Pairwise fun s t => same s t = false := by
  induction samples using List.reverseRecOn with
  | nil => exact .nil
  | append_singleton samples s ih =>
      rw [firstOfEach_concat]
      split
      · next hnew =>
          refine List.pairwise_append.mpr ⟨ih, List.pairwise_singleton _ _, fun t ht u hu => ?_⟩
          rw [List.mem_singleton.mp hu]
          obtain ⟨i, hat, -⟩ := mem_firstOfEach.mp ht
          exact hnew t (List.mem_of_getElem? hat)
      · rwa [List.append_nil]

theorem firstOfEach_congr {same' : Sample → Sample → Bool}
    (h : ∀ s ∈ samples, ∀ t ∈ samples, same s t = same' s t) :
    firstOfEach same samples = firstOfEach same' samples := by
  unfold firstOfEach
  congr 1
  refine List.filter_congr fun p hp => decide_eq_decide.mpr ?_
  refine forall₂_congr fun t ht => ?_
  rw [h t (List.mem_of_mem_take ht) p.1 (List.fst_mem_of_mem_zipIdx hp)]

end FirstOfEach

/-! ## Bits -/

/-- Two samples with values of the same bits. -/
def sameBits (s t : Sample) : Bool := s.bits == t.bits

theorem sameBits_iff {s t : Sample} : sameBits s t = true ↔ s.bits = t.bits := beq_iff_eq

namespace Choice

variable {samples : List Sample}

/-- One sample more is kept if its value is neither among those met before nor one of the samples
read. -/
theorem distinctFrom_concat (seen : List UInt64) (samples : List Sample) (s : Sample) :
    distinctFrom seen (samples ++ [s]) = distinctFrom seen samples
      ++ if s.bits ∉ seen ∧ IsNew sameBits samples s then [s] else [] := by
  induction samples generalizing seen with
  | nil =>
      have hnew : IsNew sameBits [] s := fun t ht => by cases ht
      by_cases hseen : s.bits ∈ seen <;> simp [distinctFrom, hseen, hnew]
  | cons t rest ih =>
      rw [List.cons_append, distinctFrom, distinctFrom]
      by_cases hseen : t.bits ∈ seen
      · -- a value that has not been met before is not the value of this sample, which has
        have hnew : s.bits ∉ seen ∧ IsNew sameBits rest s ↔
            s.bits ∉ seen ∧ IsNew sameBits (t :: rest) s := by
          rw [isNew_cons]
          refine and_congr_right fun hnot => (and_iff_right ?_).symm
          rw [sameBits, beq_eq_false_iff_ne]
          exact fun hbits => hnot (hbits ▸ hseen)
        have hcontains : seen.contains t.bits = true := List.contains_iff_mem.mpr hseen
        rw [if_pos hcontains, if_pos hcontains, ih, if_congr hnew rfl rfl]
      · have hnew : s.bits ∉ t.bits :: seen ∧ IsNew sameBits rest s ↔
            s.bits ∉ seen ∧ IsNew sameBits (t :: rest) s := by
          rw [isNew_cons, List.mem_cons, not_or, sameBits, beq_eq_false_iff_ne, and_assoc,
            and_left_comm, ne_comm]
        have hcontains : ¬ seen.contains t.bits = true := mt List.contains_iff_mem.mp hseen
        rw [if_neg hcontains, if_neg hcontains, ih, if_congr hnew rfl rfl, List.cons_append]

/-- What is kept is the first sample of each pattern of bits. -/
theorem distinct_eq_firstOfEach (samples : List Sample) :
    distinct samples = firstOfEach sameBits samples := by
  induction samples using List.reverseRecOn with
  | nil => rfl
  | append_singleton samples s ih =>
      rw [firstOfEach_concat, ← ih, distinct, distinctFrom_concat]
      simp only [List.not_mem_nil, not_false_eq_true, true_and]
      rfl

end Choice

/-! ## Numbers -/

theorem ne_nan_of_not_isNaN {x : Float} (h : ¬ IsNaN x) : x ≠ Float.nan := by
  rintro rfl
  exact h rfl

/-- Numbers are equal if they are the same, or if they are the two zeros. -/
theorem beq_iff {x y : Float} (hx : ¬ IsNaN x) (hy : ¬ IsNaN y) :
    (x == y) = true ↔ x = y ∨ x = 0.0 ∧ y = -0.0 ∨ x = -0.0 ∧ y = 0.0 := by
  have hplus : (0 : Float) = 0.0 := by decide +kernel
  rw [Float.beq_iff_ne_nan_and_eq, hplus]
  simp [ne_nan_of_not_isNaN hx, ne_nan_of_not_isNaN hy]

/-- Two samples with values that are equal as numbers. -/
def sameNumber (s t : Sample) : Bool := s.value == t.value

/-- Samples with zero and minus zero among their values. -/
def BothZeros (samples : List Sample) : Prop :=
  (∃ s ∈ samples, s.value = 0.0) ∧ ∃ s ∈ samples, s.value = -0.0

/-- One sample for each number, the first one. -/
structure OnePerNumber (samples chosen : List Sample) : Prop where
  /-- The samples chosen are those that are equal to none before them. -/
  first : chosen = firstOfEach sameNumber samples
  /-- No two of them are equal as numbers. -/
  apart : chosen.Pairwise fun s t : Sample => (s.value == t.value) = false
  /-- Each value is equal to one chosen, there or before. -/
  covers : ∀ (i : Nat) (s : Sample), samples[i]? = some s →
    ∃ j ≤ i, ∃ t ∈ chosen, samples[j]? = some t ∧ (t.value == s.value) = true

namespace Choice

variable {samples : List Sample}

/-- The bits of a sample are those of one that is kept, there or before. -/
theorem exists_kept {i : Nat} {s : Sample} (hs : samples[i]? = some s) :
    ∃ j ≤ i, ∃ t ∈ distinct samples, samples[j]? = some t ∧ t.bits = s.bits := by
  classical
  -- the first place of the bits
  have hsome : ∃ (j : Nat) (t : Sample), samples[j]? = some t ∧ t.bits = s.bits :=
    ⟨i, s, hs, rfl⟩
  obtain ⟨t, hat, hbits⟩ := Nat.find_spec hsome
  refine ⟨Nat.find hsome, Nat.find_min' hsome ⟨s, hs, rfl⟩, t, ?_, hat, hbits⟩
  rw [distinct_eq_firstOfEach]
  refine mem_firstOfEach.mpr ⟨_, hat, fun u hu => ?_⟩
  rw [← Bool.not_eq_true, sameBits_iff, hbits]
  obtain ⟨k, hk⟩ := List.mem_iff_getElem?.mp hu
  have hlt : k < Nat.find hsome := by
    have := (List.getElem?_eq_some_iff.mp hk).1
    rw [List.length_take] at this
    omega
  rw [List.getElem?_take_of_lt hlt] at hk
  exact fun hsame => Nat.find_min hsome hlt ⟨u, hk, hsame⟩

theorem exists_kept_value {i : Nat} {s : Sample} (hs : samples[i]? = some s) :
    ∃ j ≤ i, ∃ t ∈ distinct samples, samples[j]? = some t ∧ t.value = s.value := by
  obtain ⟨j, hj, t, ht, hat, hbits⟩ := exists_kept hs
  exact ⟨j, hj, t, ht, hat, congrArg Float.ofBits hbits⟩

/-- Without both zeros numbers are equal only if they are the same. -/
theorem sameBits_eq_sameNumber (hn : ∀ s ∈ samples, ¬ IsNaN s.value)
    (hzeros : ¬ BothZeros samples) {s t : Sample} (hs : s ∈ samples) (ht : t ∈ samples) :
    sameBits s t = sameNumber s t := by
  rw [Bool.eq_iff_iff, sameBits_iff, ← Sample.value_inj (hn s hs) (hn t ht), sameNumber,
    beq_iff (hn s hs) (hn t ht)]
  refine ⟨.inl, ?_⟩
  rintro (heq | ⟨hplus, hminus⟩ | ⟨hminus, hplus⟩)
  · exact heq
  · exact absurd ⟨⟨s, hs, hplus⟩, t, ht, hminus⟩ hzeros
  · exact absurd ⟨⟨t, ht, hplus⟩, s, hs, hminus⟩ hzeros

/-- Of both zeros two samples are kept, which are equal as numbers. -/
theorem not_apart_of_bothZeros (hzeros : BothZeros samples) :
    ¬ (distinct samples).Pairwise fun s t : Sample => (s.value == t.value) = false := by
  intro hapart
  obtain ⟨⟨s, hs, hplus⟩, t, ht, hminus⟩ := hzeros
  obtain ⟨i, hi⟩ := List.mem_iff_getElem?.mp hs
  obtain ⟨j, hj⟩ := List.mem_iff_getElem?.mp ht
  obtain ⟨-, -, u, hu, -, huval⟩ := exists_kept_value hi
  obtain ⟨-, -, v, hv, -, hvval⟩ := exists_kept_value hj
  rw [hplus] at huval
  rw [hminus] at hvval
  have hsymm : Std.Symm fun s t : Sample => (s.value == t.value) = false :=
    ⟨fun _ _ => BEq.symm_false⟩
  have hne : u ≠ v := by
    rintro rfl
    have hbits : (0.0 : Float) = -0.0 := huval.symm.trans hvval
    exact absurd hbits (by decide +kernel)
  have hequal := hapart.forall hu hv hne
  rw [huval, hvval] at hequal
  exact absurd hequal (by decide +kernel)

/-- Of numbers the first sample of each pattern of bits is kept, so that each value is kept at its
place or before. They are one for each number exactly if not both zeros are among them. -/
theorem distinct_one_per_number (hn : ∀ s ∈ samples, ¬ IsNaN s.value) :
    distinct samples = firstOfEach sameBits samples
      ∧ (∀ (i : Nat) (s : Sample), samples[i]? = some s →
        ∃ j ≤ i, ∃ t ∈ distinct samples, samples[j]? = some t ∧ t.value = s.value)
      ∧ (OnePerNumber samples (distinct samples) ↔ ¬ BothZeros samples) := by
  refine ⟨distinct_eq_firstOfEach samples, fun i s => exists_kept_value, ?_, fun hzeros => ?_⟩
  · exact fun hone hzeros => not_apart_of_bothZeros hzeros hone.apart
  · have hfirst : distinct samples = firstOfEach sameNumber samples :=
      (distinct_eq_firstOfEach samples).trans
        (firstOfEach_congr fun s hs t ht => sameBits_eq_sameNumber hn hzeros hs ht)
    refine ⟨hfirst, hfirst ▸ pairwise_firstOfEach _ _, fun i s hs => ?_⟩
    obtain ⟨j, hj, t, ht, hat, hval⟩ := exists_kept_value hs
    refine ⟨j, hj, t, ht, hat, ?_⟩
    have hnumber := hn t (List.mem_of_getElem? hat)
    rw [← hval, beq_iff hnumber hnumber]
    exact .inl rfl

/-- Values of either sign and of some magnitude more than once. -/
theorem distinct_one_per_number_signs :
    let point (value time : Float) : Sample := .of (Text.of "A") value time 0
    let samples := [point 1.0 1000.0, point (-1.0) 2000.0, point (-0.0) 3000.0, point 1.0 4000.0,
      point (-0.0) 5000.0]
    (∀ s ∈ samples, ¬ IsNaN s.value) ∧ ¬ BothZeros samples
      ∧ distinct samples = [point 1.0 1000.0, point (-1.0) 2000.0, point (-0.0) 3000.0]
      ∧ OnePerNumber samples (distinct samples) := by
  intro point samples
  have hfinite : ∀ s ∈ samples, s.value.isFinite = true := by decide +kernel
  have hn : ∀ s ∈ samples, ¬ IsNaN s.value := fun s hs => not_isNaN_of_isFinite (hfinite s hs)
  have hzeros : ¬ BothZeros samples := by
    unfold BothZeros
    decide +kernel
  exact ⟨hn, hzeros, by decide +kernel, (distinct_one_per_number hn).2.2.mpr hzeros⟩

/-- Values that are rounded toward zero from either side are both kept, though they are equal. -/
theorem distinct_keeps_both_zeros :
    let point (value time : Float) : Sample := .of (Text.of "A") value time 0
    let samples := mapValues (roundFloat .truncate) [point 0.5 1000.0, point (-0.5) 2000.0]
    (∀ s ∈ samples, ¬ IsNaN s.value)
      ∧ distinct samples = [point 0.0 1000.0, point (-0.0) 2000.0]
      ∧ ((0.0 : Float) == -0.0) = true
      ∧ ¬ OnePerNumber samples (distinct samples) := by
  intro point samples
  have hfinite : ∀ s ∈ samples, s.value.isFinite = true := by decide +kernel
  have hkept : distinct samples = [point 0.0 1000.0, point (-0.0) 2000.0] := by decide +kernel
  have hequal : ((0.0 : Float) == -0.0) = true := by decide +kernel
  refine ⟨fun s hs => not_isNaN_of_isFinite (hfinite s hs), hkept, hequal, fun hone => ?_⟩
  have hapart := hone.apart
  rw [hkept, List.pairwise_pair, Sample.value_of, Sample.value_of] at hapart
  exact absurd hequal (Bool.eq_false_iff.mp hapart)

end Choice

end SeriesQuery
