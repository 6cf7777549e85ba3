import SeriesQuery.Proofs.Binary64.Rounding

/-!
# Sums

The sum of two numbers is computed exactly, in units of the finer of the two, and then rounded.
So the sum of finite numbers is the number nearest to the sum of their values, or an infinity
when that is too large. Numbers that the format has already are not changed by rounding, which
covers a zero summand.
-/

open Float.Model Float.Model.UnpackedFloat

namespace SeriesQuery.Binary64

@[simp] theorem withSign_zero (s : Sign) : withSign s 0 = 0 := by
  cases s
  · exact neg_zero
  · rfl

theorem nearest_withSign (s : Sign) {x : ℚ} (hx : 0 ≤ x) :
    nearest (withSign s x) = withSign s (nearestMagnitude x) := by
  cases s with
  | negative => rw [withSign, nearest_neg, nearest_of_nonneg hx, withSign]
  | positive => exact nearest_of_nonneg hx

/-! ## Rounding of an exact result -/

theorem round_spec (s : Sign) {m : ℕ} (hm : 0 < m) (e : ℤ) :
    Canonical (Float.Model.UnpackedFloat.round format s m e)
      ∧ unpackedValue (Float.Model.UnpackedFloat.round format s m e)
        = withSign s (nearestMagnitude (m * 2 ^ e)) := by
  unfold Float.Model.UnpackedFloat.round decreaseExponent
  dsimp only
  generalize ht : format.targetExponent (totalExponent m e) = t
  generalize hn : (e - t).toNat = n
  have hpos : 0 < m <<< n := by
    rw [Nat.shiftLeft_eq]
    positivity
  have hvalue : ((m <<< n : ℕ) + (0 : ℚ)) * 2 ^ (e - n) = (m + (0 : ℚ)) * 2 ^ e := by
    rw [Nat.shiftLeft_eq, add_zero, add_zero]
    push_cast
    rw [mul_assoc, ← zpow_natCast, ← two_zpow_add]
    congr 2
    omega
  have htarget : format.targetExponent (totalExponent (m <<< n) (e - n)) = t := by
    rw [targetExponent_eq hpos _ (le_refl 0) one_pos, hvalue,
      ← targetExponent_eq hm _ (le_refl 0) one_pos, ht]
  have hle : e - (n : ℤ) ≤ format.targetExponent (totalExponent (m <<< n) (e - n)) := by
    rw [htarget]
    omega
  have hexact : Describes .exact 0 := rfl
  have h := roundWithAccuracy_spec s hpos hexact hle
  rwa [hvalue, add_zero] at h

theorem normalize_spec (m : ℤ) (e : ℤ) (zeroSign : Sign) :
    Canonical (UnpackedFloat.normalize format m e zeroSign)
      ∧ unpackedValue (UnpackedFloat.normalize format m e zeroSign) = nearest (m * 2 ^ e) := by
  have hpow := two_zpow_pos e
  unfold UnpackedFloat.normalize
  rcases lt_trichotomy m 0 with h | rfl | h
  · rw [Int.compare_eq_lt.mpr h]
    obtain ⟨hc, hv⟩ := round_spec .negative (m := (-m).toNat) (by omega) e
    refine ⟨hc, hv.trans ?_⟩
    have hm : (((-m).toNat : ℕ) : ℚ) = -m := by
      exact_mod_cast congrArg (Int.cast (R := ℚ)) (Int.toNat_of_nonneg (a := -m) (by omega))
    have hneg : (m : ℚ) < 0 := Int.cast_lt_zero.mpr h
    have hx : (0 : ℚ) ≤ -m * 2 ^ e := mul_nonneg (by linarith) hpow.le
    rw [hm, ← nearest_withSign _ hx]
    simp [withSign]
  · refine ⟨trivial, ?_⟩
    show 0 = _
    rw [Int.cast_zero, zero_mul, nearest_of_nonneg (le_refl 0), nearestMagnitude_zero]
  · rw [Int.compare_eq_gt.mpr h]
    obtain ⟨hc, hv⟩ := round_spec .positive (m := m.toNat) (by omega) e
    refine ⟨hc, hv.trans ?_⟩
    have hm : ((m.toNat : ℕ) : ℚ) = m := by
      exact_mod_cast congrArg (Int.cast (R := ℚ)) (Int.toNat_of_nonneg h.le)
    have hpos : (0 : ℚ) < m := Int.cast_pos.mpr h
    rw [hm, nearest_of_nonneg (mul_nonneg hpos.le hpow.le)]
    rfl

theorem nearestMagnitude_of_canonical {s : Sign} {m : ℕ} {e : ℤ} {hm : 0 < m}
    (h : Canonical (.finite s m e hm)) : nearestMagnitude (m * 2 ^ e) = m * 2 ^ e := by
  obtain ⟨hhigh, hlow, hfull⟩ := h
  have hspacing : spacing (m * 2 ^ e) = e := by
    have hlog := log_eq hm e (le_refl 0) one_pos
    rw [add_zero] at hlog
    have h53 : m.log2 < 53 := (Nat.log2_lt hm.ne').mpr hhigh
    unfold spacing
    rw [hlog]
    rcases hfull with h52 | rfl
    · have h52 : 52 ≤ m.log2 := (Nat.le_log2 hm.ne').mpr h52
      omega
    · omega
  unfold nearestMagnitude
  rw [hspacing, mul_div_cancel_right₀ _ (two_zpow_pos e).ne', toEven_natCast]

/-! ## Sums of finite numbers -/

/-- Neither infinite nor what is no number. -/
def IsFinite (u : UnpackedFloat) : Prop := u.isFinite = true

/-- Rounding leaves a number of the format alone. -/
theorem nearest_unpackedValue {u : UnpackedFloat} (hf : IsFinite u) (hc : Canonical u) :
    nearest (unpackedValue u) = unpackedValue u := by
  cases u with
  | infinity s => cases hf
  | notANumber => cases hf
  | zero s => exact (nearest_of_nonneg (le_refl 0)).trans nearestMagnitude_zero
  | finite s m e hm =>
      have hx : (0 : ℚ) ≤ m * 2 ^ e := mul_nonneg (Nat.cast_nonneg m) (two_zpow_pos e).le
      rw [unpackedValue, nearest_withSign s hx, nearestMagnitude_of_canonical hc]

theorem withSign_decreaseExponent (s : Sign) (m : ℕ) {e t : ℤ} (h : t ≤ e) :
    ((s.apply ((decreaseExponent m e t).1 : ℤ) : ℤ) : ℚ) * 2 ^ t = withSign s (m * 2 ^ e) := by
  have hvalue : (((decreaseExponent m e t).1 : ℕ) : ℚ) * 2 ^ t = m * 2 ^ e := by
    unfold decreaseExponent
    dsimp only
    rw [Nat.shiftLeft_eq]
    push_cast
    rw [mul_assoc, ← zpow_natCast, ← two_zpow_add]
    congr 2
    omega
  cases s with
  | negative =>
      rw [withSign, ← hvalue]
      simp [Sign.apply]
  | positive =>
      rw [withSign, ← hvalue]
      simp [Sign.apply]

theorem isFinite_roundWithAccuracy (s : Sign) (m : ℕ) (e : ℤ) (a : Accuracy) :
    IsFinite (roundWithAccuracy format s m e a) := by
  unfold roundWithAccuracy
  dsimp only
  generalize shiftToTargetExponent format _ _ .exact = shifted
  by_cases h : shifted.1.mantissa = 0
  · rw [dif_pos h]
    rfl
  · rw [dif_neg h]
    rfl

theorem isFinite_normalize (m e : ℤ) (zeroSign : Sign) :
    IsFinite (UnpackedFloat.normalize format m e zeroSign) := by
  unfold UnpackedFloat.normalize
  split
  · exact isFinite_roundWithAccuracy _ _ _ _
  · rfl
  · exact isFinite_roundWithAccuracy _ _ _ _

/-- The sum of finite numbers is the number nearest to the sum of their values. -/
theorem add_spec {u v : UnpackedFloat} (hu : IsFinite u) (hv : IsFinite v) (hcu : Canonical u)
    (hcv : Canonical v) :
    IsFinite (UnpackedFloat.add format u v) ∧ Canonical (UnpackedFloat.add format u v)
      ∧ unpackedValue (UnpackedFloat.add format u v)
        = nearest (unpackedValue u + unpackedValue v) := by
  cases u with
  | infinity s => cases hu
  | notANumber => cases hu
  | zero s =>
      have hzero : unpackedValue (.zero s) + unpackedValue v = unpackedValue v := zero_add _
      rw [hzero, nearest_unpackedValue hv hcv]
      cases v with
      | infinity s' => cases hv
      | notANumber => cases hv
      | zero s' =>
          cases s <;> cases s' <;> exact ⟨rfl, trivial, rfl⟩
      | finite s' m e hm => exact ⟨hv, hcv, rfl⟩
  | finite s m e hm =>
      cases v with
      | infinity s' => cases hv
      | notANumber => cases hv
      | zero s' =>
          have hzero : unpackedValue (.finite s m e hm) + unpackedValue (.zero s')
              = unpackedValue (.finite s m e hm) := add_zero _
          rw [hzero, nearest_unpackedValue hu hcu]
          exact ⟨hu, hcu, rfl⟩
      | finite s' m' e' hm' =>
          unfold UnpackedFloat.add
          dsimp only
          obtain ⟨hc, hvalue⟩ := normalize_spec
            (s.apply (decreaseExponent m e (min e e')).1
              + s'.apply (decreaseExponent m' e' (min e e')).1) (min e e') .positive
          refine ⟨isFinite_normalize _ _ _, hc, hvalue.trans ?_⟩
          rw [Int.cast_add, add_mul, withSign_decreaseExponent s m (min_le_left e e'),
            withSign_decreaseExponent s' m' (min_le_right e e')]
          rfl

end SeriesQuery.Binary64
