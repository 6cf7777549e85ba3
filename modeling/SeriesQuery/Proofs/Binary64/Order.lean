import SeriesQuery.Proofs.Binary64.Sum

/-!
# Comparing

Numbers in the form of the format are compared by their signs first, then by their exponents and
last by their mantissas. That is to compare their values: at a larger exponent the mantissa has
all its bits, and so the magnitude is larger, too.
-/

open Float.Model Float.Model.UnpackedFloat

namespace SeriesQuery.Binary64

/-- Not too large for the format. -/
def Bounded : UnpackedFloat → Prop
  | .finite _ _ e _ => e ≤ 971
  | _ => True

/-! ## Magnitudes -/

theorem compare_of_lt {a b : ℚ} (h : a < b) : compare a b = .lt := compare_lt_iff_lt.mpr h

theorem compare_of_gt {a b : ℚ} (h : b < a) : compare a b = .gt := compare_gt_iff_gt.mpr h

theorem compare_neg_neg (a b : ℚ) : compare (-a) (-b) = (compare a b).swap := by
  rcases lt_trichotomy a b with h | rfl | h
  · rw [compare_of_lt h, compare_of_gt (neg_lt_neg h)]
    rfl
  · rw [compare_eq_iff_eq.mpr rfl, compare_eq_iff_eq.mpr rfl]
    rfl
  · rw [compare_of_gt h, compare_of_lt (neg_lt_neg h)]
    rfl

theorem magnitude_pos {m : ℕ} (hm : 0 < m) (e : ℤ) : (0 : ℚ) < m * 2 ^ e :=
  mul_pos (Nat.cast_pos.mpr hm) (two_zpow_pos e)

theorem magnitude_lt_of_exponent_lt {s₁ s₂ : Sign} {m₁ m₂ : ℕ} {e₁ e₂ : ℤ} {h₁ : 0 < m₁}
    {h₂ : 0 < m₂} (hc₁ : Canonical (.finite s₁ m₁ e₁ h₁)) (hc₂ : Canonical (.finite s₂ m₂ e₂ h₂))
    (he : e₁ < e₂) : (m₁ * 2 ^ e₁ : ℚ) < m₂ * 2 ^ e₂ := by
  obtain ⟨hhigh, hlow, -⟩ := hc₁
  obtain ⟨-, -, hfull⟩ := hc₂
  have h52 : 2 ^ 52 ≤ m₂ := by
    rcases hfull with h | h
    · exact h
    · omega
  have hlt : (m₁ : ℚ) < ((2 ^ 53 : ℕ) : ℚ) := Nat.cast_lt.mpr hhigh
  have hle : ((2 ^ 52 : ℕ) : ℚ) ≤ m₂ := Nat.cast_le.mpr h52
  push_cast at hlt hle
  calc (m₁ * 2 ^ e₁ : ℚ) < 2 ^ 53 * 2 ^ e₁ := mul_lt_mul_of_pos_right hlt (two_zpow_pos e₁)
    _ = 2 ^ 52 * 2 ^ (e₁ + 1) := by
        rw [two_zpow_add]
        ring
    _ ≤ 2 ^ 52 * 2 ^ e₂ := mul_le_mul_of_nonneg_left (two_zpow_le (by omega)) (by norm_num)
    _ ≤ m₂ * 2 ^ e₂ := mul_le_mul_of_nonneg_right hle (two_zpow_pos e₂).le

theorem compare_magnitudes {s₁ s₂ : Sign} {m₁ m₂ : ℕ} {e₁ e₂ : ℤ} {h₁ : 0 < m₁} {h₂ : 0 < m₂}
    (hc₁ : Canonical (.finite s₁ m₁ e₁ h₁)) (hc₂ : Canonical (.finite s₂ m₂ e₂ h₂)) :
    (compare e₁ e₂).then (compare m₁ m₂) = compare (m₁ * 2 ^ e₁ : ℚ) (m₂ * 2 ^ e₂) := by
  rcases lt_trichotomy e₁ e₂ with he | rfl | he
  · rw [Int.compare_eq_lt.mpr he, compare_of_lt (magnitude_lt_of_exponent_lt hc₁ hc₂ he)]
    rfl
  · rw [Int.compare_eq_eq.mpr rfl]
    show compare m₁ m₂ = _
    have hpow := two_zpow_pos e₁
    rcases lt_trichotomy m₁ m₂ with hm | rfl | hm
    · rw [Nat.compare_eq_lt.mpr hm,
        compare_of_lt (mul_lt_mul_of_pos_right (Nat.cast_lt.mpr hm) hpow)]
    · rw [Nat.compare_eq_eq.mpr rfl, compare_eq_iff_eq.mpr rfl]
    · rw [Nat.compare_eq_gt.mpr hm,
        compare_of_gt (mul_lt_mul_of_pos_right (Nat.cast_lt.mpr hm) hpow)]
  · rw [Int.compare_eq_gt.mpr he, compare_of_gt (magnitude_lt_of_exponent_lt hc₂ hc₁ he)]
    rfl

theorem magnitude_lt_limit {s : Sign} {m : ℕ} {e : ℤ} {hm : 0 < m}
    (hc : Canonical (.finite s m e hm)) (hb : Bounded (.finite s m e hm)) :
    (m * 2 ^ e : ℚ) < limit := by
  have hlt : (m : ℚ) < ((2 ^ 53 : ℕ) : ℚ) := Nat.cast_lt.mpr hc.1
  push_cast at hlt
  calc (m * 2 ^ e : ℚ) < 2 ^ 53 * 2 ^ e := mul_lt_mul_of_pos_right hlt (two_zpow_pos e)
    _ ≤ 2 ^ 53 * 2 ^ (971 : ℤ) := mul_le_mul_of_nonneg_left (two_zpow_le hb) (by norm_num)
    _ = limit := by
        rw [limit, ← zpow_natCast, ← two_zpow_add]
        rfl

/-! ## Signs -/

/-- The sign of what is a number. -/
def signOf : UnpackedFloat → Sign
  | .infinity s => s
  | .notANumber => .positive
  | .zero s => s
  | .finite s _ _ _ => s

/-- The magnitude of a number, see `unpackedValue`. -/
def magnitude : UnpackedFloat → ℚ
  | .infinity _ => limit
  | .notANumber => 0
  | .zero _ => 0
  | .finite _ m e _ => m * 2 ^ e

theorem unpackedValue_eq (u : UnpackedFloat) :
    unpackedValue u = withSign (signOf u) (magnitude u) := by
  cases u with
  | zero s => exact (withSign_zero s).symm
  | infinity s => rfl
  | notANumber => rfl
  | finite s m e hm => rfl

theorem magnitude_nonneg (u : UnpackedFloat) : 0 ≤ magnitude u := by
  cases u with
  | zero s => exact le_refl 0
  | infinity s => exact limit_pos.le
  | notANumber => exact le_refl 0
  | finite s m e hm => exact (magnitude_pos hm e).le

/-! ## Numbers -/

/-- Numbers are compared by their values. -/
theorem compare_eq {u v : UnpackedFloat} (hu : u ≠ .notANumber) (hv : v ≠ .notANumber)
    (hcu : Canonical u) (hbu : Bounded u) (hcv : Canonical v) (hbv : Bounded v) :
    u.compare v = some (compare (unpackedValue u) (unpackedValue v)) := by
  have hlimit := limit_pos
  cases u with
  | notANumber => exact absurd rfl hu
  | infinity s =>
      cases v with
      | notANumber => exact absurd rfl hv
      | infinity s' =>
          cases s <;> cases s' <;> simp only [UnpackedFloat.compare, unpackedValue, withSign]
          · rw [compare_eq_iff_eq.mpr rfl]; rfl
          · rw [compare_of_lt (by linarith)]; rfl
          · rw [compare_of_gt (by linarith)]; rfl
          · rw [compare_eq_iff_eq.mpr rfl]; rfl
      | zero s' =>
          cases s <;> simp only [UnpackedFloat.compare, unpackedValue, withSign]
          · rw [compare_of_lt (by linarith)]
          · rw [compare_of_gt (by linarith)]
      | finite s' m e hm =>
          have hpos := magnitude_pos hm e
          have hlt := magnitude_lt_limit hcv hbv
          cases s <;> cases s' <;> simp only [UnpackedFloat.compare, unpackedValue, withSign]
          · rw [compare_of_lt (by linarith)]
          · rw [compare_of_lt (by linarith)]
          · rw [compare_of_gt (by linarith)]
          · rw [compare_of_gt (by linarith)]
  | zero s =>
      cases v with
      | notANumber => exact absurd rfl hv
      | infinity s' =>
          cases s' <;> simp only [UnpackedFloat.compare, unpackedValue, withSign]
          · rw [compare_of_gt (by linarith)]
          · rw [compare_of_lt (by linarith)]
      | zero s' =>
          simp only [UnpackedFloat.compare, unpackedValue]
          rw [compare_eq_iff_eq.mpr rfl]
      | finite s' m e hm =>
          have hpos := magnitude_pos hm e
          cases s' <;> simp only [UnpackedFloat.compare, unpackedValue, withSign]
          · rw [compare_of_gt (by linarith)]
          · rw [compare_of_lt (by linarith)]
  | finite s m e hm =>
      have hpos := magnitude_pos hm e
      have hlt := magnitude_lt_limit hcu hbu
      cases v with
      | notANumber => exact absurd rfl hv
      | infinity s' =>
          cases s <;> cases s' <;> simp only [UnpackedFloat.compare, unpackedValue, withSign]
          · rw [compare_of_gt (by linarith)]
          · rw [compare_of_lt (by linarith)]
          · rw [compare_of_gt (by linarith)]
          · rw [compare_of_lt (by linarith)]
      | zero s' =>
          cases s <;> simp only [UnpackedFloat.compare, unpackedValue, withSign]
          · rw [compare_of_lt (by linarith)]
          · rw [compare_of_gt (by linarith)]
      | finite s' m' e' hm' =>
          have hpos' := magnitude_pos hm' e'
          cases s <;> cases s' <;> simp only [UnpackedFloat.compare, unpackedValue, withSign]
          · rw [compare_neg_neg, compare_magnitudes hcu hcv]
          · rw [compare_of_lt (by linarith)]
          · rw [compare_of_gt (by linarith)]
          · rw [compare_magnitudes hcu hcv]

end SeriesQuery.Binary64
