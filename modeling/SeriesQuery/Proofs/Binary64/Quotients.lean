import SeriesQuery.Proofs.Binary64.Spread

/-!
# Quotients

The quotient of two mantissas is cut to a whole number of units, and what the division leaves
over tells how the exact quotient lies beyond it. The unit is chosen from the exponents alone, one
binary place on the safe side, so it is never too coarse; a quotient of no whole unit is one of
the smallest numbers. So the quotient of finite numbers is the number nearest to the quotient of
their values, too.
-/

open Float.Model Float.Model.UnpackedFloat

namespace SeriesQuery.Binary64

/-- What a division leaves over describes the part of the quotient beyond its whole number. -/
theorem describes_accuracyOfFraction {r d : ℕ} (h : r < d) :
    Describes (accuracyOfFraction r d) (r / d) := by
  have hd : (0 : ℚ) < d := Nat.cast_pos.mpr (by omega)
  unfold accuracyOfFraction
  split
  · next h0 =>
      show (r : ℚ) / d = 0
      rw [h0, Nat.cast_zero, zero_div]
  · next h0 =>
      have hr : (0 : ℚ) < r := Nat.cast_pos.mpr (by omega)
      rcases lt_trichotomy (2 * r) d with hlt | heq | hgt
      · rw [Nat.compare_eq_lt.mpr hlt]
        have hlt : (2 : ℚ) * r < d := by exact_mod_cast hlt
        refine ⟨div_pos hr hd, ?_⟩
        rw [div_lt_iff₀ hd]
        linarith
      · rw [Nat.compare_eq_eq.mpr heq]
        have heq : (2 : ℚ) * r = d := by exact_mod_cast heq
        show (r : ℚ) / d = 1 / 2
        rw [div_eq_iff hd.ne']
        linarith
      · rw [Nat.compare_eq_gt.mpr hgt]
        have hgt : (d : ℚ) < 2 * r := by exact_mod_cast hgt
        have hlt : (r : ℚ) < d := Nat.cast_lt.mpr h
        constructor
        · rw [lt_div_iff₀ hd]
          linarith
        · rwa [div_lt_one hd]

/-- The quotient in units, and the part beyond it, make up the exact quotient. -/
theorem divCore_value {m₁ m₂ : ℕ} (h₂ : 0 < m₂) (e₁ e₂ : ℤ) :
    let core := divCore format m₁ e₁ m₂ e₂
    ∃ part : ℚ, Describes core.2.2 part
      ∧ ((core.1 : ℚ) + part) * 2 ^ core.2.1 = m₁ * 2 ^ e₁ / (m₂ * 2 ^ e₂) := by
  unfold divCore
  dsimp only
  generalize format.targetExponent (totalExponent m₁ e₁ - totalExponent m₂ e₂) = target
  generalize ht : min (e₁ - e₂) target = t
  have hle : t ≤ e₁ - e₂ := ht ▸ min_le_left _ _
  obtain ⟨n, hn⟩ := Int.eq_ofNat_of_zero_le (sub_nonneg.mpr hle)
  rw [hn, Int.toNat_natCast]
  have hd : (0 : ℚ) < m₂ := Nat.cast_pos.mpr h₂
  refine ⟨_, describes_accuracyOfFraction (Nat.mod_lt _ h₂), ?_⟩
  have hwhole : (m₂ : ℚ) * (m₁ <<< n / m₂ : ℕ) + (m₁ <<< n % m₂ : ℕ) = m₁ * 2 ^ n := by
    have h := Nat.div_add_mod (m₁ <<< n) m₂
    rw [Nat.shiftLeft_eq] at h ⊢
    exact_mod_cast h
  have hsplit : (2 : ℚ) ^ e₁ = 2 ^ n * 2 ^ t * 2 ^ e₂ := by
    rw [← zpow_natCast, ← two_zpow_add, ← two_zpow_add]
    congr 1
    omega
  have hpow := two_zpow_pos e₂
  calc ((m₁ <<< n / m₂ : ℕ) + (m₁ <<< n % m₂ : ℕ) / (m₂ : ℚ)) * 2 ^ t
      = (m₂ * (m₁ <<< n / m₂ : ℕ) + (m₁ <<< n % m₂ : ℕ)) * 2 ^ t / m₂ := by
        field_simp
    _ = m₁ * 2 ^ e₁ / (m₂ * 2 ^ e₂) := by
        rw [hwhole, hsplit]
        field_simp

theorem divCore_exponent_le {m₁ m₂ : ℕ} (h₁ : 0 < m₁) (h₂ : 0 < m₂) (e₁ e₂ : ℤ) :
    (divCore format m₁ e₁ m₂ e₂).2.1 ≤ spacing (m₁ * 2 ^ e₁ / (m₂ * 2 ^ e₂)) := by
  have hn : (0 : ℚ) < m₁ * 2 ^ e₁ := mul_pos (Nat.cast_pos.mpr h₁) (two_zpow_pos e₁)
  have hd : (0 : ℚ) < m₂ * 2 ^ e₂ := mul_pos (Nat.cast_pos.mpr h₂) (two_zpow_pos e₂)
  have hlow := Int.zpow_log_le_self (b := 2) (by norm_num) hn
  have hhigh := Int.lt_zpow_succ_log_self (b := 2) (by norm_num) (m₂ * 2 ^ e₂ : ℚ)
  have hlog₁ := log_eq h₁ e₁ (le_refl 0) one_pos
  have hlog₂ := log_eq h₂ e₂ (le_refl 0) one_pos
  rw [add_zero] at hlog₁ hlog₂
  rw [hlog₁] at hlow
  rw [hlog₂] at hhigh
  -- the exponents alone say where the quotient begins, up to one binary place
  have hquot : ((2 : ℕ) : ℚ) ^ ((m₁.log2 + e₁ : ℤ) - (m₂.log2 + e₂ + 1 : ℤ))
      ≤ m₁ * 2 ^ e₁ / (m₂ * 2 ^ e₂) := by
    rw [zpow_sub₀ (by norm_num)]
    exact div_le_div₀ hn.le hlow hd hhigh.le
  have hlog := (Int.zpow_le_iff_le_log (by norm_num) (div_pos hn hd)).mp hquot
  have htarget : format.targetExponent (totalExponent m₁ e₁ - totalExponent m₂ e₂)
      = max (m₁.log2 + 1 + e₁ - (m₂.log2 + 1 + e₂) - 53) (-1074) := rfl
  unfold divCore spacing
  dsimp only
  rw [htarget]
  omega

/-- The quotient of finite numbers is the number nearest to the quotient of their values. -/
theorem div_spec {u v : UnpackedFloat} (hu : IsFinite u) (hv : IsFinite v)
    (h0 : unpackedValue v ≠ 0) :
    IsFinite (UnpackedFloat.div format u v) ∧ Canonical (UnpackedFloat.div format u v)
      ∧ unpackedValue (UnpackedFloat.div format u v)
        = nearest (unpackedValue u / unpackedValue v) := by
  cases v with
  | infinity s => cases hv
  | notANumber => cases hv
  | zero s => exact absurd rfl h0
  | finite s' m' e' hm' =>
      cases u with
      | infinity s => cases hu
      | notANumber => cases hu
      | zero s =>
          have hquot : unpackedValue (.zero s) / unpackedValue (.finite s' m' e' hm') = 0 :=
            zero_div _
          rw [hquot, nearest_of_nonneg (le_refl 0), nearestMagnitude_zero]
          exact ⟨rfl, trivial, rfl⟩
      | finite s m e hm =>
          obtain ⟨part, hpart, hvalue⟩ := @divCore_value m _ hm' e e'
          have hle := divCore_exponent_le hm hm' e e'
          have hm0 := magnitude_pos hm e
          have hm0' := magnitude_pos hm' e'
          have hquot := div_pos hm0 hm0'
          have hdiv : UnpackedFloat.div format (.finite s m e hm) (.finite s' m' e' hm')
              = roundWithAccuracy format (s / s') (divCore format m e m' e').1
                (divCore format m e m' e').2.1 (divCore format m e m' e').2.2 := rfl
          rw [hdiv]
          generalize divCore format m e m' e' = core at hpart hvalue hle ⊢
          have hpos : 0 < (core.1 : ℚ) + part := by
            rw [← hvalue] at hquot
            exact pos_of_mul_pos_left hquot (two_zpow_pos _).le
          rw [← hvalue] at hle
          obtain ⟨hc, hround⟩ := roundWithAccuracy_nearest (s / s') hpart hpos hle
          refine ⟨isFinite_roundWithAccuracy _ _ _ _, hc, hround.trans ?_⟩
          rw [hvalue, ← nearest_withSign _ hquot.le]
          cases s <;> cases s'
          · exact congrArg nearest (neg_div_neg_eq _ _).symm
          · exact congrArg nearest (neg_div _ _).symm
          · exact congrArg nearest (div_neg _).symm
          · rfl

theorem value_div {x y : Float} (hx : x.isFinite = true) (hy : y.isFinite = true)
    (h0 : value y ≠ 0) : ¬ IsNaN (x / y) ∧ value (x / y) = clamp (nearest (value x / value y)) := by
  obtain ⟨hf, hc, hv⟩ := div_spec hx hy h0
  obtain ⟨hne, hstored⟩ := unpack_pack hf hc
  unfold IsNaN value
  rw [unpack_div]
  exact ⟨hne, hstored.trans (congrArg clamp hv)⟩

end SeriesQuery.Binary64
