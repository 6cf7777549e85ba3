import SeriesQuery.Proofs.Binary64.Products

/-!
# Whole numbers

A whole number becomes the number nearest to it. Below `2 ^ 53` it is converted as it stands and
multiplied by one; from there on it goes the way of a decimal numeral. Rounding is the same both
ways, so a larger whole number never becomes a smaller one, and none but zero becomes nothing.

The way back cuts a number to its whole part: units are shifted out, and what is left of the
mantissa does not depend on what they were.
-/

open Float.Model Float.Model.UnpackedFloat

namespace SeriesQuery.Binary64

theorem nearest_natCast_mono {m n : ℕ} (h : m ≤ n) : nearest m ≤ nearest n :=
  nearest_mono (Nat.cast_le.mpr h)

theorem nearest_natCast_nonneg (n : ℕ) : 0 ≤ nearest n := by
  have h := nearest_natCast_mono (Nat.zero_le n)
  rwa [Nat.cast_zero, nearest_of_nonneg (le_refl 0), nearestMagnitude_zero] at h

theorem nearest_zpow {k : ℤ} (hk : -1022 ≤ k) : nearest (2 ^ k) = 2 ^ k := by
  have hc : Canonical (.finite .positive (2 ^ 52) (k - 52) (by norm_num)) :=
    ⟨by norm_num, by omega, .inl (le_refl _)⟩
  have hvalue : ((2 ^ 52 : ℕ) : ℚ) * 2 ^ (k - 52) = 2 ^ k := by
    have hpow : ((2 ^ 52 : ℕ) : ℚ) = 2 ^ (52 : ℤ) := by norm_num
    rw [hpow, ← two_zpow_add]
    congr 1
    omega
  have hkeep := nearestMagnitude_of_canonical hc
  rwa [hvalue, ← nearest_of_nonneg (two_zpow_pos k).le] at hkeep

theorem nearest_lt_limit {n : ℕ} (h : n < 2 ^ 53) : nearest n < limit := by
  have hpow : ((2 ^ 53 : ℕ) : ℚ) = 2 ^ (53 : ℤ) := by
    push_cast
    norm_num
  have hmono := nearest_natCast_mono h.le
  rw [hpow, nearest_zpow (by norm_num)] at hmono
  exact hmono.trans_lt (zpow_lt_zpow_right₀ (by norm_num) (by norm_num))

theorem value_toFloat (n : UInt64) :
    ¬ IsNaN n.toFloat ∧ value n.toFloat = clamp (nearest n.toNat) := by
  obtain ⟨hc, hv⟩ := normalize_spec (n.toNat : ℤ) 0 .positive
  obtain ⟨hne, hstored⟩ := unpack_pack (isFinite_normalize (n.toNat : ℤ) 0 .positive) hc
  refine ⟨hne, hstored.trans ?_⟩
  rw [hv, zpow_zero, mul_one]
  rfl

theorem value_mul_one {x one : Float} (hx : x.isFinite = true)
    (hone : one.toModel.unpack = .finite .positive (2 ^ 52) (-52) (Nat.two_pow_pos 52)) :
    ¬ IsNaN (x * one) ∧ value (x * one) = value x := by
  have hf : one.isFinite = true := by
    show one.toModel.unpack.isFinite = true
    rw [hone]
    rfl
  have hvalue : value one = 1 := (value_finite hone).trans (by norm_num)
  obtain ⟨hn, hprod⟩ := value_mul hx hf
  have hrange := unpackedValue_mem (canonical x) (bounded x)
  rw [hvalue, mul_one, show nearest (value x) = value x from nearest_unpackedValue hx (canonical x)]
    at hprod
  exact ⟨hn, hprod.trans (clamp_of_mem hrange.1 hrange.2)⟩

/-- What a large whole number becomes; it is rounded as it stands. -/
theorem ofScientific_spec {n : ℕ} (hn : 2 ^ 53 ≤ n) :
    let u := UnpackedFloat.ofScientific format n 0
    IsFinite u ∧ Canonical u ∧ unpackedValue u = nearest n := by
  have hpos : 0 < n := by omega
  have hshift : n <<< 53 * 1 = n * 2 ^ 53 := by rw [Nat.shiftLeft_eq, mul_one]
  have hround : UnpackedFloat.ofScientific format n 0
      = roundWithAccuracy format .positive (n <<< 53 * 1) (-53) .exact := by
    unfold UnpackedFloat.ofScientific
    rw [dif_neg hpos.ne', if_neg (by norm_num), if_neg (by
      show ¬ (0 : ℤ) < -(2 ^ 11 + (n.log2 : ℤ))
      omega), if_pos (le_refl 0)]
    rfl
  have hvalue : ((n * 2 ^ 53 : ℕ) + (0 : ℚ)) * 2 ^ (-53 : ℤ) = n := by
    push_cast
    rw [add_zero, mul_assoc]
    norm_num
  have hexact : Describes .exact 0 := rfl
  have hle : -53 ≤ format.targetExponent (totalExponent (n * 2 ^ 53) (-53)) := by
    have hlog : 53 ≤ (n * 2 ^ 53).log2 := by
      rw [Nat.le_log2 (by omega)]
      exact Nat.le_mul_of_pos_left _ hpos
    generalize n * 2 ^ 53 = m at *
    rw [targetExponent_totalExponent]
    omega
  dsimp only
  rw [hround, hshift]
  obtain ⟨hc, hv⟩ := roundWithAccuracy_spec .positive (by positivity) hexact hle
  refine ⟨isFinite_roundWithAccuracy _ _ _ _, hc, hv.trans ?_⟩
  rw [hvalue, nearest_of_nonneg (Nat.cast_nonneg _)]
  rfl

/-- A whole number becomes the number nearest to it. -/
theorem value_ofNat (n : ℕ) :
    ¬ IsNaN (Float.ofNat n) ∧ value (Float.ofNat n) = clamp (nearest n) := by
  by_cases h : n < 2 ^ 53
  · have hsmall : n < 2 ^ 64 := by omega
    have hnat : n.toUInt64.toNat = n := by
      rw [Nat.toUInt64, UInt64.toNat_ofNat']
      exact Nat.mod_eq_of_lt hsmall
    obtain ⟨hn, hv⟩ := value_toFloat n.toUInt64
    rw [hnat] at hv
    have hlt := nearest_lt_limit h
    have h0 := nearest_natCast_nonneg n
    have hpos := limit_pos
    rw [clamp_of_mem (by linarith) hlt.le] at hv
    have hf := isFinite_of_value hn (by rw [hv]; exact h0) (by rw [hv]; exact hlt)
    obtain ⟨hn', hv'⟩ := @value_mul_one _ (Float.ofBits 0x3FF0000000000000) hf rfl
    have hfast : Float.ofNat n = n.toUInt64.toFloat * Float.ofBits 0x3FF0000000000000 := by
      show Float.ofScientific n false 0 = _
      unfold Float.ofScientific
      rw [dif_pos ⟨h, by norm_num⟩]
      rfl
    rw [hfast, clamp_of_mem (by linarith) hlt.le]
    exact ⟨hn', hv'.trans hv⟩
  · have hslow : Float.ofNat n = Float.ofModel (Float.Model.ofScientific n 0) := by
      show Float.ofScientific n false 0 = _
      unfold Float.ofScientific
      rw [dif_neg (by omega)]
      rfl
    obtain ⟨hf, hc, hv⟩ := ofScientific_spec (not_lt.mp h)
    obtain ⟨hne, hstored⟩ := unpack_pack hf hc
    rw [hslow]
    exact ⟨hne, hstored.trans (congrArg clamp hv)⟩

theorem ofNat_le_ofNat {i j : ℕ} (h : i ≤ j) : Float.ofNat i ≤ Float.ofNat j := by
  obtain ⟨hi, hvi⟩ := value_ofNat i
  obtain ⟨hj, hvj⟩ := value_ofNat j
  refine le_iff.mpr ⟨hi, hj, ?_⟩
  rw [hvi, hvj]
  exact clamp_mono (nearest_natCast_mono h)

theorem clamp_nonneg {x : ℚ} (h : 0 ≤ x) : 0 ≤ clamp x :=
  le_max_of_le_right (le_min limit_pos.le h)

theorem value_ofNat_pos {n : ℕ} (h : 0 < n) : 0 < value (Float.ofNat n) := by
  have hone : nearest ((1 : ℕ) : ℚ) = 1 := by
    have hkeep := nearest_zpow (k := 0) (by norm_num)
    rwa [zpow_zero, ← Nat.cast_one] at hkeep
  have hmono := nearest_natCast_mono h
  rw [hone] at hmono
  rw [(value_ofNat n).2]
  exact lt_max_of_lt_right (lt_min limit_pos (by linarith))

theorem value_ofNat_nonneg (n : ℕ) : 0 ≤ value (Float.ofNat n) := by
  rw [(value_ofNat n).2]
  exact clamp_nonneg (nearest_natCast_nonneg n)

/-! ## The whole part -/

theorem StandsFor.mantissa {em : ExtendedMantissa} {x : ℚ} (h : StandsFor em x) :
    em.mantissa = ⌊x⌋₊ := by
  have ⟨h0, h1⟩ := Describes.bounds h
  have hm : (0 : ℚ) ≤ em.mantissa := Nat.cast_nonneg _
  exact ((Nat.floor_eq_iff (by linarith)).mpr ⟨by linarith, by linarith⟩).symm

end SeriesQuery.Binary64
