import SeriesQuery.Proofs.Binary64.WholeNumbers

/-!
# Rounding in units

In units of the distance between its neighbours a magnitude lies from `2 ^ 52` to `2 ^ 53`, and
rounding it is rounding that many units to a whole number. So whole numbers of units stay what
they are, half a unit goes to the even side, and no magnitude grows or shrinks by more than
`2 ^ -53` of itself. The number before one takes from any other more than half a unit and at most
a whole one, which comes to one unit, except from a power of two: there the units below are half
as wide.
-/

namespace SeriesQuery.Binary64

/-! ## Whole numbers -/

theorem toEven_le_add_half {x : ℚ} (hx : 0 ≤ x) : (toEven x : ℚ) ≤ x + 1 / 2 := by
  have hfloor := Nat.floor_le hx
  unfold toEven
  split
  · linarith
  · split
    · push_cast
      linarith
    · next hlow hhigh =>
        have hpar : ((⌊x⌋₊ % 2 : ℕ) : ℚ) ≤ 1 := by
          exact_mod_cast Nat.le_of_lt_succ (Nat.mod_lt ⌊x⌋₊ two_pos)
        push_cast at hpar ⊢
        linarith

theorem sub_half_le_toEven (x : ℚ) : x - 1 / 2 ≤ toEven x := by
  have hfloor := Nat.lt_floor_add_one x
  unfold toEven
  split
  · linarith
  · split
    · push_cast
      linarith
    · next hlow hhigh =>
        have hpar : (0 : ℚ) ≤ (⌊x⌋₊ % 2 : ℕ) := Nat.cast_nonneg _
        rw [Nat.cast_add]
        linarith

theorem two_pow_mul_zpow (n : ℕ) (t : ℤ) : (2 : ℚ) ^ n * 2 ^ t = 2 ^ (n + t) := by
  rw [two_zpow_add, zpow_natCast]

theorem nearest_units {x : ℚ} {t : ℤ} (ht : -1074 ≤ t) (hlow : 2 ^ 52 ≤ x) (hhigh : x ≤ 2 ^ 53) :
    nearest (x * 2 ^ t) = toEven x * 2 ^ t := by
  have hpow := two_zpow_pos t
  rcases hhigh.lt_or_eq with hlt | rfl
  · have hx : 0 < x * 2 ^ t := mul_pos (by linarith) hpow
    have hspacing : spacing (x * 2 ^ t) = t := by
      have hle : ((2 : ℕ) : ℚ) ^ (52 + t) ≤ x * 2 ^ t := by
        rw [Nat.cast_ofNat, two_zpow_add]
        exact mul_le_mul_of_nonneg_right hlow hpow.le
      have hge : x * 2 ^ t < ((2 : ℕ) : ℚ) ^ (53 + t) := by
        rw [Nat.cast_ofNat, two_zpow_add]
        exact mul_lt_mul_of_pos_right hlt hpow
      have := (Int.zpow_le_iff_le_log (by norm_num) hx).mp hle
      have := (Int.lt_zpow_iff_log_lt (by norm_num) hx).mp hge
      unfold spacing
      omega
    rw [nearest_of_nonneg hx.le, nearestMagnitude, hspacing, mul_div_cancel_right₀ _ hpow.ne']
  · have hwhole : toEven (2 ^ 53) = 2 ^ 53 := by
      exact_mod_cast toEven_natCast (2 ^ 53)
    rw [hwhole, two_pow_mul_zpow, nearest_zpow (by omega), ← two_pow_mul_zpow]
    norm_num

theorem nearest_natCast_units {m : ℕ} {t : ℤ} (ht : -1074 ≤ t) (hlow : 2 ^ 52 ≤ m)
    (hhigh : m ≤ 2 ^ 53) : nearest (m * 2 ^ t) = m * 2 ^ t := by
  rw [nearest_units ht (by exact_mod_cast hlow) (by exact_mod_cast hhigh), toEven_natCast]

theorem nearest_nonneg {x : ℚ} (h : 0 ≤ x) : 0 ≤ nearest x := by
  rw [nearest_of_nonneg h]
  exact nearestMagnitude_nonneg x

/-- Whole numbers up to `2 ^ 53` stay what they are. -/
theorem nearest_natCast {n : ℕ} (h : n ≤ 2 ^ 53) : nearest n = n := by
  rcases Nat.eq_zero_or_pos n with rfl | hn
  · rw [Nat.cast_zero, nearest_of_nonneg (le_refl 0), nearestMagnitude_zero]
  · rcases h.lt_or_eq with hlt | rfl
    · have hlog : n.log2 ≤ 52 := by
        have := (Nat.log2_lt hn.ne').mpr hlt
        omega
      have hlow := Nat.mul_le_mul_right (2 ^ (52 - n.log2)) (Nat.log2_self_le hn.ne')
      have hhigh := Nat.mul_le_mul_right (2 ^ (52 - n.log2)) (@Nat.lt_log2_self n).le
      rw [← pow_add, show n.log2 + (52 - n.log2) = 52 by omega] at hlow
      rw [← pow_add, show n.log2 + 1 + (52 - n.log2) = 53 by omega] at hhigh
      have hunits : ((n * 2 ^ (52 - n.log2) : ℕ) : ℚ) * 2 ^ (-(52 - n.log2 : ℕ) : ℤ) = n := by
        rw [zpow_neg, zpow_natCast]
        push_cast
        exact mul_inv_cancel_right₀ (by positivity) _
      rw [← hunits]
      exact nearest_natCast_units (by omega) hlow hhigh
    · have hpow : ((2 ^ 53 : ℕ) : ℚ) = 2 ^ (53 : ℤ) := by norm_num
      rw [hpow]
      exact nearest_zpow (by norm_num)

theorem value_one : value 1.0 = 1 := by
  have hu : (1.0 : Float).toModel.unpack = .finite .positive (2 ^ 52) (-52) (by norm_num) := rfl
  rw [value_finite hu]
  norm_num

theorem exists_units {x : ℚ} (hx : 2 ^ (-1022 : ℤ) ≤ x) :
    ∃ (y : ℚ) (t : ℤ), -1074 ≤ t ∧ 2 ^ 52 ≤ y ∧ y < 2 ^ 53 ∧ x = y * 2 ^ t := by
  have hpos : 0 < x := (two_zpow_pos _).trans_le hx
  have hlow := Int.zpow_log_le_self (b := 2) (by norm_num) hpos
  have hhigh := Int.lt_zpow_succ_log_self (b := 2) (by norm_num) x
  have hlog : -1022 ≤ Int.log 2 x :=
    (Int.zpow_le_iff_le_log (by norm_num) hpos).mp (by exact_mod_cast hx)
  rw [Nat.cast_ofNat] at hlow hhigh
  generalize Int.log 2 x = k at *
  have hpow := two_zpow_pos (k - 52)
  refine ⟨x / 2 ^ (k - 52), k - 52, by omega, ?_, ?_, (div_mul_cancel₀ x hpow.ne').symm⟩
  · rw [le_div_iff₀ hpow]
    rw [two_pow_mul_zpow, show ((52 : ℕ) : ℤ) + (k - 52) = k by omega]
    exact hlow
  · rw [div_lt_iff₀ hpow]
    rw [two_pow_mul_zpow, show ((53 : ℕ) : ℤ) + (k - 52) = k + 1 by omega]
    exact hhigh

/-- No magnitude but the smallest grows by more than `2 ^ -53` of itself. -/
theorem nearest_le_mul {x : ℚ} (hx : 2 ^ (-1022 : ℤ) ≤ x) : nearest x ≤ x * (1 + 1 / 2 ^ 53) := by
  obtain ⟨y, t, ht, hlow, hhigh, rfl⟩ := exists_units hx
  have hround := toEven_le_add_half (x := y) (by linarith)
  rw [nearest_units ht hlow hhigh.le]
  calc (toEven y : ℚ) * 2 ^ t ≤ y * (1 + 1 / 2 ^ 53) * 2 ^ t :=
        mul_le_mul_of_nonneg_right (by linarith) (two_zpow_pos t).le
    _ = y * 2 ^ t * (1 + 1 / 2 ^ 53) := by ring

/-- Nor does any lose more. -/
theorem mul_le_nearest {x : ℚ} (hx : 2 ^ (-1022 : ℤ) ≤ x) : x * (1 - 1 / 2 ^ 53) ≤ nearest x := by
  obtain ⟨y, t, ht, hlow, hhigh, rfl⟩ := exists_units hx
  have hround := sub_half_le_toEven y
  rw [nearest_units ht hlow hhigh.le]
  calc y * 2 ^ t * (1 - 1 / 2 ^ 53) = y * (1 - 1 / 2 ^ 53) * 2 ^ t := by ring
    _ ≤ (toEven y : ℚ) * 2 ^ t := mul_le_mul_of_nonneg_right (by linarith) (two_zpow_pos t).le

end SeriesQuery.Binary64
