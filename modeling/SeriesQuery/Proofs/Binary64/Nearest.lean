import Mathlib.Data.Int.Log
import Mathlib.Data.Rat.Floor
import Mathlib.Tactic.FieldSimp
import Mathlib.Tactic.Linarith
import Mathlib.Tactic.Positivity
import Mathlib.Tactic.Ring

/-!
# The nearest binary64 number

Binary64 arithmetic gives the number nearest to the exact result, an even one of two. This is
that rounding on rational numbers, for a format that has 53 bits and no smaller exponent than
`-1074` but any larger one; what is too large for the real format is cut off afterwards.

Only two facts about it matter later: it is monotone, and it leaves alone what has the format
already. Both are proved on magnitudes. Where two magnitudes have the same spacing of numbers
around them, rounding is monotone because rounding to a whole number is; where the spacing of the
larger one is wider, a power of two lies between them and stays between them.
-/

namespace SeriesQuery.Binary64

/-! ## Whole numbers -/

/-- The whole number nearest to a magnitude, the even one of two. -/
def toEven (x : ℚ) : ℕ :=
  if x - ⌊x⌋₊ < 1 / 2 then ⌊x⌋₊
  else if 1 / 2 < x - ⌊x⌋₊ then ⌊x⌋₊ + 1
  else ⌊x⌋₊ + ⌊x⌋₊ % 2

theorem toEven_natCast (n : ℕ) : toEven n = n := by
  unfold toEven
  rw [Nat.floor_natCast, sub_self, if_pos (by norm_num)]

theorem floor_le_toEven (x : ℚ) : ⌊x⌋₊ ≤ toEven x := by
  unfold toEven
  split
  · exact le_refl _
  · split <;> omega

theorem toEven_le_floor_add_one (x : ℚ) : toEven x ≤ ⌊x⌋₊ + 1 := by
  unfold toEven
  split
  · omega
  · split <;> omega

theorem toEven_mono {x y : ℚ} (h : x ≤ y) : toEven x ≤ toEven y := by
  have hfloor : ⌊x⌋₊ ≤ ⌊y⌋₊ := Nat.floor_le_floor h
  rcases hfloor.lt_or_eq with hlt | heq
  · have hx := toEven_le_floor_add_one x
    have hy := floor_le_toEven y
    omega
  · -- Between the same two whole numbers the part above the lower one decides.
    unfold toEven
    rw [heq]
    have hpart : x - ⌊y⌋₊ ≤ y - ⌊y⌋₊ := by linarith
    rcases lt_trichotomy (x - ⌊y⌋₊) (1 / 2) with hx | hx | hx
    · rw [if_pos hx]
      split
      · exact le_refl _
      · split <;> omega
    · have hy : ¬ y - ⌊y⌋₊ < 1 / 2 := by linarith
      rw [if_neg (by linarith), if_neg (by linarith), if_neg hy]
      split <;> omega
    · have hy : 1 / 2 < y - ⌊y⌋₊ := by linarith
      rw [if_neg (by linarith), if_pos hx, if_neg (by linarith), if_pos hy]

/-! ## Magnitudes -/

/-- The exponent of the distance between neighbouring numbers around a magnitude. -/
def spacing (x : ℚ) : ℤ := max (Int.log 2 x - 52) (-1074)

/-- The number nearest to a magnitude. -/
def nearestMagnitude (x : ℚ) : ℚ := toEven (x / 2 ^ spacing x) * 2 ^ spacing x

theorem two_zpow_pos (e : ℤ) : (0 : ℚ) < 2 ^ e :=
  zpow_pos (by norm_num) e

theorem two_zpow_add (a b : ℤ) : (2 : ℚ) ^ (a + b) = 2 ^ a * 2 ^ b :=
  zpow_add₀ (by norm_num) a b

theorem two_zpow_le {a b : ℤ} (h : a ≤ b) : (2 : ℚ) ^ a ≤ 2 ^ b :=
  zpow_le_zpow_right₀ (by norm_num) h

theorem nearestMagnitude_nonneg (x : ℚ) : 0 ≤ nearestMagnitude x := by
  unfold nearestMagnitude
  exact mul_nonneg (Nat.cast_nonneg _) (two_zpow_pos _).le

theorem nearestMagnitude_zero : nearestMagnitude 0 = 0 := by
  unfold nearestMagnitude
  rw [zero_div, ← Nat.cast_zero, toEven_natCast, Nat.cast_zero, zero_mul]

/-- A rounded mantissa has 53 bits, or is the first number with more. -/
theorem mantissa_le (x : ℚ) : toEven (x / 2 ^ spacing x) ≤ 2 ^ 53 := by
  have hlog : x < 2 ^ (Int.log 2 x + 1) := Int.lt_zpow_succ_log_self (by norm_num) x
  have hpow : (2 : ℚ) ^ (Int.log 2 x + 1) ≤ 2 ^ (spacing x + 53) := by
    apply two_zpow_le
    have : Int.log 2 x - 52 ≤ spacing x := le_max_left _ _
    omega
  have hdiv : x / 2 ^ spacing x ≤ ((2 ^ 53 : ℕ) : ℚ) := by
    rw [div_le_iff₀ (two_zpow_pos _)]
    have hsplit := two_zpow_add (spacing x) 53
    push_cast
    norm_num at hsplit ⊢
    linarith
  have hround := toEven_mono hdiv
  rwa [toEven_natCast] at hround

theorem le_mantissa {x : ℚ} (hx : 0 < x) (hs : -1074 < spacing x) :
    2 ^ 52 ≤ toEven (x / 2 ^ spacing x) := by
  have heq : spacing x + 52 = Int.log 2 x := by
    unfold spacing at hs ⊢
    omega
  have hlog : (2 : ℚ) ^ (spacing x + 52) ≤ x := by
    rw [heq]
    exact_mod_cast Int.zpow_log_le_self (b := 2) (by norm_num) hx
  have hdiv : ((2 ^ 52 : ℕ) : ℚ) ≤ x / 2 ^ spacing x := by
    rw [le_div_iff₀ (two_zpow_pos _)]
    rw [two_zpow_add] at hlog
    push_cast
    rw [mul_comm]
    exact_mod_cast hlog
  have hround := toEven_mono hdiv
  rwa [toEven_natCast] at hround

theorem nearestMagnitude_le (x : ℚ) : nearestMagnitude x ≤ 2 ^ (spacing x + 53) := by
  unfold nearestMagnitude
  rw [two_zpow_add, mul_comm]
  have : ((toEven (x / 2 ^ spacing x) : ℕ) : ℚ) ≤ ((2 ^ 53 : ℕ) : ℚ) :=
    Nat.cast_le.mpr (mantissa_le x)
  push_cast at this
  exact mul_le_mul_of_nonneg_left (by exact_mod_cast this) (two_zpow_pos _).le

theorem le_nearestMagnitude {x : ℚ} (hx : 0 < x) (hs : -1074 < spacing x) :
    2 ^ (spacing x + 52) ≤ nearestMagnitude x := by
  unfold nearestMagnitude
  rw [two_zpow_add, mul_comm]
  have : ((2 ^ 52 : ℕ) : ℚ) ≤ ((toEven (x / 2 ^ spacing x) : ℕ) : ℚ) :=
    Nat.cast_le.mpr (le_mantissa hx hs)
  push_cast at this
  exact mul_le_mul_of_nonneg_right (by exact_mod_cast this) (two_zpow_pos _).le

theorem nearestMagnitude_mono {x y : ℚ} (hx : 0 ≤ x) (h : x ≤ y) :
    nearestMagnitude x ≤ nearestMagnitude y := by
  rcases hx.lt_or_eq with hpos | rfl
  · have hspacing : spacing x ≤ spacing y :=
      max_le_max (sub_le_sub_right (Int.log_mono_right hpos h) 52) (le_refl _)
    rcases hspacing.lt_or_eq with hlt | heq
    · have hbelow : -1074 ≤ spacing x := le_max_right _ _
      calc nearestMagnitude x ≤ 2 ^ (spacing x + 53) := nearestMagnitude_le x
        _ ≤ 2 ^ (spacing y + 52) := two_zpow_le (by omega)
        _ ≤ nearestMagnitude y := le_nearestMagnitude (hpos.trans_le h) (by omega)
    · unfold nearestMagnitude
      rw [heq]
      have hround : toEven (x / 2 ^ spacing y) ≤ toEven (y / 2 ^ spacing y) :=
        toEven_mono (div_le_div_of_nonneg_right h (two_zpow_pos _).le)
      exact mul_le_mul_of_nonneg_right (Nat.cast_le.mpr hround) (two_zpow_pos _).le
  · rw [nearestMagnitude_zero]
    exact nearestMagnitude_nonneg y

/-! ## Numbers with a sign -/

/-- The number nearest to a rational one. -/
def nearest (x : ℚ) : ℚ := if x < 0 then -nearestMagnitude (-x) else nearestMagnitude x

theorem nearest_of_nonneg {x : ℚ} (h : 0 ≤ x) : nearest x = nearestMagnitude x :=
  if_neg (not_lt.mpr h)

theorem nearest_neg (x : ℚ) : nearest (-x) = -nearest x := by
  rcases lt_trichotomy x 0 with h | rfl | h
  · rw [nearest_of_nonneg (by linarith), nearest, if_pos h, neg_neg]
  · rw [neg_zero, nearest_of_nonneg (le_refl 0), nearestMagnitude_zero, neg_zero]
  · rw [nearest, if_pos (by linarith), neg_neg, nearest_of_nonneg h.le]

/-- Rounding to the nearest number is monotone. -/
theorem nearest_mono {x y : ℚ} (h : x ≤ y) : nearest x ≤ nearest y := by
  unfold nearest
  split
  · split
    · next hy => exact neg_le_neg (nearestMagnitude_mono (neg_nonneg.mpr hy.le) (neg_le_neg h))
    · have hx := nearestMagnitude_nonneg (-x)
      have hy := nearestMagnitude_nonneg y
      linarith
  · rw [if_neg (by linarith)]
    exact nearestMagnitude_mono (by linarith) h

end SeriesQuery.Binary64
