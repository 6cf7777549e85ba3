import Mathlib
import SeriesQuery.Proofs.Binary64.Nearest

/-!
# How arithmetic rounds

A result is computed as a whole number of units, with a note on how the exact result lies between
that number and the next: on it, below the middle, in the middle or above. Shifting to wider units
keeps the note true, and rounding by the note is rounding to the nearest. So what arithmetic
returns is the number nearest to the exact result, in the one form that the format allows.
-/

open Float.Model Float.Model.UnpackedFloat

namespace SeriesQuery.Binary64

/-! ## Notes on the part beyond a whole number -/

/-- The note describes a part of a unit. -/
def Describes : Accuracy → ℚ → Prop
  | .exact, part => part = 0
  | .inexact .lt, part => 0 < part ∧ part < 1 / 2
  | .inexact .eq, part => part = 1 / 2
  | .inexact .gt, part => 1 / 2 < part ∧ part < 1

theorem Describes.bounds {a : Accuracy} {part : ℚ} (h : Describes a part) :
    0 ≤ part ∧ part < 1 := by
  rcases a with _ | (_ | _ | _) <;> simp only [Describes] at h <;>
    constructor <;> linarith

theorem Describes.rounded {a : Accuracy} {m : ℕ} {x : ℚ} (h : Describes a (x - m)) :
    a.roundToNearestEven m = toEven x := by
  have hfloor : ⌊x⌋₊ = m := by
    obtain ⟨h0, h1⟩ := h.bounds
    have hm : (0 : ℚ) ≤ m := Nat.cast_nonneg m
    exact (Nat.floor_eq_iff (by linarith)).mpr ⟨by linarith, by linarith⟩
  unfold toEven
  rw [hfloor]
  rcases a with _ | (_ | _ | _) <;> simp only [Describes] at h
  · rw [if_pos (by linarith)]
    rfl
  · rw [if_pos h.2]
    rfl
  · rw [if_neg (by linarith), if_neg (by linarith)]
    rfl
  · rw [if_neg (by linarith), if_pos h.1]
    rfl

/-- An extended mantissa stands for a number of units. -/
def StandsFor (em : ExtendedMantissa) (x : ℚ) : Prop := Describes em.accuracy (x - em.mantissa)

theorem standsFor_ofMantissaAndAccuracy {m : ℕ} {a : Accuracy} {x : ℚ}
    (h : Describes a (x - m)) : StandsFor (.ofMantissaAndAccuracy m a) x := by
  rcases a with _ | (_ | _ | _) <;> exact h

theorem StandsFor.rounded {em : ExtendedMantissa} {x : ℚ} (h : StandsFor em x) :
    em.roundedMantissa = toEven x :=
  Describes.rounded h

theorem StandsFor.shiftRightOne {em : ExtendedMantissa} {x : ℚ} (h : StandsFor em x) :
    StandsFor em.shiftRightOne (x / 2) := by
  obtain ⟨m, roundBit, stickyBit⟩ := em
  have hm : ((2 * (m / 2) + m % 2 : ℕ) : ℚ) = m := by rw [Nat.div_add_mod]
  -- The lowest bit of the mantissa becomes the round bit.
  rcases Nat.mod_two_eq_zero_or_one m with hpar | hpar
  · have hshift : ExtendedMantissa.shiftRightOne ⟨m, roundBit, stickyBit⟩
        = ⟨m / 2, false, roundBit || stickyBit⟩ := by
      simp [ExtendedMantissa.shiftRightOne, hpar]
    rw [hshift]
    rw [hpar] at hm
    push_cast at hm
    cases roundBit <;> cases stickyBit <;>
      simp only [StandsFor, ExtendedMantissa.accuracy, Describes, Bool.or_false, Bool.or_true]
        at h ⊢
    · linarith
    · constructor <;> linarith
    · constructor <;> linarith
    · constructor <;> linarith
  · have hshift : ExtendedMantissa.shiftRightOne ⟨m, roundBit, stickyBit⟩
        = ⟨m / 2, true, roundBit || stickyBit⟩ := by
      simp [ExtendedMantissa.shiftRightOne, hpar]
    rw [hshift]
    rw [hpar] at hm
    push_cast at hm
    cases roundBit <;> cases stickyBit <;>
      simp only [StandsFor, ExtendedMantissa.accuracy, Describes, Bool.or_false, Bool.or_true]
        at h ⊢
    · linarith
    · constructor <;> linarith
    · constructor <;> linarith
    · constructor <;> linarith

theorem StandsFor.shiftRight {em : ExtendedMantissa} {x : ℚ} (h : StandsFor em x) (n : ℕ) :
    StandsFor (em >>> n) (x / 2 ^ n) := by
  show StandsFor (n.repeat ExtendedMantissa.shiftRightOne em) (x / 2 ^ n)
  induction n with
  | zero => simpa [Nat.repeat] using h
  | succ n ih =>
      rw [Nat.repeat, pow_succ, ← div_div]
      exact ih.shiftRightOne

/-! ## Exponents -/

/-- The format of binary64. -/
abbrev format : Format := .binary64

theorem log_eq {m : ℕ} (hm : 0 < m) (e : ℤ) {part : ℚ} (h0 : 0 ≤ part) (h1 : part < 1) :
    Int.log 2 ((m + part) * 2 ^ e) = m.log2 + e := by
  have hpow := two_zpow_pos e
  have hpos : (0 : ℚ) < (m + part) * 2 ^ e := by
    have : (0 : ℚ) < m := Nat.cast_pos.mpr hm
    exact mul_pos (by linarith) hpow
  have hlow : ((2 ^ m.log2 : ℕ) : ℚ) ≤ m := Nat.cast_le.mpr (Nat.log2_self_le hm.ne')
  have hhigh : ((m + 1 : ℕ) : ℚ) ≤ ((2 ^ (m.log2 + 1) : ℕ) : ℚ) :=
    Nat.cast_le.mpr Nat.lt_log2_self
  push_cast at hlow hhigh
  apply le_antisymm
  · rw [← Int.lt_add_one_iff, ← Int.lt_zpow_iff_log_lt (by norm_num) hpos]
    have hsplit : ((2 : ℕ) : ℚ) ^ ((m.log2 : ℤ) + e + 1) = 2 ^ (m.log2 + 1) * 2 ^ e := by
      rw [Nat.cast_ofNat, ← zpow_natCast, ← two_zpow_add]
      congr 1
      push_cast
      ring
    rw [hsplit]
    exact mul_lt_mul_of_pos_right (by linarith) hpow
  · rw [← Int.zpow_le_iff_le_log (by norm_num) hpos]
    have hsplit : ((2 : ℕ) : ℚ) ^ ((m.log2 : ℤ) + e) = 2 ^ m.log2 * 2 ^ e := by
      rw [Nat.cast_ofNat, two_zpow_add, zpow_natCast]
    rw [hsplit]
    exact mul_le_mul_of_nonneg_right (by linarith) hpow.le

theorem targetExponent_totalExponent (m : ℕ) (e : ℤ) :
    format.targetExponent (totalExponent m e) = max (m.log2 + 1 + e - 53) (-1074) := rfl

/-- The exponent that arithmetic aims at is the one of the numbers around the result. -/
theorem targetExponent_eq {m : ℕ} (hm : 0 < m) (e : ℤ) {part : ℚ} (h0 : 0 ≤ part)
    (h1 : part < 1) :
    format.targetExponent (totalExponent m e) = spacing ((m + part) * 2 ^ e) := by
  unfold spacing
  rw [log_eq hm e h0 h1]
  rw [targetExponent_totalExponent]
  omega

/-- A result of less than a unit is rounded to the smallest numbers only. -/
theorem targetExponent_eq_of_le_spacing {m : ℕ} {e : ℤ} {part : ℚ} (h0 : 0 ≤ part) (h1 : part < 1)
    (hpos : 0 < (m : ℚ) + part) (he : e ≤ spacing ((m + part) * 2 ^ e)) :
    format.targetExponent (totalExponent m e) = spacing ((m + part) * 2 ^ e) := by
  rcases Nat.eq_zero_or_pos m with rfl | hm
  · have hx : (0 : ℚ) < ((0 : ℕ) + part) * 2 ^ e := mul_pos hpos (two_zpow_pos e)
    have hlt : (((0 : ℕ) : ℚ) + part) * 2 ^ e < ((2 : ℕ) : ℚ) ^ e := by
      rw [Nat.cast_zero, zero_add, Nat.cast_ofNat]
      exact mul_lt_of_lt_one_left (two_zpow_pos e) h1
    have hlog := (Int.lt_zpow_iff_log_lt (by norm_num) hx).mp hlt
    unfold spacing at he ⊢
    rw [targetExponent_totalExponent, Nat.log2_zero]
    omega
  · exact targetExponent_eq hm e h0 h1

/-! ## The form of numbers -/

/-- The magnitude with a sign. -/
def withSign : Sign → ℚ → ℚ
  | .negative, x => -x
  | .positive, x => x

/-- The first power of two that is too large for the format. -/
def limit : ℚ := 2 ^ (1024 : ℤ)

theorem limit_pos : 0 < limit := two_zpow_pos 1024

/-- The value of a number. An infinity counts as the number that would come after the largest
one, and what is no number as zero. -/
def unpackedValue : UnpackedFloat → ℚ
  | .infinity s => withSign s limit
  | .notANumber => 0
  | .zero _ => 0
  | .finite s m e _ => withSign s (m * 2 ^ e)

/-- The one form that the format allows, were larger exponents allowed, too. -/
def Canonical : UnpackedFloat → Prop
  | .finite _ m e _ => m < 2 ^ 53 ∧ -1074 ≤ e ∧ (2 ^ 52 ≤ m ∨ e = -1074)
  | _ => True

/-- A rounded mantissa is at most one too large, and then it is shifted without loss. -/
theorem shiftToTargetExponent_rounded {m : ℕ} {e : ℤ} (hm : m ≤ 2 ^ 53) (he : -1074 ≤ e) :
    shiftToTargetExponent format m e .exact
      = if m = 2 ^ 53 then (⟨2 ^ 52, false, false⟩, e + 1) else (⟨m, false, false⟩, e) := by
  split
  · next heq =>
      have ht : format.targetExponent (totalExponent m e) = e + 1 := by
        rw [heq]
        rw [targetExponent_totalExponent, Nat.log2_two_pow]
        omega
      unfold shiftToTargetExponent
      rw [ht, heq]
      simp only [shiftToExponent, show (e + 1 - e).toNat = 1 by omega]
      rfl
  · next hne =>
      have hlog : m.log2 < 53 := by
        rcases Nat.eq_zero_or_pos m with rfl | hpos
        · decide
        · exact (Nat.log2_lt hpos.ne').mpr (by omega)
      have ht : format.targetExponent (totalExponent m e) ≤ e := by
        rw [targetExponent_totalExponent]
        omega
      unfold shiftToTargetExponent
      simp only [shiftToExponent, Int.toNat_of_nonpos (sub_nonpos.mpr ht)]
      show (_, e + 0) = _
      rw [add_zero]
      rfl

theorem shiftToTargetExponent_standsFor {m : ℕ} {e : ℤ} {a : Accuracy} {part : ℚ}
    (ha : Describes a part) (hpos : 0 < (m : ℚ) + part) (he : e ≤ spacing ((m + part) * 2 ^ e)) :
    let x := (m + part) * 2 ^ e
    StandsFor (shiftToTargetExponent format m e a).1 (x / 2 ^ spacing x)
      ∧ (shiftToTargetExponent format m e a).2 = spacing x := by
  intro x
  obtain ⟨h0, h1⟩ := ha.bounds
  have ht : format.targetExponent (totalExponent m e) = spacing x :=
    targetExponent_eq_of_le_spacing h0 h1 hpos he
  have he : e ≤ spacing x := he
  unfold shiftToTargetExponent
  rw [ht]
  unfold shiftToExponent
  dsimp only
  obtain ⟨n, hn⟩ := Int.eq_ofNat_of_zero_le (sub_nonneg.mpr he)
  rw [hn, Int.toNat_natCast]
  constructor
  · have hx : x / 2 ^ spacing x = (m + part) / 2 ^ n := by
      have hsplit : (2 : ℚ) ^ spacing x = 2 ^ n * 2 ^ e := by
        rw [← zpow_natCast, ← two_zpow_add, ← hn]
        congr 1
        omega
      rw [hsplit]
      exact mul_div_mul_right _ _ (two_zpow_pos e).ne'
    rw [hx]
    apply StandsFor.shiftRight
    apply standsFor_ofMantissaAndAccuracy
    rwa [add_sub_cancel_left]
  · show e + (n : ℤ) = spacing x
    omega

/-- What the rounding of arithmetic returns is canonical, and its value is the nearest to the
exact one. -/
theorem roundWithAccuracy_nearest (s : Sign) {m : ℕ} {e : ℤ} {a : Accuracy} {part : ℚ}
    (ha : Describes a part) (hpos : 0 < (m : ℚ) + part) (he : e ≤ spacing ((m + part) * 2 ^ e)) :
    Canonical (roundWithAccuracy format s m e a)
      ∧ unpackedValue (roundWithAccuracy format s m e a)
        = withSign s (nearestMagnitude ((m + part) * 2 ^ e)) := by
  obtain ⟨hstands, hexp⟩ := shiftToTargetExponent_standsFor ha hpos he
  have hrounded := hstands.rounded
  have hle := mantissa_le ((m + part) * 2 ^ e)
  have hnormal := le_mantissa (mul_pos hpos (two_zpow_pos e))
  have hlow : -1074 ≤ spacing ((m + part) * 2 ^ e) := le_max_right _ _
  unfold roundWithAccuracy nearestMagnitude
  generalize shiftToTargetExponent format m e a = shifted at hstands hexp hrounded
  obtain ⟨em, t⟩ := shifted
  dsimp only at hrounded hexp ⊢
  rw [hrounded, hexp, shiftToTargetExponent_rounded hle hlow]
  generalize spacing ((m + part) * 2 ^ e) = t at *
  generalize toEven ((m + part) * 2 ^ e / 2 ^ t) = r at *
  by_cases h53 : r = 2 ^ 53
  · rw [if_pos h53, dif_neg (by norm_num)]
    refine ⟨⟨by norm_num, by omega, .inl (le_refl _)⟩, ?_⟩
    show withSign s (((2 ^ 52 : ℕ) : ℚ) * 2 ^ (t + 1)) = withSign s (r * 2 ^ t)
    rw [h53, two_zpow_add]
    push_cast
    congr 1
    ring
  · rw [if_neg h53]
    dsimp only
    by_cases h0 : r = 0
    · rw [dif_pos h0]
      refine ⟨trivial, ?_⟩
      show 0 = withSign s (r * 2 ^ t)
      rw [h0, Nat.cast_zero, zero_mul]
      cases s <;> simp [withSign]
    · rw [dif_neg h0]
      refine ⟨⟨by omega, hlow, ?_⟩, rfl⟩
      rcases hlow.lt_or_eq with hlt | heq
      · exact .inl (hnormal hlt)
      · exact .inr heq.symm

/-- A result of a unit or more is computed finely enough where the exponent aimed at says so. -/
theorem roundWithAccuracy_spec (s : Sign) {m : ℕ} (hm : 0 < m) {e : ℤ} {a : Accuracy} {part : ℚ}
    (ha : Describes a part) (he : e ≤ format.targetExponent (totalExponent m e)) :
    Canonical (roundWithAccuracy format s m e a)
      ∧ unpackedValue (roundWithAccuracy format s m e a)
        = withSign s (nearestMagnitude ((m + part) * 2 ^ e)) := by
  obtain ⟨h0, h1⟩ := ha.bounds
  have hpos : 0 < (m : ℚ) + part := by
    have : (0 : ℚ) < m := Nat.cast_pos.mpr hm
    linarith
  rw [targetExponent_eq hm e h0 h1] at he
  exact roundWithAccuracy_nearest s ha hpos he

end SeriesQuery.Binary64
