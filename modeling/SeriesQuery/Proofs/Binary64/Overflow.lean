import SeriesQuery.Proofs.Binary64.Quotients
import SeriesQuery.Proofs.Binary64.Units

/-!
# Leaving the finite numbers

What is infinite or no number does not become finite again by multiplying. Dividing it by a finite
number leaves it infinite, and by an infinite one leaves no number. A finite number divided by one
that is not below one stays finite.

How large a product is can be told from bounds on its factors also where it is no longer finite: a
magnitude that would lie beyond the format has reached its limit. Each product widens the bounds
by the share that rounding can move it.
-/

open Float.Model Float.Model.UnpackedFloat

namespace SeriesQuery.Binary64

variable {x y : Float}

/-! ## What is not finite -/

theorem isFinite_iff (hx : ¬ IsNaN x) : x.isFinite = true ↔ |value x| < limit := by
  rw [abs_lt]
  refine ⟨value_mem_of_isFinite, fun ⟨hlow, hhigh⟩ => ?_⟩
  rcases finite_or_infinite hx with hf | hinf | hinf
  · exact hf
  · exact absurd (value_infinity hinf) hhigh.ne
  · exact absurd (value_infinity hinf) hlow.ne'

theorem isNaN_or_infinity (hx : ¬ x.isFinite = true) :
    IsNaN x ∨ ∃ s, x.toModel.unpack = .infinity s := by
  by_cases hn : IsNaN x
  · exact .inl hn
  · rcases finite_or_infinite hn with hf | hinf | hinf
    · exact absurd hf hx
    · exact .inr ⟨_, hinf⟩
    · exact .inr ⟨_, hinf⟩

theorem not_isFinite_of_isNaN (hx : IsNaN x) : ¬ x.isFinite = true :=
  fun hf => not_isNaN_of_isFinite hf hx

theorem not_isFinite_of_infinity {s : Sign} (hx : x.toModel.unpack = .infinity s) :
    ¬ x.isFinite = true :=
  fun hf => not_infinity_of_isFinite hf s hx

/-- A product with an infinite factor is infinite, or no number. -/
theorem mul_infinity_cases {s : Sign} (x : Float) (hy : y.toModel.unpack = .infinity s) :
    IsNaN (x * y) ∨ ∃ s', (x * y).toModel.unpack = .infinity s' := by
  have hprod : UnpackedFloat.mul format x.toModel.unpack (.infinity s) = .notANumber
      ∨ ∃ s', UnpackedFloat.mul format x.toModel.unpack (.infinity s) = .infinity s' := by
    cases x.toModel.unpack with
    | notANumber => exact .inl rfl
    | zero s' => exact .inl rfl
    | infinity s' => exact .inr ⟨_, rfl⟩
    | finite s' m e hm => exact .inr ⟨_, rfl⟩
  unfold IsNaN
  rw [unpack_mul, hy]
  rcases hprod with h | ⟨s', h⟩
  · rw [h]
    exact .inl rfl
  · rw [h]
    exact .inr ⟨s', unpack_packedInfinity s'⟩

theorem mul_infinity_of_pos (hx : 0 < value x) (hy : y.toModel.unpack = .infinity .positive) :
    (x * y).toModel.unpack = .infinity .positive
      ∧ (y * x).toModel.unpack = .infinity .positive := by
  have hprod : UnpackedFloat.mul format x.toModel.unpack (.infinity .positive)
        = .infinity .positive
      ∧ UnpackedFloat.mul format (.infinity .positive) x.toModel.unpack
        = .infinity .positive := by
    have hsign := signOf_of_pos hx
    unfold value at hx
    cases hu : x.toModel.unpack with
    | notANumber => rw [hu] at hx; exact absurd hx (lt_irrefl 0)
    | zero s => rw [hu] at hx; exact absurd hx (lt_irrefl 0)
    | infinity s =>
        rw [hu] at hsign
        obtain rfl : s = .positive := hsign
        exact ⟨rfl, rfl⟩
    | finite s m e hm =>
        rw [hu] at hsign
        obtain rfl : s = .positive := hsign
        exact ⟨rfl, rfl⟩
  rw [unpack_mul, unpack_mul, hy, hprod.1, hprod.2]
  exact ⟨rfl, rfl⟩

theorem not_isFinite_mul (x : Float) (hy : ¬ y.isFinite = true) : ¬ (x * y).isFinite = true := by
  rcases isNaN_or_infinity hy with hn | ⟨s, hinf⟩
  · exact not_isFinite_of_isNaN (isNaN_mul (.inr hn))
  · rcases mul_infinity_cases x hinf with hn | ⟨s', hinf'⟩
    · exact not_isFinite_of_isNaN hn
    · exact not_isFinite_of_infinity hinf'

theorem infinity_div {s : Sign} (hx : x.toModel.unpack = .infinity s) (hy : y.isFinite = true) :
    ∃ s', (x / y).toModel.unpack = .infinity s' := by
  have hy : y.toModel.unpack.isFinite = true := hy
  have hquot : ∃ s', UnpackedFloat.div format (.infinity s) y.toModel.unpack = .infinity s' := by
    cases hu : y.toModel.unpack with
    | notANumber => rw [hu] at hy; cases hy
    | infinity s' => rw [hu] at hy; cases hy
    | zero s' => exact ⟨_, rfl⟩
    | finite s' m e hm => exact ⟨_, rfl⟩
  obtain ⟨s', hquot⟩ := hquot
  rw [unpack_div, hx, hquot]
  exact ⟨s', unpack_packedInfinity s'⟩

theorem isNaN_div_infinity {s : Sign} (hx : ¬ x.isFinite = true)
    (hy : y.toModel.unpack = .infinity s) : IsNaN (x / y) := by
  have hquot : UnpackedFloat.div format x.toModel.unpack (.infinity s) = .notANumber := by
    rcases isNaN_or_infinity hx with hn | ⟨s', hinf⟩
    · rw [hn]
      rfl
    · rw [hinf]
      rfl
  unfold IsNaN
  rw [unpack_div, hy, hquot]
  rfl

/-! ## What stays finite -/

theorem abs_nearest (x : ℚ) : |nearest x| = nearest |x| := by
  rcases le_total 0 x with h | h
  · rw [abs_of_nonneg h, abs_of_nonneg (nearest_nonneg h)]
  · have hneg := nearest_nonneg (neg_nonneg.mpr h)
    rw [abs_of_nonpos h, ← abs_neg, ← nearest_neg, abs_of_nonneg hneg]

theorem abs_clamp_lt_iff (x : ℚ) : |clamp x| < limit ↔ |x| < limit := by
  have hpos := limit_pos
  rw [abs_lt, abs_lt, clamp, lt_max_iff, max_lt_iff, lt_min_iff, min_lt_iff]
  constructor
  · rintro ⟨hlow, -, hhigh⟩
    exact ⟨(hlow.resolve_left (lt_irrefl _)).2, hhigh.resolve_left (lt_irrefl _)⟩
  · rintro ⟨hlow, hhigh⟩
    exact ⟨.inr ⟨by linarith, hlow⟩, by linarith, .inr hhigh⟩

/-- A result is finite if the number nearest to the exact one lies below the limit. -/
theorem isFinite_iff_nearest {q : ℚ} (hx : ¬ IsNaN x) (hv : value x = clamp (nearest q)) :
    x.isFinite = true ↔ nearest |q| < limit := by
  rw [isFinite_iff hx, hv, abs_clamp_lt_iff, abs_nearest]

theorem unpack_neg (x : Float) : (-x).toModel.unpack
    = UnpackedFloat.unpack format (UnpackedFloat.pack format x.toModel.unpack.neg) := rfl

theorem isFinite_neg (hx : x.isFinite = true) : (-x).isFinite = true := by
  obtain ⟨hf, hc, hv⟩ := neg_spec x.toModel.unpack
  obtain ⟨hn, hstored⟩ := unpack_pack (hf hx) (hc (canonical x))
  rw [← unpack_neg] at hn hstored
  rw [isFinite_iff hn, value, hstored, hv, abs_clamp_lt_iff, abs_neg]
  exact (isFinite_iff (not_isNaN_of_isFinite hx)).mp hx

theorem isFinite_ofNat {n : ℕ} (h : n ≤ 2 ^ 53) : (Float.ofNat n).isFinite = true := by
  obtain ⟨hn, hv⟩ := value_ofNat n
  have hle : (n : ℚ) ≤ (2 ^ 53 : ℕ) := Nat.cast_le.mpr h
  have hlimit : ((2 ^ 53 : ℕ) : ℚ) < limit := by
    rw [Nat.cast_pow, ← zpow_natCast]
    exact zpow_lt_zpow_right₀ (by norm_num) (by norm_num)
  refine (isFinite_iff_nearest hn hv).mpr ?_
  rw [Nat.abs_cast, nearest_natCast h]
  exact hle.trans_lt hlimit

theorem isFinite_mul_iff (hx : x.isFinite = true) (hy : y.isFinite = true) :
    (x * y).isFinite = true ↔ nearest |value x * value y| < limit :=
  isFinite_iff_nearest (value_mul hx hy).1 (value_mul hx hy).2

theorem isFinite_div_of_one_le (hx : x.isFinite = true) (hy : y.isFinite = true)
    (hone : 1 ≤ value y) : (x / y).isFinite = true := by
  obtain ⟨hn, hv⟩ := value_div hx hy (by linarith)
  have hshrink : |value x / value y| ≤ |value x| := by
    rw [abs_div, abs_of_pos (show 0 < value y by linarith)]
    exact div_le_self (abs_nonneg _) hone
  have hkeep : nearest (value x) = value x := nearest_unpackedValue hx (canonical x)
  rw [isFinite_iff_nearest hn hv]
  calc nearest |value x / value y| ≤ nearest |value x| := nearest_mono hshrink
    _ = |value x| := by rw [← abs_nearest, hkeep]
    _ < limit := (isFinite_iff (not_isNaN_of_isFinite hx)).mp hx

/-! ## Bounds that rounding widens -/

/-- The share of a magnitude that rounding leaves at least. -/
def shrunk : ℚ := 1 - 1 / 2 ^ 53

/-- The share of a magnitude that rounding leaves at most. -/
def grown : ℚ := 1 + 1 / 2 ^ 53

theorem shrunk_pos : 0 < shrunk := by norm_num [shrunk]

theorem shrunk_le_one : shrunk ≤ 1 := by norm_num [shrunk]

theorem grown_pos : 0 < grown := by norm_num [grown]

theorem one_le_grown : 1 ≤ grown := by norm_num [grown]

/-- A number between two magnitudes, as far as the format reaches. -/
structure Within (low high : ℚ) (x : Float) : Prop where
  /-- It is a number. -/
  number : ¬ IsNaN x
  /-- It has reached the lower magnitude, or the limit. -/
  lower : min low limit ≤ value x
  /-- It has not passed the upper one. -/
  upper : value x ≤ high

namespace Within

variable {low high low' high' : ℚ}

theorem of_isFinite (hx : x.isFinite = true) (hlow : low ≤ value x) (hhigh : value x ≤ high) :
    Within low high x where
  number := not_isNaN_of_isFinite hx
  lower := (min_le_left low limit).trans hlow
  upper := hhigh

theorem of_infinity (hx : x.toModel.unpack = .infinity .positive) (h : limit ≤ high) :
    Within low high x where
  number := not_isNaN_infinity hx
  lower := (min_le_right low limit).trans_eq (value_infinity hx).symm
  upper := (value_infinity hx).trans_le h

theorem one_le (h : Within low high x) (hlow : 1 ≤ low) : 1 ≤ value x := by
  have hlimit : (1 : ℚ) ≤ limit := one_le_zpow₀ (by norm_num) (by norm_num)
  exact (le_min hlow hlimit).trans h.lower

theorem cases (h : Within low high x) (hlow : 1 ≤ low) :
    x.isFinite = true ∧ low ≤ value x ∨ x.toModel.unpack = .infinity .positive := by
  have hone := h.one_le hlow
  rcases finite_or_infinite h.number with hf | hinf | hinf
  · have hlt := (value_mem_of_isFinite hf).2
    exact .inl ⟨hf, (min_le_iff.mp h.lower).resolve_right (not_le.mpr hlt)⟩
  · exact .inr hinf
  · have := limit_pos
    rw [value_infinity hinf, withSign] at hone
    linarith

/-- A product lies between the products of the bounds, but for what rounding moves it. -/
theorem mul (hx : Within low high x) (hy : Within low' high' y) (hlow : 1 ≤ low)
    (hlow' : 1 ≤ low') :
    Within (low * low' * shrunk) (high * high' * grown) (x * y) := by
  have hx1 := hx.one_le hlow
  have hy1 := hy.one_le hlow'
  have hone : 1 ≤ value x * value y := one_le_mul_of_one_le_of_one_le hx1 hy1
  have hexact : value x * value y ≤ high * high' :=
    mul_le_mul hx.upper hy.upper (by linarith) (by linarith [hx.upper])
  have hwide : high * high' ≤ high * high' * grown :=
    le_mul_of_one_le_right (by linarith) one_le_grown
  obtain ⟨hxf, hxlow⟩ | hxinf := hx.cases hlow
  · obtain ⟨hyf, hylow⟩ | hyinf := hy.cases hlow'
    · obtain ⟨hn, hv⟩ := value_mul hxf hyf
      have hsmall : (2 : ℚ) ^ (-1022 : ℤ) ≤ value x * value y :=
        (zpow_le_one_of_nonpos₀ (by norm_num) (by norm_num)).trans hone
      have hclamp : value (x * y) = min limit (nearest (value x * value y)) := by
        have := limit_pos
        have hnonneg := nearest_nonneg (show 0 ≤ value x * value y by linarith)
        rw [hv, clamp, max_eq_right]
        exact le_min (by linarith) (by linarith)
      refine ⟨hn, ?_, ?_⟩
      · have hlower : low * low' * shrunk ≤ nearest (value x * value y) :=
          calc low * low' * shrunk ≤ value x * value y * shrunk :=
                mul_le_mul_of_nonneg_right
                  (mul_le_mul hxlow hylow (by linarith) (by linarith)) shrunk_pos.le
            _ ≤ nearest (value x * value y) := mul_le_nearest hsmall
        rw [hclamp, min_comm]
        exact min_le_min (le_refl _) hlower
      · calc value (x * y) ≤ nearest (value x * value y) := hclamp.trans_le (min_le_right _ _)
          _ ≤ value x * value y * grown := nearest_le_mul hsmall
          _ ≤ high * high' * grown :=
            mul_le_mul_of_nonneg_right hexact grown_pos.le
    · refine of_infinity (mul_infinity_of_pos (by linarith) hyinf).1 ?_
      calc limit = value y := (value_infinity hyinf).symm
        _ ≤ value x * value y := le_mul_of_one_le_left (by linarith) hx1
        _ ≤ high * high' * grown := hexact.trans hwide
  · refine of_infinity (mul_infinity_of_pos (by linarith) hxinf).2 ?_
    calc limit = value x := (value_infinity hxinf).symm
      _ ≤ value x * value y := le_mul_of_one_le_right (by linarith) hy1
      _ ≤ high * high' * grown := hexact.trans hwide

end Within

end SeriesQuery.Binary64
