import SeriesQuery.Proofs.Binary64.Arithmetic
import SeriesQuery.RawData

/-!
# The total order of numbers

The 64 bits of a number, read as a whole number, grow with its magnitude: the exponent stands in
front of the mantissa, and the bit that a mantissa has when its exponent is not the smallest adds
one to the exponent. So the place of a number in the total order never contradicts its value.
-/

open Float.Model Float.Model.UnpackedFloat

namespace SeriesQuery.Binary64

/-! ## Fields -/

theorem toNat_unpackMantissa (b : BitVec format.numBits) :
    (unpackMantissa b).toNat = b.toNat % 2 ^ 52 := by
  simp [unpackMantissa]

theorem toNat_unpackExponent (b : BitVec format.numBits) :
    (unpackExponent b).toNat = b.toNat / 2 ^ 52 % 2 ^ 11 := by
  simp [unpackExponent, Nat.shiftRight_eq_div_pow]

theorem toNat_unpackSign (b : BitVec format.numBits) :
    (unpackSign b).toNat = b.toNat / 2 ^ 63 % 2 := by
  unfold unpackSign
  simp [Nat.shiftRight_eq_div_pow]

/-- The place of a magnitude among the magnitudes. -/
def magnitudeRank : UnpackedFloat → ℤ
  | .infinity _ => 2047 * 2 ^ 52
  | .notANumber => 0
  | .zero _ => 0
  | .finite _ m e _ => (e + 1074) * 2 ^ 52 + m

theorem signOf_unpack {b : BitVec format.numBits}
    (hn : UnpackedFloat.unpack format b ≠ .notANumber) :
    signOf (UnpackedFloat.unpack format b) = if b.toNat < 2 ^ 63 then .positive else .negative := by
  have hsign : Sign.ofBitVec (unpackSign b)
      = if b.toNat < 2 ^ 63 then .positive else .negative := by
    have hbit := toNat_unpackSign b
    have hlt : b.toNat < 2 ^ 64 := b.isLt
    unfold Sign.ofBitVec
    split
    · next h =>
        rw [h] at hbit
        have : 0 = b.toNat / 2 ^ 63 % 2 := hbit
        rw [if_pos (by omega)]
    · next h =>
        have : (unpackSign b).toNat ≠ 0 := fun he => h (BitVec.eq_of_toNat_eq he)
        rw [if_neg (by omega)]
  rw [← hsign]
  unfold UnpackedFloat.unpack at hn ⊢
  dsimp only at hn ⊢
  split
  · next h =>
      rw [if_pos h] at hn
      split
      · rfl
      · next h' =>
          rw [if_neg h'] at hn
          exact absurd rfl hn
  · split
    · split
      · rfl
      · rfl
    · rfl

theorem magnitudeRank_unpack {b : BitVec format.numBits}
    (hn : UnpackedFloat.unpack format b ≠ .notANumber) :
    magnitudeRank (UnpackedFloat.unpack format b) = (b.toNat % 2 ^ 63 : ℕ) := by
  have hm := toNat_unpackMantissa b
  have he := toNat_unpackExponent b
  have hfull := toNat_implicit_bit (unpackMantissa b)
  have hbias : (format.exponentBias : ℤ) = 1023 := rfl
  have hwidth : (format.mantissaBitsWithoutImplicit : ℤ) = 52 := rfl
  unfold UnpackedFloat.unpack at hn ⊢
  dsimp only at hn ⊢
  split
  · next h =>
      rw [if_pos h] at hn
      split
      · next h' =>
          have he' : (unpackExponent b).toNat = 2047 := by rw [h]; rfl
          have hm' : (unpackMantissa b).toNat = 0 := by rw [h']; rfl
          rw [magnitudeRank]
          omega
      · next h' =>
          rw [if_neg h'] at hn
          exact absurd rfl hn
  · split
    · next h =>
        have he' : (unpackExponent b).toNat = 0 := by rw [h]; rfl
        split
        · next h' =>
            have hm' : (unpackMantissa b).toNat = 0 := by rw [h']; rfl
            rw [magnitudeRank]
            omega
        · rw [magnitudeRank]
          omega
    · have hfull : (1#1 ++ unpackMantissa b).toNat = 2 ^ 52 + (unpackMantissa b).toNat := hfull
      rw [magnitudeRank]
      rw [hfull]
      push_cast
      omega

/-! ## The order of ranks -/

/-- The place of a number of a sign among the numbers. -/
def signedRank : Sign → ℤ → ℤ
  | .positive, r => r
  | .negative, r => -r - 1

theorem totalRank_eq {x : Float} (hn : ¬ IsNaN x) :
    totalRank x = signedRank (signOf x.toModel.unpack) (magnitudeRank x.toModel.unpack) := by
  have hrank := magnitudeRank_unpack hn
  have hsign := signOf_unpack hn
  have hlt : x.toBits.toNat < 2 ^ 64 := UInt64.toNat_lt _
  have hbits : x.toModel.toBits.toBitVec.toNat = x.toBits.toNat := rfl
  rw [hbits] at hrank hsign
  rw [show magnitudeRank x.toModel.unpack = _ from hrank,
    show signOf x.toModel.unpack = _ from hsign]
  have htwo : twoTo 63 = 2 ^ 63 := rfl
  unfold totalRank
  rw [htwo]
  dsimp only
  split
  · rw [signedRank]
    omega
  · rw [signedRank]
    omega

theorem magnitudeRank_nonneg {u : UnpackedFloat} (hc : Canonical u) : 0 ≤ magnitudeRank u := by
  cases u with
  | zero s => exact le_refl 0
  | infinity s => rw [magnitudeRank]; norm_num
  | notANumber => exact le_refl 0
  | finite s m e hm =>
      obtain ⟨-, hlow, -⟩ := hc
      rw [magnitudeRank]
      omega

theorem magnitudeRank_lt_infinity {s : Sign} {m : ℕ} {e : ℤ} {hm : 0 < m}
    (hc : Canonical (.finite s m e hm)) (hb : Bounded (.finite s m e hm)) :
    magnitudeRank (.finite s m e hm) < 2047 * 2 ^ 52 := by
  have hb : e ≤ 971 := hb
  obtain ⟨hhigh, -, -⟩ := hc
  rw [magnitudeRank]
  omega

theorem magnitudeRank_pos {s : Sign} {m : ℕ} {e : ℤ} {hm : 0 < m}
    (hc : Canonical (.finite s m e hm)) : 0 < magnitudeRank (.finite s m e hm) := by
  obtain ⟨-, hlow, -⟩ := hc
  rw [magnitudeRank]
  omega

/-- The larger exponent has the larger rank. -/
theorem magnitudeRank_lt_of_exponent_lt {s₁ s₂ : Sign} {m₁ m₂ : ℕ} {e₁ e₂ : ℤ} {h₁ : 0 < m₁}
    {h₂ : 0 < m₂} (hc₁ : Canonical (.finite s₁ m₁ e₁ h₁)) (hc₂ : Canonical (.finite s₂ m₂ e₂ h₂))
    (he : e₁ < e₂) : magnitudeRank (.finite s₁ m₁ e₁ h₁) < magnitudeRank (.finite s₂ m₂ e₂ h₂) := by
  obtain ⟨hhigh, hlow, -⟩ := hc₁
  obtain ⟨-, -, hfull⟩ := hc₂
  have h52 : 2 ^ 52 ≤ m₂ := by omega
  rw [magnitudeRank, magnitudeRank]
  omega

/-- Magnitudes are ranked as they are. -/
theorem magnitudeRank_le_iff {u v : UnpackedFloat} (hu : u ≠ .notANumber) (hv : v ≠ .notANumber)
    (hcu : Canonical u) (hbu : Bounded u) (hcv : Canonical v) (hbv : Bounded v) :
    magnitudeRank u ≤ magnitudeRank v ↔ magnitude u ≤ magnitude v := by
  cases u with
  | notANumber => exact absurd rfl hu
  | zero s => exact iff_of_true (magnitudeRank_nonneg hcv) (magnitude_nonneg v)
  | infinity s =>
      cases v with
      | notANumber => exact absurd rfl hv
      | infinity s' => exact iff_of_true (le_refl _) (le_refl _)
      | zero s' =>
          refine iff_of_false ?_ (not_le.mpr limit_pos)
          rw [magnitudeRank, magnitudeRank]
          norm_num
      | finite s' m e hm =>
          exact iff_of_false (not_le.mpr (magnitudeRank_lt_infinity hcv hbv))
            (not_le.mpr (magnitude_lt_limit hcv hbv))
  | finite s m e hm =>
      cases v with
      | notANumber => exact absurd rfl hv
      | infinity s' =>
          exact iff_of_true (magnitudeRank_lt_infinity hcu hbu).le (magnitude_lt_limit hcu hbu).le
      | zero s' =>
          exact iff_of_false (not_le.mpr (magnitudeRank_pos hcu)) (not_le.mpr (magnitude_pos hm e))
      | finite s' m' e' hm' =>
          rcases lt_trichotomy e e' with he | rfl | he
          · exact iff_of_true (magnitudeRank_lt_of_exponent_lt hcu hcv he).le
              (magnitude_lt_of_exponent_lt hcu hcv he).le
          · rw [magnitudeRank, magnitudeRank, add_le_add_iff_left, Nat.cast_le, magnitude,
              magnitude, mul_le_mul_iff_left₀ (two_zpow_pos e), Nat.cast_le]
          · exact iff_of_false (not_le.mpr (magnitudeRank_lt_of_exponent_lt hcv hcu he))
              (not_le.mpr (magnitude_lt_of_exponent_lt hcv hcu he))

theorem magnitudeRank_eq {u v : UnpackedFloat} (hu : u ≠ .notANumber) (hv : v ≠ .notANumber)
    (hcu : Canonical u) (hbu : Bounded u) (hcv : Canonical v) (hbv : Bounded v)
    (h : magnitude u = magnitude v) : magnitudeRank u = magnitudeRank v :=
  le_antisymm ((magnitudeRank_le_iff hu hv hcu hbu hcv hbv).mpr h.le)
    ((magnitudeRank_le_iff hv hu hcv hbv hcu hbu).mpr h.ge)

/-- Sorting by rank never puts a time before an earlier one. -/
theorem not_lt_of_totalRank_le {x y : Float} (h : totalRank x ≤ totalRank y) : ¬ y < x := by
  intro hlt
  obtain ⟨hy, hx, hv⟩ := lt_iff.mp hlt
  rw [totalRank_eq hx, totalRank_eq hy] at h
  unfold value at hv
  rw [unpackedValue_eq, unpackedValue_eq] at hv
  have hcx := canonical x
  have hcy := canonical y
  have hbx := bounded x
  have hby := bounded y
  have hx : x.toModel.unpack ≠ .notANumber := hx
  have hy : y.toModel.unpack ≠ .notANumber := hy
  generalize x.toModel.unpack = u at *
  generalize y.toModel.unpack = v at *
  have hu0 := magnitude_nonneg u
  have hv0 := magnitude_nonneg v
  have hru := magnitudeRank_nonneg hcx
  have hrv := magnitudeRank_nonneg hcy
  cases hsu : signOf u <;> cases hsv : signOf v <;>
    rw [hsu, hsv] at h hv <;> simp only [signedRank, withSign] at h hv
  · have := (magnitudeRank_le_iff hy hx hcy hby hcx hbx).mp (by omega)
    linarith
  · linarith
  · omega
  · have := (magnitudeRank_le_iff hx hy hcx hbx hcy hby).mp h
    linarith

/-! ## The order of numbers -/

theorem eq_of_totalRank_eq {x y : Float} (h : totalRank x = totalRank y) : x = y := by
  refine Float.toBits_inj.mp (UInt64.toNat_inj.mp ?_)
  unfold totalRank at h
  dsimp only at h
  split at h <;> split at h <;> omega

/-- One number is not behind another in the total order: it is smaller or the same, where minus
zero comes before zero. -/
def NotBehind (x y : Float) : Prop := x < y ∨ x = y ∨ x = -0.0 ∧ y = 0.0

/-- Numbers of equal value are in their places only if they are the same or minus zero and zero. -/
theorem notBehind_of_value_eq {x y : Float} (hx : ¬ IsNaN x) (hy : ¬ IsNaN y)
    (hv : value x = value y) (h : totalRank x ≤ totalRank y) : NotBehind x y := by
  have hrx := totalRank_eq hx
  have hry := totalRank_eq hy
  have hcx := canonical x
  have hcy := canonical y
  have hbx := bounded x
  have hby := bounded y
  have hxn : x.toModel.unpack ≠ .notANumber := hx
  have hyn : y.toModel.unpack ≠ .notANumber := hy
  unfold value at hv
  rw [unpackedValue_eq, unpackedValue_eq] at hv
  generalize x.toModel.unpack = u at *
  generalize y.toModel.unpack = v at *
  have hu0 := magnitude_nonneg u
  have hv0 := magnitude_nonneg v
  have hru := magnitudeRank_nonneg hcx
  have hrv := magnitudeRank_nonneg hcy
  cases hsu : signOf u <;> cases hsv : signOf v <;>
    rw [hsu, hsv] at hv <;> rw [hsu] at hrx <;> rw [hsv] at hry <;>
    simp only [signedRank, withSign] at hrx hry hv
  · have := magnitudeRank_eq hxn hyn hcx hbx hcy hby (neg_injective hv)
    exact .inr (.inl (eq_of_totalRank_eq (by omega)))
  · -- Both are of no magnitude.
    have hu : magnitudeRank u = magnitudeRank (.zero .positive) :=
      magnitudeRank_eq hxn (by simp) hcx hbx trivial trivial (show magnitude u = 0 by linarith)
    have hv : magnitudeRank v = magnitudeRank (.zero .positive) :=
      magnitudeRank_eq hyn (by simp) hcy hby trivial trivial (show magnitude v = 0 by linarith)
    have hminus : totalRank (-0.0) = -1 := by decide +kernel
    have hplus : totalRank 0.0 = 0 := by decide +kernel
    rw [show magnitudeRank (.zero .positive) = 0 from rfl] at hu hv
    exact .inr (.inr ⟨eq_of_totalRank_eq (by omega), eq_of_totalRank_eq (by omega)⟩)
  · omega
  · have := magnitudeRank_eq hxn hyn hcx hbx hcy hby hv
    exact .inr (.inl (eq_of_totalRank_eq (by omega)))

/-- The places of numbers are their places in the total order. -/
theorem totalRank_le_iff {x y : Float} (hx : ¬ IsNaN x) (hy : ¬ IsNaN y) :
    totalRank x ≤ totalRank y ↔ NotBehind x y := by
  constructor
  · intro h
    rcases lt_trichotomy (value x) (value y) with hlt | heq | hgt
    · exact .inl (lt_iff.mpr ⟨hx, hy, hlt⟩)
    · exact notBehind_of_value_eq hx hy heq h
    · exact absurd (lt_iff.mpr ⟨hy, hx, hgt⟩) (not_lt_of_totalRank_le h)
  · rintro (h | rfl | ⟨rfl, rfl⟩)
    · exact (lt_of_not_ge fun hle => not_lt_of_totalRank_le hle h).le
    · exact le_refl _
    · decide +kernel

end SeriesQuery.Binary64
