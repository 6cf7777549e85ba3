import SeriesQuery.Proofs.Binary64.Order

/-!
# Numbers in 64 bits

What is read out of 64 bits has the form of the format, and a number of that form is read as it
was stored. Only what is too large for the format is not: it is stored as an infinity, whose value
counts as the first power of two that is too large, so the value is cut off there.
-/

open Float.Model Float.Model.UnpackedFloat

namespace SeriesQuery.Binary64

/-! ## Reading -/

theorem toNat_implicit_bit {n : ℕ} (b : BitVec n) : (1#1 ++ b).toNat = 2 ^ n + b.toNat := by
  have hbit : (1#1).toNat <<< n = 2 ^ n * 1 := by
    rw [Nat.shiftLeft_eq, mul_comm]
    rfl
  rw [BitVec.toNat_append, hbit, ← Nat.two_pow_add_eq_or_of_lt b.isLt, mul_one]

theorem exponent_lt {b : BitVec format.numBits} (h : ¬ unpackExponent b = -1#_) :
    (unpackExponent b).toNat < 2047 := by
  have hlt : (unpackExponent b).toNat < 2048 := (unpackExponent b).isLt
  have hne : (unpackExponent b).toNat ≠ 2047 := fun he => h (BitVec.eq_of_toNat_eq he)
  omega

theorem exponent_pos {b : BitVec format.numBits} (h : ¬ unpackExponent b = 0#_) :
    0 < (unpackExponent b).toNat := by
  have hne : (unpackExponent b).toNat ≠ 0 := fun he => h (BitVec.eq_of_toNat_eq he)
  omega

/-- What is read has the form of the format. -/
theorem canonical_unpack (b : BitVec format.numBits) :
    Canonical (UnpackedFloat.unpack format b) ∧ Bounded (UnpackedFloat.unpack format b) := by
  have hm : (unpackMantissa b).toNat < 2 ^ 52 := (unpackMantissa b).isLt
  have hbias : ((format.exponentBias + format.mantissaBitsWithoutImplicit : ℕ) : ℤ) = 1075 := rfl
  push_cast at hbias
  unfold UnpackedFloat.unpack
  dsimp only
  split
  · split
    · exact ⟨trivial, trivial⟩
    · exact ⟨trivial, trivial⟩
  · next hlarge =>
      have hlt := exponent_lt hlarge
      split
      · next hzero =>
          split
          · exact ⟨trivial, trivial⟩
          · have he : (unpackExponent b).toNat = 0 := by
              rw [hzero]
              rfl
            refine ⟨⟨by omega, by omega, .inr (by omega)⟩, ?_⟩
            show _ ≤ (971 : ℤ)
            omega
      · next hzero =>
          have hpos := exponent_pos hzero
          have hfull := toNat_implicit_bit (unpackMantissa b)
          refine ⟨⟨?_, by omega, .inl ?_⟩, ?_⟩
          · rw [hfull]
            show 2 ^ 52 + _ < _
            omega
          · rw [hfull]
            exact Nat.le_add_right _ _
          · show _ ≤ (971 : ℤ)
            omega

/-! ## Storing -/

theorem unpackSign_packComponents {spec : Format} (s : Sign) (e : BitVec spec.exponentBits)
    (m : BitVec spec.mantissaBitsWithoutImplicit) :
    Sign.ofBitVec (unpackSign (packComponents spec s e m)) = s := by
  have hbits : unpackSign (packComponents spec s e m) = s.toBitVec := by
    ext i hi
    obtain rfl : i = 0 := by omega
    unfold unpackSign packComponents
    simp [BitVec.getLsbD_append, BitVec.getElem_append]
  rw [hbits]
  cases s
  · rfl
  · rfl

theorem unpack_packedInfinity (s : Sign) :
    UnpackedFloat.unpack format (packedInfinity format s) = .infinity s := by
  cases s
  · rfl
  · rfl

theorem pack_finite {s : Sign} {m : ℕ} {e : ℤ} {hm : 0 < m} (hlow : -1074 ≤ e) (hb : e ≤ 971) :
    UnpackedFloat.pack format (.finite s m e hm)
      = if m.log2 + 1 = format.mantissaBits then
          packComponents format s (BitVec.ofNat _ (e + 1075).toNat) (BitVec.ofNat _ m)
        else packComponents format s 0#_ (BitVec.ofNat _ m) := by
  have hbiased : (e + format.exponentBias + format.mantissaBitsWithoutImplicit).toNat
      = (e + 1075).toNat := by
    show (e + 1023 + 52).toNat = _
    congr 1
    omega
  have hfits : ¬ 2 ^ format.exponentBits ≤ (e + 1075).toNat + 1 := by
    show ¬ 2 ^ 11 ≤ _
    omega
  unfold UnpackedFloat.pack
  dsimp only
  rw [hbiased, if_neg hfits]

/-- A finite number with all bits of the mantissa keeps its exponent. -/
theorem unpack_pack_normal {s : Sign} {m : ℕ} {e : ℤ} {hm : 0 < m} (hhigh : m < 2 ^ 53)
    (hnormal : 2 ^ 52 ≤ m) (hlow : -1074 ≤ e) (hb : e ≤ 971) :
    UnpackedFloat.unpack format (UnpackedFloat.pack format (.finite s m e hm))
      = .finite s m e hm := by
  have hlog : m.log2 + 1 = format.mantissaBits := by
    have h52 : 52 ≤ m.log2 := (Nat.le_log2 hm.ne').mpr hnormal
    have h53 : m.log2 < 53 := (Nat.log2_lt hm.ne').mpr hhigh
    show m.log2 + 1 = 53
    omega
  have hexponent :
      (BitVec.ofNat format.exponentBits (e + 1075).toNat).toNat = (e + 1075).toNat := by
    rw [BitVec.toNat_ofNat]
    exact Nat.mod_eq_of_lt (by show _ < 2 ^ 11; omega)
  have hfield : ∀ k : BitVec format.exponentBits, k.toNat = 0 ∨ k.toNat = 2047 →
      BitVec.ofNat format.exponentBits (e + 1075).toNat ≠ k := by
    intro k hk he
    rw [← he, hexponent] at hk
    omega
  have hmantissa : (BitVec.ofNat format.mantissaBitsWithoutImplicit m).toNat = m % 2 ^ 52 :=
    BitVec.toNat_ofNat _ _
  rw [pack_finite hlow hb, if_pos hlog]
  unfold UnpackedFloat.unpack
  simp only [unpackMantissa_packComponents, unpackExponent_packComponents,
    unpackSign_packComponents]
  rw [if_neg (hfield _ (.inr rfl)), if_neg (hfield _ (.inl rfl))]
  congr 1
  · rw [toNat_implicit_bit, hmantissa]
    show 2 ^ 52 + _ = _
    omega
  · rw [hexponent]
    show ((e + 1075).toNat : ℤ) - 1075 = e
    omega

/-- A finite number with fewer bits has the lowest exponent. -/
theorem unpack_pack_subnormal {s : Sign} {m : ℕ} {hm : 0 < m} (hsmall : m < 2 ^ 52) :
    UnpackedFloat.unpack format (UnpackedFloat.pack format (.finite s m (-1074) hm))
      = .finite s m (-1074) hm := by
  have hlog : ¬ m.log2 + 1 = format.mantissaBits := by
    have h52 : m.log2 < 52 := (Nat.log2_lt hm.ne').mpr hsmall
    show ¬ m.log2 + 1 = 53
    omega
  have hmantissa : (BitVec.ofNat format.mantissaBitsWithoutImplicit m).toNat = m := by
    rw [BitVec.toNat_ofNat]
    exact Nat.mod_eq_of_lt hsmall
  have hsome : BitVec.ofNat format.mantissaBitsWithoutImplicit m ≠ 0#_ := by
    intro h
    rw [h] at hmantissa
    exact hm.ne hmantissa
  rw [pack_finite (le_refl _) (by norm_num), if_neg hlog]
  unfold UnpackedFloat.unpack
  simp only [unpackMantissa_packComponents, unpackExponent_packComponents,
    unpackSign_packComponents]
  rw [if_neg (by decide), if_pos trivial, dif_neg hsome]
  congr 1

/-- A finite number of the form of the format is read as it was stored. -/
theorem unpack_pack_finite {s : Sign} {m : ℕ} {e : ℤ} {hm : 0 < m}
    (hc : Canonical (.finite s m e hm)) (hb : Bounded (.finite s m e hm)) :
    UnpackedFloat.unpack format (UnpackedFloat.pack format (.finite s m e hm))
      = .finite s m e hm := by
  obtain ⟨hhigh, hlow, hfull⟩ := hc
  by_cases hnormal : 2 ^ 52 ≤ m
  · exact unpack_pack_normal hhigh hnormal hlow hb
  · obtain rfl := hfull.resolve_left hnormal
    exact unpack_pack_subnormal (not_le.mp hnormal)

/-- What is too large is stored as an infinity. -/
theorem unpack_pack_overflow {s : Sign} {m : ℕ} {e : ℤ} {hm : 0 < m}
    (hb : ¬ Bounded (.finite s m e hm)) :
    UnpackedFloat.unpack format (UnpackedFloat.pack format (.finite s m e hm)) = .infinity s := by
  have hb : ¬ e ≤ 971 := hb
  have hlarge : 2 ^ format.exponentBits
      ≤ (e + format.exponentBias + format.mantissaBitsWithoutImplicit).toNat + 1 := by
    show 2 ^ 11 ≤ (e + 1023 + 52).toNat + 1
    omega
  unfold UnpackedFloat.pack
  dsimp only
  rw [if_pos hlarge, unpack_packedInfinity]

/-! ## The value of what is stored -/

/-- A value cut off where the format ends. -/
def clamp (x : ℚ) : ℚ := max (-limit) (min limit x)

theorem clamp_mono {x y : ℚ} (h : x ≤ y) : clamp x ≤ clamp y :=
  max_le_max (le_refl _) (min_le_min (le_refl _) h)

theorem clamp_of_mem {x : ℚ} (hlow : -limit ≤ x) (hhigh : x ≤ limit) : clamp x = x := by
  rw [clamp, min_eq_right hhigh, max_eq_right hlow]

theorem clamp_neg (x : ℚ) : clamp (-x) = -clamp x := by
  have hpos := limit_pos
  unfold clamp
  rcases le_total x (-limit) with h | h
  · rw [min_eq_left (by linarith), max_eq_right (by linarith), min_eq_right (by linarith),
      max_eq_left h, neg_neg]
  · rcases le_total x limit with h' | h'
    · rw [min_eq_right (by linarith), max_eq_right (by linarith), min_eq_right h', max_eq_right h]
    · rw [min_eq_right (by linarith), max_eq_left (by linarith), min_eq_left h',
        max_eq_right (by linarith)]

theorem clamp_withSign (s : Sign) (x : ℚ) : clamp (withSign s x) = withSign s (clamp x) := by
  cases s
  · exact clamp_neg x
  · rfl

theorem unpackedValue_mem {u : UnpackedFloat} (hc : Canonical u) (hb : Bounded u) :
    -limit ≤ unpackedValue u ∧ unpackedValue u ≤ limit := by
  have hpos := limit_pos
  cases u with
  | notANumber => exact ⟨by rw [unpackedValue]; linarith, hpos.le⟩
  | zero s => exact ⟨by rw [unpackedValue]; linarith, hpos.le⟩
  | infinity s =>
      cases s
      · exact ⟨le_refl _, by rw [unpackedValue, withSign]; linarith⟩
      · exact ⟨by rw [unpackedValue, withSign]; linarith, le_refl _⟩
  | finite s m e hm =>
      have hlow := magnitude_pos hm e
      have hhigh := magnitude_lt_limit hc hb
      cases s
      · exact ⟨by rw [unpackedValue, withSign]; linarith, by rw [unpackedValue, withSign]; linarith⟩
      · exact ⟨by rw [unpackedValue, withSign]; linarith, by rw [unpackedValue, withSign]; linarith⟩

theorem limit_le_magnitude {s : Sign} {m : ℕ} {e : ℤ} {hm : 0 < m}
    (hc : Canonical (.finite s m e hm)) (hb : ¬ Bounded (.finite s m e hm)) :
    limit ≤ m * 2 ^ e := by
  have hb : ¬ e ≤ 971 := hb
  obtain ⟨-, -, hfull⟩ := hc
  have h52 : ((2 ^ 52 : ℕ) : ℚ) ≤ m := by
    rcases hfull with h | h
    · exact Nat.cast_le.mpr h
    · omega
  push_cast at h52
  calc limit = 2 ^ 52 * 2 ^ (972 : ℤ) := by
        rw [limit, ← zpow_natCast, ← two_zpow_add]
        rfl
    _ ≤ 2 ^ 52 * 2 ^ e := mul_le_mul_of_nonneg_left (two_zpow_le (by omega)) (by norm_num)
    _ ≤ m * 2 ^ e := mul_le_mul_of_nonneg_right h52 (two_zpow_pos e).le

/-- Of a finite number in the form of the format the value is stored, as far as the format
reaches. -/
theorem unpack_pack {u : UnpackedFloat} (hf : IsFinite u) (hc : Canonical u) :
    UnpackedFloat.unpack format (UnpackedFloat.pack format u) ≠ .notANumber
      ∧ unpackedValue (UnpackedFloat.unpack format (UnpackedFloat.pack format u))
        = clamp (unpackedValue u) := by
  have hpos := limit_pos
  cases u with
  | infinity s => cases hf
  | notANumber => cases hf
  | zero s =>
      have hz : UnpackedFloat.unpack format (UnpackedFloat.pack format (.zero s)) = .zero s := by
        cases s
        · rfl
        · rfl
      rw [hz]
      exact ⟨(by rintro ⟨⟩), (clamp_of_mem (neg_nonpos.mpr hpos.le) hpos.le).symm⟩
  | finite s m e hm =>
      by_cases hb : Bounded (.finite s m e hm)
      · obtain ⟨hlow, hhigh⟩ := unpackedValue_mem hc hb
        rw [unpack_pack_finite hc hb, clamp_of_mem hlow hhigh]
        exact ⟨(by rintro ⟨⟩), rfl⟩
      · have hcut : clamp (m * 2 ^ e) = limit := by
          unfold clamp
          rw [min_eq_left (limit_le_magnitude hc hb), max_eq_right (by linarith)]
        rw [unpack_pack_overflow hb]
        refine ⟨(by rintro ⟨⟩), ?_⟩
        rw [unpackedValue, unpackedValue, clamp_withSign, hcut]

end SeriesQuery.Binary64
