import SeriesQuery.Evaluation.Apply
import SeriesQuery.Proofs.Binary64.Overflow
import SeriesQuery.Proofs.Binary64.Rank
import SeriesQuery.Proofs.SampleValues

/-!
# Rounding to decimals

A number is rounded to decimals by scaling it with a power of ten, rounding what that gives to a
whole number and scaling back. Rounding to a whole number keeps what is finite finite and leaves
the rest as it is, and scaling back by one or more does so, too. So all depends on the scale and
on what it scales.

The power of ten comes of repeated squaring. Each of its products may be moved by rounding, yet
with `n` decimals no more than `n` times: squaring doubles what a number stands for, and with it
the number of times it may have been moved. This tells that the scale is finite up to 308 decimals
and infinite from there on. A number scaled beyond the format is infinite, too, and stays infinite
when it is scaled back by what is finite. Divided by an infinite scale it is no number, whatever
it was.
-/

open Float.Model Float.Model.UnpackedFloat

namespace SeriesQuery

open Binary64

/-! ## Powers -/

section Power

variable {r x : Float} {n : ℕ} {a b low high : ℚ}

theorem one_le_div_shrunk (ha : 1 ≤ a) : 1 ≤ a / shrunk :=
  (one_le_div shrunk_pos).mpr (shrunk_le_one.trans ha)

theorem within_square (hx : Within (a / shrunk) (b / grown) x) (ha : 1 ≤ a) :
    Within (a ^ 2 / shrunk) (b ^ 2 / grown) (x * x) := by
  have h := hx.mul hx (one_le_div_shrunk ha) (one_le_div_shrunk ha)
  have hs := shrunk_pos.ne'
  have hg := grown_pos.ne'
  rwa [show a / shrunk * (a / shrunk) * shrunk = a ^ 2 / shrunk by field_simp,
    show b / grown * (b / grown) * grown = b ^ 2 / grown by field_simp] at h

theorem within_taken (hx : Within (a / shrunk) (b / grown) x) (hr : Within low high r)
    (ha : 1 ≤ a) (hlow : 1 ≤ low) : Within (low * a ^ (n % 2)) (high * b ^ (n % 2))
      (if n % 2 == 1 then r * x else r) := by
  rcases Nat.mod_two_eq_zero_or_one n with hn | hn
  · rw [hn, pow_zero, pow_zero, mul_one, mul_one]
    exact hr
  · have h := hr.mul hx hlow (one_le_div_shrunk ha)
    rw [mul_assoc, div_mul_cancel₀ a shrunk_pos.ne', mul_assoc, div_mul_cancel₀ b grown_pos.ne']
      at h
    rw [hn, pow_one, pow_one]
    exact h

/-- The invariant of repeated squaring. A squared number may have been moved once less than it
stands for, so that there is a move to spare for multiplying it onto the result. -/
theorem within_powerFrom (hx : Within (a / shrunk) (b / grown) x) (hr : Within low high r)
    (ha : 1 ≤ a) (hlow : 1 ≤ low) : Within (low * a ^ n) (high * b ^ n) (powerFrom r x n) := by
  induction n using Nat.strong_induction_on generalizing r x a b low high with
  | _ n ih =>
      have htaken := within_taken (n := n) hx hr ha hlow
      rw [powerFrom]
      split
      · next hend =>
          have hn : n % 2 = n := by omega
          rw [hn] at htaken ⊢
          exact htaken
      · next hmore =>
          have hlow' : 1 ≤ low * a ^ (n % 2) :=
            one_le_mul_of_one_le_of_one_le hlow (one_le_pow₀ ha)
          have h := ih (n / 2) (by omega) (within_square hx ha) htaken (one_le_pow₀ ha) hlow'
          rwa [mul_assoc, ← pow_mul, ← pow_add, mul_assoc, ← pow_mul, ← pow_add,
            Nat.mod_add_div] at h

end Power

theorem value_ten : value 10.0 = 10 := by
  have hu : (10.0 : Float).toModel.unpack
      = .finite .positive (5 * 2 ^ 50) (-49) (by norm_num) := rfl
  rw [value_finite hu]
  norm_num

theorem one_le_ten_mul_shrunk : 1 ≤ 10 * shrunk := by norm_num [shrunk]

theorem within_decimalFactor (n : ℕ) :
    Within ((10 * shrunk) ^ n) ((10 * grown) ^ n) (decimalFactor n) := by
  have hten : Within (10 * shrunk / shrunk) (10 * grown / grown) 10.0 := by
    rw [mul_div_cancel_right₀ _ shrunk_pos.ne', mul_div_cancel_right₀ _ grown_pos.ne']
    exact .of_isFinite rfl value_ten.ge value_ten.le
  have hone : Within 1 1 1.0 := .of_isFinite rfl value_one.ge value_one.le
  have h := within_powerFrom (n := n) hten hone one_le_ten_mul_shrunk (le_refl 1)
  rwa [one_mul, one_mul] at h

theorem one_le_decimalFactor (n : ℕ) : 1 ≤ value (decimalFactor n) :=
  (within_decimalFactor n).one_le (one_le_pow₀ one_le_ten_mul_shrunk)

/-! ## Up to 308 decimals

A result that may have been moved 309 times has not been moved by a millionth, and the limit is
farther from `10 ^ 308` than that. -/

theorem le_shrunk_pow {n : ℕ} (hn : n ≤ 309) : 1 - 1 / 10 ^ 6 ≤ shrunk ^ n := by
  have hn : (n : ℚ) ≤ 309 := by exact_mod_cast hn
  calc (1 : ℚ) - 1 / 10 ^ 6 ≤ 1 + n * (-(1 / 2 ^ 53)) := by linarith
    _ ≤ (1 + -(1 / 2 ^ 53)) ^ n := one_add_mul_le_pow (by norm_num) n
    _ = shrunk ^ n := by rw [shrunk, ← sub_eq_add_neg]

theorem grown_pow_le {n : ℕ} (hn : n ≤ 309) : grown ^ n ≤ 1 + 2 / 10 ^ 6 := by
  have hpow : 0 ≤ grown ^ n := pow_nonneg grown_pos.le n
  have hone : grown ^ n * shrunk ^ n ≤ 1 := by
    rw [← mul_pow]
    exact pow_le_one₀ (by norm_num [grown, shrunk]) (by norm_num [grown, shrunk])
  have hshare := (mul_le_mul_of_nonneg_left (le_shrunk_pow hn) hpow).trans hone
  linarith

theorem mul_grown_pow_lt_limit {n : ℕ} (hn : n ≤ 309) : 179 * 10 ^ 306 * grown ^ n < limit := by
  have hnat : 1791 * 10 ^ 305 < 2 ^ 1024 := by decide +kernel
  have hlimit : 1791 * 10 ^ 305 < limit := by
    unfold limit
    exact_mod_cast hnat
  calc 179 * 10 ^ 306 * grown ^ n ≤ 179 * 10 ^ 306 * (1 + 2 / 10 ^ 6) :=
        mul_le_mul_of_nonneg_left (grown_pow_le hn) (by positivity)
    _ ≤ 1791 * 10 ^ 305 := by
        have hpos : (0 : ℚ) < 10 ^ 305 := by positivity
        -- so large a power is not computed, so it stands as a number of which the sign is known
        rw [pow_succ _ 305]
        generalize (10 : ℚ) ^ 305 = p at hpos ⊢
        linarith
    _ < limit := hlimit

theorem limit_lt_mul_shrunk_pow {n : ℕ} (hn : n ≤ 309) :
    limit < 180 * 10 ^ 306 * shrunk ^ n := by
  have hnat : 2 ^ 1024 < 1799 * 10 ^ 305 := by decide +kernel
  have hlimit : limit < 1799 * 10 ^ 305 := by
    unfold limit
    exact_mod_cast hnat
  calc limit < 1799 * 10 ^ 305 := hlimit
    _ ≤ 180 * 10 ^ 306 * (1 - 1 / 10 ^ 6) := by
        have hpos : (0 : ℚ) < 10 ^ 305 := by positivity
        rw [pow_succ _ 305]
        generalize (10 : ℚ) ^ 305 = p at hpos ⊢
        linarith
    _ ≤ 180 * 10 ^ 306 * shrunk ^ n :=
        mul_le_mul_of_nonneg_left (le_shrunk_pow hn) (by positivity)

theorem decimalFactor_cases (n : ℕ) :
    n ≤ 308 ∧ (decimalFactor n).isFinite = true
      ∨ 308 < n ∧ (decimalFactor n).toModel.unpack = .infinity .positive := by
  have h := within_decimalFactor n
  have hone := one_le_decimalFactor n
  rcases Nat.lt_or_ge 308 n with hn | hn
  · have hlarge : limit < (10 * shrunk) ^ n :=
      calc limit < 180 * 10 ^ 306 * shrunk ^ 309 := limit_lt_mul_shrunk_pow (le_refl 309)
        _ ≤ 10 ^ 3 * 10 ^ 306 * shrunk ^ 309 := by
            refine mul_le_mul_of_nonneg_right ?_ (pow_nonneg shrunk_pos.le 309)
            exact mul_le_mul_of_nonneg_right (by norm_num) (by positivity)
        _ = (10 * shrunk) ^ 309 := by rw [← pow_add, mul_pow]
        _ ≤ (10 * shrunk) ^ n := pow_le_pow_right₀ one_le_ten_mul_shrunk hn
    refine .inr ⟨hn, (h.cases (one_le_pow₀ one_le_ten_mul_shrunk)).resolve_left ?_⟩
    rintro ⟨hf, hv⟩
    have hlt := (value_mem_of_isFinite hf).2
    linarith
  · have hsmall : (10 * grown) ^ n < limit :=
      calc (10 * grown) ^ n ≤ (10 * grown) ^ 308 :=
            pow_le_pow_right₀ (by linarith [one_le_grown]) hn
        _ = 10 ^ 2 * 10 ^ 306 * grown ^ 308 := by rw [← pow_add, mul_pow]
        _ ≤ 179 * 10 ^ 306 * grown ^ 308 := by
            refine mul_le_mul_of_nonneg_right ?_ (pow_nonneg grown_pos.le 308)
            exact mul_le_mul_of_nonneg_right (by norm_num) (by positivity)
        _ < limit := mul_grown_pow_lt_limit (by norm_num)
    exact .inl ⟨hn, isFinite_of_value h.number (by linarith) (h.upper.trans_lt hsmall)⟩

/-! ## Whole numbers -/

theorem exponent_of_not_isFinite_unpack {b : BitVec format.numBits}
    (h : ¬ (UnpackedFloat.unpack format b).isFinite = true) : b.toNat / 2 ^ 52 % 2 ^ 11 = 2047 := by
  rw [← toNat_unpackExponent]
  by_cases hlarge : unpackExponent b = -1#_
  · rw [hlarge]
    rfl
  · refine absurd ?_ h
    unfold UnpackedFloat.unpack
    dsimp only
    rw [if_neg hlarge]
    split
    · split
      · rfl
      · rfl
    · rfl

theorem roundFloat_of_not_isFinite {x : Float} (mode : Rounding) (hx : ¬ x.isFinite = true) :
    roundFloat mode x = x := by
  have hexponent : x.toBits.toNat / twoTo 52 % twoTo 11 = 2047 :=
    exponent_of_not_isFinite_unpack hx
  have hnone : Binary.ofFloat? x = none := by
    unfold Binary.ofFloat?
    dsimp only
    rw [if_pos (beq_iff_eq.mpr hexponent)]
  unfold roundFloat
  rw [hnone]

theorem mantissa_of_ofFloat? {x : Float} {b : Binary} (h : Binary.ofFloat? x = some b) :
    b.mantissa < 2 ^ 53 := by
  have hfraction : x.toBits.toNat % twoTo 52 < 2 ^ 52 := Nat.mod_lt _ (Nat.two_pow_pos 52)
  have hbit : twoTo 52 = 2 ^ 52 := rfl
  unfold Binary.ofFloat? at h
  dsimp only at h
  split at h
  · cases h
  · split at h
    · cases h
      dsimp only
      omega
    · cases h
      dsimp only
      omega

theorem isFinite_signed (negative : Bool) {n : ℕ} (h : n ≤ 2 ^ 53) :
    (Binary.signed negative n).isFinite = true := by
  cases negative with
  | false => exact isFinite_ofNat h
  | true => exact isFinite_neg (isFinite_ofNat h)

theorem isFinite_roundFloat {x : Float} (mode : Rounding) (hx : x.isFinite = true) :
    (roundFloat mode x).isFinite = true := by
  unfold roundFloat
  split
  · exact hx
  · next negative mantissa exponent hb =>
      have hmantissa : mantissa < 2 ^ 53 := mantissa_of_ofFloat? hb
      have hwhole := Nat.div_le_self mantissa (twoTo exponent.natAbs)
      split
      · exact hx
      · dsimp only
        split
        · exact isFinite_signed negative (by omega)
        · exact isFinite_signed negative (by omega)

/-! ## Rounded numbers -/

/-- What rounding a finite number `x` to so many decimals gives. -/
structure RoundedTo (decimals : ℕ) (x y : Float) : Prop where
  /-- It is finite unless the scale or what it scales leaves the format. -/
  finite : y.isFinite = true ↔ decimals ≤ 308 ∧ (x * decimalFactor decimals).isFinite = true
  /-- It is no number where the scale leaves the format. -/
  noNumber : IsNaN y ↔ 308 < decimals
  /-- A number below `1.79 * 10 ^ 308` when scaled stays finite. -/
  below : decimals ≤ 308 → |value x| * 10 ^ decimals ≤ 179 * 10 ^ 306 → y.isFinite = true
  /-- One above `1.8 * 10 ^ 308` does not. -/
  above : 180 * 10 ^ 306 ≤ |value x| * 10 ^ decimals → ¬ y.isFinite = true

theorem isFinite_scaled_iff {x : Float} {n : ℕ} (hx : x.isFinite = true)
    (hf : (decimalFactor n).isFinite = true) :
    (x * decimalFactor n).isFinite = true
      ↔ nearest (|value x| * value (decimalFactor n)) < limit := by
  have hpos : 0 < value (decimalFactor n) := by linarith [one_le_decimalFactor n]
  rw [isFinite_mul_iff hx hf, abs_mul, abs_of_pos hpos]

theorem isFinite_scaled {x : Float} {n : ℕ} (hx : x.isFinite = true) (hn : n ≤ 308)
    (hf : (decimalFactor n).isFinite = true) (h : |value x| * 10 ^ n ≤ 179 * 10 ^ 306) :
    (x * decimalFactor n).isFinite = true := by
  have hgrown : 0 ≤ grown ^ n := pow_nonneg grown_pos.le n
  have hexact : |value x| * value (decimalFactor n) ≤ 179 * 10 ^ 306 * grown ^ n :=
    calc |value x| * value (decimalFactor n) ≤ |value x| * (10 * grown) ^ n :=
          mul_le_mul_of_nonneg_left (within_decimalFactor n).upper (abs_nonneg _)
      _ = |value x| * 10 ^ n * grown ^ n := by rw [mul_pow, mul_assoc]
      _ ≤ 179 * 10 ^ 306 * grown ^ n := mul_le_mul_of_nonneg_right h hgrown
  have hone : 1 ≤ 179 * 10 ^ 306 * grown ^ n :=
    one_le_mul_of_one_le_of_one_le
      (one_le_mul_of_one_le_of_one_le (by norm_num) (one_le_pow₀ (by norm_num)))
      (one_le_pow₀ one_le_grown)
  have hlarge : (2 : ℚ) ^ (-1022 : ℤ) ≤ 179 * 10 ^ 306 * grown ^ n :=
    (zpow_le_one_of_nonpos₀ (by norm_num) (by norm_num)).trans hone
  rw [isFinite_scaled_iff hx hf]
  calc nearest (|value x| * value (decimalFactor n)) ≤ nearest (179 * 10 ^ 306 * grown ^ n) :=
        nearest_mono hexact
    _ ≤ 179 * 10 ^ 306 * grown ^ n * grown := nearest_le_mul hlarge
    _ = 179 * 10 ^ 306 * grown ^ (n + 1) := by rw [pow_succ grown, ← mul_assoc]
    _ < limit := mul_grown_pow_lt_limit (by omega)

theorem not_isFinite_scaled {x : Float} {n : ℕ} (hx : x.isFinite = true) (hn : n ≤ 308)
    (hf : (decimalFactor n).isFinite = true) (h : 180 * 10 ^ 306 ≤ |value x| * 10 ^ n) :
    ¬ (x * decimalFactor n).isFinite = true := by
  have hshrunk : 0 ≤ shrunk ^ n := pow_nonneg shrunk_pos.le n
  have hlower : (10 * shrunk) ^ n ≤ value (decimalFactor n) := by
    obtain ⟨-, hv⟩ | hinf := (within_decimalFactor n).cases (one_le_pow₀ one_le_ten_mul_shrunk)
    · exact hv
    · exact absurd hinf (not_infinity_of_isFinite hf _)
  have hexact : 180 * 10 ^ 306 * shrunk ^ n ≤ |value x| * value (decimalFactor n) :=
    calc 180 * 10 ^ 306 * shrunk ^ n ≤ |value x| * 10 ^ n * shrunk ^ n :=
          mul_le_mul_of_nonneg_right h hshrunk
      _ = |value x| * (10 * shrunk) ^ n := by rw [mul_pow, mul_assoc]
      _ ≤ |value x| * value (decimalFactor n) :=
          mul_le_mul_of_nonneg_left hlower (abs_nonneg _)
  have hlarge : (2 : ℚ) ^ (-1022 : ℤ) ≤ 180 * 10 ^ 306 * shrunk ^ n :=
    (zpow_le_zpow_right₀ (by norm_num) (by norm_num)).trans
      (limit_lt_mul_shrunk_pow (by omega)).le
  rw [isFinite_scaled_iff hx hf, not_lt]
  calc limit ≤ 180 * 10 ^ 306 * shrunk ^ (n + 1) := (limit_lt_mul_shrunk_pow (by omega)).le
    _ = 180 * 10 ^ 306 * shrunk ^ n * shrunk := by rw [pow_succ shrunk, ← mul_assoc]
    _ ≤ nearest (180 * 10 ^ 306 * shrunk ^ n) := mul_le_nearest hlarge
    _ ≤ nearest (|value x| * value (decimalFactor n)) := nearest_mono hexact

/-- Scaled back by a finite scale, what is finite stays finite, and what is infinite infinite. -/
theorem roundTo_cases {x : Float} {n : ℕ} (hx : x.isFinite = true)
    (hf : (decimalFactor n).isFinite = true) :
    (x * decimalFactor n).isFinite = true ∧ (roundTo n x).isFinite = true
      ∨ ¬ (x * decimalFactor n).isFinite = true
        ∧ ∃ s, (roundTo n x).toModel.unpack = .infinity s := by
  unfold roundTo
  dsimp only
  by_cases hscaled : (x * decimalFactor n).isFinite = true
  · refine .inl ⟨hscaled, ?_⟩
    exact isFinite_div_of_one_le (isFinite_roundFloat .nearest hscaled) hf (one_le_decimalFactor n)
  · have hnumber := (value_mul hx hf).1
    obtain ⟨s, hinf⟩ := (isNaN_or_infinity hscaled).resolve_left hnumber
    rw [roundFloat_of_not_isFinite .nearest hscaled]
    exact .inr ⟨hscaled, infinity_div hinf hf⟩

theorem isNaN_roundTo {n : ℕ} (x : Float)
    (hf : (decimalFactor n).toModel.unpack = .infinity .positive) : IsNaN (roundTo n x) := by
  have hscaled := not_isFinite_mul x (not_isFinite_of_infinity hf)
  unfold roundTo
  dsimp only
  rw [roundFloat_of_not_isFinite .nearest hscaled]
  exact isNaN_div_infinity hscaled hf

theorem roundTo_spec {x : Float} (decimals : ℕ) (hx : x.isFinite = true) :
    RoundedTo decimals x (roundTo decimals x) := by
  obtain ⟨hd, hf⟩ | ⟨hd, hinf⟩ := decimalFactor_cases decimals
  · obtain ⟨hscaled, hround⟩ | ⟨hscaled, s, hround⟩ := roundTo_cases hx hf
    · exact {
        finite := iff_of_true hround ⟨hd, hscaled⟩
        noNumber := iff_of_false (not_isNaN_of_isFinite hround) (by omega)
        below := fun _ _ => hround
        above := fun h => absurd hscaled (not_isFinite_scaled hx hd hf h) }
    · have hround' := not_isFinite_of_infinity hround
      exact {
        finite := iff_of_false hround' fun h => hscaled h.2
        noNumber := iff_of_false (not_isNaN_infinity hround) (by omega)
        below := fun _ h => absurd (isFinite_scaled hx hd hf h) hscaled
        above := fun _ => hround' }
  · have hnan := isNaN_roundTo x hinf
    have hround' := not_isFinite_of_isNaN hnan
    exact {
      finite := iff_of_false hround' (by omega)
      noNumber := iff_of_true hnan hd
      below := by omega
      above := fun _ => hround' }

/-! ## The function -/

/-- The function answers finite samples with every number of decimals that it reads, and leaves
a value finite exactly if neither the scale nor the scaled value leaves the format. -/
theorem round_finite_iff {parameters : List Text} {samples : List Sample} {decimals : ℕ}
    (scope : Scope)
    (hread : Parameter.optional Parameter.integer parameters 0 0 = .ok decimals)
    (hfinite : ∀ s ∈ samples, s.value.isFinite = true) :
    ∃ rounded, Operator.round.apply parameters scope samples = .ok rounded
      ∧ List.Forall₂ (fun s r => r = s.withValue r.value ∧ RoundedTo decimals s.value r.value)
        samples rounded := by
  refine ⟨mapValues (roundTo decimals) samples, ?_, ?_⟩
  · unfold Operator.apply
    dsimp only
    rw [hread]
    rfl
  · unfold mapValues
    rw [List.forall₂_map_right_iff, List.forall₂_same]
    intro s hs
    rw [Sample.value_withValue]
    exact ⟨rfl, roundTo_spec decimals (hfinite s hs)⟩

/-- The largest scale leaves one value finite and takes another out of the format. -/
theorem round_finite_iff_largest :
    let point (value time : Float) : Sample := .of (Text.of "A") value time 0
    let samples := [point 1.5 1000.0, point 2.0 2000.0]
    Parameter.optional Parameter.integer [Text.of "308"] 0 0 = .ok 308
      ∧ (∀ s ∈ samples, s.value.isFinite = true)
      ∧ ∃ kept lost, Operator.round.apply [Text.of "308"] ⟨.each, .empty, id⟩ samples
          = .ok [point kept 1000.0, point lost 2000.0]
        ∧ kept.isFinite = true ∧ ¬ lost.isFinite = true := by
  intro point samples
  have hread : Parameter.optional Parameter.integer [Text.of "308"] 0 0 = .ok 308 := by
    decide +kernel
  have hfinite : ∀ s ∈ samples, s.value.isFinite = true := by decide +kernel
  obtain ⟨rounded, happly, hall⟩ := round_finite_iff ⟨.each, .empty, id⟩ hread hfinite
  obtain ⟨r, more, ⟨hr, hkept⟩, hmore, rfl⟩ := List.forall₂_cons_left_iff.mp hall
  obtain ⟨r', none, ⟨hr', hlost⟩, hnone, rfl⟩ := List.forall₂_cons_left_iff.mp hmore
  obtain rfl := List.forall₂_nil_left_iff.mp hnone
  have hkept' : (1.5 : Float).toModel.unpack = .finite .positive (3 * 2 ^ 51) (-52) (by norm_num) :=
    rfl
  have hlost' : (2.0 : Float).toModel.unpack = .finite .positive (2 ^ 52) (-51) (by norm_num) :=
    rfl
  have hscale : (10 : ℚ) ^ 308 = 10 ^ 2 * 10 ^ 306 := by rw [← pow_add]
  have hpos : (0 : ℚ) < 10 ^ 306 := by positivity
  have hlow : |value 1.5| * 10 ^ 308 ≤ 179 * 10 ^ 306 := by
    rw [value_finite hkept', hscale]
    generalize (10 : ℚ) ^ 306 = p at hpos ⊢
    norm_num
    linarith
  have hhigh : 180 * 10 ^ 306 ≤ |value 2.0| * 10 ^ 308 := by
    rw [value_finite hlost', hscale]
    generalize (10 : ℚ) ^ 306 = p at hpos ⊢
    norm_num
    linarith
  rw [Sample.value_of] at hkept hlost
  refine ⟨hread, hfinite, r.value, r'.value, ?_, hkept.below (le_refl 308) hlow, hlost.above hhigh⟩
  rw [happly]
  exact congrArg₂ (fun a b => Except.ok [a, b]) hr hr'

/-- A large value is lost with ten decimals already. -/
theorem round_leaves_format :
    let point (value time : Float) : Sample := .of (Text.of "A") value time 0
    Parameter.integer (Text.of "10") = .ok 10
      ∧ (1e300 : Float).isFinite = true
      ∧ Operator.round.apply [Text.of "10"] ⟨.each, .empty, id⟩ [point 1e300 1000.0]
        = .ok [point positiveInfinity 1000.0]
      ∧ ¬ positiveInfinity.isFinite = true := by
  intro point
  have hrounded :
      mapValues (roundTo 10) [point 1e300 1000.0] = [point positiveInfinity 1000.0] := by
    decide +kernel
  exact ⟨by decide +kernel, by decide +kernel, congrArg Except.ok hrounded, by decide +kernel⟩

end SeriesQuery
