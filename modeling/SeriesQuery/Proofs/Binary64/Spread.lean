import SeriesQuery.Proofs.Binary64.WholeNumbers

/-!
# Even spreading

Times that are spread evenly, `base + i · step`, are in order if the step is not negative, and a
step from a time to one that is not earlier is not negative. All that enters is that each of the
operations is monotone and that dividing keeps the sign. What is no number, from a difference of
infinities or an infinite step, is neither before nor after anything.
-/

open Float.Model Float.Model.UnpackedFloat

namespace SeriesQuery.Binary64

/-! ## Adding to one time -/

theorem isNaN_add {x y : Float} (h : IsNaN x ∨ IsNaN y) : IsNaN (x + y) := by
  have hsum : UnpackedFloat.add format x.toModel.unpack y.toModel.unpack = .notANumber := by
    rcases h with h | h
    · rw [h]
      rfl
    · rw [h]
      cases x.toModel.unpack <;> rfl
  unfold IsNaN
  rw [unpack_add, hsum]
  rfl

theorem finite_add_infinity {x y : Float} (hx : x.isFinite = true) {s : Sign}
    (hy : y.toModel.unpack = .infinity s) : (x + y).toModel.unpack = .infinity s := by
  have hsum : UnpackedFloat.add format x.toModel.unpack (.infinity s) = .infinity s := by
    have hf : x.toModel.unpack.isFinite = true := hx
    cases hu : x.toModel.unpack with
    | notANumber => rw [hu] at hf; cases hf
    | infinity s => rw [hu] at hf; cases hf
    | zero s => rfl
    | finite s m e hm => rfl
  rw [unpack_add, hy, hsum]
  exact unpack_packedInfinity s

theorem infinity_add {x : Float} {s : Sign} (hx : x.toModel.unpack = .infinity s) (y : Float) :
    IsNaN (x + y) ∨ (x + y).toModel.unpack = .infinity s := by
  have hsum : UnpackedFloat.add format (.infinity s) y.toModel.unpack = .notANumber
      ∨ UnpackedFloat.add format (.infinity s) y.toModel.unpack = .infinity s := by
    cases y.toModel.unpack with
    | notANumber => exact .inl rfl
    | zero s' => exact .inr rfl
    | finite s' m e hm => exact .inr rfl
    | infinity s' =>
        cases s <;> cases s'
        · exact .inr rfl
        · exact .inl rfl
        · exact .inl rfl
        · exact .inr rfl
  unfold IsNaN
  rw [unpack_add, hx]
  rcases hsum with h | h
  · rw [h]
    exact .inl rfl
  · rw [h]
    exact .inr (unpack_packedInfinity s)

theorem not_lt_infinity {x y : Float} (hy : y.toModel.unpack = .infinity .negative) : ¬ x < y := by
  intro h
  obtain ⟨-, -, hv⟩ := lt_iff.mp h
  have := (unpackedValue_mem (canonical x) (bounded x)).1
  rw [value_infinity hy, withSign] at hv
  unfold value at hv
  linarith

/-- What is not before stays so when it is added to the same time. -/
theorem not_add_lt_add {c a b : Float} (h : ¬ b < a) : ¬ c + b < c + a := by
  intro hlt
  obtain ⟨hbn, han, hv⟩ := lt_iff.mp hlt
  have ha : ¬ IsNaN a := fun hn => han (isNaN_add (.inr hn))
  have hb : ¬ IsNaN b := fun hn => hbn (isNaN_add (.inr hn))
  have hc : ¬ IsNaN c := fun hn => hbn (isNaN_add (.inl hn))
  have hab := (lt_or_le hb ha).resolve_left h
  have hpos := limit_pos
  rcases finite_or_infinite hc with hcf | hinf | hinf
  · rcases finite_or_infinite hb with hbf | hbinf | hbinf
    · rcases finite_or_infinite ha with haf | hainf | hainf
      · rw [(value_add hcf hbf).2, (value_add hcf haf).2] at hv
        have hle : value c + value a ≤ value c + value b := by
          linarith [(le_iff.mp hab).2.2]
        exact not_lt.mpr (clamp_mono (nearest_mono hle)) hv
      · have hvab := (le_iff.mp hab).2.2
        have := (value_mem_of_isFinite hbf).2
        rw [value_infinity hainf, withSign] at hvab
        linarith
      · exact not_lt_infinity (finite_add_infinity hcf hainf) hlt
    · exact not_infinity_lt (.inr (finite_add_infinity hcf hbinf)) hlt
    · -- Nothing but minus infinity is not above it.
      have hvab := (le_iff.mp hab).2.2
      rw [value_infinity hbinf, withSign] at hvab
      rcases finite_or_infinite ha with haf | hainf | hainf
      · have := (value_mem_of_isFinite haf).1
        linarith
      · rw [value_infinity hainf, withSign] at hvab
        linarith
      · exact not_lt_infinity (finite_add_infinity hcf hainf) hlt
  · exact not_infinity_lt (infinity_add hinf b) hlt
  · exact not_lt_infinity ((infinity_add hinf a).resolve_left han) hlt

/-! ## Differences -/

theorem neg_spec (u : UnpackedFloat) :
    (IsFinite u → IsFinite u.neg) ∧ (Canonical u → Canonical u.neg)
      ∧ unpackedValue u.neg = -unpackedValue u := by
  cases u with
  | notANumber => exact ⟨id, id, neg_zero.symm⟩
  | zero s => exact ⟨fun _ => rfl, id, neg_zero.symm⟩
  | infinity s => cases s <;> exact ⟨id, id, by simp [UnpackedFloat.neg, unpackedValue, withSign]⟩
  | finite s m e hm =>
      cases s <;>
        exact ⟨fun _ => rfl, id, by simp [UnpackedFloat.neg, unpackedValue, withSign]⟩

theorem sub_eq_add_of_neg (u v : UnpackedFloat) :
    UnpackedFloat.sub format u v = UnpackedFloat.add format u v.neg := by
  cases u with
  | notANumber => rfl
  | infinity s =>
      cases v with
      | notANumber => rfl
      | infinity s' => cases s <;> cases s' <;> rfl
      | zero s' => rfl
      | finite s' m e hm => rfl
  | zero s =>
      cases v with
      | notANumber => rfl
      | infinity s' => rfl
      | zero s' => cases s <;> cases s' <;> rfl
      | finite s' m e hm => rfl
  | finite s m e hm =>
      cases v with
      | notANumber => rfl
      | infinity s' => rfl
      | zero s' => rfl
      | finite s' m' e' hm' =>
          have hsign : ∀ n : ℤ, (-s').apply n = -s'.apply n := by
            intro n
            cases s'
            · exact (neg_neg n).symm
            · rfl
          unfold UnpackedFloat.sub UnpackedFloat.add UnpackedFloat.neg
          dsimp only
          rw [hsign, ← Int.sub_eq_add_neg]

theorem unpack_sub (x y : Float) : (x - y).toModel.unpack
    = UnpackedFloat.unpack format (UnpackedFloat.pack format
      (UnpackedFloat.add format x.toModel.unpack y.toModel.unpack.neg)) := by
  rw [← sub_eq_add_of_neg]
  rfl

theorem value_sub {x y : Float} (hx : x.isFinite = true) (hy : y.isFinite = true) :
    value (y - x) = clamp (nearest (value y - value x)) := by
  obtain ⟨hnegf, hnegc, hneg⟩ := neg_spec x.toModel.unpack
  obtain ⟨hf, hc, hsum⟩ := add_spec hy (hnegf hx) (canonical y) (hnegc (canonical x))
  unfold value
  rw [unpack_sub, (unpack_pack hf hc).2, hsum, hneg, sub_eq_add_neg]

theorem infinity_sub {x y : Float} (hx : x.isFinite = true)
    (hy : y.toModel.unpack = .infinity .positive) :
    (y - x).toModel.unpack = .infinity .positive := by
  have hsum : UnpackedFloat.add format (.infinity .positive) x.toModel.unpack.neg
      = .infinity .positive := by
    have hf : x.toModel.unpack.isFinite = true := hx
    cases hu : x.toModel.unpack with
    | notANumber => rw [hu] at hf; cases hf
    | infinity s => rw [hu] at hf; cases hf
    | zero s => rfl
    | finite s m e hm => rfl
  rw [unpack_sub, hy, hsum]
  exact unpack_packedInfinity .positive

theorem isNaN_sub {x y : Float} (hy : IsNaN y) : IsNaN (y - x) := by
  have hsum : UnpackedFloat.add format .notANumber x.toModel.unpack.neg = .notANumber := rfl
  unfold IsNaN
  rw [unpack_sub, hy, hsum]
  rfl

/-- A difference from a finite time to one that is not earlier is not negative. -/
theorem not_sub_lt_zero {x y : Float} (hx : x.isFinite = true) (h : ¬ y < x) :
    ¬ y - x < 0.0 := by
  intro hlt
  obtain ⟨hn, -, hv⟩ := lt_iff.mp hlt
  rw [value_zero] at hv
  have hy : ¬ IsNaN y := mt isNaN_sub hn
  have hxy := (le_iff.mp ((lt_or_le hy (not_isNaN_of_isFinite hx)).resolve_left h)).2.2
  have hpos := limit_pos
  rcases finite_or_infinite hy with hyf | hinf | hinf
  · have hzero : clamp (nearest 0) = 0 := by
      rw [nearest_of_nonneg (le_refl 0), nearestMagnitude_zero]
      exact clamp_of_mem (neg_nonpos.mpr hpos.le) hpos.le
    have hle := clamp_mono (nearest_mono (sub_nonneg.mpr hxy))
    rw [value_sub hx hyf] at hv
    rw [hzero] at hle
    linarith
  · rw [value_infinity (infinity_sub hx hinf), withSign] at hv
    linarith
  · have hfinite := (value_mem_of_isFinite hx).1
    rw [value_infinity hinf, withSign] at hxy
    linarith

/-! ## Dividing -/

theorem unpackedValue_unpack_nonneg {b : BitVec format.numBits}
    (h : Sign.ofBitVec (unpackSign b) = .positive) :
    0 ≤ unpackedValue (UnpackedFloat.unpack format b) := by
  have hsign : signOf (UnpackedFloat.unpack format b) = .positive := by
    unfold UnpackedFloat.unpack
    dsimp only
    rw [h]
    split
    · split
      · rfl
      · rfl
    · split
      · split
        · rfl
        · rfl
      · rfl
  rw [unpackedValue_eq, hsign]
  exact magnitude_nonneg _

theorem unpack_pack_nonneg {u : UnpackedFloat} (h : signOf u = .positive) :
    0 ≤ unpackedValue (UnpackedFloat.unpack format (UnpackedFloat.pack format u)) := by
  refine unpackedValue_unpack_nonneg ?_
  unfold UnpackedFloat.pack
  cases u with
  | notANumber => exact unpackSign_packComponents _ _ _
  | infinity s => exact (unpackSign_packComponents _ _ _).trans h
  | zero s => exact (unpackSign_packComponents _ _ _).trans h
  | finite s m e hm =>
      dsimp only
      split
      · exact (unpackSign_packComponents _ _ _).trans h
      · split
        · exact (unpackSign_packComponents _ _ _).trans h
        · exact (unpackSign_packComponents _ _ _).trans h

theorem signOf_roundWithAccuracy (s : Sign) (m : ℕ) (e : ℤ) (a : Accuracy) :
    signOf (roundWithAccuracy format s m e a) = s := by
  unfold roundWithAccuracy
  dsimp only
  split
  · rfl
  · rfl

theorem signOf_of_pos {u : UnpackedFloat} (h : 0 < unpackedValue u) : signOf u = .positive := by
  have hm := magnitude_nonneg u
  rw [unpackedValue_eq] at h
  cases hs : signOf u with
  | positive => rfl
  | negative =>
      rw [hs, withSign] at h
      linarith

theorem div_sign {u v : UnpackedFloat} (hu : (∃ s, u = .zero s) ∨ signOf u = .positive)
    (hv : signOf v = .positive) :
    UnpackedFloat.div format u v = .notANumber ∨ (∃ s, UnpackedFloat.div format u v = .zero s)
      ∨ signOf (UnpackedFloat.div format u v) = .positive := by
  rcases hu with ⟨s, rfl⟩ | hu
  · cases v with
    | notANumber => exact .inl rfl
    | zero s' => exact .inl rfl
    | infinity s' => exact .inr (.inl ⟨_, rfl⟩)
    | finite s' m' e' hm' => exact .inr (.inl ⟨_, rfl⟩)
  · cases u with
    | notANumber => exact .inl rfl
    | zero s =>
        cases v with
        | notANumber => exact .inl rfl
        | zero s' => exact .inl rfl
        | infinity s' => exact .inr (.inl ⟨_, rfl⟩)
        | finite s' m' e' hm' => exact .inr (.inl ⟨_, rfl⟩)
    | infinity s =>
        obtain rfl : s = .positive := hu
        cases v with
        | notANumber => exact .inl rfl
        | infinity s' => exact .inl rfl
        | zero s' =>
            obtain rfl : s' = .positive := hv
            exact .inr (.inr rfl)
        | finite s' m' e' hm' =>
            obtain rfl : s' = .positive := hv
            exact .inr (.inr rfl)
    | finite s m e hm =>
        obtain rfl : s = .positive := hu
        cases v with
        | notANumber => exact .inl rfl
        | infinity s' => exact .inr (.inl ⟨_, rfl⟩)
        | zero s' =>
            obtain rfl : s' = .positive := hv
            exact .inr (.inr rfl)
        | finite s' m' e' hm' =>
            obtain rfl : s' = .positive := hv
            exact .inr (.inr (signOf_roundWithAccuracy _ _ _ _))

theorem unpack_div (x y : Float) : (x / y).toModel.unpack
    = UnpackedFloat.unpack format (UnpackedFloat.pack format
      (UnpackedFloat.div format x.toModel.unpack y.toModel.unpack)) := rfl

theorem zero_or_signOf {u : UnpackedFloat} (h : 0 ≤ unpackedValue u) :
    (∃ s, u = .zero s) ∨ signOf u = .positive := by
  rcases h.lt_or_eq with hpos | heq
  · exact .inr (signOf_of_pos hpos)
  · cases u with
    | notANumber => exact .inr rfl
    | zero s => exact .inl ⟨s, rfl⟩
    | infinity s =>
        have := limit_pos
        cases s
        · rw [unpackedValue, withSign] at heq
          linarith
        · exact .inr rfl
    | finite s m e hm =>
        have := magnitude_pos hm e
        cases s
        · rw [unpackedValue, withSign] at heq
          linarith
        · exact .inr rfl

/-- What is not negative stays so when it is divided by what is not. -/
theorem not_div_lt_zero {x y : Float} (hx : ¬ x < 0.0) (hy : 0 < value y) : ¬ x / y < 0.0 := by
  intro hlt
  have hv := (lt_iff.mp hlt).2.2
  rw [value_zero] at hv
  unfold value at hv
  rw [unpack_div] at hv
  by_cases hxn : IsNaN x
  · have hquot : UnpackedFloat.div format .notANumber y.toModel.unpack = .notANumber := rfl
    rw [hxn, hquot] at hv
    exact absurd hv (lt_irrefl 0)
  · have hx0 := (le_iff.mp ((lt_or_le hxn not_isNaN_zero).resolve_left hx)).2.2
    rw [value_zero] at hx0
    rcases div_sign (zero_or_signOf hx0) (signOf_of_pos hy) with h | ⟨s, h⟩ | h
    · rw [h] at hv
      exact absurd hv (lt_irrefl 0)
    · rw [h] at hv
      cases s
      · exact absurd hv (lt_irrefl 0)
      · exact absurd hv (lt_irrefl 0)
    · exact absurd hv (not_lt.mpr (unpack_pack_nonneg h))

/-! ## Spreading -/

/-- Of times spread evenly from one to another that is not earlier, none is before the one before
it. -/
theorem not_spread_lt {base last count : Float} (hlast : ¬ last < base) (hcount : 0 < value count)
    {i j : ℕ} (h : i ≤ j) :
    ¬ base + Float.ofNat j * ((last - base) / count)
      < base + Float.ofNat i * ((last - base) / count) := by
  by_cases hn : IsNaN base
  · exact fun hlt => (lt_iff.mp hlt).1 (isNaN_add (.inl hn))
  · rcases finite_or_infinite hn with hf | hinf | hinf
    · have hstep := not_div_lt_zero (not_sub_lt_zero hf hlast) hcount
      exact not_add_lt_add (not_mul_lt_mul (value_ofNat_nonneg i) (ofNat_le_ofNat h) hstep)
    · exact not_infinity_lt (infinity_add hinf _)
    · intro hlt
      have hni := (lt_iff.mp hlt).2.1
      exact not_lt_infinity ((infinity_add hinf _).resolve_left hni) hlt

theorem unpack_ofNat_zero : (Float.ofNat 0).toModel.unpack = .zero .positive := rfl

theorem zero_mul_cases (x : Float) : IsNaN (Float.ofNat 0 * x)
    ∨ (Float.ofNat 0 * x).isFinite = true ∧ value (Float.ofNat 0 * x) = 0 := by
  show (Float.ofNat 0 * x).toModel.unpack = .notANumber
    ∨ (Float.ofNat 0 * x).toModel.unpack.isFinite = true
      ∧ unpackedValue (Float.ofNat 0 * x).toModel.unpack = 0
  have hprod : UnpackedFloat.mul format (.zero .positive) x.toModel.unpack = .notANumber
      ∨ ∃ s, UnpackedFloat.mul format (.zero .positive) x.toModel.unpack = .zero s := by
    cases x.toModel.unpack with
    | notANumber => exact .inl rfl
    | infinity s => exact .inl rfl
    | zero s => exact .inr ⟨_, rfl⟩
    | finite s m e hm => exact .inr ⟨_, rfl⟩
  rw [unpack_mul, unpack_ofNat_zero]
  rcases hprod with h | ⟨s, h⟩
  · rw [h]
    exact .inl rfl
  · rw [h]
    cases s
    · exact .inr ⟨rfl, rfl⟩
    · exact .inr ⟨rfl, rfl⟩

/-- The first of times spread evenly is the one they are spread from. -/
theorem spread_zero (base step : Float) :
    IsNaN (base + Float.ofNat 0 * step) ∨ value (base + Float.ofNat 0 * step) = value base := by
  rcases zero_mul_cases step with hn | ⟨hf, hv⟩
  · exact .inl (isNaN_add (.inr hn))
  · by_cases hn : IsNaN base
    · exact .inl (isNaN_add (.inl hn))
    · have hinfinite : ∀ s, base.toModel.unpack = .infinity s →
          IsNaN (base + Float.ofNat 0 * step)
            ∨ value (base + Float.ofNat 0 * step) = value base := fun s hs =>
        (infinity_add hs _).imp id fun hsum => (value_infinity hsum).trans (value_infinity hs).symm
      rcases finite_or_infinite hn with hbase | hinf | hinf
      · have hrange := unpackedValue_mem (canonical base) (bounded base)
        have hkeep : nearest (value base) = value base :=
          nearest_unpackedValue hbase (canonical base)
        right
        rw [(value_add hbase hf).2, hv, add_zero, hkeep]
        exact clamp_of_mem hrange.1 hrange.2
      · exact hinfinite _ hinf
      · exact hinfinite _ hinf

end SeriesQuery.Binary64
