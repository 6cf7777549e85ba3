import SeriesQuery.Proofs.Binary64.Arithmetic

/-!
# Products, differences and whole numbers

The product of finite numbers is the number nearest to the product of their values. A difference
is a sum with the sign turned. A whole number becomes the number nearest to it, so larger whole
numbers never become smaller ones.
-/

open Float.Model Float.Model.UnpackedFloat

namespace SeriesQuery.Binary64

/-! ## Products -/

theorem withSign_mul (s₁ s₂ : Sign) (x y : ℚ) :
    withSign (s₁ * s₂) (x * y) = withSign s₁ x * withSign s₂ y := by
  cases s₁ <;> cases s₂
  · exact (neg_mul_neg x y).symm
  · exact (neg_mul x y).symm
  · exact (mul_neg x y).symm
  · rfl

/-- The product of two mantissas has as many bits as the format needs, unless both numbers are
among the smallest. -/
theorem le_targetExponent_mul {s₁ s₂ : Sign} {m₁ m₂ : ℕ} {e₁ e₂ : ℤ} {h₁ : 0 < m₁} {h₂ : 0 < m₂}
    (hc₁ : Canonical (.finite s₁ m₁ e₁ h₁)) (hc₂ : Canonical (.finite s₂ m₂ e₂ h₂)) :
    e₁ + e₂ ≤ format.targetExponent (totalExponent (m₁ * m₂) (e₁ + e₂)) := by
  obtain ⟨-, -, hfull₁⟩ := hc₁
  obtain ⟨-, -, hfull₂⟩ := hc₂
  have hpos : 0 < m₁ * m₂ := Nat.mul_pos h₁ h₂
  have hbits : 2 ^ 52 ≤ m₁ * m₂ ∨ e₁ + e₂ = -2148 := by
    rcases hfull₁ with h | h
    · exact .inl (h.trans (Nat.le_mul_of_pos_right _ h₂))
    · rcases hfull₂ with h' | h'
      · exact .inl (h'.trans (Nat.le_mul_of_pos_left _ h₁))
      · exact .inr (by omega)
  have hlog : 52 ≤ (m₁ * m₂).log2 ∨ e₁ + e₂ = -2148 :=
    hbits.imp (fun h => (Nat.le_log2 hpos.ne').mpr h) id
  rw [targetExponent_totalExponent]
  omega

/-- The product of finite numbers is the number nearest to the product of their values. -/
theorem mul_spec {u v : UnpackedFloat} (hu : IsFinite u) (hv : IsFinite v) (hcu : Canonical u)
    (hcv : Canonical v) :
    IsFinite (UnpackedFloat.mul format u v) ∧ Canonical (UnpackedFloat.mul format u v)
      ∧ unpackedValue (UnpackedFloat.mul format u v)
        = nearest (unpackedValue u * unpackedValue v) := by
  have hzero : nearest 0 = 0 := (nearest_of_nonneg (le_refl 0)).trans nearestMagnitude_zero
  cases u with
  | infinity s => cases hu
  | notANumber => cases hu
  | zero s =>
      have hprod : unpackedValue (.zero s) * unpackedValue v = 0 := zero_mul _
      rw [hprod, hzero]
      cases v with
      | infinity s' => cases hv
      | notANumber => cases hv
      | zero s' => exact ⟨rfl, trivial, rfl⟩
      | finite s' m e hm => exact ⟨rfl, trivial, rfl⟩
  | finite s m e hm =>
      cases v with
      | infinity s' => cases hv
      | notANumber => cases hv
      | zero s' =>
          have hprod : unpackedValue (.finite s m e hm) * unpackedValue (.zero s') = 0 :=
            mul_zero _
          rw [hprod, hzero]
          exact ⟨rfl, trivial, rfl⟩
      | finite s' m' e' hm' =>
          have hexact : Describes .exact 0 := rfl
          have hprod : ((m * m' : ℕ) + (0 : ℚ)) * 2 ^ (e + e') = m * 2 ^ e * (m' * 2 ^ e') := by
            rw [two_zpow_add]
            push_cast
            ring
          obtain ⟨hc, hvalue⟩ := roundWithAccuracy_spec (s * s') (Nat.mul_pos hm hm') hexact
            (le_targetExponent_mul hcu hcv)
          refine ⟨isFinite_roundWithAccuracy _ _ _ _, hc, hvalue.trans ?_⟩
          rw [hprod, ← nearest_withSign _ (mul_nonneg (magnitude_pos hm e).le
            (magnitude_pos hm' e').le), withSign_mul]
          rfl

theorem unpack_mul (x y : Float) : (x * y).toModel.unpack
    = UnpackedFloat.unpack format (UnpackedFloat.pack format
      (UnpackedFloat.mul format x.toModel.unpack y.toModel.unpack)) := rfl

theorem value_mul {x y : Float} (hx : x.isFinite = true) (hy : y.isFinite = true) :
    ¬ IsNaN (x * y) ∧ value (x * y) = clamp (nearest (value x * value y)) := by
  obtain ⟨hf, hc, hv⟩ := mul_spec hx hy (canonical x) (canonical y)
  obtain ⟨hne, hstored⟩ := unpack_pack hf hc
  unfold IsNaN value
  rw [unpack_mul]
  exact ⟨hne, hstored.trans (congrArg clamp hv)⟩

theorem isNaN_mul {x y : Float} (h : IsNaN x ∨ IsNaN y) : IsNaN (x * y) := by
  have hprod : UnpackedFloat.mul format x.toModel.unpack y.toModel.unpack = .notANumber := by
    rcases h with h | h
    · rw [h]
      rfl
    · rw [h]
      cases x.toModel.unpack <;> rfl
  unfold IsNaN
  rw [unpack_mul, hprod]
  rfl

theorem mul_infinity {x y : Float} (hx : ¬ IsNaN x) (h0 : 0 ≤ value x)
    (hy : y.toModel.unpack = .infinity .positive) :
    (IsNaN (x * y) ∨ (x * y).toModel.unpack = .infinity .positive)
      ∧ (IsNaN (y * x) ∨ (y * x).toModel.unpack = .infinity .positive) := by
  have hprod : UnpackedFloat.mul format x.toModel.unpack (.infinity .positive)
        = UnpackedFloat.mul format (.infinity .positive) x.toModel.unpack
      ∧ (UnpackedFloat.mul format (.infinity .positive) x.toModel.unpack = .notANumber
        ∨ UnpackedFloat.mul format (.infinity .positive) x.toModel.unpack
          = .infinity .positive) := by
    have hx : x.toModel.unpack ≠ .notANumber := hx
    have hpos := limit_pos
    unfold value at h0
    cases hu : x.toModel.unpack with
    | notANumber => exact absurd hu hx
    | zero s => exact ⟨rfl, .inl rfl⟩
    | infinity s =>
        cases s with
        | positive => exact ⟨rfl, .inr rfl⟩
        | negative =>
            rw [hu, unpackedValue, withSign] at h0
            linarith
    | finite s m e hm =>
        cases s with
        | positive => exact ⟨rfl, .inr rfl⟩
        | negative =>
            have := magnitude_pos hm e
            rw [hu, unpackedValue, withSign] at h0
            linarith
  unfold IsNaN
  rw [unpack_mul, unpack_mul, hy, hprod.1]
  rcases hprod.2 with h | h
  · rw [h]
    exact ⟨.inl rfl, .inl rfl⟩
  · rw [h]
    exact ⟨.inr rfl, .inr rfl⟩

theorem not_infinity_lt {x y : Float} (hx : IsNaN x ∨ x.toModel.unpack = .infinity .positive) :
    ¬ x < y := by
  intro h
  obtain ⟨hxn, -, hv⟩ := lt_iff.mp h
  have := value_le_limit y
  rw [value_infinity (hx.resolve_left hxn), withSign] at hv
  linarith

/-- A larger factor never makes a product with what is not negative smaller. -/
theorem not_mul_lt_mul {a b s : Float} (h0 : 0 ≤ value a) (hab : a ≤ b) (hs : ¬ s < 0.0) :
    ¬ b * s < a * s := by
  intro h
  obtain ⟨hb, ha, -⟩ := lt_iff.mp h
  have hsn : ¬ IsNaN s := fun hn => hb (isNaN_mul (.inr hn))
  have hspan : 0.0 ≤ s := (lt_or_le hsn not_isNaN_zero).resolve_left hs
  obtain ⟨-, hs0, hsf | hsinf⟩ := span_cases hspan
  · obtain ⟨han, hbn, hv⟩ := le_iff.mp hab
    have hbspan : 0.0 ≤ b := le_iff.mpr ⟨not_isNaN_zero, hbn, by
      rw [value_zero]; linarith⟩
    obtain ⟨-, -, hbf | hbinf⟩ := span_cases hbspan
    · have haf : a.isFinite = true :=
        isFinite_of_value han h0 (hv.trans_lt (value_mem_of_isFinite hbf).2)
      obtain ⟨-, hpa⟩ := value_mul haf hsf
      obtain ⟨-, hpb⟩ := value_mul hbf hsf
      refine not_lt_of_le (le_iff.mpr ⟨ha, hb, ?_⟩) h
      rw [hpa, hpb]
      exact clamp_mono (nearest_mono (mul_le_mul_of_nonneg_right hv hs0))
    · exact not_infinity_lt (mul_infinity hsn hs0 hbinf).2 h
  · exact not_infinity_lt (mul_infinity (le_iff.mp hab).2.1
      (h0.trans (le_iff.mp hab).2.2) hsinf).1 h

end SeriesQuery.Binary64
