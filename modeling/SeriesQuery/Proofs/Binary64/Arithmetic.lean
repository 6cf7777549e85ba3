import SeriesQuery.Number.Decimal
import SeriesQuery.Proofs.Binary64.Packing

/-!
# Times and spans

Comparing numbers is comparing their values, unless one of them is no number. So finite numbers
are in a total order. To add a span that is not negative never leads to an earlier time, and of
two times the earlier stays so, or the two become the same, when the same span is added to both.
Neither needs the sum to be exact: rounding is monotone.
-/

open Float.Model Float.Model.UnpackedFloat

namespace SeriesQuery.Binary64

/-- The value of a number, see `unpackedValue`. -/
def value (x : Float) : ℚ := unpackedValue x.toModel.unpack

/-- What is no number. -/
def IsNaN (x : Float) : Prop := x.toModel.unpack = .notANumber

theorem canonical (x : Float) : Canonical x.toModel.unpack :=
  (canonical_unpack _).1

theorem bounded (x : Float) : Bounded x.toModel.unpack :=
  (canonical_unpack _).2

theorem value_le_limit (x : Float) : value x ≤ limit :=
  (unpackedValue_mem (canonical x) (bounded x)).2

theorem value_infinity {x : Float} {s : Sign} (h : x.toModel.unpack = .infinity s) :
    value x = withSign s limit := by
  unfold value
  rw [h]
  rfl

theorem value_finite {x : Float} {m : ℕ} {e : ℤ} {hm : 0 < m}
    (h : x.toModel.unpack = .finite .positive m e hm) : value x = m * 2 ^ e := by
  unfold value
  rw [h]
  rfl

theorem not_isNaN_infinity {x : Float} {s : Sign} (h : x.toModel.unpack = .infinity s) :
    ¬ IsNaN x := by
  unfold IsNaN
  rw [h]
  rintro ⟨⟩

theorem not_isNaN_of_isFinite {x : Float} (h : x.isFinite = true) : ¬ IsNaN x := by
  intro hn
  have h : x.toModel.unpack.isFinite = true := h
  rw [hn] at h
  cases h

/-! ## The order -/

theorem lt_iff_compare {x y : Float} :
    x < y ↔ x.toModel.unpack.compare y.toModel.unpack = some .lt := by
  show decide ((x.toModel.unpack.compare y.toModel.unpack == some .lt) = true) = true ↔ _
  rw [decide_eq_true_iff, beq_iff_eq]

theorem le_iff_compare {x y : Float} :
    x ≤ y ↔ (x.toModel.unpack.compare y.toModel.unpack).any (·.isLE) = true := by
  show decide ((x.toModel.unpack.compare y.toModel.unpack).any (·.isLE) = true) = true ↔ _
  rw [decide_eq_true_iff]

theorem compare_toModel {x y : Float} (hx : ¬ IsNaN x) (hy : ¬ IsNaN y) :
    x.toModel.unpack.compare y.toModel.unpack = some (compare (value x) (value y)) :=
  compare_eq hx hy (canonical x) (bounded x) (canonical y) (bounded y)

theorem compare_toModel_of_isNaN {x y : Float} (h : IsNaN x ∨ IsNaN y) :
    x.toModel.unpack.compare y.toModel.unpack = none := by
  rcases h with h | h
  · rw [h]
    rfl
  · rw [h]
    cases x.toModel.unpack <;> rfl

theorem lt_iff {x y : Float} : x < y ↔ ¬ IsNaN x ∧ ¬ IsNaN y ∧ value x < value y := by
  rw [lt_iff_compare]
  by_cases h : IsNaN x ∨ IsNaN y
  · rw [compare_toModel_of_isNaN h]
    constructor
    · intro hf
      cases hf
    · rintro ⟨hx, hy, -⟩
      exact absurd h (not_or.mpr ⟨hx, hy⟩)
  · obtain ⟨hx, hy⟩ := not_or.mp h
    rw [compare_toModel hx hy, Option.some_inj, compare_lt_iff_lt]
    exact ⟨fun hv => ⟨hx, hy, hv⟩, fun hv => hv.2.2⟩

theorem le_iff {x y : Float} : x ≤ y ↔ ¬ IsNaN x ∧ ¬ IsNaN y ∧ value x ≤ value y := by
  rw [le_iff_compare]
  by_cases h : IsNaN x ∨ IsNaN y
  · rw [compare_toModel_of_isNaN h]
    constructor
    · intro hf
      cases hf
    · rintro ⟨hx, hy, -⟩
      exact absurd h (not_or.mpr ⟨hx, hy⟩)
  · obtain ⟨hx, hy⟩ := not_or.mp h
    rw [compare_toModel hx hy, Option.any_some, Ordering.isLE_iff_ne_gt,
      compare_gt_iff_gt, not_lt]
    exact ⟨fun hv => ⟨hx, hy, hv⟩, fun hv => hv.2.2⟩

theorem le_trans {x y z : Float} (hxy : x ≤ y) (hyz : y ≤ z) : x ≤ z := by
  rw [le_iff] at *
  exact ⟨hxy.1, hyz.2.1, hxy.2.2.trans hyz.2.2⟩

theorem lt_of_le_of_lt {x y z : Float} (hxy : x ≤ y) (hyz : y < z) : x < z := by
  rw [le_iff] at hxy
  rw [lt_iff] at *
  exact ⟨hxy.1, hyz.2.1, hxy.2.2.trans_lt hyz.2.2⟩

theorem lt_of_lt_of_le {x y z : Float} (hxy : x < y) (hyz : y ≤ z) : x < z := by
  rw [le_iff] at hyz
  rw [lt_iff] at *
  exact ⟨hxy.1, hyz.2.1, hxy.2.2.trans_le hyz.2.2⟩

theorem le_of_lt {x y : Float} (h : x < y) : x ≤ y := by
  rw [lt_iff] at h
  rw [le_iff]
  exact ⟨h.1, h.2.1, h.2.2.le⟩

theorem not_lt_of_le {x y : Float} (h : x ≤ y) : ¬ y < x := by
  rw [lt_iff]
  exact fun hlt => not_lt.mpr (le_iff.mp h).2.2 hlt.2.2

theorem lt_or_le {x y : Float} (hx : ¬ IsNaN x) (hy : ¬ IsNaN y) : x < y ∨ y ≤ x := by
  rw [lt_iff, le_iff]
  rcases lt_or_ge (value x) (value y) with h | h
  · exact .inl ⟨hx, hy, h⟩
  · exact .inr ⟨hy, hx, h⟩

theorem le_refl_of_not_isNaN {x : Float} (hx : ¬ IsNaN x) : x ≤ x :=
  le_iff.mpr ⟨hx, hx, le_refl _⟩

/-! ## Sums -/

theorem unpack_add (x y : Float) : (x + y).toModel.unpack
    = UnpackedFloat.unpack format (UnpackedFloat.pack format
      (UnpackedFloat.add format x.toModel.unpack y.toModel.unpack)) := rfl

/-- The sum of finite numbers has the value nearest to the sum of their values, cut off where the
format ends. -/
theorem value_add {x y : Float} (hx : x.isFinite = true) (hy : y.isFinite = true) :
    ¬ IsNaN (x + y) ∧ value (x + y) = clamp (nearest (value x + value y)) := by
  obtain ⟨hf, hc, hv⟩ := add_spec hx hy (canonical x) (canonical y)
  obtain ⟨hne, hstored⟩ := unpack_pack hf hc
  unfold IsNaN value
  rw [unpack_add]
  exact ⟨hne, hstored.trans (congrArg clamp hv)⟩

theorem value_add_zero {x : Float} (hx : x.isFinite = true) :
    ¬ IsNaN (x + 0.0) ∧ value (x + 0.0) = value x := by
  have hzero : value 0.0 = 0 := rfl
  have hrange := unpackedValue_mem (canonical x) (bounded x)
  obtain ⟨hn, hsum⟩ := value_add (y := 0.0) hx rfl
  rw [hzero, add_zero, show nearest (value x) = value x from nearest_unpackedValue hx (canonical x)]
    at hsum
  exact ⟨hn, hsum.trans (clamp_of_mem hrange.1 hrange.2)⟩

theorem finite_or_infinite {x : Float} (hx : ¬ IsNaN x) :
    x.isFinite = true ∨ x.toModel.unpack = .infinity .positive
      ∨ x.toModel.unpack = .infinity .negative := by
  have hx : x.toModel.unpack ≠ .notANumber := hx
  show x.toModel.unpack.isFinite = true ∨ _
  cases hu : x.toModel.unpack with
  | notANumber => exact absurd hu hx
  | zero s => exact .inl rfl
  | finite s m e hm => exact .inl rfl
  | infinity s =>
      cases s
      · exact .inr (.inr rfl)
      · exact .inr (.inl rfl)

theorem value_mem_of_isFinite {x : Float} (hx : x.isFinite = true) :
    -limit < value x ∧ value x < limit := by
  have hpos := limit_pos
  have hf : x.toModel.unpack.isFinite = true := hx
  have hc := canonical x
  have hb := bounded x
  unfold value
  cases hu : x.toModel.unpack with
  | notANumber => rw [hu] at hf; cases hf
  | infinity s => rw [hu] at hf; cases hf
  | zero s => exact ⟨neg_neg_of_pos hpos, hpos⟩
  | finite s m e hm =>
      rw [hu] at hc hb
      have hlow := magnitude_pos hm e
      have hhigh := magnitude_lt_limit hc hb
      cases s
      · exact ⟨neg_lt_neg hhigh, by rw [unpackedValue, withSign]; linarith⟩
      · exact ⟨by rw [unpackedValue, withSign]; linarith, hhigh⟩

theorem unpack_add_infinity {x y : Float} (hx : ¬ IsNaN x)
    (hop : x.toModel.unpack ≠ .infinity .negative) (hy : y.toModel.unpack = .infinity .positive) :
    (x + y).toModel.unpack = .infinity .positive
      ∧ (y + x).toModel.unpack = .infinity .positive := by
  have hx : x.toModel.unpack ≠ .notANumber := hx
  have hsum : UnpackedFloat.add format x.toModel.unpack (.infinity .positive) = .infinity .positive
      ∧ UnpackedFloat.add format (.infinity .positive) x.toModel.unpack = .infinity .positive := by
    cases hu : x.toModel.unpack with
    | notANumber => exact absurd hu hx
    | zero s => exact ⟨rfl, rfl⟩
    | finite s m e hm => exact ⟨rfl, rfl⟩
    | infinity s =>
        cases s
        · exact absurd hu hop
        · exact ⟨rfl, rfl⟩
  rw [unpack_add, unpack_add, hy, hsum.1, hsum.2]
  exact ⟨rfl, rfl⟩

theorem le_of_infinity {x y : Float} (hx : ¬ IsNaN x)
    (hy : y.toModel.unpack = .infinity .positive) : x ≤ y := by
  exact le_iff.mpr ⟨hx, not_isNaN_infinity hy,
    (value_le_limit x).trans_eq (value_infinity hy).symm⟩

theorem unpack_positiveInfinity : positiveInfinity.toModel.unpack = .infinity .positive := rfl

theorem positiveInfinity_not_isNaN : ¬ IsNaN positiveInfinity :=
  not_isNaN_infinity unpack_positiveInfinity

theorem not_infinity_of_isFinite {x : Float} (hx : x.isFinite = true) (s : Sign) :
    x.toModel.unpack ≠ .infinity s := by
  intro hu
  have hf : x.toModel.unpack.isFinite = true := hx
  rw [hu] at hf
  cases hf

theorem lt_infinity_of_isFinite {x : Float} (hx : x.isFinite = true) : x < positiveInfinity := by
  refine lt_iff.mpr ⟨not_isNaN_of_isFinite hx, positiveInfinity_not_isNaN, ?_⟩
  rw [value_infinity unpack_positiveInfinity]
  exact (value_mem_of_isFinite hx).2

theorem value_zero : value 0.0 = 0 := rfl

theorem not_isNaN_zero : ¬ IsNaN 0.0 := not_isNaN_of_isFinite rfl

theorem isFinite_of_value {x : Float} (hx : ¬ IsNaN x) (h0 : 0 ≤ value x) (hlt : value x < limit) :
    x.isFinite = true := by
  have := limit_pos
  rcases finite_or_infinite hx with hf | hinf | hinf
  · exact hf
  · rw [value_infinity hinf, withSign] at hlt
    linarith
  · rw [value_infinity hinf, withSign] at h0
    linarith

/-! ## Spans -/

theorem span_cases {t : Float} (ht : 0.0 ≤ t) :
    ¬ IsNaN t ∧ 0 ≤ value t
      ∧ (t.isFinite = true ∨ t.toModel.unpack = .infinity .positive) := by
  obtain ⟨-, hn, hv⟩ := le_iff.mp ht
  have hzero : value 0.0 = 0 := rfl
  rw [hzero] at hv
  refine ⟨hn, hv, ?_⟩
  rcases finite_or_infinite hn with h | h | h
  · exact .inl h
  · exact .inr h
  · have := limit_pos
    rw [value_infinity h, withSign] at hv
    linarith

/-- No time is later than itself with a span added. -/
theorem le_self_add {x t : Float} (hx : x.isFinite = true) (ht : 0.0 ≤ t) : x ≤ x + t := by
  have hxn := not_isNaN_of_isFinite hx
  obtain ⟨htn, h0, hf | hinf⟩ := span_cases ht
  · obtain ⟨hsn, hsum⟩ := value_add hx hf
    have hkeep : nearest (value x) = value x := nearest_unpackedValue hx (canonical x)
    have hrange := unpackedValue_mem (canonical x) (bounded x)
    refine le_iff.mpr ⟨hxn, hsn, ?_⟩
    calc value x = clamp (nearest (value x)) := by
          rw [hkeep]
          exact (clamp_of_mem hrange.1 hrange.2).symm
      _ ≤ clamp (nearest (value x + value t)) := clamp_mono (nearest_mono (by linarith))
      _ = value (x + t) := hsum.symm
  · exact le_of_infinity hxn (unpack_add_infinity hxn (not_infinity_of_isFinite hx _) hinf).1

/-- What is not earlier stays so when the same span is added. -/
theorem add_span_mono {x y t : Float} (hx : x.isFinite = true) (hxy : x ≤ y) (ht : 0.0 ≤ t) :
    x + t ≤ y + t := by
  obtain ⟨hxn, hyn, hv⟩ := le_iff.mp hxy
  have hop : y.toModel.unpack ≠ .infinity .negative := by
    intro hu
    have := (value_mem_of_isFinite hx).1
    rw [value_infinity hu, withSign] at hv
    linarith
  obtain ⟨htn, h0, hf | hinf⟩ := span_cases ht
  · obtain ⟨hsn, hsum⟩ := value_add hx hf
    rcases finite_or_infinite hyn with hyf | hinf | hneg
    · obtain ⟨hsn', hsum'⟩ := value_add hyf hf
      refine le_iff.mpr ⟨hsn, hsn', ?_⟩
      rw [hsum, hsum']
      exact clamp_mono (nearest_mono (by linarith))
    · exact le_of_infinity hsn (unpack_add_infinity htn (not_infinity_of_isFinite hf _) hinf).2
    · exact absurd hneg hop
  · have hsum := (unpack_add_infinity hxn (not_infinity_of_isFinite hx _) hinf).1
    exact le_of_infinity (not_isNaN_infinity hsum) (unpack_add_infinity hyn hop hinf).1

end SeriesQuery.Binary64
