import Mathlib.Algebra.Order.ToIntervalMod
import Mathlib.Tactic.Linarith
import SeriesQuery.Unit.Angle

/-!
# Angles up to full circles

Wrapping takes whole circles off an angle until it lies within half a circle of zero, and
unwrapping adds whole circles to the angles of a sequence until neighbours lie within half a
circle of each other. Computed without rounding, they undo each other up to whole circles.

Wrapping is reduction into a half-open interval one circle long, so what there is to know of it is
known of that reduction. Unwrapping carries an offset from each angle to the next. The offset is
always a whole number of circles, and the step between neighbours with the change of the offset is
brought within half a circle by the same computation from both sides.
-/

namespace SeriesQuery

section Exact

variable {K : Type} [Field K]

theorem modEq_sub_circles (full value : K) (n : ℤ) : value ≡ value - full * n [PMOD full] := by
  refine AddCommGroup.modEq_iff_eq_add_zsmul.mpr ⟨-n, ?_⟩
  rw [neg_zsmul, zsmul_eq_mul, mul_comm, sub_eq_add_neg]

variable [LinearOrder K] [FloorRing K]

/-- Arithmetic without rounding. -/
@[reducible] def CircleArithmetic.exact (K : Type) [Field K] [LinearOrder K] [FloorRing K] :
    CircleArithmetic K where
  zero := 0
  two := 2
  floor x := ⌊x⌋
  below a b := a < b
  equal a b := a = b

/-- Wrapping without rounding. -/
def wrapExact (full value : K) : K := @wrapAngle K (.exact K) full value

/-- The offset behind a step between neighbours, without rounding. -/
def offsetExact (full offset delta : K) : K := @circleOffset K (.exact K) full offset delta

/-- Unwrapping what follows an angle, without rounding. -/
def unwrapFromExact (full previous offset : K) (values : List K) : List K :=
  @unwrapFrom K (.exact K) full previous offset values

/-- Unwrapping without rounding. -/
def unwrapExact (full : K) (values : List K) : List K := @unwrapAngles K (.exact K) full values

theorem wrapExact_eq (full value : K) :
    wrapExact full value =
      if value - full * ⌊(value + full / 2) / full⌋ = -(full / 2) then full / 2
      else value - full * ⌊(value + full / 2) / full⌋ :=
  if_congr decide_eq_true_iff rfl rfl

theorem offsetExact_eq (full offset delta : K) :
    offsetExact full offset delta =
      if full / 2 < delta then offset - full * ⌊(delta + full / 2) / full⌋
      else if delta < -(full / 2) then offset + full * ⌊(-delta + full / 2) / full⌋
      else offset :=
  if_congr decide_eq_true_iff rfl (if_congr decide_eq_true_iff rfl rfl)

theorem unwrapFromExact_cons (full previous offset value : K) (values : List K) :
    unwrapFromExact full previous offset (value :: values)
      = (value + offsetExact full offset (value - previous))
        :: unwrapFromExact full value (offsetExact full offset (value - previous)) values := rfl

theorem unwrapExact_cons (full value : K) (values : List K) :
    unwrapExact full (value :: values) = value :: unwrapFromExact full value 0 values :=
  congrArg (· :: unwrapFromExact full value 0 values) (add_zero value)

/-! ## Whole circles -/

theorem modEq_wrapExact (full value : K) : value ≡ wrapExact full value [PMOD full] := by
  have hcircles := modEq_sub_circles full value ⌊(value + full / 2) / full⌋
  rw [wrapExact_eq]
  split
  · next hend =>
      -- the lower end of the interval is a circle away from the upper
      have hends := modEq_sub_circles full (full / 2) 1
      rw [Int.cast_one, mul_one, half_sub] at hends
      rw [hend] at hcircles
      exact hcircles.trans hends.symm
  · exact hcircles

theorem modEq_offsetExact (full offset delta : K) :
    offset ≡ offsetExact full offset delta [PMOD full] := by
  rw [offsetExact_eq]
  split
  · exact modEq_sub_circles full offset _
  · split
    · have hcircles := modEq_sub_circles full offset (-⌊(-delta + full / 2) / full⌋)
      rwa [Int.cast_neg, mul_neg, sub_neg_eq_add] at hcircles
    · exact AddCommGroup.modEq_refl offset

theorem forall₂_unwrapFromExact {full offset : K} (previous : K) (hoffset : 0 ≡ offset [PMOD full])
    (values : List K) :
    List.Forall₂ (· ≡ · [PMOD full]) values (unwrapFromExact full previous offset values) := by
  induction values generalizing previous offset with
  | nil => exact .nil
  | cons value values ih =>
      have hnext := hoffset.trans (modEq_offsetExact full offset (value - previous))
      rw [unwrapFromExact_cons]
      refine .cons ?_ (ih value hnext)
      simpa using (AddCommGroup.modEq_refl value).add hnext

theorem forall₂_unwrapExact (full : K) (values : List K) :
    List.Forall₂ (· ≡ · [PMOD full]) values (unwrapExact full values) := by
  cases values with
  | nil => exact .nil
  | cons value values =>
      rw [unwrapExact_cons]
      have hrefl := AddCommGroup.modEq_refl (p := full)
      exact .cons (hrefl value) (forall₂_unwrapFromExact value (hrefl 0) values)

theorem head?_unwrapExact (full : K) (values : List K) :
    (unwrapExact full values).head? = values.head? := by
  cases values with
  | nil => rfl
  | cons value values => rw [unwrapExact_cons, List.head?_cons, List.head?_cons]

section Ordered

variable [IsStrictOrderedRing K] {full : K} (hfull : 0 < full)

include hfull

/-- Taking whole circles off an angle brings it within half a circle of zero. -/
theorem sub_circles_mem (x : K) :
    x - full * ⌊(x + full / 2) / full⌋ ∈ Set.Ico (-(full / 2)) (full / 2) := by
  have hlow := Int.sub_floor_div_mul_nonneg (x + full / 2) hfull
  have hhigh := Int.sub_floor_div_mul_lt (x + full / 2) hfull
  constructor <;> linarith

/-! ## Wrapping -/

theorem wrapExact_mem (value : K) : wrapExact full value ∈ Set.Ioc (-(full / 2)) (full / 2) := by
  obtain ⟨hlow, hhigh⟩ := sub_circles_mem hfull value
  rw [wrapExact_eq]
  split
  · exact ⟨by linarith, le_refl _⟩
  · next hne => exact ⟨hlow.lt_of_ne' hne, hhigh.le⟩

/-- Wrapping is reduction into the interval around zero. -/
theorem wrapExact_eq_toIocMod (value : K) :
    wrapExact full value = toIocMod hfull (-(full / 2)) value := by
  obtain ⟨n, hn⟩ := AddCommGroup.modEq_iff_eq_add_zsmul.mp (modEq_wrapExact full value).symm
  symm
  rw [toIocMod_eq_iff]
  refine ⟨?_, n, hn⟩
  have := wrapExact_mem hfull value
  have hends : -(full / 2) + full = full / 2 := by ring
  rwa [hends]

theorem wrapExact_congr {a b : K} (h : a ≡ b [PMOD full]) :
    wrapExact full a = wrapExact full b := by
  obtain ⟨n, rfl⟩ := AddCommGroup.modEq_iff_eq_add_zsmul.mp h
  rw [wrapExact_eq_toIocMod hfull, wrapExact_eq_toIocMod hfull, toIocMod_add_zsmul]

/-! ## Unwrapping -/

/-- A step with the change of the offset is at most half a circle. -/
theorem abs_step_le (offset delta : K) :
    |delta + (offsetExact full offset delta - offset)| ≤ full / 2 := by
  rw [offsetExact_eq, abs_le]
  split
  · obtain ⟨hlow, hhigh⟩ := sub_circles_mem hfull delta
    constructor <;> linarith
  · next hup =>
      split
      · -- from below the same computation, turned around
        obtain ⟨hlow, hhigh⟩ := sub_circles_mem hfull (-delta)
        constructor <;> linarith
      · next hdown => constructor <;> linarith

theorem isChain_unwrapFromExact (previous offset : K) (values : List K) :
    ((previous + offset) :: unwrapFromExact full previous offset values).IsChain
      fun a b => |b - a| ≤ full / 2 := by
  induction values generalizing previous offset with
  | nil => exact .singleton _
  | cons value values ih =>
      rw [unwrapFromExact_cons]
      refine .cons_cons ?_ (ih value _)
      have hstep := abs_step_le hfull offset (value - previous)
      rwa [sub_add_sub_comm] at hstep

theorem isChain_unwrapExact (values : List K) :
    (unwrapExact full values).IsChain fun a b => |b - a| ≤ full / 2 := by
  cases values with
  | nil => exact .nil
  | cons value values =>
      have hchain := isChain_unwrapFromExact hfull value 0 values
      rwa [add_zero, ← unwrapExact_cons] at hchain

/-- Without rounding an angle wrapped is the one within half a circle of zero that differs from it
by whole circles, and stays as it is when wrapped again. A sequence unwrapped is as long as before
and begins as before, its angles differ from the ones before by whole circles and from their
neighbours by at most half a circle, and wrapping brings back the angles as wrapped before. -/
theorem wrap_unwrap_circles :
    (∀ value, wrapExact full value ∈ Set.Ioc (-(full / 2)) (full / 2)
      ∧ value ≡ wrapExact full value [PMOD full]
      ∧ wrapExact full (wrapExact full value) = wrapExact full value)
    ∧ ∀ values, (unwrapExact full values).length = values.length
      ∧ (unwrapExact full values).head? = values.head?
      ∧ List.Forall₂ (· ≡ · [PMOD full]) values (unwrapExact full values)
      ∧ (unwrapExact full values).IsChain (fun a b => |b - a| ≤ full / 2)
      ∧ (unwrapExact full values).map (wrapExact full) = values.map (wrapExact full) := by
  refine ⟨fun value => ⟨wrapExact_mem hfull value, modEq_wrapExact full value, ?_⟩,
    fun values => ?_⟩
  · exact wrapExact_congr hfull (modEq_wrapExact full value).symm
  · have hturned := forall₂_unwrapExact full values
    refine ⟨hturned.length_eq.symm, head?_unwrapExact full values, hturned,
      isChain_unwrapExact hfull values, ?_⟩
    rw [← List.forall₂_eq_eq_eq, List.forall₂_map_left_iff, List.forall₂_map_right_iff]
    exact hturned.flip.imp fun a b h => wrapExact_congr hfull (AddCommGroup.ModEq.symm h)

end Ordered

end Exact

/-- Jumps of a circle and a half up, of half a circle and of two circles down. -/
theorem wrap_unwrap_circles_degrees :
    let values : List ℚ := [170, 710, 530, -190, -370]
    (0 : ℚ) < 360 ∧ unwrapExact 360 values = [170, -10, -190, -190, -370]
      ∧ values.map (wrapExact 360) = [170, -10, 170, 170, -10]
      ∧ (unwrapExact 360 values).map (wrapExact 360) = values.map (wrapExact 360)
      ∧ wrapExact 360 (-180 : ℚ) = 180 ∧ wrapExact 360 (wrapExact 360 (-180 : ℚ)) = 180 := by
  intro values
  have hfull : (0 : ℚ) < 360 := by norm_num
  obtain ⟨hwrap, hunwrap⟩ := wrap_unwrap_circles hfull
  have hend : wrapExact 360 (-180 : ℚ) = 180 := by decide +kernel
  exact ⟨hfull, by decide +kernel, by decide +kernel, (hunwrap values).2.2.2.2, hend,
    (hwrap (-180)).2.2.trans hend⟩

end SeriesQuery
