import SeriesQuery.Engine.Evaluate
import SeriesQuery.Proofs.SliceReading

/-!
# The order of slices

Samples are in order when none is before an earlier one in the list. Over lists in order each
slice lies before the next. Times need not be finite for this: what is no number is never taken.
-/

open SeriesQuery.Binary64

namespace SeriesQuery

/-- No sample is before an earlier one in the list. -/
def InOrder (samples : List Sample) : Prop := samples.Pairwise fun a b => ¬ b.time < a.time

theorem InOrder.sublist {l k : List Sample} (h : InOrder l) (hs : k.Sublist l) : InOrder k :=
  List.Pairwise.sublist hs h

/-- In a list in order nothing that is a number is before the first sample. -/
theorem InOrder.head_le {x y : Sample} {l : List Sample} (h : InOrder (x :: l))
    (hx : ¬ IsNaN x.time) (hy : ¬ IsNaN y.time) (hmem : y ∈ x :: l) : x.time ≤ y.time := by
  rcases List.mem_cons.mp hmem with rfl | hmem
  · exact le_refl_of_not_isNaN hx
  · exact (lt_or_le hy hx).resolve_left ((List.pairwise_cons.mp h).1 y hmem)

namespace Slicer

/-- No list begins with a sample up to a time. -/
def Beyond (stop : Float) (inputs : List (List Sample)) : Prop :=
  ∀ x l, x :: l ∈ inputs → ¬ x.time ≤ stop

/-! ## One reading -/

theorem mem_taken {stop : Float} {inputs : List (List Sample)} {y : Sample}
    (h : y ∈ taken stop inputs) :
    y.time ≤ stop ∧ ∃ x l, x :: l ∈ inputs ∧ x.time ≤ stop ∧ y ∈ x :: l := by
  obtain ⟨l, hl, hy⟩ := List.mem_flatMap.mp h
  have hstop := Sample.le_of_mem_takeWhile hy
  cases l with
  | nil => cases hy
  | cons x l =>
      refine ⟨hstop, x, l, hl, ?_, (List.takeWhile_prefix _).subset hy⟩
      by_contra hx
      rw [List.takeWhile_cons_of_neg (mt Sample.isUpTo_iff.mp hx)] at hy
      cases hy

variable {inputs : List (List Sample)}

theorem lt_of_mem_taken (h : ∀ l ∈ inputs, InOrder l) {before stop : Float} {y : Sample}
    (hn : ¬ IsNaN before) (hb : Beyond before inputs) (hy : y ∈ taken stop inputs) :
    before < y.time := by
  obtain ⟨hstop, x, l, hl, hx, hmem⟩ := mem_taken hy
  have hxn := (le_iff.mp hx).1
  have hlt : before < x.time := (lt_or_le hn hxn).resolve_right (hb x l hl)
  exact lt_of_lt_of_le hlt ((h _ hl).head_le hxn (le_iff.mp hstop).1 hmem)

theorem inOrder_left (h : ∀ l ∈ inputs, InOrder l) (stop : Float) :
    ∀ l ∈ nonempty (left stop inputs), InOrder l := by
  intro l hl
  obtain ⟨k, hk, rfl⟩ := List.mem_map.mp (mem_nonempty.mp hl).1
  exact (h k hk).sublist (List.dropWhile_suffix _).sublist

theorem beyond_left (stop : Float) (inputs : List (List Sample)) :
    Beyond stop (nonempty (left stop inputs)) := by
  intro x l hl
  obtain ⟨k, -, hk⟩ := List.mem_map.mp (mem_nonempty.mp hl).1
  exact Sample.not_le_of_dropWhile hk

/-- What begins beyond a time still does after more has been taken. -/
theorem Beyond.left {before : Float} (hb : Beyond before inputs) (h : ∀ l ∈ inputs, InOrder l)
    (stop : Float) : Beyond before (nonempty (left stop inputs)) := by
  intro y l hl
  obtain ⟨k, hk, he⟩ := List.mem_map.mp (mem_nonempty.mp hl).1
  cases k with
  | nil => cases he
  | cons x k =>
      by_cases hx : x.time ≤ stop
      · have hxn := (le_iff.mp hx).1
        have hmem : y ∈ x :: k :=
          (List.dropWhile_suffix (·.isUpTo stop)).subset (he ▸ List.mem_cons_self)
        intro hy
        have hxy := (h _ hk).head_le hxn (le_iff.mp hy).1 hmem
        exact hb x k hk (le_trans hxy hy)
      · rw [List.dropWhile_cons_of_neg (mt Sample.isUpTo_iff.mp hx)] at he
        cases he
        exact hb y l hk

/-! ## All readings -/

/-- What holds of every slice that is still to be read. -/
structure SlicesInOrder (s : Slicer) (slices : List (List Sample)) : Prop where
  /-- Every slice holds one sample of a key. -/
  nodup : ∀ slice ∈ slices, (slice.map (·.key)).Nodup
  /-- What the lists begin beyond, no slice reaches back to. -/
  beyond : ∀ before, ¬ IsNaN before → Beyond before s.inputs →
    ∀ slice ∈ slices, ∀ y ∈ slice, before < y.time
  /-- Every slice lies before the next. -/
  successive : slices.Pairwise fun a b => ∀ x ∈ a, ∀ y ∈ b, x.time < y.time

theorem slicesInOrder_nil (s : Slicer) : SlicesInOrder s [] where
  nodup _ h := by cases h
  beyond _ _ _ _ h := by cases h
  successive := .nil

theorem SlicesInOrder.next {s : Slicer} (h : ∀ l ∈ s.inputs, InOrder l) (ht : 0.0 ≤ s.tolerance)
    {slices : List (List Sample)} (hrest : SlicesInOrder (s.next true).2 slices) :
    SlicesInOrder s ((s.next true).1 :: slices) := by
  by_cases hf : (firstTime s.inputs).isFinite = true
  · rw [next_of_finite hf] at hrest ⊢
    have hreach := le_self_add hf ht
    generalize firstTime s.inputs + s.tolerance = stop at *
    have hlast := lastOfEachKey_collapse (taken stop s.inputs)
    exact {
      nodup := List.forall_mem_cons.mpr ⟨hlast.nodup, hrest.nodup⟩
      beyond := fun before hn hb => List.forall_mem_cons.mpr
        ⟨fun y hy => lt_of_mem_taken h hn hb (hlast.subset hy),
          hrest.beyond before hn (hb.left h stop)⟩
      successive := List.pairwise_cons.mpr ⟨fun b hb x hx y hy =>
        lt_of_le_of_lt (mem_taken (hlast.subset hx)).1
          (hrest.beyond stop (le_iff.mp hreach).2.1 (beyond_left stop s.inputs) b hb y hy),
        hrest.successive⟩ }
  · rw [next_of_not_finite hf] at hrest ⊢
    have hnone : ∀ before, Beyond before ([] : List (List Sample)) := fun _ _ _ hl => by cases hl
    exact {
      nodup := List.forall_mem_cons.mpr ⟨List.nodup_nil, hrest.nodup⟩
      beyond := fun before hn _ => List.forall_mem_cons.mpr
        ⟨(fun y hy => by cases hy), hrest.beyond before hn (hnone before)⟩
      successive := List.pairwise_cons.mpr ⟨(fun b _ x hx => by cases hx), hrest.successive⟩ }

theorem inOrder_next {s : Slicer} (h : ∀ l ∈ s.inputs, InOrder l) :
    ∀ l ∈ (s.next true).2.inputs, InOrder l := by
  by_cases hf : (firstTime s.inputs).isFinite = true
  · rw [next_of_finite hf]
    exact inOrder_left h _
  · rw [next_of_not_finite hf]
    intro l hl
    cases hl

theorem tolerance_next (s : Slicer) : (s.next true).2.tolerance = s.tolerance := by
  by_cases hf : (firstTime s.inputs).isFinite = true
  · rw [next_of_finite hf]
  · rw [next_of_not_finite hf]

theorem slicesFrom_inOrder {s : Slicer} (h : ∀ l ∈ s.inputs, InOrder l) (ht : 0.0 ≤ s.tolerance)
    (fuel : ℕ) : SlicesInOrder s (slicesFrom true fuel s) := by
  induction fuel generalizing s with
  | zero => exact slicesInOrder_nil s
  | succ fuel ih =>
      unfold slicesFrom
      split
      · exact slicesInOrder_nil s
      · exact .next h ht (ih (inOrder_next h) (by rwa [tolerance_next]))

/-- Lists in order are read in slices that lie one before the other. -/
theorem slices_inOrder {inputs : List (List Sample)} (h : ∀ l ∈ inputs, InOrder l)
    (tolerance : Float) :
    SlicesInOrder (ofInputs tolerance inputs) ((ofInputs tolerance inputs).slices true) :=
  slicesFrom_inOrder (fun l hl => h l (mem_nonempty.mp hl).1)
    (ofInputs_tolerance_nonneg tolerance inputs) _

/-! ## What slices hold -/

theorem mem_next (s : Slicer) : (∀ x ∈ (s.next true).1, x ∈ s.inputs.flatten)
    ∧ ∀ x ∈ (s.next true).2.inputs.flatten, x ∈ s.inputs.flatten := by
  by_cases hf : (firstTime s.inputs).isFinite = true
  · rw [next_of_finite hf]
    have hperm := taken_left_perm (firstTime s.inputs + s.tolerance) s.inputs
    refine ⟨fun x hx => ?_, fun x hx => ?_⟩
    · have hx := (lastOfEachKey_collapse _).subset hx
      exact hperm.subset (List.mem_append_left _ hx)
    · rw [flatten_nonempty] at hx
      exact hperm.subset (List.mem_append_right _ hx)
  · rw [next_of_not_finite hf]
    exact ⟨(fun x hx => by cases hx), fun x hx => by cases hx⟩

/-- A slice holds samples of the lists. -/
theorem mem_of_mem_slicesFrom {fuel : ℕ} {s : Slicer} {slice : List Sample}
    (h : slice ∈ slicesFrom true fuel s) {x : Sample} (hx : x ∈ slice) : x ∈ s.inputs.flatten := by
  induction fuel generalizing s with
  | zero => cases h
  | succ fuel ih =>
      unfold slicesFrom at h
      split at h
      · cases h
      · rcases List.mem_cons.mp h with rfl | h
        · exact (mem_next s).1 x hx
        · exact (mem_next s).2 x (ih h)

end Slicer

end SeriesQuery
