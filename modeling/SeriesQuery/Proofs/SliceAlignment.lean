import Mathlib.Data.Set.Finite.Lemmas
import SeriesQuery.Proofs.SliceOrder

/-!
# When slices are aligned

A slice is aligned if its samples lie within the tolerance of the first of them. A reading goes on
taking as long as the next sample is not after the stop, so from a list that turns back it takes
samples from before the start. The slice is none the worse for it if another sample of the key is
taken later, since the last one is kept. Lists in which this always happens are settled, and only
these are read in aligned slices beside any others.
-/

open SeriesQuery.Binary64

namespace SeriesQuery

/-- All samples lie within the tolerance of the first of them, if there is one. -/
def Aligned (tolerance : Float) (slice : List Sample) : Prop :=
  slice ≠ [] → ∃ first ∈ slice, ∀ x ∈ slice,
    first.time ≤ x.time ∧ x.time ≤ first.time + tolerance

/-- After a sample that turns back, its key is given again before time goes on. -/
def Settled (l : List Sample) : Prop :=
  ∀ before x after, l = before ++ x :: after →
    ∀ latest ∈ before, (∀ y ∈ before, y.time ≤ latest.time) → x.time < latest.time →
      ∃ again ∈ after.takeWhile (·.isUpTo latest.time), again.key = x.key

theorem InOrder.settled {l : List Sample} (h : InOrder l) : Settled l := by
  rintro before x after rfl latest hlatest - hx
  exact absurd hx ((List.pairwise_append.mp h).2.2 latest hlatest x List.mem_cons_self)

/-! ## The first and the latest sample -/

theorem exists_first {l : List Sample} (hne : l ≠ []) (hn : ∀ x ∈ l, ¬ IsNaN x.time) :
    ∃ first ∈ l, ∀ x ∈ l, first.time ≤ x.time := by
  obtain ⟨first, hmem, hall⟩ := Set.exists_min_image _ (fun x => value x.time)
    (List.finite_toSet l) (List.exists_mem_of_ne_nil l hne)
  exact ⟨first, hmem, fun x hx => le_iff.mpr ⟨hn first hmem, hn x hx, hall x hx⟩⟩

theorem exists_latest {l : List Sample} (hne : l ≠ []) (hn : ∀ x ∈ l, ¬ IsNaN x.time) :
    ∃ latest ∈ l, ∀ x ∈ l, x.time ≤ latest.time := by
  obtain ⟨latest, hmem, hall⟩ := Set.exists_max_image _ (fun x => value x.time)
    (List.finite_toSet l) (List.exists_mem_of_ne_nil l hne)
  exact ⟨latest, hmem, fun x hx => le_iff.mpr ⟨hn x hx, hn latest hmem, hall x hx⟩⟩

/-! ## Settled lists -/

/-- What is taken up to a time, of what a reading up to a later one takes and leaves. -/
theorem takeWhile_taken_left {time stop : Float} (hle : time ≤ stop) (l after : List Sample) :
    (after ++ l.dropWhile (·.isUpTo stop)).takeWhile (·.isUpTo time)
      = after.takeWhile (·.isUpTo time) := by
  have hnone : (l.dropWhile (·.isUpTo stop)).takeWhile (·.isUpTo time) = [] := by
    cases hd : l.dropWhile (·.isUpTo stop) with
    | nil => rfl
    | cons z k =>
        have hz := Sample.not_le_of_dropWhile hd
        refine List.takeWhile_cons_of_neg fun hzt => hz ?_
        exact le_trans (Sample.isUpTo_iff.mp hzt) hle
  rw [List.takeWhile_append, hnone, List.append_nil]
  split
  · next h => exact ((List.takeWhile_prefix _).eq_of_length h).symm
  · rfl

/-- The last sample of a key that a reading takes from a settled list is the latest so far. -/
theorem Settled.le_of_last {l : List Sample} (h : Settled l) {stop : Float}
    {before after : List Sample} {x : Sample}
    (hsplit : l.takeWhile (·.isUpTo stop) = before ++ x :: after)
    (hlast : ∀ y ∈ after, y.key ≠ x.key) : ∀ y ∈ before, y.time ≤ x.time := by
  intro y hy
  have htaken : ∀ z ∈ before ++ x :: after, z.time ≤ stop := fun z hz =>
    Sample.le_of_mem_takeWhile (hsplit ▸ hz)
  have hnum : ∀ z ∈ before ++ x :: after, ¬ IsNaN z.time := fun z hz =>
    (le_iff.mp (htaken z hz)).1
  obtain ⟨latest, hlatest, hall⟩ := exists_latest (List.ne_nil_of_mem hy) fun z hz =>
    hnum z (List.mem_append_left _ hz)
  have hx := hnum x (List.mem_append_right _ List.mem_cons_self)
  have hl := hnum latest (List.mem_append_left _ hlatest)
  rcases lt_or_le hx hl with hlt | hle
  · have hwhole : l = before ++ x :: (after ++ l.dropWhile (·.isUpTo stop)) := by
      conv_lhs => rw [← List.takeWhile_append_dropWhile (p := (·.isUpTo stop)) (l := l), hsplit]
      simp
    obtain ⟨again, hagain, hkey⟩ := h _ _ _ hwhole latest hlatest hall hlt
    rw [takeWhile_taken_left (htaken latest (List.mem_append_left _ hlatest))] at hagain
    exact absurd hkey (hlast again ((List.takeWhile_prefix _).subset hagain))
  · exact le_trans (hall y hy) hle

theorem Settled.dropWhile {l : List Sample} (h : Settled l) (stop : Float) :
    Settled (l.dropWhile (·.isUpTo stop)) := by
  intro before x after hsplit latest hlatest hall hx
  have hwhole : l = l.takeWhile (·.isUpTo stop) ++ before ++ x :: after := by
    rw [List.append_assoc, ← hsplit, List.takeWhile_append_dropWhile]
  refine h _ _ _ hwhole latest (List.mem_append_right _ hlatest) (fun y hy => ?_) hx
  rcases List.mem_append.mp hy with hfront | hback
  · cases before with
    | nil => cases hlatest
    | cons z before =>
        -- the front of what is left lies beyond the stop, and `y` does not
        have hz := hall z List.mem_cons_self
        have hys := Sample.le_of_mem_takeWhile hfront
        have hbeyond := Sample.not_le_of_dropWhile hsplit
        have hlt := (lt_or_le (le_iff.mp hys).2.1 (le_iff.mp hz).1).resolve_right hbeyond
        exact le_trans hys (le_trans (le_of_lt hlt) hz)
  · exact hall y hback

namespace Slicer

variable {inputs : List (List Sample)}

/-- The samples of a slice that is read from settled lists are not before the start. -/
theorem start_le_of_mem_collapse (h : ∀ l ∈ inputs, Settled l) {stop : Float} {x : Sample}
    (hx : x ∈ collapse [] (taken stop inputs)) : firstTime inputs ≤ x.time := by
  obtain ⟨before, after, hsplit, hlast⟩ := (lastOfEachKey_collapse (taken stop inputs)).last x hx
  obtain ⟨l, hl, front, back, hfront, hback⟩ := taken_split hsplit
  have hle := (h l hl).le_of_last hfront fun y hy => hlast y (hback hy)
  have hsome : ∀ {k : List Sample}, k = [] → k ≠ front ++ x :: back := by
    rintro k rfl he
    exact List.append_ne_nil_of_right_ne_nil front (List.cons_ne_nil x back) he.symm
  cases l with
  | nil => exact absurd hfront (hsome rfl)
  | cons z l =>
      by_cases hz : z.isUpTo stop = true
      · have hzn := (le_iff.mp (Sample.isUpTo_iff.mp hz)).1
        have hstart : firstTime inputs ≤ z.time :=
          (lt_or_le hzn (firstTime_not_isNaN inputs)).resolve_left (firstTime_le_head hl)
        rw [List.takeWhile_cons_of_pos hz] at hfront
        cases front with
        | nil => exact (List.cons.inj hfront).1 ▸ hstart
        | cons w front =>
            have hwx := hle w List.mem_cons_self
            rw [← (List.cons.inj hfront).1] at hwx
            exact le_trans hstart hwx
      · exact absurd hfront (hsome (List.takeWhile_cons_of_neg hz))

theorem aligned_collapse (h : ∀ l ∈ inputs, Settled l) {tolerance : Float} (ht : 0.0 ≤ tolerance)
    (hf : (firstTime inputs).isFinite = true) :
    Aligned tolerance (collapse [] (taken (firstTime inputs + tolerance) inputs)) := by
  intro hne
  have hstop : ∀ x ∈ collapse [] (taken (firstTime inputs + tolerance) inputs),
      x.time ≤ firstTime inputs + tolerance := fun x hx =>
    (mem_taken ((lastOfEachKey_collapse _).subset hx)).1
  obtain ⟨first, hmem, hall⟩ := exists_first hne fun x hx => (le_iff.mp (hstop x hx)).1
  refine ⟨first, hmem, fun x hx => ⟨hall x hx, ?_⟩⟩
  exact le_trans (hstop x hx) (add_span_mono hf (start_le_of_mem_collapse h hmem) ht)

theorem settled_next {s : Slicer} (h : ∀ l ∈ s.inputs, Settled l) :
    ∀ l ∈ (s.next true).2.inputs, Settled l := by
  by_cases hf : (firstTime s.inputs).isFinite = true
  · rw [next_of_finite hf]
    intro l hl
    obtain ⟨k, hk, rfl⟩ := List.mem_map.mp (mem_nonempty.mp hl).1
    exact (h k hk).dropWhile _
  · rw [next_of_not_finite hf]
    intro l hl
    cases hl

theorem aligned_next {s : Slicer} (h : ∀ l ∈ s.inputs, Settled l) (ht : 0.0 ≤ s.tolerance) :
    Aligned s.tolerance (s.next true).1 := by
  by_cases hf : (firstTime s.inputs).isFinite = true
  · rw [next_of_finite hf]
    exact aligned_collapse h ht hf
  · rw [next_of_not_finite hf]
    exact fun hne => absurd rfl hne

theorem aligned_slicesFrom {s : Slicer} (h : ∀ l ∈ s.inputs, Settled l) (ht : 0.0 ≤ s.tolerance)
    (fuel : ℕ) : ∀ slice ∈ slicesFrom true fuel s, Aligned s.tolerance slice := by
  induction fuel generalizing s with
  | zero => exact fun slice hslice => by cases hslice
  | succ fuel ih =>
      unfold slicesFrom
      split
      · exact fun slice hslice => by cases hslice
      · refine List.forall_mem_cons.mpr ⟨aligned_next h ht, ?_⟩
        have hrest := ih (settled_next h) (by rwa [tolerance_next])
        rwa [tolerance_next] at hrest

/-- Settled lists are read in aligned slices. -/
theorem aligned_slices (h : ∀ l ∈ inputs, Settled l) (tolerance : Float) :
    ∀ slice ∈ (ofInputs tolerance inputs).slices true,
      Aligned (ofInputs tolerance inputs).tolerance slice :=
  aligned_slicesFrom (fun l hl => h l (mem_nonempty.mp hl).1)
    (ofInputs_tolerance_nonneg tolerance inputs) _

/-! ## Only settled lists -/

/-- A slice without any tolerance that holds two times is not aligned. -/
theorem not_aligned_of_lt {slice : List Sample} {x y : Sample} (hx : x ∈ slice) (hy : y ∈ slice)
    (hfinite : ∀ z ∈ slice, z.time.isFinite = true) (hlt : x.time < y.time) :
    ¬ Aligned 0.0 slice := by
  intro h
  obtain ⟨first, hmem, hall⟩ := h (List.ne_nil_of_mem hx)
  have hsum := (value_add_zero (hfinite first hmem)).2
  have hyt := (le_iff.mp (hall y hy).2).2.2
  have hxt := (le_iff.mp (hall x hx).1).2.2
  rw [hsum] at hyt
  exact absurd (lt_iff.mp hlt).2.2 (not_lt.mpr (hyt.trans hxt))

/-- A sample turns back from a time and its key is not given again before time goes on. Beside it
stands a sample of another key at the time that it turns back from. -/
structure TurnsBack (x : Sample) (after : List Sample) (latest other : Sample) : Prop where
  /-- The sample is before the time. -/
  earlier : x.time < latest.time
  /-- The key is not given again. -/
  last : ∀ y ∈ after.takeWhile (·.isUpTo latest.time), y.key ≠ x.key
  /-- The other sample has the time. -/
  time : other.time = latest.time
  /-- The other sample has another key. -/
  key : other.key ≠ x.key

variable {x latest other : Sample} {before after : List Sample}

/-- The reading that comes to a sample that turns back takes both samples. -/
theorem TurnsBack.taken_eq (h : TurnsBack x after latest other) {stop : Float}
    (hall : ∀ y ∈ before, y.time ≤ latest.time) (hreach : latest.time ≤ stop)
    (hstop : stop ≤ latest.time) :
    taken stop [before ++ x :: after, [other]]
      = before ++ x :: (after.takeWhile (·.isUpTo latest.time) ++ [other]) := by
  have hsame : after.takeWhile (·.isUpTo stop) = after.takeWhile (·.isUpTo latest.time) := by
    congr 1
    funext y
    rw [Bool.eq_iff_iff, Sample.isUpTo_iff, Sample.isUpTo_iff]
    exact ⟨fun hy => le_trans hy hstop, fun hy => le_trans hy hreach⟩
  have hbefore : ∀ y ∈ before, y.isUpTo stop = true := fun y hy =>
    Sample.isUpTo_iff.mpr (le_trans (hall y hy) hreach)
  have hx : x.isUpTo stop = true := Sample.isUpTo_iff.mpr (le_trans (le_of_lt h.earlier) hreach)
  have hother : other.isUpTo stop = true := Sample.isUpTo_iff.mpr (h.time ▸ hreach)
  unfold taken
  rw [List.flatMap_cons, List.takeWhile_append_of_pos hbefore, List.takeWhile_cons_of_pos hx,
    List.flatMap_cons, List.takeWhile_cons_of_pos hother, hsame]
  simp

/-- The slice of both samples reaches back. -/
theorem TurnsBack.not_aligned (h : TurnsBack x after latest other) {slice : List Sample}
    (hfinite : ∀ y ∈ before ++ x :: after, y.time.isFinite = true) (hlatest : latest ∈ before)
    (hslice : LastOfEachKey slice
      (before ++ x :: (after.takeWhile (·.isUpTo latest.time) ++ [other]))) :
    ¬ Aligned 0.0 slice := by
  have hx : x ∈ slice := by
    refine hslice.mem fun y hy => ?_
    rcases List.mem_append.mp hy with hy | hy
    · exact h.last y hy
    · rw [List.mem_singleton.mp hy]
      exact h.key
  have hother : other ∈ slice := by
    rw [← List.cons_append, ← List.append_assoc] at hslice
    exact hslice.mem fun y hy => by cases hy
  refine not_aligned_of_lt hx hother (fun y hy => ?_) (h.time ▸ h.earlier)
  have htaken := hslice.subset hy
  rw [← List.cons_append, ← List.append_assoc] at htaken
  rcases List.mem_append.mp htaken with hy | hy
  · have hfront := (List.takeWhile_prefix (l := after) (·.isUpTo latest.time)).sublist
    exact hfinite y (((hfront.cons_cons x).append_left before).subset hy)
  · rw [List.mem_singleton.mp hy, h.time]
    exact hfinite latest (List.mem_append_left _ hlatest)

/-- A reading that does not come to it leaves the sample, what follows it and the other one. -/
theorem TurnsBack.left_eq (h : TurnsBack x after latest other) {stop : Float}
    (hlatest : latest ∈ before) (hreach : ¬ latest.time ≤ stop) :
    nonempty (left stop [before ++ x :: after, [other]])
        = [before.dropWhile (·.isUpTo stop) ++ x :: after, [other]]
      ∧ latest ∈ before.dropWhile (·.isUpTo stop) := by
  have hkept : latest ∈ before.dropWhile (·.isUpTo stop) := by
    rw [← List.takeWhile_append_dropWhile (p := (·.isUpTo stop)) (l := before)] at hlatest
    exact (List.mem_append.mp hlatest).resolve_left fun ht =>
      hreach (Sample.le_of_mem_takeWhile ht)
  have hsome : ¬ (before.dropWhile (·.isUpTo stop)).isEmpty = true := fun he =>
    List.ne_nil_of_mem hkept (List.isEmpty_iff.mp he)
  have hother : ¬ other.isUpTo stop = true := fun ho =>
    hreach (h.time ▸ Sample.isUpTo_iff.mp ho)
  refine ⟨?_, hkept⟩
  unfold left
  rw [List.map_cons, List.map_cons, List.dropWhile_append, if_neg hsome,
    List.dropWhile_cons_of_neg hother]
  unfold nonempty
  rw [List.map_nil, List.filter_eq_self]
  intro l hl
  rcases List.mem_cons.mp hl with rfl | hl
  · simp
  · rw [List.mem_singleton.mp hl]
    rfl

/-- A reading of a list beside one sample that is not before it starts at the front of the list
or at that sample. -/
theorem firstTime_beside {first other : Sample} {l : List Sample}
    (hfirst : first.time.isFinite = true) (hother : other.time.isFinite = true)
    (hle : first.time ≤ other.time) :
    (firstTime [first :: l, [other]]).isFinite = true
      ∧ firstTime [first :: l, [other]] ≤ other.time
      ∧ (firstTime [first :: l, [other]] = first.time
        ∨ firstTime [first :: l, [other]] = other.time) := by
  have hstart : firstTime [first :: l, [other]] = first.time
      ∨ firstTime [first :: l, [other]] = other.time := by
    rcases firstTime_mem [first :: l, [other]] with hinf | ⟨z, k, hk, hz⟩
    · exact absurd (hinf ▸ lt_infinity_of_isFinite hfirst)
        (firstTime_le_head (l := l) List.mem_cons_self)
    · rcases List.mem_cons.mp hk with hk | hk
      · exact .inl ((List.cons.inj hk).1 ▸ hz.symm)
      · exact .inr ((List.cons.inj (List.mem_singleton.mp hk)).1 ▸ hz.symm)
  refine ⟨?_, ?_, hstart⟩
  · rcases hstart with he | he
    · rw [he]
      exact hfirst
    · rw [he]
      exact hother
  · rcases hstart with he | he
    · rw [he]
      exact hle
    · rw [he]
      exact le_refl_of_not_isNaN (not_isNaN_of_isFinite hother)

/-- Readings come to a sample that turns back, since each takes a sample before it. -/
theorem TurnsBack.exists_not_aligned (h : TurnsBack x after latest other) {fuel : ℕ}
    (hfinite : ∀ y ∈ before ++ x :: after, y.time.isFinite = true)
    (hlatest : latest ∈ before) (hall : ∀ y ∈ before, y.time ≤ latest.time)
    (hfuel : before.length ≤ fuel) :
    ∃ slice ∈ slicesFrom true fuel ⟨[before ++ x :: after, [other]], 0.0⟩, ¬ Aligned 0.0 slice := by
  induction fuel generalizing before with
  | zero =>
      rw [List.eq_nil_of_length_eq_zero (Nat.le_zero.mp hfuel)] at hlatest
      cases hlatest
  | succ fuel ih =>
      obtain ⟨first, rest, rfl⟩ := List.exists_cons_of_ne_nil (List.ne_nil_of_mem hlatest)
      have hother : other.time.isFinite = true := by
        rw [h.time]
        exact hfinite latest (List.mem_append_left _ hlatest)
      have hfirst : first.time ≤ other.time := by
        rw [h.time]
        exact hall first List.mem_cons_self
      obtain ⟨hf, hle, hstart⟩ := firstTime_beside (l := rest ++ x :: after)
        (hfinite first List.mem_cons_self) hother hfirst
      rw [h.time] at hle hstart
      have hstep : slicesFrom true (fuel + 1) ⟨[first :: rest ++ x :: after, [other]], 0.0⟩
          = (next ⟨[first :: rest ++ x :: after, [other]], 0.0⟩ true).1
            :: slicesFrom true fuel (next ⟨[first :: rest ++ x :: after, [other]], 0.0⟩ true).2 :=
        rfl
      rw [hstep, @next_of_finite ⟨[first :: rest ++ x :: after, [other]], 0.0⟩ hf]
      obtain ⟨hsum, hvalue⟩ := value_add_zero hf
      have hself := le_self_add hf (le_refl_of_not_isNaN not_isNaN_zero)
      dsimp only [List.cons_append] at *
      generalize firstTime [first :: (rest ++ x :: after), [other]] = start at *
      generalize start + 0.0 = stop at *
      by_cases hreach : latest.time ≤ stop
      · have hstop : stop ≤ latest.time :=
          le_iff.mpr ⟨hsum, (le_iff.mp hle).2.1, hvalue.trans_le (le_iff.mp hle).2.2⟩
        refine ⟨_, List.mem_cons_self, h.not_aligned hfinite hlatest ?_⟩
        have htaken : taken stop [first :: (rest ++ x :: after), [other]] = _ :=
          h.taken_eq hall hreach hstop
        rw [htaken]
        exact lastOfEachKey_collapse _
      · have htake : first.isUpTo stop = true := by
          rw [Sample.isUpTo_iff]
          rcases hstart with he | he
          · exact he ▸ hself
          · exact absurd (he ▸ hself) hreach
        obtain ⟨hleft, hkept⟩ := h.left_eq hlatest hreach
        have hsub := List.dropWhile_suffix (l := first :: rest) (·.isUpTo stop)
        have hshort : ((first :: rest).dropWhile (·.isUpTo stop)).length ≤ fuel := by
          rw [List.dropWhile_cons_of_pos htake]
          exact (List.dropWhile_suffix _).length_le.trans (Nat.le_of_succ_le_succ hfuel)
        obtain ⟨slice, hslice, hn⟩ := ih (fun y hy => hfinite y
            ((hsub.sublist.append_right _).subset hy)) hkept
          (fun y hy => hall y (hsub.subset hy)) hshort
        refine ⟨slice, List.mem_cons_of_mem _ ?_, hn⟩
        rw [show nonempty (left stop [first :: (rest ++ x :: after), [other]]) = _ from hleft]
        exact hslice

/-- A list of finite times that is read in aligned slices beside any other sample is settled; it is
enough that it is without a tolerance. -/
theorem settled_of_aligned {l : List Sample} (hfinite : ∀ y ∈ l, y.time.isFinite = true)
    (h : ∀ other, ∀ slice ∈ (ofInputs 0.0 [l, [other]]).slices true, Aligned 0.0 slice) :
    Settled l := by
  rintro before x after rfl latest hlatest hall hx
  by_contra hagain
  push Not at hagain
  have hturns : TurnsBack x after latest { latest with key := 'A' :: x.key } :=
    { earlier := hx
      last := hagain
      time := rfl
      key := List.cons_ne_self _ _ }
  have hpending : before.length
      ≤ (ofInputs 0.0 [before ++ x :: after, [{ latest with key := 'A' :: x.key }]]).pending := by
    show _ ≤ (nonempty [before ++ x :: after, _]).flatten.length
    rw [flatten_nonempty]
    simp
  obtain ⟨slice, hslice, hn⟩ := hturns.exists_not_aligned hfinite hlatest hall hpending
  refine hn (h { latest with key := 'A' :: x.key } slice ?_)
  have hboth : nonempty [before ++ x :: after, [{ latest with key := 'A' :: x.key }]]
      = [before ++ x :: after, [{ latest with key := 'A' :: x.key }]] := by
    cases before <;> rfl
  show slice ∈ slicesFrom true _ ⟨nonempty _, 0.0⟩
  rw [hboth]
  exact hslice

/-- The lists of finite times that are read in aligned slices beside any settled lists, whatever
the tolerance, are the settled ones. -/
theorem settled_iff {l : List Sample} (hfinite : ∀ y ∈ l, y.time.isFinite = true) :
    Settled l ↔ ∀ others : List (List Sample), (∀ k ∈ others, Settled k) → ∀ tolerance,
      ∀ slice ∈ (ofInputs tolerance (l :: others)).slices true,
        Aligned (ofInputs tolerance (l :: others)).tolerance slice := by
  constructor
  · intro h others hothers tolerance
    exact aligned_slices (List.forall_mem_cons.mpr ⟨h, hothers⟩) tolerance
  · intro h
    refine settled_of_aligned hfinite fun other => h [[other]] (fun k hk => ?_) 0.0
    rw [List.mem_singleton.mp hk]
    exact InOrder.settled (List.pairwise_singleton _ _)

end Slicer

end SeriesQuery
