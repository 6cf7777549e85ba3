import SeriesQuery.Engine.Evaluate
import SeriesQuery.Proofs.SliceReading

/-!
# Windows of time

Over lists whose times are finite and do not decrease, every reading takes a window: exactly the
samples from the earliest one at hand as far as the tolerance reaches. The samples are in order,
so what is up to a time is what stands at the front of each list. What is left lies beyond the
window; the next one starts later, and in the end every sample has been in one window.
-/

open SeriesQuery.Binary64

namespace SeriesQuery.Slicer

/-! ## Statement -/

/-- What a reading did. -/
structure Window where
  /-- The time of the earliest sample at hand. -/
  start : Float
  /-- The samples taken, by their lists and by their places in these. -/
  taken : List Sample
  /-- The slice. -/
  slice : List Sample

/-- A reading that takes a window of the samples at hand. -/
structure Reads (tolerance : Float) (s : Slicer) (w : Window) (s' : Slicer) : Prop where
  /-- This is what the reading gives. -/
  result : s.next true = (w.slice, s')
  /-- A sample at hand has the time at which the window starts, … -/
  start_mem : ∃ x ∈ s.inputs.flatten, x.time = w.start
  /-- … and none has an earlier one. -/
  start_le : ∀ x ∈ s.inputs.flatten, w.start ≤ x.time
  /-- What lies within the tolerance is taken. -/
  taken_eq : w.taken = s.inputs.flatten.filter (·.isUpTo (w.start + tolerance))
  /-- The other samples of each list stay as they are. -/
  inputs_eq : s'.inputs = nonempty
    (s.inputs.map fun l => l.filter fun x => !x.isUpTo (w.start + tolerance))
  /-- What stays lies beyond the window. -/
  beyond : ∀ x ∈ s'.inputs.flatten, w.start + tolerance < x.time
  /-- The slice is not empty. -/
  slice_ne_nil : w.slice ≠ []
  /-- The slice holds the last sample of each key. -/
  lastOfEachKey : LastOfEachKey w.slice w.taken

/-- Reading until nothing is left. -/
inductive ReadsAll (tolerance : Float) : Slicer → List Window → Prop
  /-- Nothing is left. -/
  | done {s : Slicer} : s.isComplete = true → ReadsAll tolerance s []
  /-- A reading, and then the others. -/
  | next {s s' : Slicer} {w : Window} {ws : List Window} : s.isComplete = false →
      Reads tolerance s w s' → ReadsAll tolerance s' ws → ReadsAll tolerance s (w :: ws)

/-! ## Samples in order -/

/-- A slicer over finite times that do not decrease. -/
structure Steady (s : Slicer) : Prop where
  /-- Every list holds a sample. -/
  ne_nil : ∀ l ∈ s.inputs, l ≠ []
  /-- All times are finite. -/
  finite : ∀ l ∈ s.inputs, ∀ x ∈ l, x.time.isFinite = true
  /-- The times of a list do not decrease. -/
  order : ∀ l ∈ s.inputs, l.Pairwise fun a b => a.time ≤ b.time
  /-- The tolerance is not negative. -/
  tolerance : 0.0 ≤ s.tolerance

/-- Where what fails stays failing, the front of a list is all of it that passes. -/
theorem takeWhile_dropWhile_of_pairwise {α : Type} {p : α → Bool} {l : List α}
    (h : l.Pairwise fun a b => p b = true → p a = true) :
    l.takeWhile p = l.filter p ∧ l.dropWhile p = l.filter (!p ·) := by
  induction l with
  | nil => exact ⟨rfl, rfl⟩
  | cons a l ih =>
      obtain ⟨ha, hl⟩ := List.pairwise_cons.mp h
      by_cases hp : p a = true
      · obtain ⟨htake, hdrop⟩ := ih hl
        rw [List.takeWhile_cons_of_pos hp, List.dropWhile_cons_of_pos hp,
          List.filter_cons_of_pos hp, List.filter_cons_of_neg (by simpa using hp)]
        exact ⟨by rw [htake], hdrop⟩
      · have hnone : ∀ b ∈ l, ¬ p b = true := fun b hb hpb => hp (ha b hb hpb)
        rw [List.takeWhile_cons_of_neg hp, List.dropWhile_cons_of_neg hp,
          List.filter_cons_of_neg hp, List.filter_cons_of_pos (by simpa using hp),
          List.filter_eq_nil_iff.mpr hnone]
        refine ⟨rfl, ?_⟩
        rw [List.filter_eq_self.mpr fun b hb => by simpa using hnone b hb]

theorem steady_ofInputs {tolerance : Float} {inputs : List (List Sample)}
    (hfinite : ∀ l ∈ inputs, ∀ x ∈ l, x.time.isFinite = true)
    (horder : ∀ l ∈ inputs, l.Pairwise fun a b => a.time ≤ b.time) :
    (ofInputs tolerance inputs).Steady where
  ne_nil _ hl := (mem_nonempty.mp hl).2
  finite l hl := hfinite l (mem_nonempty.mp hl).1
  order l hl := horder l (mem_nonempty.mp hl).1
  tolerance := ofInputs_tolerance_nonneg tolerance inputs

namespace Steady

variable {s : Slicer}

theorem finite_flatten (h : s.Steady) {x : Sample} (hx : x ∈ s.inputs.flatten) :
    x.time.isFinite = true := by
  obtain ⟨l, hl, hxl⟩ := List.mem_flatten.mp hx
  exact h.finite l hl x hxl

theorem firstTime_mem (h : s.Steady) (hne : s.isComplete = false) :
    ∃ x ∈ s.inputs.flatten, x.time = firstTime s.inputs := by
  obtain ⟨x, l, hl, hx⟩ :=
    firstTime_of_finite (List.isEmpty_eq_false_iff.mp hne) h.ne_nil h.finite
  exact ⟨x, List.mem_flatten.mpr ⟨_, hl, List.mem_cons_self⟩, hx⟩

theorem firstTime_finite (h : s.Steady) (hne : s.isComplete = false) :
    (firstTime s.inputs).isFinite = true := by
  obtain ⟨x, hx, he⟩ := h.firstTime_mem hne
  rw [← he]
  exact h.finite_flatten hx

theorem firstTime_le (h : s.Steady) (hne : s.isComplete = false) {x : Sample}
    (hx : x ∈ s.inputs.flatten) : firstTime s.inputs ≤ x.time := by
  obtain ⟨l, hl, hxl⟩ := List.mem_flatten.mp hx
  have hstart := not_isNaN_of_isFinite (h.firstTime_finite hne)
  cases l with
  | nil => cases hxl
  | cons y l =>
      have hy := not_isNaN_of_isFinite (h.finite _ hl y List.mem_cons_self)
      have hfirst : firstTime s.inputs ≤ y.time :=
        (lt_or_le hy hstart).resolve_left (firstTime_le_head hl)
      rcases List.mem_cons.mp hxl with rfl | hxl
      · exact hfirst
      · exact le_trans hfirst ((List.pairwise_cons.mp (h.order _ hl)).1 x hxl)

theorem takeWhile_dropWhile (h : s.Steady) (stop : Float) {l : List Sample} (hl : l ∈ s.inputs) :
    l.takeWhile (·.isUpTo stop) = l.filter (·.isUpTo stop)
      ∧ l.dropWhile (·.isUpTo stop) = l.filter (!·.isUpTo stop) := by
  refine takeWhile_dropWhile_of_pairwise ((h.order l hl).imp fun hab hb => ?_)
  rw [Sample.isUpTo_iff] at hb ⊢
  exact le_trans hab hb

theorem taken_eq (h : s.Steady) (stop : Float) :
    taken stop s.inputs = s.inputs.flatten.filter (·.isUpTo stop) := by
  rw [List.filter_flatten]
  unfold taken
  rw [List.flatMap_def]
  congr 1
  exact List.map_congr_left fun l hl => (h.takeWhile_dropWhile stop hl).1

theorem left_eq (h : s.Steady) (stop : Float) :
    left stop s.inputs = s.inputs.map fun l => l.filter fun x => !x.isUpTo stop :=
  List.map_congr_left fun _ hl => (h.takeWhile_dropWhile stop hl).2

theorem left (h : s.Steady) (stop : Float) :
    Steady { s with inputs := nonempty (Slicer.left stop s.inputs) } where
  ne_nil _ hl := (mem_nonempty.mp hl).2
  finite _ hl x hx := by
    obtain ⟨k, hk, rfl⟩ := List.mem_map.mp (mem_nonempty.mp hl).1
    exact h.finite k hk x ((List.dropWhile_suffix _).subset hx)
  order l hl := by
    obtain ⟨k, hk, rfl⟩ := List.mem_map.mp (mem_nonempty.mp hl).1
    exact (h.order k hk).sublist (List.dropWhile_suffix _).sublist
  tolerance := h.tolerance

end Steady

/-! ## The readings -/

theorem pending_eq_length (s : Slicer) : s.pending = s.inputs.flatten.length := rfl

/-- A reading takes a window. -/
theorem Steady.reads {s : Slicer} (h : s.Steady) (hne : s.isComplete = false) :
    ∃ w s', Reads s.tolerance s w s' ∧ s'.Steady ∧ s'.tolerance = s.tolerance
      ∧ (w.taken ++ s'.inputs.flatten).Perm s.inputs.flatten ∧ w.start ≤ w.start + s.tolerance := by
  have hfinite := h.firstTime_finite hne
  have hnext := next_of_finite hfinite
  have hmem := h.firstTime_mem hne
  have hreach := le_self_add hfinite h.tolerance
  have hperm := taken_left_perm (firstTime s.inputs + s.tolerance) s.inputs
  rw [← flatten_nonempty] at hperm
  generalize hstart : firstTime s.inputs = start at *
  generalize hstop : start + s.tolerance = stop at *
  have htaken := h.taken_eq stop
  have hslice := lastOfEachKey_collapse (taken stop s.inputs)
  have hsome : taken stop s.inputs ≠ [] := by
    obtain ⟨x, hx, he⟩ := hmem
    have hxt : x ∈ taken stop s.inputs := by
      rw [htaken, List.mem_filter, Sample.isUpTo_iff, he]
      exact ⟨hx, hreach⟩
    exact List.ne_nil_of_mem hxt
  refine ⟨⟨start, taken stop s.inputs, collapse [] (taken stop s.inputs)⟩, _,
    ?_, h.left stop, rfl, hperm, hstop ▸ hreach⟩
  exact {
    result := hnext
    start_mem := hmem
    start_le := fun x hx => hstart ▸ h.firstTime_le hne hx
    taken_eq := by rw [hstop]; exact htaken
    inputs_eq := by
      rw [hstop, ← h.left_eq]
    beyond := by
      intro x hx
      rw [hstop]
      obtain ⟨l, hl, hxl⟩ := List.mem_flatten.mp hx
      rw [mem_nonempty, h.left_eq] at hl
      obtain ⟨k, hk, rfl⟩ := List.mem_map.mp hl.1
      obtain ⟨hxk, hbeyond⟩ := List.mem_filter.mp hxl
      have hx := not_isNaN_of_isFinite (h.finite k hk x hxk)
      refine (lt_or_le (le_iff.mp hreach).2.1 hx).resolve_right fun hle => ?_
      rw [Sample.isUpTo_iff.mpr hle] at hbeyond
      cases hbeyond
    slice_ne_nil := hslice.ne_nil hsome
    lastOfEachKey := hslice }

theorem Reads.pending_lt {tolerance : Float} {s s' : Slicer} {w : Window}
    (h : Reads tolerance s w s') (hperm : (w.taken ++ s'.inputs.flatten).Perm s.inputs.flatten) :
    s'.pending < s.pending := by
  obtain ⟨t, ht⟩ := List.exists_mem_of_ne_nil _ h.slice_ne_nil
  have hpos := List.length_pos_of_mem (h.lastOfEachKey.subset ht)
  have hlen := hperm.length_eq
  rw [List.length_append] at hlen
  rw [pending_eq_length, pending_eq_length]
  omega

/-- As many readings as there are samples read all of them. -/
theorem Steady.readsAll {s : Slicer} (h : s.Steady) {fuel : ℕ} (hfuel : s.pending ≤ fuel) :
    ∃ windows : List Window, ReadsAll s.tolerance s windows
      ∧ windows.map (·.slice) = slicesFrom true fuel s
      ∧ windows.Pairwise (fun a b => a.start < b.start)
      ∧ (∀ w ∈ windows, ∃ x ∈ s.inputs.flatten, x.time = w.start)
      ∧ (windows.flatMap (·.taken)).Perm s.inputs.flatten := by
  induction fuel generalizing s with
  | zero =>
      have hnone : s.inputs.flatten = [] := List.eq_nil_of_length_eq_zero (by
        rw [← pending_eq_length]; omega)
      have hcomplete : s.isComplete = true := by
        by_contra hne
        obtain ⟨x, hx, -⟩ := h.firstTime_mem (by simpa using hne)
        rw [hnone] at hx
        cases hx
      refine ⟨[], .done hcomplete, rfl, .nil, (fun w hw => by cases hw), ?_⟩
      rw [hnone]
      exact .nil
  | succ fuel ih =>
      unfold slicesFrom
      cases hcomplete : s.isComplete with
      | true =>
          have hnone : s.inputs = [] := List.isEmpty_iff.mp hcomplete
          refine ⟨[], .done hcomplete, rfl, .nil, (fun w hw => by cases hw), ?_⟩
          rw [hnone]
          exact .nil
      | false =>
          obtain ⟨w, s', hr, hs', htol, hperm, hreach⟩ := h.reads hcomplete
          have hfewer := hr.pending_lt hperm
          obtain ⟨ws, hall, hslices, hstarts, hmem, hwhole⟩ := ih hs' (by omega)
          rw [htol] at hall
          have hsub : ∀ x ∈ s'.inputs.flatten, x ∈ s.inputs.flatten := fun x hx =>
            hperm.subset (List.mem_append_right _ hx)
          refine ⟨w :: ws, .next hcomplete hr hall, ?_, ?_, ?_, ?_⟩
          · rw [if_neg Bool.false_ne_true, hr.result, List.map_cons, hslices]
          · refine List.pairwise_cons.mpr ⟨fun v hv => ?_, hstarts⟩
            obtain ⟨x, hx, he⟩ := hmem v hv
            rw [← he]
            exact lt_of_le_of_lt hreach (hr.beyond x hx)
          · intro v hv
            rcases List.mem_cons.mp hv with rfl | hv
            · exact hr.start_mem
            · obtain ⟨x, hx, he⟩ := hmem v hv
              exact ⟨x, hsub x hx, he⟩
          · rw [List.flatMap_cons]
            exact (hwhole.append_left _).trans hperm

/-- Over times that are finite and do not decrease, reading slices until nothing is left takes one
window after the other, and every sample is in exactly one of them. A tolerance that is below zero
or no number counts as zero. -/
theorem slices_windows {tolerance : Float} {inputs : List (List Sample)}
    (hfinite : ∀ l ∈ inputs, ∀ x ∈ l, x.time.isFinite = true)
    (horder : ∀ l ∈ inputs, l.Pairwise fun a b => a.time ≤ b.time) :
    ∃ windows : List Window,
      ReadsAll (if 0.0 < tolerance then tolerance else 0.0) (ofInputs tolerance inputs) windows
        ∧ windows.map (·.slice) = (ofInputs tolerance inputs).slices true
        ∧ windows.Pairwise (fun a b => a.start < b.start)
        ∧ (windows.flatMap (·.taken)).Perm inputs.flatten := by
  have hsteady : (ofInputs tolerance inputs).Steady := steady_ofInputs hfinite horder
  obtain ⟨windows, hall, hslices, hstarts, -, hwhole⟩ := hsteady.readsAll (le_refl _)
  refine ⟨windows, hall, hslices, hstarts, hwhole.trans (.of_eq ?_)⟩
  exact flatten_nonempty inputs

/-- A burst at one time, a key in two lists, and a list that ends early. -/
theorem slices_windows_burst :
    let a : List Sample := [.of ['A'] 1.0 1000.0 0, .of ['A'] 2.0 1000.0 0, .of ['A'] 3.0 2000.0 0]
    let b : List Sample := [.of ['B'] 10.0 1010.0 0, .of ['A'] 20.0 1020.0 0]
    ∃ windows : List Window, ReadsAll 20.0 (ofInputs 20.0 [a, b]) windows
        ∧ windows.map (·.slice) = (ofInputs 20.0 [a, b]).slices true
        ∧ windows.Pairwise (fun a b => a.start < b.start)
        ∧ (windows.flatMap (·.taken)).Perm (a ++ b) := by
  intro a b
  have h := @slices_windows 20.0 [a, b] (by decide +kernel) (by decide +kernel)
  rw [if_pos (by decide +kernel)] at h
  exact h

end SeriesQuery.Slicer
