import SeriesQuery.Proofs.SlicePassing
import SeriesQuery.Proofs.Steps

/-!
# Reading comes to an end

Nothing is asked of the times here: they may be infinite or no numbers, and in any order. A reading
starts at the earliest time in front of the lists. If that is finite, the sample there is up to the
end of the slice, since the tolerance is a number and not below zero, and it is taken. If it is
not, all that is left is dropped. Either way a reading lowers the number of samples that are left,
so as many readings as there are samples leave nothing. A list is never kept without a sample in
front; nothing could be taken from it, and it would be there for ever.
-/

open SeriesQuery.Binary64

namespace SeriesQuery.Slicer

/-! ## What is left of the lists -/

/-- What a reading of one kind or the other leaves of a list. -/
def remains (keepLastOfKey : Bool) (stop : Float) (l : List Sample) : List Sample :=
  if keepLastOfKey then l.dropWhile (·.isUpTo stop) else behind stop l

theorem remains_suffix (keepLastOfKey : Bool) (stop : Float) (l : List Sample) :
    remains keepLastOfKey stop l <:+ l := by
  unfold remains
  split
  · exact List.dropWhile_suffix _
  · exact List.drop_suffix _ _

theorem length_remains_lt (keepLastOfKey : Bool) {stop : Float} {x : Sample} {l : List Sample}
    (hx : x.isUpTo stop = true) :
    (remains keepLastOfKey stop (x :: l)).length < (x :: l).length := by
  rw [List.length_cons, Nat.lt_succ_iff]
  unfold remains
  split
  · rw [List.dropWhile_cons_of_pos hx]
    exact (List.dropWhile_suffix _).length_le
  · unfold behind front?
    rw [List.head?_cons, Option.filter_some, if_pos hx]
    exact le_rfl

theorem forall₂_remains (keepLastOfKey : Bool) (stop : Float) (inputs : List (List Sample)) :
    List.Forall₂ (· <:+ ·) (inputs.map (remains keepLastOfKey stop)) inputs :=
  List.forall₂_map_left_iff.mpr
    (List.forall₂_same.mpr fun l _ => remains_suffix keepLastOfKey stop l)

theorem length_flatten_remains_lt (keepLastOfKey : Bool) {stop : Float}
    {inputs : List (List Sample)} {x : Sample} {l : List Sample} (hl : x :: l ∈ inputs)
    (hx : x.isUpTo stop = true) :
    (inputs.map (remains keepLastOfKey stop)).flatten.length < inputs.flatten.length := by
  rw [List.length_flatten, List.length_flatten, List.map_map]
  exact List.sum_lt_sum _ _ (fun k _ => (remains_suffix keepLastOfKey stop k).length_le)
    ⟨x :: l, hl, length_remains_lt keepLastOfKey hx⟩

/-! ## One reading -/

theorem next_of_isFinite {s : Slicer} (h : (firstTime s.inputs).isFinite = true)
    (keepLastOfKey : Bool) :
    (s.next keepLastOfKey).2 = { s with
      inputs := nonempty
        (s.inputs.map (remains keepLastOfKey (firstTime s.inputs + s.tolerance))) } := by
  cases keepLastOfKey with
  | false => rw [next_passing h]; rfl
  | true => rw [next_of_finite h]; rfl

/-- A reading that takes samples from the fronts of some lists, and one sample at least. -/
structure Consumes (s s' : Slicer) : Prop where
  /-- Of each list its end is left, and lists that are used up are gone. -/
  ends : ∃ lefts, List.Forall₂ (· <:+ ·) lefts s.inputs ∧ s'.inputs = nonempty lefts
  /-- Fewer samples are left. -/
  fewer : s'.pending < s.pending

/-- A slicer whose lists all hold samples and whose tolerance is a number and not below zero. -/
structure Ready (s : Slicer) : Prop where
  /-- Every list holds a sample. -/
  ne_nil : ∀ l ∈ s.inputs, l ≠ []
  /-- The tolerance is not negative. -/
  tolerance : 0.0 ≤ s.tolerance

theorem ready_ofInputs (tolerance : Float) (inputs : List (List Sample)) :
    (ofInputs tolerance inputs).Ready :=
  ⟨fun _ hl => (mem_nonempty.mp hl).2, ofInputs_tolerance_nonneg tolerance inputs⟩

namespace Ready

variable {s : Slicer}

theorem isComplete_iff (h : s.Ready) : s.isComplete = true ↔ s.pending = 0 := by
  unfold isComplete pending
  rw [List.isEmpty_iff, List.length_eq_zero_iff, List.flatten_eq_nil_iff]
  constructor
  · rintro hnil l hl
    rw [hnil] at hl
    cases hl
  · exact fun hall => List.eq_nil_iff_forall_not_mem.mpr fun l hl => h.ne_nil l hl (hall l hl)

theorem next (h : s.Ready) (keepLastOfKey : Bool) : (s.next keepLastOfKey).2.Ready := by
  by_cases hf : (firstTime s.inputs).isFinite = true
  · rw [next_of_isFinite hf]
    exact ⟨fun _ hl => (mem_nonempty.mp hl).2, h.tolerance⟩
  · rw [next_of_not_finite hf]
    exact ⟨(fun _ hl => by cases hl), h.tolerance⟩

/-- A reading takes samples, or it starts at no finite time and leaves nothing. -/
theorem consumes_or_isComplete (h : s.Ready) (keepLastOfKey : Bool) :
    Consumes s (s.next keepLastOfKey).2
      ∨ (firstTime s.inputs).isFinite = false ∧ (s.next keepLastOfKey).2.isComplete = true := by
  by_cases hf : (firstTime s.inputs).isFinite = true
  · left
    obtain ⟨x, l, hl, hx⟩ := exists_front_isUpTo h.tolerance hf
    rw [next_of_isFinite hf]
    refine ⟨⟨_, forall₂_remains _ _ _, rfl⟩, ?_⟩
    unfold pending
    rw [flatten_nonempty]
    exact length_flatten_remains_lt keepLastOfKey hl hx
  · right
    rw [next_of_not_finite hf]
    exact ⟨Bool.eq_false_iff.mpr hf, rfl⟩

theorem pending_next_lt (h : s.Ready) (hopen : s.isComplete = false) (keepLastOfKey : Bool) :
    (s.next keepLastOfKey).2.pending < s.pending := by
  rcases h.consumes_or_isComplete keepLastOfKey with hless | ⟨-, hcomplete⟩
  · exact hless.fewer
  · rw [(h.next keepLastOfKey).isComplete_iff.mp hcomplete, Nat.pos_iff_ne_zero]
    exact mt h.isComplete_iff.mpr (Bool.eq_false_iff.mp hopen)

end Ready

theorem isComplete_next {s : Slicer} (h : s.isComplete = true) (keepLastOfKey : Bool) :
    (s.next keepLastOfKey).2.isComplete = true := by
  have hnone : ¬ (firstTime s.inputs).isFinite = true := by
    rw [List.isEmpty_iff.mp h]
    decide
  rw [next_of_not_finite hnone]
  rfl

/-! ## Many readings -/

/-- The slicer after readings, each of which keeps the last sample of a key or passes on all. -/
def afterReadings (s : Slicer) (kinds : List Bool) : Slicer :=
  kinds.foldl (fun s keepLastOfKey => (s.next keepLastOfKey).2) s

namespace Ready

variable {s : Slicer}

theorem afterReadings (h : s.Ready) (kinds : List Bool) : (s.afterReadings kinds).Ready := by
  induction kinds generalizing s with
  | nil => exact h
  | cons keepLastOfKey kinds ih => exact ih (h.next keepLastOfKey)

/-- As many readings as there are samples leave nothing. -/
theorem isComplete_afterReadings (h : s.Ready) {kinds : List Bool}
    (hmany : s.pending ≤ kinds.length) : (s.afterReadings kinds).isComplete = true := by
  induction kinds generalizing s with
  | nil => exact h.isComplete_iff.mpr (Nat.le_zero.mp hmany)
  | cons keepLastOfKey kinds ih =>
      have hleft : (s.next keepLastOfKey).2.pending ≤ kinds.length := by
        rw [List.length_cons] at hmany
        cases hcomplete : s.isComplete with
        | true =>
            have hnone := (h.next keepLastOfKey).isComplete_iff.mp (isComplete_next hcomplete _)
            omega
        | false =>
            have hless := h.pending_next_lt hcomplete keepLastOfKey
            omega
      exact ih (h.next keepLastOfKey) hleft

end Ready

/-! ## A loop of readings -/

/-- A loop that reads slices until nothing is left and takes a step with each of them, or up to
one with which the step fails: from a slicer and a session, with the number of readings, to what
the steps give and the session they leave. -/
inductive Loops {α : Type} (body : List Sample → Step α) :
    Slicer → Session → ℕ → Except Fault (List α) → Session → Prop
  /-- Nothing is left. -/
  | done {s : Slicer} {session : Session} : s.isComplete = true →
      Loops body s session 0 (.ok []) session
  /-- The step fails. -/
  | failed {s : Slicer} {session : Session} {fault : Fault} : s.isComplete = false →
      (body (s.next true).1).result session = .error fault →
      Loops body s session 1 (.error fault) ((body (s.next true).1).after session)
  /-- The step gives something, and then the loop goes on. -/
  | next {s : Slicer} {session final : Session} {a : α} {n : ℕ} {rest : Except Fault (List α)} :
      s.isComplete = false → (body (s.next true).1).result session = .ok a →
      Loops body (s.next true).2 ((body (s.next true).1).after session) n rest final →
      Loops body s session (n + 1) (rest.map (a :: ·)) final

/-- To take the steps with all slices that are still to be read is to loop over the readings. -/
theorem Ready.loops {α : Type} (body : List Sample → Step α) {s : Slicer} (h : s.Ready) {fuel : ℕ}
    (hfuel : s.pending ≤ fuel) (session : Session) :
    ∃ n ≤ s.pending, Loops body s session n
      (Step.result ((slicesFrom true fuel s).mapM body) session)
      (Step.after ((slicesFrom true fuel s).mapM body) session) := by
  -- every reading takes a sample, so the fuel does not run out before the samples do
  induction fuel generalizing s session with
  | zero =>
      have hnone : s.pending = 0 := Nat.le_zero.mp hfuel
      exact ⟨0, Nat.zero_le _, .done (h.isComplete_iff.mpr hnone)⟩
  | succ fuel ih =>
      rw [slicesFrom]
      cases hcomplete : s.isComplete with
      | true =>
          rw [if_pos rfl]
          exact ⟨0, Nat.zero_le _, .done hcomplete⟩
      | false =>
          have hless := h.pending_next_lt hcomplete true
          rw [if_neg Bool.false_ne_true]
          dsimp only
          rw [List.mapM_cons]
          cases hbody : (body (s.next true).1).result session with
          | error fault =>
              rw [Step.result_bind_error hbody, Step.after_bind_error hbody]
              exact ⟨1, by omega, .failed hcomplete hbody⟩
          | ok a =>
              obtain ⟨n, hn, hloop⟩ :=
                ih (h.next true) (by omega) ((body (s.next true).1).after session)
              rw [Step.result_bind_ok hbody, Step.after_bind_ok hbody]
              rw [Step.result_bind_pure, Step.after_bind_pure]
              exact ⟨n + 1, by omega, .next hcomplete hbody hloop⟩

/-- Reading never gets stuck, whatever the times and the tolerance are and whichever way each slice
is read. After any readings no list is without a sample in front. The next reading takes a sample,
or it starts at no finite time and ends all reading, and as many readings as there are samples end
it. The steps that are taken with the slices are those of a loop that ends after no more rounds
than there are samples. -/
theorem reading_ends (tolerance : Float) (inputs : List (List Sample)) :
    (∀ kinds : List Bool, let s := (ofInputs tolerance inputs).afterReadings kinds
        (∀ l ∈ s.inputs, l ≠ [])
          ∧ (∀ keepLastOfKey, Consumes s (s.next keepLastOfKey).2
            ∨ (firstTime s.inputs).isFinite = false ∧ (s.next keepLastOfKey).2.isComplete = true)
          ∧ (inputs.flatten.length ≤ kinds.length → s.isComplete = true))
      ∧ ∀ (α : Type) (body : List Sample → Step α) (session : Session),
        ∃ n ≤ inputs.flatten.length, Loops body (ofInputs tolerance inputs) session n
          (Step.result (((ofInputs tolerance inputs).slices true).mapM body) session)
          (Step.after (((ofInputs tolerance inputs).slices true).mapM body) session) := by
  have hready := ready_ofInputs tolerance inputs
  have hpending : (ofInputs tolerance inputs).pending = inputs.flatten.length :=
    congrArg List.length (flatten_nonempty inputs)
  rw [← hpending]
  refine ⟨fun kinds => ?_, fun α body session => hready.loops body le_rfl session⟩
  have hlater := hready.afterReadings kinds
  exact ⟨hlater.ne_nil, hlater.consumes_or_isComplete, hready.isComplete_afterReadings⟩

/-- Two slices are read in different ways before only an infinite time and what is no number are
left in front. -/
theorem reading_ends_timeless :
    let nan : Float := 0.0 / 0.0
    let a : List Sample := [.of ['A'] 1.0 2000.0 0, .of ['A'] 2.0 1000.0 0, .of ['A'] 3.0 nan 0]
    let b : List Sample := [.of ['B'] 4.0 positiveInfinity 0, .of ['B'] 5.0 1000.0 0]
    let s := (ofInputs nan [a, [], b]).afterReadings [false, true]
    s.pending = 3 ∧ s.isComplete = false ∧ (s.next true).1 = []
      ∧ ((ofInputs nan [a, [], b]).afterReadings [false, true, true, false, true]).isComplete
        = true := by
  intro nan a b s
  have hfive := ((reading_ends nan [a, [], b]).1 [false, true, true, false, true]).2.2
  exact ⟨by decide +kernel, by decide +kernel, by decide +kernel, hfive (by decide)⟩

end SeriesQuery.Slicer
