import SeriesQuery.Evaluation.Choice
import SeriesQuery.Proofs.FunctionOrder

/-!
# Samples that keep a distance

A pass over samples remembers the time of the sample that it kept last and drops each sample that
is at most a span after it. So whether a sample is kept depends on what became of all samples
before it, and not on the one before it alone; times may go back or be no numbers. Said without
the memory: mark each sample as kept or dropped, and ask of every mark that it is right by the
last sample marked as kept before it. There is exactly one way to mark the samples so, the marks
that the pass makes. The step from a list to its tail is the same for both, with the time that is
remembered as a parameter.

The memory is that of the pass. The samples can be passed over many times, and passes may be read
in turns; what a pass has given and what it is still to give is the same at every time.
-/

namespace SeriesQuery.Choice

/-! ## Marks -/

/-- The samples that are marked as kept. -/
def marked : List Bool → List Sample → List Sample
  | true :: marks, s :: samples => s :: marked marks samples
  | false :: marks, _ :: samples => marked marks samples
  | _, _ => []

/-- The time of the last sample marked as kept before a place, or the time `start` that is
remembered from before all of them. -/
def timeBefore (start : Option Float) (marks : List Bool) (samples : List Sample) (place : Nat) :
    Option Float :=
  ((marked (marks.take place) (samples.take place)).getLast?.map (·.time)).or start

/-- A sample at most a span after a time. -/
def TooNear (span : Float) (last : Option Float) (s : Sample) : Prop :=
  ∃ t ∈ last, s.time - t ≤ span

instance (span : Float) (last : Option Float) (s : Sample) : Decidable (TooNear span last s) :=
  inferInstanceAs (Decidable (∃ t ∈ last, s.time - t ≤ span))

/-- Marks of which each is right by the samples marked as kept before it. -/
structure Greedy (span : Float) (start : Option Float) (samples : List Sample)
    (marks : List Bool) : Prop where
  /-- Each sample is marked. -/
  length : marks.length = samples.length
  /-- A sample that is kept is not too near to the last one kept before it. -/
  kept : ∀ (i : Nat) (s : Sample), samples[i]? = some s → marks[i]? = some true →
    ¬ TooNear span (timeBefore start marks samples i) s
  /-- A sample that is dropped is. -/
  dropped : ∀ (i : Nat) (s : Sample), samples[i]? = some s → marks[i]? = some false →
    TooNear span (timeBefore start marks samples i) s

/-- The marks that a pass makes which remembers a time. -/
def marksFrom (span : Float) : Option Float → List Sample → List Bool
  | _, [] => []
  | last, s :: rest =>
    if TooNear span last s then false :: marksFrom span last rest
    else true :: marksFrom span (some s.time) rest

section Marks

variable {span : Float} {start : Option Float} {s : Sample} {samples : List Sample}
  {mark : Bool} {marks : List Bool}

theorem not_tooNear_none : ¬ TooNear span none s := by
  rintro ⟨t, ht, -⟩
  cases ht

/-- What the first sample leaves to remember. -/
theorem timeBefore_succ (i : Nat) : timeBefore start (mark :: marks) (s :: samples) (i + 1)
    = timeBefore (if mark then some s.time else start) marks samples i := by
  unfold timeBefore
  rw [List.take_succ_cons, List.take_succ_cons]
  cases mark with
  | false => rfl
  | true =>
      rw [marked, List.getLast?_cons]
      cases (marked (marks.take i) (samples.take i)).getLast? <;> rfl

theorem greedy_nil : Greedy span start [] marks ↔ marks = [] := by
  constructor
  · intro h
    exact List.eq_nil_of_length_eq_zero h.length
  · rintro rfl
    exact ⟨rfl, fun _ _ hs => (nomatch hs), fun _ _ hs => (nomatch hs)⟩

/-- The first mark is right by the time that is remembered, and the others by what it leaves. -/
theorem greedy_cons : Greedy span start (s :: samples) (mark :: marks)
    ↔ (mark = false ↔ TooNear span start s)
      ∧ Greedy span (if mark then some s.time else start) samples marks := by
  constructor
  · intro h
    refine ⟨?_, ?_, fun i u hu hmark => ?_, fun i u hu hmark => ?_⟩
    · cases mark with
      | false => exact iff_of_true rfl (h.dropped 0 s rfl rfl)
      | true => exact iff_of_false Bool.noConfusion (h.kept 0 s rfl rfl)
    · exact Nat.succ.inj h.length
    · rw [← timeBefore_succ]
      exact h.kept (i + 1) u hu hmark
    · rw [← timeBefore_succ]
      exact h.dropped (i + 1) u hu hmark
  · rintro ⟨hfirst, h⟩
    refine ⟨congrArg Nat.succ h.length, fun i u hu hmark => ?_, fun i u hu hmark => ?_⟩
    · cases i with
      | zero =>
          obtain rfl : s = u := Option.some.inj hu
          obtain rfl : mark = true := Option.some.inj hmark
          exact mt hfirst.mpr Bool.noConfusion
      | succ i =>
          rw [timeBefore_succ]
          exact h.kept i u hu hmark
    · cases i with
      | zero =>
          obtain rfl : s = u := Option.some.inj hu
          exact hfirst.mp (Option.some.inj hmark)
      | succ i =>
          rw [timeBefore_succ]
          exact h.dropped i u hu hmark

/-- A pass makes the marks that are right, and no others are. -/
theorem greedy_iff : Greedy span start samples marks ↔ marks = marksFrom span start samples := by
  induction samples generalizing start marks with
  | nil => exact greedy_nil
  | cons s samples ih =>
      cases marks with
      | nil =>
          refine iff_of_false (fun h => Nat.noConfusion h.length) ?_
          rw [marksFrom]
          split <;> exact nofun
      | cons mark marks =>
          rw [greedy_cons, marksFrom, ih]
          by_cases hnear : TooNear span start s <;> cases mark <;> simp [hnear]

end Marks

/-! ## What is kept -/

theorem marksFrom_take (span : Float) (start : Option Float) (samples : List Sample) (n : Nat) :
    marksFrom span start (samples.take n) = (marksFrom span start samples).take n := by
  induction samples generalizing start n with
  | nil => simp [marksFrom]
  | cons s samples ih =>
      cases n with
      | zero => rfl
      | succ n =>
          rw [List.take_succ_cons, marksFrom, marksFrom]
          split <;> rw [List.take_succ_cons, ih]

theorem spacedAfter_eq_marked (span last : Float) (samples : List Sample) :
    spacedAfter span last samples = marked (marksFrom span (some last) samples) samples := by
  induction samples generalizing last with
  | nil => rfl
  | cons s samples ih =>
      have hnear : TooNear span (some last) s ↔ s.time - last ≤ span := by simp [TooNear]
      rw [spacedAfter, marksFrom, if_congr hnear rfl rfl]
      split
      · exact ih last
      · exact congrArg (s :: ·) (ih s.time)

/-- A pass keeps what it marks, beginning without a time to measure from. -/
theorem spaced_eq_marked (span : Float) (samples : List Sample) :
    spaced span samples = marked (marksFrom span none samples) samples := by
  cases samples with
  | nil => rfl
  | cons s samples =>
      rw [spaced, marksFrom, if_neg not_tooNear_none, marked, spacedAfter_eq_marked]

/-! ## Passes -/

/-- A pass over samples. -/
structure Pass where
  /-- The samples that it has not read. -/
  rest : List Sample
  /-- The time of the sample that it kept last. -/
  last : Option Float
  /-- The samples that it has given. -/
  given : List Sample

/-- A fresh pass. -/
def Pass.start (samples : List Sample) : Pass := ⟨samples, none, []⟩

/-- Reads samples until one is kept, and gives that. -/
def Pass.readFrom (span : Float) (last : Option Float) (given : List Sample) : List Sample → Pass
  | [] => ⟨[], last, given⟩
  | s :: rest =>
    if TooNear span last s then readFrom span last given rest
    else ⟨rest, some s.time, given ++ [s]⟩

/-- Asks a pass for the next sample. -/
def Pass.pull (span : Float) (p : Pass) : Pass := readFrom span p.last p.given p.rest

/-- What a pass is still to give. -/
def Pass.left (span : Float) (p : Pass) : List Sample :=
  marked (marksFrom span p.last p.rest) p.rest

/-- What may be done with a sequence that can be passed over again and again. -/
inductive Reading where
  /-- A fresh pass is begun. -/
  | start
  /-- One of the passes, counted from the first, is asked for its next sample. -/
  | pull (pass : Nat)

/-- The passes over samples after one thing more is done. -/
def passesAfter (span : Float) (samples : List Sample) (passes : List Pass) : Reading → List Pass
  | .start => passes ++ [.start samples]
  | .pull i => passes.modify i (Pass.pull span)

/-- A pass gives the first of what was left, and no more. -/
theorem Pass.pull_spec (span : Float) (p : Pass) :
    (p.pull span).given = p.given ++ (p.left span).take 1
      ∧ (p.pull span).left span = (p.left span).drop 1 := by
  obtain ⟨rest, last, given⟩ := p
  have hread : ∀ last, (readFrom span last given rest).given
      = given ++ (marked (marksFrom span last rest) rest).take 1
      ∧ (readFrom span last given rest).left span
        = (marked (marksFrom span last rest) rest).drop 1 := by
    intro last
    induction rest with
    | nil => simp [readFrom, Pass.left, marksFrom, marked]
    | cons s rest ih =>
        rw [readFrom, marksFrom]
        split
        · exact ih
        · simp [Pass.left, marked]
  exact hread last

/-- However many passes are begun and in whatever turns they are read, each has given, and is still
to give, the samples that keep a distance. -/
theorem given_append_left (span : Float) (samples : List Sample) (readings : List Reading) :
    ∀ p ∈ readings.foldl (passesAfter span samples) [],
      p.given ++ p.left span = spaced span samples := by
  induction readings using List.reverseRecOn with
  | nil => exact nofun
  | append_singleton readings reading ih =>
      rw [List.foldl_concat]
      cases reading with
      | start =>
          intro p hp
          rcases List.mem_append.mp hp with hp | hp
          · exact ih p hp
          · rw [List.mem_singleton.mp hp, spaced_eq_marked]
            rfl
      | pull i =>
          intro p hp
          obtain ⟨j, hj⟩ := List.mem_iff_getElem?.mp hp
          rw [passesAfter, List.getElem?_modify, Option.map_eq_map, Option.map_eq_some_iff] at hj
          obtain ⟨before, hbefore, rfl⟩ := hj
          have hinvariant := ih before (List.mem_of_getElem? hbefore)
          split
          · obtain ⟨hgiven, hleft⟩ := before.pull_spec span
            rw [hgiven, hleft, List.append_assoc, List.take_append_drop, hinvariant]
          · exact hinvariant

/-- The samples that keep a distance are some of the samples in their order, beginning with the
first. They are those marked as kept in the one way of marking the samples in which each mark is
right by the last sample marked as kept before it. Every pass makes these marks, also one that is
given up after so many samples; and of any passes over the samples, each begun afresh and read in
turns with the others, each gives these samples one by one. -/
theorem spaced_greedy (span : Float) (samples : List Sample) :
    (spaced span samples).Sublist samples
      ∧ (spaced span samples).head? = samples.head?
      ∧ (∃ marks, (∀ others, Greedy span none samples others ↔ others = marks)
        ∧ spaced span samples = marked marks samples
        ∧ ∀ n, spaced span (samples.take n) = marked (marks.take n) (samples.take n))
      ∧ ∀ (readings : List Reading), ∀ p ∈ readings.foldl (passesAfter span samples) [],
        p.given = (spaced span samples).take p.given.length
          ∧ (p.pull span).given = (spaced span samples).take (p.given.length + 1) := by
  refine ⟨spaced_sublist span samples, ?_, ⟨marksFrom span none samples,
    fun others => greedy_iff, spaced_eq_marked span samples, fun n => ?_⟩,
    fun readings p hp => ?_⟩
  · cases samples <;> rfl
  · rw [spaced_eq_marked, marksFrom_take]
  · rw [(p.pull_spec span).1, ← given_append_left span samples readings p hp]
    exact ⟨List.take_left.symm, (List.take_length_add_append 1).symm⟩

/-- The third sample is more than a span after the first, though not after the second, and the
fourth goes back in time. -/
example :
    let point (time : Float) : Sample := .of (Text.of "A") 1.0 time 0
    spaced 10.0 [point 0.0, point 8.0, point 12.0, point 3.0, point 23.0]
      = [point 0.0, point 12.0, point 23.0] := by
  decide +kernel

end SeriesQuery.Choice
