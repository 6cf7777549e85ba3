import SeriesQuery.Engine.Evaluate
import SeriesQuery.Proofs.SliceReading

/-!
# Reading one sample of each list

A reading that keeps every sample takes at most the first sample of each list, where it is not
after the time to stop at. A list that is used up leaves the slicer, and those behind it move up.
To say from which list a sample came, the readings are followed on all lists that the slicer began
with, used up or not: each sample of a round bears the place of its list among them.

Times need not be in order. The earliest of the samples in front is always taken, so every reading
takes a sample, and in the end each list has been read from front to back.
-/

open SeriesQuery.Binary64

namespace SeriesQuery.Slicer

/-! ## One list -/

/-- The sample that a reading takes of a list, if it takes one. -/
def front? (stop : Float) (l : List Sample) : Option Sample := l.head?.filter (·.isUpTo stop)

/-- What a reading leaves of a list. -/
def behind (stop : Float) (l : List Sample) : List Sample := l.drop (front? stop l).toList.length

theorem front?_append_behind (stop : Float) (l : List Sample) :
    (front? stop l).toList ++ behind stop l = l := by
  unfold behind
  cases l with
  | nil => rfl
  | cons s rest =>
      unfold front?
      rw [List.head?_cons, Option.filter_some]
      split
      · rfl
      · rfl

theorem drainOne_eq (stop : Float) (slice l : List Sample) :
    drainOne stop slice l = (slice ++ (front? stop l).toList, behind stop l) := by
  cases l with
  | nil =>
      show (slice, []) = (slice ++ [], [])
      rw [List.append_nil]
  | cons s rest =>
      rw [drainOne]
      unfold behind front?
      rw [List.head?_cons, Option.filter_some]
      by_cases h : s.time ≤ stop
      · have hp : s.isUpTo stop = true := Sample.isUpTo_iff.mpr h
        rw [if_pos h, if_pos hp]
        rfl
      · have hp : ¬ s.isUpTo stop = true := mt Sample.isUpTo_iff.mp h
        rw [if_neg h, if_neg hp]
        show (slice, s :: rest) = (slice ++ [], s :: rest)
        rw [List.append_nil]

/-! ## All lists -/

theorem sweep_drainOne (stop : Float) (slice : List Sample) (inputs : List (List Sample)) :
    sweep (drainOne stop) slice inputs
      = (slice ++ inputs.filterMap (front? stop), inputs.map (behind stop)) := by
  induction inputs generalizing slice with
  | nil =>
      show (slice, []) = (slice ++ [], [])
      rw [List.append_nil]
  | cons l inputs ih =>
      rw [sweep, drainOne_eq]
      dsimp only
      rw [ih, List.append_assoc, List.map_cons]
      cases h : front? stop l with
      | none => rw [List.filterMap_cons_none h]; rfl
      | some s => rw [List.filterMap_cons_some h]; rfl

theorem next_passing {s : Slicer} (h : (firstTime s.inputs).isFinite = true) :
    s.next false = (s.inputs.filterMap (front? (firstTime s.inputs + s.tolerance)),
      { s with
        inputs := nonempty (s.inputs.map (behind (firstTime s.inputs + s.tolerance))) }) := by
  unfold next
  dsimp only
  rw [if_pos h, if_neg Bool.false_ne_true, sweep_drainOne, List.nil_append]

/-! Lists that are used up make no difference to a reading. -/

theorem nonempty_cons (l : List Sample) (lists : List (List Sample)) :
    nonempty (l :: lists) = if l = [] then nonempty lists else l :: nonempty lists := by
  unfold nonempty
  cases l with
  | nil => rfl
  | cons s rest => rw [List.filter_cons_of_pos rfl, if_neg (List.cons_ne_nil s rest)]

theorem filterMap_front?_nonempty (stop : Float) (lists : List (List Sample)) :
    (nonempty lists).filterMap (front? stop) = lists.filterMap (front? stop) := by
  induction lists with
  | nil => rfl
  | cons l lists ih =>
      rw [nonempty_cons]
      split
      · next hl =>
          rw [ih, hl]
          rfl
      · rw [List.filterMap_cons, List.filterMap_cons, ih]

theorem nonempty_map_behind (stop : Float) (lists : List (List Sample)) :
    nonempty ((nonempty lists).map (behind stop)) = nonempty (lists.map (behind stop)) := by
  induction lists with
  | nil => rfl
  | cons l lists ih =>
      rw [nonempty_cons, List.map_cons, nonempty_cons (behind stop l)]
      split
      · next hl =>
          have hnil : behind stop [] = [] := rfl
          rw [ih, hl, if_pos hnil]
      · rw [List.map_cons, nonempty_cons, ih]

/-! ## Rounds -/

/-- The samples that a reading takes, each with the place of its list, counted from a place on. -/
def fronts (stop : Float) (place : Nat) : List (List Sample) → List (Nat × Sample)
  | [] => []
  | l :: lists => (front? stop l).toList.map (place, ·) ++ fronts stop (place + 1) lists

theorem map_snd_fronts (stop : Float) (place : Nat) (lists : List (List Sample)) :
    (fronts stop place lists).map Prod.snd = lists.filterMap (front? stop) := by
  induction lists generalizing place with
  | nil => rfl
  | cons l lists ih =>
      rw [fronts, List.map_append, ih]
      cases h : front? stop l with
      | none => rw [List.filterMap_cons_none h]; rfl
      | some s => rw [List.filterMap_cons_some h]; rfl

theorem le_of_mem_fronts {stop : Float} {place : Nat} {lists : List (List Sample)}
    {p : Nat × Sample} (h : p ∈ fronts stop place lists) : place ≤ p.1 := by
  induction lists generalizing place with
  | nil => cases h
  | cons l lists ih =>
      rcases List.mem_append.mp h with h | h
      · obtain ⟨s, -, rfl⟩ := List.mem_map.mp h
        exact le_refl place
      · exact Nat.le_of_succ_le (ih h)

/-- A reading takes no two samples of one list. -/
theorem fronts_places (stop : Float) (place : Nat) (lists : List (List Sample)) :
    ((fronts stop place lists).map Prod.fst).Pairwise (· < ·) := by
  rw [List.pairwise_map]
  induction lists generalizing place with
  | nil => exact .nil
  | cons l lists ih =>
      refine List.pairwise_append.mpr ⟨?_, ih (place + 1), fun p hp q hq => ?_⟩
      · cases front? stop l with
        | none => exact .nil
        | some s => exact List.pairwise_singleton _ _
      · obtain ⟨s, -, rfl⟩ := List.mem_map.mp hp
        exact le_of_mem_fronts hq

/-- What a list gives to a round is the sample that the reading takes of it. -/
theorem fronts_of_place (stop : Float) (place : Nat) (lists : List (List Sample)) (i : Nat) :
    ((fronts stop place lists).filter (·.1 = place + i)).map Prod.snd
      = (front? stop (lists[i]?.getD [])).toList := by
  induction lists generalizing place i with
  | nil => rfl
  | cons l lists ih =>
      rw [fronts, List.filter_append, List.map_append]
      cases i with
      | zero =>
          have hlater : (fronts stop (place + 1) lists).filter (·.1 = place + 0) = [] := by
            refine List.filter_eq_nil_iff.mpr fun p hp he => ?_
            have hle := le_of_mem_fronts hp
            have heq : p.1 = place + 0 := of_decide_eq_true he
            omega
          rw [hlater, List.map_nil, List.append_nil, List.getElem?_cons_zero, Option.getD_some]
          cases front? stop l with
          | none => rfl
          | some s => simp
      | succ i =>
          have hfirst : ((front? stop l).toList.map (place, ·)).filter (·.1 = place + (i + 1))
              = [] := by
            refine List.filter_eq_nil_iff.mpr fun p hp he => ?_
            obtain ⟨s, -, rfl⟩ := List.mem_map.mp hp
            have heq : place = place + (i + 1) := of_decide_eq_true he
            omega
          rw [hfirst, List.map_nil, List.nil_append, List.getElem?_cons_succ, ← ih (place + 1) i]
          rw [show place + (i + 1) = place + 1 + i by omega]

/-! ## All readings -/

/-- Reading one sample of each list until nothing is left, with the place of its list for each
sample. -/
inductive PassesAll : Slicer → List (List (Nat × Sample)) → Prop
  /-- Nothing is left. -/
  | done {s : Slicer} : s.isComplete = true → PassesAll s []
  /-- A reading, and then the others. -/
  | next {s s' : Slicer} {taken : List (Nat × Sample)} {rounds : List (List (Nat × Sample))} :
      s.isComplete = false → s.next false = (taken.map Prod.snd, s') → PassesAll s' rounds →
      PassesAll s (taken :: rounds)

/-- Rounds that give every sample of some lists once. -/
structure GivesAll (lists : List (List Sample)) (rounds : List (List (Nat × Sample))) : Prop where
  /-- No round is empty. -/
  ne_nil : ∀ taken ∈ rounds, taken ≠ []
  /-- A round has one sample of a list at most. -/
  places : ∀ taken ∈ rounds, (taken.map Prod.fst).Pairwise (· < ·)
  /-- The samples of a list come in their order, and no list is there but those. -/
  samples : ∀ i, (rounds.flatten.filter (·.1 = i)).map Prod.snd = lists[i]?.getD []

theorem GivesAll.nil {lists : List (List Sample)} (h : ∀ l ∈ lists, l = []) :
    GivesAll lists [] where
  ne_nil _ hmem := by cases hmem
  places _ hmem := by cases hmem
  samples i := by
    cases hl : lists[i]? with
    | none => rfl
    | some l =>
        rw [Option.getD_some, h l (List.mem_of_getElem? hl)]
        rfl

/-- What a reading takes, and what the later ones give of what it leaves. -/
theorem GivesAll.cons {stop : Float} {lists : List (List Sample)}
    {rounds : List (List (Nat × Sample))} (h : GivesAll (lists.map (behind stop)) rounds)
    (hne : fronts stop 0 lists ≠ []) : GivesAll lists (fronts stop 0 lists :: rounds) where
  ne_nil := List.forall_mem_cons.mpr ⟨hne, h.ne_nil⟩
  places := List.forall_mem_cons.mpr ⟨fronts_places stop 0 lists, h.places⟩
  samples i := by
    have hfirst := fronts_of_place stop 0 lists i
    rw [Nat.zero_add] at hfirst
    rw [List.flatten_cons, List.filter_append, List.map_append, hfirst, h.samples,
      List.getElem?_map]
    cases lists[i]? with
    | none => rfl
    | some l => exact front?_append_behind stop l

theorem length_filterMap_front? (stop : Float) (lists : List (List Sample)) :
    (lists.filterMap (front? stop)).length + (lists.map (behind stop)).flatten.length
      = lists.flatten.length := by
  induction lists with
  | nil => rfl
  | cons l lists ih =>
      have hl := congrArg List.length (front?_append_behind stop l)
      rw [List.length_append] at hl
      rw [List.map_cons, List.flatten_cons, List.flatten_cons, List.length_append,
        List.length_append]
      cases h : front? stop l with
      | none =>
          rw [h, Option.toList_none, List.length_nil] at hl
          rw [List.filterMap_cons_none h]
          omega
      | some s =>
          rw [h, Option.toList_some, List.length_singleton] at hl
          rw [List.filterMap_cons_some h, List.length_cons]
          omega

/-- The earliest of the samples in front is taken. -/
theorem exists_front {inputs : List (List Sample)} {tolerance : Float} (ht : 0.0 ≤ tolerance)
    (hne : inputs ≠ []) (hnil : ∀ l ∈ inputs, l ≠ [])
    (hfinite : ∀ l ∈ inputs, ∀ x ∈ l, x.time.isFinite = true) :
    (firstTime inputs).isFinite = true
      ∧ inputs.filterMap (front? (firstTime inputs + tolerance)) ≠ [] := by
  obtain ⟨x, l, hl, hx⟩ := firstTime_of_finite hne hnil hfinite
  have hstart : (firstTime inputs).isFinite = true := hx ▸ hfinite _ hl x List.mem_cons_self
  obtain ⟨y, k, hk, hreach⟩ := exists_front_isUpTo ht hstart
  have hfront : front? (firstTime inputs + tolerance) (y :: k) = some y := by
    unfold front?
    rw [List.head?_cons, Option.filter_some, if_pos hreach]
  exact ⟨hstart, List.ne_nil_of_mem (List.mem_filterMap.mpr ⟨_, hk, hfront⟩)⟩

/-- A reading of lists that are not all used up: what it takes, as a round of all lists, and what it
leaves. -/
theorem next_fronts {tolerance : Float} (ht : 0.0 ≤ tolerance) {lists : List (List Sample)}
    (hfinite : ∀ l ∈ lists, ∀ x ∈ l, x.time.isFinite = true) (hne : nonempty lists ≠ []) :
    ∃ stop, fronts stop 0 lists ≠ []
      ∧ Slicer.next ⟨nonempty lists, tolerance⟩ false
        = ((fronts stop 0 lists).map Prod.snd, ⟨nonempty (lists.map (behind stop)), tolerance⟩)
      ∧ (lists.map (behind stop)).flatten.length < lists.flatten.length := by
  obtain ⟨hstart, hsome⟩ := exists_front ht hne (fun l hl => (mem_nonempty.mp hl).2)
    fun l hl => hfinite l (mem_nonempty.mp hl).1
  have hnext := next_passing (s := ⟨nonempty lists, tolerance⟩) hstart
  dsimp only at hnext
  generalize firstTime (nonempty lists) + tolerance = stop at hnext hsome
  rw [filterMap_front?_nonempty] at hsome
  rw [filterMap_front?_nonempty, nonempty_map_behind, ← map_snd_fronts stop 0] at hnext
  have hlength := length_filterMap_front? stop lists
  have hpos := List.length_pos_iff.mpr hsome
  refine ⟨stop, fun hnil => hsome ?_, hnext, by omega⟩
  rw [← map_snd_fronts stop 0, hnil, List.map_nil]

/-- As many readings as there are samples take all of them. -/
theorem passesAll {tolerance : Float} (ht : 0.0 ≤ tolerance) {lists : List (List Sample)}
    (hfinite : ∀ l ∈ lists, ∀ x ∈ l, x.time.isFinite = true) {fuel : Nat}
    (hfuel : lists.flatten.length ≤ fuel) :
    ∃ rounds : List (List (Nat × Sample)), PassesAll ⟨nonempty lists, tolerance⟩ rounds
      ∧ rounds.map (·.map Prod.snd) = slicesFrom false fuel ⟨nonempty lists, tolerance⟩
      ∧ GivesAll lists rounds := by
  induction fuel generalizing lists with
  | zero =>
      have hnone : lists.flatten = [] := List.eq_nil_of_length_eq_zero (Nat.le_zero.mp hfuel)
      have hused : ∀ l ∈ lists, l = [] := List.flatten_eq_nil_iff.mp hnone
      have hcomplete : nonempty lists = [] := List.eq_nil_iff_forall_not_mem.mpr fun l hl =>
        (mem_nonempty.mp hl).2 (hused l (mem_nonempty.mp hl).1)
      rw [hcomplete]
      exact ⟨[], .done rfl, rfl, .nil hused⟩
  | succ fuel ih =>
      rw [slicesFrom]
      by_cases hcomplete : nonempty lists = []
      · have hused : ∀ l ∈ lists, l = [] := List.flatten_eq_nil_iff.mp (by
          rw [← flatten_nonempty, hcomplete]
          rfl)
        rw [hcomplete]
        exact ⟨[], .done rfl, rfl, .nil hused⟩
      · have hopen : (Slicer.mk (nonempty lists) tolerance).isComplete = false :=
          List.isEmpty_eq_false_iff.mpr hcomplete
        obtain ⟨stop, hne, hnext, hfewer⟩ := next_fronts ht hfinite hcomplete
        have hleft : ∀ l ∈ lists.map (behind stop), ∀ x ∈ l, x.time.isFinite = true := by
          intro l hl x hx
          obtain ⟨k, hk, rfl⟩ := List.mem_map.mp hl
          exact hfinite k hk x (List.mem_of_mem_drop hx)
        obtain ⟨rounds, hall, hslices, hgives⟩ := ih hleft (by omega)
        refine ⟨fronts stop 0 lists :: rounds, .next hopen hnext hall, ?_, hgives.cons hne⟩
        rw [hopen, if_neg Bool.false_ne_true, hnext, List.map_cons, hslices]

/-- Over finite times in any order and for every tolerance, reading one sample of each list until
nothing is left gives every sample once: those of each list in their order, and in a slice one of
each list at most. -/
theorem slices_pass_all {tolerance : Float} {inputs : List (List Sample)}
    (hfinite : ∀ l ∈ inputs, ∀ x ∈ l, x.time.isFinite = true) :
    ∃ rounds : List (List (Nat × Sample)), PassesAll (ofInputs tolerance inputs) rounds
      ∧ rounds.map (·.map Prod.snd) = (ofInputs tolerance inputs).slices false
      ∧ GivesAll inputs rounds := by
  have ht : 0.0 ≤ (ofInputs tolerance inputs).tolerance :=
    ofInputs_tolerance_nonneg tolerance inputs
  refine passesAll ht hfinite (le_of_eq ?_)
  rw [← flatten_nonempty]
  rfl

/-- Lists that fall back in time, and one without samples. -/
theorem slices_pass_all_backward :
    let a : List Sample := [.of ['A'] 1.0 3000.0 0, .of ['A'] 2.0 1000.0 0, .of ['A'] 3.0 2000.0 0]
    let b : List Sample := [.of ['A'] 10.0 1010.0 0, .of ['B'] 20.0 1000.0 0]
    ∃ rounds : List (List (Nat × Sample)), PassesAll (ofInputs 20.0 [a, [], b]) rounds
        ∧ rounds.map (·.map Prod.snd) = (ofInputs 20.0 [a, [], b]).slices false
        ∧ GivesAll [a, [], b] rounds := by
  intro a b
  exact slices_pass_all (by decide +kernel)

end SeriesQuery.Slicer
