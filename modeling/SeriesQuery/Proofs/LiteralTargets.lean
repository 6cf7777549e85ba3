import SeriesQuery.Proofs.ArchiveReading
import SeriesQuery.Proofs.ErrorIsolation
import SeriesQuery.Proofs.ExpressionOrder
import SeriesQuery.Proofs.FetchPlan
import SeriesQuery.Proofs.TargetHistory

/-!
# Literal targets deliver what is stored

An expression without calls is a list of literal targets, and for each series that they stand for
it yields the samples of that series as they were added to the archive: those in the window that
the filter keeps, all of them, each as often as it was added.

On their way the samples pass four hands. The archive selects them by the keys of the plan, the
filter leaves some out, the raw data are read key by key, and what is read is sorted. The first
three are filters, and sorting is stable, so nothing needs to be known of the samples of other keys
that come in between.
-/

open SeriesQuery.Binary64

namespace SeriesQuery

/-! ## Samples in the order of their times -/

/-- Samples of one time come from sorting as they went in. -/
theorem filter_sortByTime (samples : List Sample) (time : Float) :
    (sortByTime samples).filter (fun s => decide (s.time = time))
      = samples.filter fun s => decide (s.time = time) := by
  have hone : (samples.filter fun s => decide (s.time = time)).Pairwise fun a b =>
      decide (totalRank a.time ≤ totalRank b.time) = true := by
    refine List.pairwise_of_forall_mem_list fun a ha b hb => ?_
    rw [of_decide_eq_true (List.mem_filter.mp ha).2, of_decide_eq_true (List.mem_filter.mp hb).2]
    exact decide_eq_true (le_refl _)
  have hsub : (samples.filter fun s => decide (s.time = time)).Sublist (sortByTime samples) :=
    List.sublist_mergeSort totalRank_le_trans totalRank_le_total hone List.filter_sublist
  have hfilter := hsub.filter fun s => decide (s.time = time)
  rw [List.filter_filter] at hfilter
  simp only [Bool.and_self] at hfilter
  refine (hfilter.eq_of_length ?_).symm
  exact ((List.mergeSort_perm samples _).filter _).length_eq.symm

/-- What the archive has of a key in a window, if a filter keeps it, in the order it was added. -/
def storedSamples (range : TimeRange) (quality : QualityFilter) (pushed : List Sample)
    (key : Text) : List Sample :=
  pushed.filter fun s => s.key == key && range.contains s.time && quality.keeps s

/-- Samples are those of a list, put in the order of their times. -/
structure TimeOrdered (samples stored : List Sample) : Prop where
  /-- None is lost and none comes twice. -/
  perm : samples.Perm stored
  /-- No time is behind a later one in the total order. -/
  ordered : samples.Pairwise fun a b => NotBehind a.time b.time
  /-- Those of one time stand as in the list. -/
  asStored : ∀ time, samples.filter (fun s => decide (s.time = time))
    = stored.filter fun s => decide (s.time = time)

theorem TimeRange.not_isNaN {range : TimeRange} {time : Float} (h : range.contains time = true) :
    ¬ IsNaN time := by
  unfold contains at h
  rw [Bool.and_eq_true] at h
  exact (le_iff.mp (of_decide_eq_true h.1)).2.1

theorem timeOrdered_sortByTime (range : TimeRange) (quality : QualityFilter)
    (pushed : List Sample) (key : Text) :
    TimeOrdered (sortByTime (storedSamples range quality pushed key))
      (storedSamples range quality pushed key) := by
  have hnumber : ∀ s ∈ sortByTime (storedSamples range quality pushed key), ¬ IsNaN s.time := by
    intro s hs
    have hstored := (List.mem_filter.mp (List.mem_mergeSort.mp hs)).2
    rw [Bool.and_eq_true, Bool.and_eq_true] at hstored
    exact TimeRange.not_isNaN hstored.1.2
  refine ⟨List.mergeSort_perm _ _, ?_, filter_sortByTime _⟩
  refine (pairwise_sortByTime _).imp_of_mem fun ha hb hab => ?_
  exact (totalRank_le_iff (hnumber _ ha) (hnumber _ hb)).mp hab

/-! ## Raw data of an archive -/

theorem RawData.collect_map_ok (quality : QualityFilter) (samples : List Sample) :
    RawData.collect quality (samples.map .ok) = .ok ⟨samples.filter quality.keeps⟩ := by
  induction samples with
  | nil => rfl
  | cons s rest ih =>
      rw [List.map_cons, RawData.collect, ih, List.filter_cons]
      cases quality.keeps s with
      | true => rfl
      | false => rfl

/-- The raw data of a plan hold what is stored of its keys. -/
theorem Plan.given_archive {engine : Engine} {pushed : List Sample}
    (hsource : engine.source = Archive.source ⟨pushed⟩) (p : Plan) (range : TimeRange)
    (hints : FetchHints) (quality : QualityFilter) :
    ∃ data, p.given engine range hints quality = .ok data ∧ ∀ key ∈ p.keys,
      data.samplesOf key = sortByTime (storedSamples range quality pushed key) := by
  unfold given
  split
  · next hnone =>
      rw [List.isEmpty_iff.mp hnone]
      exact ⟨RawData.empty, rfl, fun key hkey => absurd hkey List.not_mem_nil⟩
  · refine ⟨⟨(Archive.select ⟨pushed⟩ p.keys range).filter quality.keeps⟩, ?_, fun key hkey => ?_⟩
    · rw [hsource]
      exact RawData.collect_map_ok quality _
    · unfold RawData.samplesOf storedSamples
      rw [Archive.select_eq, List.filter_filter, List.filter_filter]
      congr 1
      refine List.filter_congr fun s _ => ?_
      -- Of the keys that are asked for only this one is read.
      by_cases hs : s.key = key
      · rw [hs, List.contains_iff_mem.mpr hkey, beq_self_eq_true, Bool.true_and, Bool.true_and,
          Bool.and_comm]
      · rw [beq_false_of_ne hs]
        simp

/-! ## Expressions without calls -/

namespace Expression

variable {engine : Engine} {text : Text} {e : Expression} {targets : Targets}

/-- The plan of literal targets holds their keys. -/
theorem delivers_collect (hparse : parse text = .ok e) (hcalls : e.calls = [])
    (hresolve : Resolver.resolve engine.catalog engine.layout e.remainder = .ok targets) :
    Delivers engine (Plan.collect engine text) (Plan.empty.addTargets targets) := by
  have hliterals : Delivers engine (if e.remainder.isEmpty then return Plan.empty else
      return Plan.empty.addTargets (← Step.resolve engine e.remainder))
      (Plan.empty.addTargets targets) := by
    split
    · next hnil =>
        rw [List.isEmpty_iff.mp hnil, Resolver.resolve_nil] at hresolve
        cases hresolve
        exact .pure _
    · exact .bind (.resolve hresolve) (.pure _)
  unfold Plan.collect
  cases parens text with
  | zero => exact .bind (.parse hparse) (.bind (.pure _) hliterals)
  | succ depth =>
      refine .bind (.parse hparse) (.bind ?_ hliterals)
      rw [hcalls]
      exact .pure _

/-- Literal targets are evaluated to their series. -/
theorem delivers_literals (hparse : parse text = .ok e) (hcalls : e.calls = [])
    (hresolve : Resolver.resolve engine.catalog engine.layout e.remainder = .ok targets)
    (m : Material) : Delivers engine (evaluate engine m text) (targets.series m.data) := by
  have hliterals : e.WithLiterals engine m [] (targets.series m.data) := by
    by_cases hnil : e.remainder = []
    · rw [hnil, Resolver.resolve_nil] at hresolve
      cases hresolve
      exact .inl ⟨hnil, rfl⟩
    · exact .inr ⟨hnil, targets, hresolve, rfl⟩
  have hyields : Yields engine m text (targets.series m.data) := by
    unfold Yields
    cases parens text with
    | zero => exact ⟨e, hparse, hliterals⟩
    | succ depth =>
        refine ⟨e, [], hparse, ?_, hliterals⟩
        rw [hcalls]
        exact .nil
  exact YieldsFrom.delivers
    (fun call hcall => absurd hcall (CallWithin.not_of_no_calls hparse hcalls)) hyields

/-- Over an archive that samples have been pushed to in whatever order, an expression without calls
gives a waiting caller one series for each key that it resolves to, in the order of resolution. Its
samples are the ones pushed of that key whose time is in the window and whose flags the filter
keeps, in the order of their times and within a time as they were pushed; so there are none where
none were pushed. -/
theorem execute_literal {pushed : List Sample}
    (hsource : engine.source = (pushed.foldl Archive.push Archive.empty).source)
    {s : Session} (hs : s.Waits engine) (range : TimeRange) (hints : FetchHints)
    (quality : QualityFilter) (hparse : parse text = .ok e) (hcalls : e.calls = [])
    (hresolve : Resolver.resolve engine.catalog engine.layout e.remainder = .ok targets) :
    targets.keys.Nodup ∧ ∃ series,
      (execute engine range hints quality text).result s = .ok series
        ∧ List.Forall₂ (fun t g => g.name = t.display
            ∧ g.root = (if t.aliased then t.key else t.display)
            ∧ TimeOrdered g.samples (storedSamples range quality pushed t.key))
          targets.entries series := by
  have hsource : engine.source = Archive.source ⟨pushed⟩ := by
    rw [hsource, Archive.foldl_push]
    rfl
  have hsrc : engine.source.LeavesCaller := by
    rw [hsource]
    exact Archive.leavesCaller _
  obtain ⟨data, hgiven, hdata⟩ :=
    (Plan.empty.addTargets targets).given_archive hsource range hints quality
  have hexecute : Delivers engine (execute engine range hints quality text)
      (targets.series data) :=
    .bind .patience (.bind (delivers_collect hparse hcalls hresolve)
      (.bind (.fetch hsrc hgiven) (delivers_literals hparse hcalls hresolve _)))
  refine ⟨Resolver.nodup_resolve hresolve, _, (hexecute s hs).1, ?_⟩
  refine List.forall₂_map_right_iff.mpr (List.forall₂_same.mpr fun t ht => ⟨rfl, rfl, ?_⟩)
  have hkey : t.key ∈ (Plan.empty.addTargets targets).keys :=
    Plan.mem_addKeys.mpr (.inr (List.mem_map_of_mem ht))
  dsimp only
  rw [hdata t.key hkey]
  exact timeOrdered_sortByTime range quality pushed t.key

/-- Two samples at zero and one at minus zero with a sample of another key and one outside the
window between them, and a key without samples. -/
theorem execute_literal_zeros :
    let late : Sample := .of (Text.of "PPA:1") 1.5 0.0 0
    let minus : Sample := .of (Text.of "PPA:1") 2.5 (-0.0) 0
    let again : Sample := .of (Text.of "PPA:1") 0.5 0.0 0
    let other : Sample := .of (Text.of "PPA:2") 3.5 0.0 0
    let outside : Sample := .of (Text.of "PPA:1") 4.5 9.0 0
    let pushed := [late, other, minus, outside, again]
    let engine : Engine := ⟨Catalog.empty, ⟨[], [], [], []⟩,
      (pushed.foldl Archive.push Archive.empty).source, id⟩
    let s := Session.begun engine 60000 (Clock.still 0) []
    ∃ empty zeros, (execute engine ⟨-1.0, 5.0⟩ ⟨none, true⟩ ⟨0, false⟩
        (Text.of "PPA:3; PPA:1")).result s = .ok [empty, zeros]
      ∧ empty.samples = [] ∧ zeros.samples.Perm [late, minus, again]
      ∧ zeros.samples.filter (fun x => decide (x.time = 0.0)) = [late, again] := by
  intro late minus again other outside pushed engine s
  have hparse : parse (Text.of "PPA:3; PPA:1") = .ok ⟨[], Text.of "PPA:3; PPA:1"⟩ := by
    decide +kernel
  have hresolve : Resolver.resolve engine.catalog engine.layout (Text.of "PPA:3; PPA:1")
      = .ok ⟨[⟨Text.of "PPA:3", Text.of "PPA:3", false⟩,
          ⟨Text.of "PPA:1", Text.of "PPA:1", false⟩], []⟩ := by
    decide +kernel
  have hnone : storedSamples ⟨-1.0, 5.0⟩ ⟨0, false⟩ pushed (Text.of "PPA:3") = [] := by
    decide +kernel
  have hstored : storedSamples ⟨-1.0, 5.0⟩ ⟨0, false⟩ pushed (Text.of "PPA:1")
      = [late, minus, again] := by
    decide +kernel
  have hsource : engine.source = (pushed.foldl Archive.push Archive.empty).source := rfl
  obtain ⟨-, series, hseries, hall⟩ := execute_literal hsource
    (Session.waits_begun engine 60000 (Clock.still 0) []) ⟨-1.0, 5.0⟩ ⟨none, true⟩ ⟨0, false⟩
    hparse rfl hresolve
  obtain _ | ⟨hempty, _ | ⟨hzeros, _ | _⟩⟩ := hall
  obtain ⟨-, -, hempty⟩ := hempty
  obtain ⟨-, -, hzeros⟩ := hzeros
  rw [hnone] at hempty
  rw [hstored] at hzeros
  refine ⟨_, _, hseries, List.perm_nil.mp hempty.perm, hzeros.perm, (hzeros.asStored 0.0).trans ?_⟩
  decide +kernel

end Expression

end SeriesQuery
