import SeriesQuery.Proofs.Buckets
import SeriesQuery.Proofs.ErrorIsolation
import SeriesQuery.Proofs.RelatedSteps

/-!
# Answers with a limit on their points

How many points a series may have is looked at last, when the series of a target have been
evaluated. So a request with a limit and the same request without any go through the same
sessions, fail alike, and answer with the same responses but for their points. What a limit leaves
of the points of a response is a selection of them, unless the target asks for all samples.
-/

namespace SeriesQuery

/-- What thinning out to a limit may leave of some entries: some of them in their order, at most
as many as the limit, all of them if they are no more, and some unless there are none. -/
structure IsSelection {α : Type} (limit : ℕ) (kept whole : List α) : Prop where
  /-- What is kept was there, and in that order. -/
  sublist : kept.Sublist whole
  /-- It keeps to the limit. -/
  length_le : kept.length ≤ limit
  /-- Within the limit all is kept. -/
  eq_of_fits : whole.length ≤ limit → kept = whole
  /-- Something is kept. -/
  ne_nil : whole ≠ [] → kept ≠ []

theorem Thinning.apply_isSelection (method : Thinning) {limit : ℕ} (hlimit : 1 ≤ limit)
    (samples : List Sample) : IsSelection limit (method.apply limit samples) samples where
  sublist := apply_sublist method hlimit samples
  length_le := length_apply_le method hlimit samples
  eq_of_fits := apply_of_length_le method hlimit
  ne_nil := apply_ne_nil method hlimit

theorem IsSelection.map {α β : Type} {limit : ℕ} {kept whole : List α}
    (h : IsSelection limit kept whole) (f : α → β) :
    IsSelection limit (kept.map f) (whole.map f) where
  sublist := h.sublist.map f
  length_le := by
    rw [List.length_map]
    exact h.length_le
  eq_of_fits hfits := by
    rw [List.length_map] at hfits
    rw [h.eq_of_fits hfits]
  ne_nil hwhole := by
    rw [ne_eq, List.map_eq_nil_iff] at hwhole ⊢
    exact h.ne_nil hwhole

theorem IsSelection.nil {α : Type} (limit : ℕ) : IsSelection limit ([] : List α) [] where
  sublist := .refl []
  length_le := Nat.zero_le limit
  eq_of_fits _ := rfl
  ne_nil h := absurd rfl h

/-- A response that differs from another in its points only, which are a selection. -/
structure Response.ThinnedTo (limit : ℕ) (thin whole : Response) : Prop where
  /-- All else is the same. -/
  eq_of_points : thin = { whole with points := thin.points }
  /-- The points are a selection. -/
  points : IsSelection limit thin.points whole.points

/-! ## Answers -/

variable (engine : Engine) {limit : ℕ}

/-- Whether a target asks for all samples. -/
def TargetRequest.fullResolution (t : TargetRequest) : Bool :=
  (Commands.extract t.expression).1.fullResolution

/-- The responses to a target with a limit and without any: the same if it asks for all samples,
and otherwise each one thinned out. -/
def TargetRequest.Thins (limit : ℕ) (t : TargetRequest) (thin whole : List Response) : Prop :=
  if t.fullResolution then thin = whole else List.Forall₂ (Response.ThinnedTo limit) thin whole

/-- The limit has no part in whether a series has a response, nor in what else the response
says. -/
theorem Commands.response?_thins (c : Commands) (frame : RequestFrame) (refId : Text)
    (hlimit : 1 ≤ limit) (hfull : c.fullResolution = false) (series : Series) :
    Option.Rel (Response.ThinnedTo limit)
      (c.response? engine { frame with maxPoints := some limit } refId series)
      (c.response? engine { frame with maxPoints := Option.none } refId series) := by
  unfold response?
  split
  · exact .none
  · refine .some ⟨rfl, ?_⟩
    simp only [hfull, Bool.false_eq_true, if_false]
    exact (c.thinning.apply_isSelection hlimit series.samples).map _

theorem Commands.response?_of_fullResolution (c : Commands) (frame : RequestFrame) (refId : Text)
    (hfull : c.fullResolution = true) (series : Series) :
    c.response? engine { frame with maxPoints := some limit } refId series
      = c.response? engine { frame with maxPoints := Option.none } refId series := by
  unfold response?
  simp only [hfull, if_true]

theorem TargetRequest.related_evaluate (frame : RequestFrame) (t : TargetRequest)
    (hlimit : 1 ≤ limit) : Step.Related Eq (t.Thins limit)
      (t.evaluate engine { frame with maxPoints := some limit })
      (t.evaluate engine { frame with maxPoints := Option.none }) := by
  have hnil : t.Thins limit [] [] := by
    unfold Thins
    split
    · rfl
    · exact .nil
  unfold evaluate
  dsimp only
  split
  · exact .pure hnil
  · refine .bind (.refl _) fun series _ hsame => ?_
    subst hsame
    refine .pure ?_
    unfold Thins fullResolution
    cases hfull : (Commands.extract t.expression).1.fullResolution with
    | true =>
        rw [if_pos rfl]
        exact List.filterMap_congr fun x _ =>
          Commands.response?_of_fullResolution engine _ frame t.refId hfull x
    | false =>
        -- one series more or less would shift all later responses, so the pairs are built series
        -- by series
        rw [if_neg Bool.false_ne_true]
        have hall : List.Forall₂ Eq series series := List.forall₂_same.mpr fun _ _ => rfl
        refine List.rel_filterMap (fun x y hxy => ?_) hall
        subst hxy
        exact Commands.response?_thins engine _ frame t.refId hlimit hfull x

/-- The fault of a target has no points. -/
theorem TargetRequest.thins_ofFault (t : TargetRequest) (f : Fault) :
    t.Thins limit [Response.ofFault t.refId t.expression f]
      [Response.ofFault t.refId t.expression f] := by
  unfold Thins
  split
  · rfl
  · exact .cons ⟨rfl, .nil limit⟩ .nil

theorem TargetRequest.related_answer (frame : RequestFrame) (t : TargetRequest)
    (hlimit : 1 ≤ limit) : Step.Related Eq (t.Thins limit)
      (t.answer engine { frame with maxPoints := some limit })
      (t.answer engine { frame with maxPoints := Option.none }) := by
  refine .tryCatch (t.related_evaluate engine frame hlimit) fun f => ?_
  split
  · exact .throw f
  · exact .pure (t.thins_ofFault f)

namespace Request

theorem frame_with_maxPoints (r : Request) (maxPoints : Option ℕ) :
    ({ r with maxPoints } : Request).frame = r.frame.map fun f => { f with maxPoints } := by
  have hrange : ({ r with maxPoints } : Request).range = r.range := rfl
  have hresolution : ({ r with maxPoints } : Request).resolution = r.resolution := rfl
  unfold frame
  rw [hrange, hresolution]
  cases r.range with
  | error f => rfl
  | ok range =>
      cases r.resolution with
      | error f => rfl
      | ok resolution => rfl

/-- With and without a limit a target of a request has a list of responses, or the same fault is
passed on. -/
theorem related_answers (r : Request) (hlimit : 1 ≤ limit) :
    Step.Related Eq (fun thin whole => ∃ pairs, thin = pairs.map Prod.fst
        ∧ whole = pairs.map Prod.snd
        ∧ List.Forall₂ (fun t p => SameOutcome (TargetRequest.Thins limit t) p.1 p.2) r.targets
          pairs)
      (({ r with maxPoints := some limit } : Request).answers engine)
      (({ r with maxPoints := none } : Request).answers engine) := by
  unfold answers
  rw [frame_with_maxPoints r (some limit), frame_with_maxPoints r none]
  cases r.frame with
  | error f => exact .throw f
  | ok frame =>
      refine .bind (R := fun a b => a = { frame with maxPoints := some limit }
        ∧ b = { frame with maxPoints := none }) (.pure ⟨rfl, rfl⟩) ?_
      rintro _ _ ⟨rfl, rfl⟩
      exact .mapM fun t => (t.related_answer engine frame hlimit).outcome

/-- With and without a limit the targets of a request have a list of responses each. -/
theorem related_answer (r : Request) (hlimit : 1 ≤ limit) :
    Step.Related Eq (fun thin whole => ∃ pairs : List (List Response × List Response),
        thin = (pairs.map Prod.fst).flatten ∧ whole = (pairs.map Prod.snd).flatten
          ∧ List.Forall₂ (fun t p => TargetRequest.Thins limit t p.1 p.2) r.targets pairs)
      (({ r with maxPoints := some limit } : Request).answer engine)
      (({ r with maxPoints := none } : Request).answer engine) := by
  unfold answer
  refine .bind (r.related_answers engine hlimit) ?_
  rintro _ _ ⟨pairs, rfl, rfl, hpairs⟩
  refine .ofExcept ((SameOutcome.mapM_id hpairs).map fun thin whole hall => ?_)
  obtain ⟨parts, rfl, rfl, hparts⟩ := hall
  exact ⟨parts, rfl, rfl, hparts⟩

/-- Thinning out selects samples, and beyond the limit evenly spaced ones are as many as it says,
the first of all among them. So a request with a limit is answered target by target as without
one, where a target that does not ask for all samples has a selection of the points in each of its
responses. -/
theorem answer_thins {r : Request} (hmax : r.maxPoints = some limit) (hlimit : 1 ≤ limit) :
    (∀ (method : Thinning) (samples : List Sample),
        IsSelection limit (method.apply limit samples) samples)
      ∧ (∀ samples : List Sample, limit < samples.length →
        (Thinning.even.apply limit samples).length = limit
          ∧ (Thinning.even.apply limit samples).head? = samples.head?)
      ∧ ∀ (s : Session) (responses : List Response), (r.answer engine).result s = .ok responses →
        ∃ pairs : List (List Response × List Response), responses = (pairs.map Prod.fst).flatten
          ∧ (({ r with maxPoints := none } : Request).answer engine).result s
            = .ok (pairs.map Prod.snd).flatten
          ∧ List.Forall₂ (fun t p => TargetRequest.Thins limit t p.1 p.2) r.targets pairs := by
  refine ⟨fun method samples => method.apply_isSelection hlimit samples,
    fun samples => Thinning.apply_even hlimit, fun s responses hanswer => ?_⟩
  have hsame : ({ r with maxPoints := some limit } : Request) = r := by rw [← hmax]
  obtain ⟨houtcome, -⟩ := r.related_answer engine hlimit s s rfl
  rw [hsame] at houtcome
  obtain ⟨whole, hwhole, pairs, hthin, rfl, hpairs⟩ := houtcome.of_ok hanswer
  exact ⟨pairs, hthin, hwhole, hpairs⟩

/-- A target that keeps the extremes beside one that asks for all samples. -/
theorem answer_thins_peaks :
    let sample (value time : Float) : Sample := .of (Text.of "PPA:1") value time 0
    let engine : Engine := ⟨Catalog.empty, ⟨[], [], [], []⟩,
      Archive.source ⟨[sample 1.5 1000.0, sample 9.5 2000.0, sample 0.5 3000.0]⟩, id⟩
    let peaks : TargetRequest := ⟨Text.of "A", Text.of "PPA:1; IncludePeaks"⟩
    let all : TargetRequest := ⟨Text.of "B", Text.of "PPA:1; FullResolutionData"⟩
    let r : Request := ⟨[peaks, all], .millis 0.0, .millis 9000.0, none, some 2, ⟨0, false⟩⟩
    let s := Session.begun engine 60000 (Clock.still 0) []
    r.maxPoints = some 2 ∧ peaks.fullResolution = false ∧ all.fullResolution = true
      ∧ ∃ thin whole same, (r.answer engine).result s = .ok (thin ++ same)
        ∧ (({ r with maxPoints := none } : Request).answer engine).result s = .ok (whole ++ same)
        ∧ List.Forall₂ (Response.ThinnedTo 2) thin whole := by
  intro sample engine peaks all r s
  have hpeaks : peaks.fullResolution = false := by decide +kernel
  have hall : all.fullResolution = true := by decide +kernel
  have hwaits : s.Waits engine := Session.waits_begun engine 60000 (Clock.still 0) []
  have hframe : r.frame = .ok ⟨⟨0.0, 9000.0⟩, none, some 2, ⟨0, false⟩⟩ := rfl
  have hcalls : ∀ t ∈ r.targets, Expression.parse (Commands.extract t.expression).2
      = .ok ⟨[], Text.of "PPA:1"⟩ := by
    decide +kernel
  have hgoes : NoneEndsProgram engine ⟨⟨0.0, 9000.0⟩, none, some 2, ⟨0, false⟩⟩ r.targets s :=
    noneEndsProgram_of_noPercentiles (Archive.leavesCaller _) (Archive.keepsRunning _) hwaits
      fun t ht => TargetRequest.noPercentiles_of_no_calls (hcalls t ht) rfl
  obtain ⟨parts, -, -, hanswer⟩ :=
    exists_parts hframe hgoes (not_someGivenUp (Archive.neverCancels _) hwaits)
  have hmax : r.maxPoints = some 2 := rfl
  obtain ⟨-, -, hthins⟩ := answer_thins engine hmax (by decide)
  obtain ⟨pairs, hthin, hwhole, hpairs⟩ := hthins s _ hanswer
  obtain _ | @⟨_, p, _, _, hp, hrest⟩ := hpairs
  obtain _ | @⟨_, q, _, _, hq, hnil⟩ := hrest
  cases hnil
  rw [TargetRequest.Thins, hpeaks, if_neg Bool.false_ne_true] at hp
  rw [TargetRequest.Thins, hall, if_pos rfl] at hq
  rw [hthin] at hanswer
  refine ⟨hmax, hpeaks, hall, p.1, p.2, q.1, ?_, ?_, hp⟩
  · simpa using hanswer
  · simpa [hq] using hwhole

end Request

end SeriesQuery
