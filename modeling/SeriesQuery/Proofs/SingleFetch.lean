import SeriesQuery.Proofs.PlannedEvaluation

/-!
# The source is asked once, for what is read

A query looks at its caller, plans, fetches and evaluates, and only the fetch asks the source. So
the record of what the source has been asked grows by the question of the plan at most, and by
nothing if a part of the expression has a fault. The keys of that question are the keys of all
literal targets, and nothing that is evaluated afterwards reads samples of others.
-/

namespace SeriesQuery

/-- The source fails over a question, at once or as its stream is read. -/
def Fetch.FailsWith (engine : Engine) (q : Fetch) (f : Fault) : Prop :=
  engine.source q.keys q.range q.hints = .error f
    ∨ ∃ stream, engine.source q.keys q.range q.hints = .ok stream ∧ .error f ∈ stream.items

namespace Plan

/-- The question of a plan, if it has keys to ask for. -/
def asked (p : Plan) (range : TimeRange) (hints : FetchHints) : List Fetch :=
  if p.keys.isEmpty then []
  else [⟨p.keys, range, { hints with includePeaks := hints.includePeaks && !p.everySample }⟩]

theorem length_asked_le (p : Plan) (range : TimeRange) (hints : FetchHints) :
    (p.asked range hints).length ≤ 1 := by
  unfold asked
  split
  · exact Nat.zero_le 1
  · exact le_refl 1

theorem keys_of_mem_asked {p : Plan} {range : TimeRange} {hints : FetchHints} {q : Fetch}
    (h : q ∈ p.asked range hints) : q.keys = p.keys := by
  unfold asked at h
  split at h
  · cases h
  · rw [List.mem_singleton.mp h]

theorem asked_ne_nil {p : Plan} {key : Text} (h : key ∈ p.keys) (range : TimeRange)
    (hints : FetchHints) : p.asked range hints ≠ [] := by
  unfold asked
  split
  · next hnil =>
      rw [List.isEmpty_iff.mp hnil] at h
      cases h
  · exact List.cons_ne_nil _ _

variable {engine : Engine} (p : Plan) (range : TimeRange) (hints : FetchHints)
  (quality : QualityFilter)

theorem fetches_after_fetch (s : Session) :
    ((p.fetch engine range hints quality).after s).fetches = s.fetches ++ p.asked range hints := by
  obtain ⟨patience, hafter⟩ := @Plan.after_fetch engine p range hints quality s
  rw [hafter]
  unfold asked
  split
  · exact (List.append_nil _).symm
  · rfl

theorem cancelled_of_check {s : Session} {data : RawData} {f : Fault}
    (h : (do Step.checkPatience; return data : Step RawData).result s = .error f) :
    f = .cancelled := by
  cases hcheck : Step.checkPatience.result s with
  | error g =>
      rw [Step.result_bind_error hcheck] at h
      cases h
      exact Step.result_checkPatience_cancelled hcheck
  | ok a =>
      rw [Step.result_bind_ok hcheck] at h
      cases h

/-- A fetch fails only because the source does or because the caller gives up. -/
theorem fault_of_fetch {s : Session} {f : Fault}
    (h : (p.fetch engine range hints quality).result s = .error f) :
    f = .cancelled ∨ ∃ q ∈ p.asked range hints, q.FailsWith engine f := by
  unfold fetch at h
  unfold asked
  split at h
  · cases h
  next hkeys =>
  rw [if_neg hkeys]
  dsimp only at h
  generalize { hints with includePeaks := hints.includePeaks && !p.everySample } = told at h ⊢
  rw [Step.result_bind_ok (a := ⟨⟩) rfl] at h
  cases hstream : engine.source p.keys range told with
  | error g =>
      rw [hstream, Step.result_bind_error (f := g) rfl] at h
      cases h
      exact .inr ⟨_, List.mem_singleton_self _, .inl hstream⟩
  | ok stream =>
      cases hdata : RawData.collect quality stream.items with
      | error g =>
          have hg : (.error g : Except Fault Sample) ∈ stream.items :=
            RawData.error_mem_of_collect hdata
          rw [hstream, Step.result_bind_ok (a := stream) rfl, hdata,
            Step.result_bind_error (f := g) rfl] at h
          cases h
          exact .inr ⟨_, List.mem_singleton_self _, .inr ⟨stream, hstream, hg⟩⟩
      | ok data =>
          rw [hstream, Step.result_bind_ok (a := stream) rfl, hdata,
            Step.result_bind_ok (a := data) rfl] at h
          split at h
          · rw [Step.result_bind_ok (a := ⟨⟩) rfl] at h
            exact .inl (cancelled_of_check h)
          · exact .inl (cancelled_of_check h)

end Plan

/-! ## Queries -/

namespace Expression

variable {engine : Engine} (range : TimeRange) (hints : FetchHints) (quality : QualityFilter)

theorem execute_cancelled {s : Session} (h : s.patience = some 0) (text : Text) :
    (execute engine range hints quality text).result s = .error .cancelled
      ∧ (execute engine range hints quality text).after s = s := by
  obtain ⟨hcheck, hstays⟩ := Step.run_checkPatience_zero h
  unfold execute
  exact ⟨Step.result_bind_error hcheck, (Step.after_bind_error hcheck).trans hstays⟩

theorem execute_fault {s : Session} (hs : s.Sound engine.catalog engine.layout)
    (hp : s.patience ≠ some 0) {text : Text} {f : Fault} (h : FirstFault engine text f) :
    (execute engine range hints quality text).result s = .error f
      ∧ ((execute engine range hints quality text).after s).fetches = s.fetches := by
  have hcheck := Step.result_checkPatience hp
  obtain ⟨⟨hs', hsilent⟩, -⟩ := Step.Confined.checkPatience (List.Subset.refl _) s hs
  obtain ⟨hval, -, hfetches, -⟩ := Plan.collectFrom_fault h (le_refl _) Plan.empty _ hs'
  unfold execute Plan.collect
  rw [Step.result_bind_ok hcheck, Step.after_bind_ok hcheck, Step.result_bind_error hval,
    Step.after_bind_error hval]
  exact ⟨rfl, hfetches.trans hsilent⟩

theorem execute_planned {kinds : List FaultKind} (hkinds : boundedKinds ⊆ kinds) {s : Session}
    (hs : s.Sound engine.catalog engine.layout) (hp : s.patience ≠ some 0) {text : Text}
    (hoverrun : .overrun ∈ kinds ∨ ∀ call, CallWithin text call → call.operator ≠ .percentile)
    (h : Planned engine text) :
    ∃ plan : Plan, Plan.Extends Plan.empty plan (Reads engine text)
      ∧ ((execute engine range hints quality text).after s).fetches
        = s.fetches ++ plan.asked range hints
      ∧ ∀ f, (execute engine range hints quality text).result s = .error f →
          f.kind ∈ kinds ∨ ∃ q ∈ plan.asked range hints, q.FailsWith engine f := by
  have hcheck := Step.result_checkPatience hp
  obtain ⟨⟨hs', hsilent⟩, -⟩ := Step.Confined.checkPatience (List.Subset.refl _) s hs
  obtain ⟨plan, hans, hext⟩ := Plan.collectFrom_planned h (le_refl _) Plan.empty
  obtain ⟨hval, hsound, hfetches, -⟩ := hans _ hs'
  rw [hsilent] at hfetches
  refine ⟨plan, hext, ?_⟩
  unfold execute Plan.collect
  rw [Step.result_bind_ok hcheck, Step.after_bind_ok hcheck, Step.result_bind_ok hval,
    Step.after_bind_ok hval]
  generalize Step.after _ (Step.checkPatience.after s) = planned at hsound hfetches ⊢
  have hasked := @Plan.fetches_after_fetch engine plan range hints quality planned
  have hsound' : ((plan.fetch engine range hints quality).after planned).Sound
      engine.catalog engine.layout :=
    (Assembled.sound (@Assembled.fetch engine True plan range hints quality) hsound).1
  rw [hfetches] at hasked
  cases hfetch : (plan.fetch engine range hints quality).result planned with
  | error g =>
      rw [Step.result_bind_error hfetch, Step.after_bind_error hfetch]
      refine ⟨hasked, fun f hf => ?_⟩
      cases hf
      rcases plan.fault_of_fetch range hints quality hfetch with rfl | hq
      · exact .inl (hkinds (by decide))
      · exact .inr hq
  | ok data =>
      have hconfined : Step.Confined engine kinds (evaluate engine ⟨data, plan.names⟩ text)
          fun _ => True := confined_evaluateFrom hkinds _ hoverrun h
      obtain ⟨⟨-, hkeep⟩, -, hfaults⟩ := hconfined _ hsound'
      rw [Step.result_bind_ok hfetch, Step.after_bind_ok hfetch]
      exact ⟨hkeep.trans hasked, fun f hf => .inl (hfaults f hf)⟩

/-- From every session that visits lead to, a query asks the source at most once, for the keys that
the literal targets of its parts read, each once. If a part has a fault the source is not asked,
and a caller who waits is given the first fault. Otherwise the source is asked for what there is to
read; nothing but a parameter, the end of the samples, the source or the caller makes the query
fail; and evaluating over whatever samples fails over no more than that and reads those keys
alone. -/
theorem execute_asks_once (engine : Engine) (idle : Nat) (clock : Clock) (visits : List Visit)
    (patience : Option Nat) (range : TimeRange) (hints : FetchHints) (quality : QualityFilter)
    (text : Text) :
    let s : Session :=
      { (Session.start idle clock).visitAll engine.catalog engine.layout visits with
        patience, fetches := [] }
    let query := execute engine range hints quality text
    let asked := (query.after s).fetches
    (asked.length ≤ 1
        ∧ ∀ q ∈ asked, q.keys.Nodup ∧ ∀ key, key ∈ q.keys ↔ Reads engine text key)
      ∧ (¬ Planned engine text → asked = []
        ∧ (patience ≠ some 0 → ∃ f, FirstFault engine text f ∧ query.result s = .error f))
      ∧ (Planned engine text →
        (patience ≠ some 0 → (∃ key, Reads engine text key) → asked ≠ [])
          ∧ (∀ f, query.result s = .error f →
              f.kind ∈ evaluationKinds ∨ ∃ q ∈ asked, q.FailsWith engine f)
          ∧ ∀ s' : Session, s'.Sound engine.catalog engine.layout →
              (∀ m, FaultsIn evaluationKinds ((evaluate engine m text).result s'))
                ∧ ∀ names d d',
                  (∀ key, Reads engine text key → d.samplesOf key = d'.samplesOf key) →
                    (evaluate engine ⟨d, names⟩ text).result s'
                      = (evaluate engine ⟨d', names⟩ text).result s') := by
  intro s query asked
  have hstart : (Session.start idle clock).Sound engine.catalog engine.layout :=
    .start idle clock
  have hsound := hstart.visitAll visits
  have hs : s.Sound engine.catalog engine.layout := ⟨hsound.expressions, hsound.targets⟩
  have heval : Planned engine text → ∀ s' : Session, s'.Sound engine.catalog engine.layout →
      (∀ m, FaultsIn evaluationKinds ((evaluate engine m text).result s'))
        ∧ ∀ names d d',
          (∀ key, Reads engine text key → d.samplesOf key = d'.samplesOf key) →
            (evaluate engine ⟨d, names⟩ text).result s'
              = (evaluate engine ⟨d', names⟩ text).result s' := by
    intro h s' hs'
    refine ⟨fun m => (confined_evaluateFrom boundedKinds_subset_evaluationKinds m
      (.inl (by decide)) h s' hs').2.2, fun names d d' hdata => ?_⟩
    exact (agree_evaluateFrom names hdata s' hs').1
  by_cases hp : patience = some 0
  · obtain ⟨hval, hafter⟩ := execute_cancelled range hints quality (s := s) hp text
    have hasked : asked = [] := congrArg Session.fetches hafter
    rw [hasked]
    refine ⟨⟨Nat.zero_le 1, fun q hq => absurd hq List.not_mem_nil⟩,
      fun _ => ⟨rfl, fun hwait => absurd hp hwait⟩,
      fun h => ⟨fun hwait => absurd hp hwait, fun f hf => .inl ?_, heval h⟩⟩
    cases hval.symm.trans hf
    decide
  by_cases hplan : Planned engine text
  · obtain ⟨plan, hext, hrecord, hfaults⟩ :=
      execute_planned range hints quality boundedKinds_subset_evaluationKinds hs hp
        (.inl (by decide)) hplan
    have hasked : asked = plan.asked range hints := hrecord
    have hkeys : ∀ key, key ∈ plan.keys ↔ Reads engine text key := by
      intro key
      rw [hext.keys_iff]
      exact or_iff_right List.not_mem_nil
    rw [hasked]
    refine ⟨⟨plan.length_asked_le range hints, fun q hq => ?_⟩, fun h => absurd hplan h,
      fun h => ⟨fun _ hread => ?_, hfaults, heval h⟩⟩
    · rw [Plan.keys_of_mem_asked hq]
      exact ⟨hext.nodup List.nodup_nil, hkeys⟩
    · obtain ⟨key, hread⟩ := hread
      exact Plan.asked_ne_nil ((hkeys key).mpr hread) range hints
  · obtain ⟨f, hf⟩ := exists_firstFault hplan
    obtain ⟨hval, hnone⟩ := execute_fault range hints quality hs hp hf
    have hasked : asked = [] := hnone
    rw [hasked]
    exact ⟨⟨Nat.zero_le 1, fun q hq => absurd hq List.not_mem_nil⟩,
      fun _ => ⟨rfl, fun _ => ⟨f, hf, hval⟩⟩, fun h => absurd h hplan⟩

/-- Two series, one of them inside a call and beside it; and an unknown function inside a call. -/
theorem execute_asks_once_nested :
    let engine : Engine := ⟨Catalog.empty, ⟨[], [], [], []⟩, Archive.source ⟨[]⟩, id⟩
    let s : Session :=
      { (Session.start 60000 (Clock.still 0)).visitAll engine.catalog engine.layout
          [.parse (Text.of "PPA:1"), .wait 5] with patience := none, fetches := [] }
    let query := execute engine ⟨0.0, 1.0⟩ ⟨none, true⟩ ⟨0, false⟩
    (∃ q, ((query (Text.of "Average(PPA:1; PPA:2); PPA:1")).after s).fetches = [q]
        ∧ q.keys.Nodup ∧ Text.of "PPA:2" ∈ q.keys)
      ∧ ((query (Text.of "Average(Nope(PPA:1)); PPA:1")).after s).fetches = []
      ∧ ∃ f, (query (Text.of "Average(Nope(PPA:1)); PPA:1")).result s = .error f := by
  intro engine s query
  have htwo : parse (Text.of "PPA:1; PPA:2") = .ok ⟨[], Text.of "PPA:1; PPA:2"⟩ := by
    decide +kernel
  have hgood : parse (Text.of "Average(PPA:1; PPA:2); PPA:1")
      = .ok ⟨[⟨.each, .average, [], Text.of "PPA:1; PPA:2"⟩], Text.of "; PPA:1"⟩ := by
    rw [parse, scan_eq]
    decide +kernel
  have hbad : parse (Text.of "Average(Nope(PPA:1)); PPA:1")
      = .ok ⟨[⟨.each, .average, [], Text.of "Nope(PPA:1)"⟩], Text.of "; PPA:1"⟩ := by
    rw [parse, scan_eq]
    decide +kernel
  have hunknown : parse (Text.of "Nope(PPA:1)")
      = .error (.unrecognizedFunction (Text.of "Nope")) := by
    rw [parse, scan_eq]
    decide +kernel
  have htargets : Resolver.resolve engine.catalog engine.layout (Text.of "PPA:1; PPA:2")
      = .ok ⟨[⟨Text.of "PPA:1", Text.of "PPA:1", false⟩,
          ⟨Text.of "PPA:2", Text.of "PPA:2", false⟩], []⟩ := by
    decide +kernel
  have htarget : Resolver.resolve engine.catalog engine.layout (Text.of "; PPA:1")
      = .ok ⟨[⟨Text.of "PPA:1", Text.of "PPA:1", false⟩], []⟩ := by
    decide +kernel
  have hinside : Planned engine (Text.of "PPA:1; PPA:2") :=
    planned_iff.mpr ⟨_, htwo, fun call hc => absurd hc List.not_mem_nil, fun _ => ⟨_, htargets⟩⟩
  have hplanned : Planned engine (Text.of "Average(PPA:1; PPA:2); PPA:1") := by
    refine planned_iff.mpr ⟨_, hgood, fun call hc => ?_, fun _ => ⟨_, htarget⟩⟩
    rw [List.mem_singleton.mp hc]
    exact hinside
  have hreads : Reads engine (Text.of "Average(PPA:1; PPA:2); PPA:1") (Text.of "PPA:2") :=
    ⟨_, .inside hgood List.mem_cons_self (.whole _),
      .intro htwo (by decide) htargets (by decide)⟩
  have hfault : ¬ Planned engine (Text.of "Average(Nope(PPA:1)); PPA:1") := fun h =>
    h _ (.inside hbad List.mem_cons_self (.whole _)) _ (.parse hunknown)
  obtain ⟨⟨hlength, hkeys⟩, -, hasks⟩ := execute_asks_once engine 60000 (Clock.still 0)
    [.parse (Text.of "PPA:1"), .wait 5] none ⟨0.0, 1.0⟩ ⟨none, true⟩ ⟨0, false⟩
    (Text.of "Average(PPA:1; PPA:2); PPA:1")
  obtain ⟨-, hfails, -⟩ := execute_asks_once engine 60000 (Clock.still 0)
    [.parse (Text.of "PPA:1"), .wait 5] none ⟨0.0, 1.0⟩ ⟨none, true⟩ ⟨0, false⟩
    (Text.of "Average(Nope(PPA:1)); PPA:1")
  have hne := (hasks hplanned).1 (by decide) ⟨_, hreads⟩
  obtain ⟨f, -, hf⟩ := (hfails hfault).2 (by decide)
  refine ⟨?_, (hfails hfault).1, f, hf⟩
  obtain ⟨q, more, hq⟩ := List.exists_cons_of_ne_nil hne
  rw [hq] at hlength hkeys
  have hnone : more = [] := List.length_eq_zero_iff.mp (by rw [List.length_cons] at hlength; omega)
  subst hnone
  obtain ⟨hnodup, hmem⟩ := hkeys q List.mem_cons_self
  exact ⟨q, hq, hnodup, (hmem _).mpr hreads⟩

end Expression

end SeriesQuery
