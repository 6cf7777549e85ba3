import SeriesQuery.Proofs.ErrorIsolation
import SeriesQuery.Proofs.SingleFetch

/-!
# A query given up has no answer

A caller who gives a query up is told so, and told nothing else. Every target of the request looks
whether the caller still waits before it plans and after the stream of its samples has been read,
and the news that he does not is passed on where other faults are answered with. So as soon as
one target has it there is no answer, whatever the others came to.

The targets are answered one after the other, each in the session that the ones before it leave.
Nothing here depends on that: the answers may come from any sessions, as they do when the targets
are answered side by side and one waits for the source while others go on. Where one of them ends
the program there are no responses either, and the streams of those after it are not read.
-/

namespace SeriesQuery

/-! ## One target -/

namespace Expression

/-- What comes before the source is asked: a look at the caller, and the plan. -/
def prepare (engine : Engine) (text : Text) : Step Plan := do
  Step.checkPatience
  Plan.collect engine text

theorem execute_eq_prepare (engine : Engine) (range : TimeRange) (hints : FetchHints)
    (quality : QualityFilter) (text : Text) :
    execute engine range hints quality text = prepare engine text >>= fun plan =>
      plan.fetch engine range hints quality >>= fun data =>
        evaluate engine ⟨data, plan.names⟩ text := by
  unfold execute prepare
  rw [bind_assoc]

end Expression

/-- The stream that the source gives for a question is read to its end without a fault. -/
def Fetch.Drains (engine : Engine) (quality : QualityFilter) (q : Fetch) (stream : SampleStream) :
    Prop :=
  engine.source q.keys q.range q.hints = .ok stream
    ∧ ∃ data, RawData.collect quality stream.items = .ok data

/-- The stream for the keys of a target is read to its end, and by then the caller has given the
query up: before the source was asked, or while its samples arrived. -/
inductive TargetRequest.DrainsGivenUp (engine : Engine) (frame : RequestFrame)
    (t : TargetRequest) (s : Session) : Prop
  | intro {commands : Commands} {text : Text} {plan : Plan} {q : Fetch} {stream : SampleStream} :
      Commands.extract t.expression = (commands, text) → text ≠ [] →
      (Expression.prepare engine text).result s = .ok plan →
      q ∈ plan.asked frame.range (commands.hints frame.resolution) →
      q.Drains engine frame.quality stream →
      (stream.givenUp = true ∨ ((Expression.prepare engine text).after s).patience = some 0) →
      DrainsGivenUp engine frame t s

namespace Plan

variable {engine : Engine} {range : TimeRange} {hints : FetchHints} {quality : QualityFilter}

/-- A stream that has been read gives nothing to a caller who has given up, and he stays so. -/
theorem fetch_given_up {p : Plan} {q : Fetch} {stream : SampleStream} {s : Session}
    (hq : q ∈ p.asked range hints) (hdrains : q.Drains engine quality stream)
    (h : stream.givenUp = true ∨ s.patience = some 0) :
    (p.fetch engine range hints quality).result s = .error .cancelled
      ∧ ((p.fetch engine range hints quality).after s).patience = some 0 := by
  obtain ⟨hstream, data, hdata⟩ := hdrains
  have hcheck : ∀ {s : Session}, s.patience = some 0 →
      let checked : Step RawData := do
        Step.checkPatience
        return data
      checked.result s = .error .cancelled ∧ (checked.after s).patience = some 0 := by
    intro s h
    obtain ⟨hgone, hstays⟩ := Step.run_checkPatience_zero h
    refine ⟨Step.result_bind_error hgone, ?_⟩
    rw [Step.after_bind_error hgone, hstays]
    exact h
  unfold asked at hq
  unfold fetch
  split at hq
  · cases hq
  next hkeys =>
  rw [List.mem_singleton.mp hq] at hstream
  rw [if_neg hkeys]
  dsimp only at hstream ⊢
  rw [Step.result_bind_ok (a := ⟨⟩) rfl, Step.after_bind_ok (a := ⟨⟩) rfl, hstream,
    Step.result_bind_ok (a := stream) rfl, Step.after_bind_ok (a := stream) rfl, hdata,
    Step.result_bind_ok (a := data) rfl, Step.after_bind_ok (a := data) rfl]
  split
  · rw [Step.result_bind_ok (a := ⟨⟩) rfl, Step.after_bind_ok (a := ⟨⟩) rfl]
    exact hcheck rfl
  · next hwaits => exact hcheck (h.resolve_left hwaits)

end Plan

theorem Expression.execute_given_up {engine : Engine} {range : TimeRange} {hints : FetchHints}
    {quality : QualityFilter} {text : Text} {plan : Plan} {q : Fetch} {stream : SampleStream}
    {s : Session} (hplan : (prepare engine text).result s = .ok plan)
    (hq : q ∈ plan.asked range hints) (hdrains : q.Drains engine quality stream)
    (h : stream.givenUp = true ∨ ((prepare engine text).after s).patience = some 0) :
    (execute engine range hints quality text).result s = .error .cancelled
      ∧ ((execute engine range hints quality text).after s).patience = some 0 := by
  obtain ⟨hfetch, hstays⟩ := Plan.fetch_given_up hq hdrains h
  rw [execute_eq_prepare, Step.result_bind_ok hplan, Step.after_bind_ok hplan,
    Step.result_bind_error hfetch, Step.after_bind_error hfetch]
  exact ⟨rfl, hstays⟩

namespace TargetRequest

variable {engine : Engine} {frame : RequestFrame} {t : TargetRequest} {s : Session}

theorem after_answer (t : TargetRequest) (engine : Engine) (frame : RequestFrame) (s : Session) :
    (t.answer engine frame).after s = (t.evaluate engine frame).after s := by
  unfold answer
  cases h : (t.evaluate engine frame).result s with
  | ok responses => exact (Step.run_tryCatch_ok h).2
  | error f =>
      rw [(Step.run_tryCatch_error h).2]
      split
      · rfl
      · rfl

/-- Evaluating a target whose samples arrive for a caller who has given up comes to just that. -/
theorem evaluate_drains_given_up (h : t.DrainsGivenUp engine frame s) :
    (t.evaluate engine frame).result s = .error .cancelled
      ∧ ((t.evaluate engine frame).after s).patience = some 0 := by
  obtain ⟨hcommands, htext, hplan, hq, hdrains, hgone⟩ := h
  obtain ⟨hexecute, hstays⟩ := Expression.execute_given_up hplan hq hdrains hgone
  unfold evaluate
  rw [hcommands]
  dsimp only
  rw [if_neg fun he => htext (List.isEmpty_iff.mp he)]
  refine ⟨Step.result_bind_error hexecute, ?_⟩
  rw [Step.after_bind_error hexecute]
  exact hstays

/-- A target whose samples arrive for a caller who has given up is not answered. -/
theorem answer_drains_given_up (h : t.DrainsGivenUp engine frame s) :
    (t.answer engine frame).result s = .error .cancelled := by
  rw [result_answer, (evaluate_drains_given_up h).1]
  rfl

/-- A caller who has given up before a target begins is told so, or the target has nothing to
evaluate. Nothing else happens. -/
theorem evaluate_given_up (t : TargetRequest) (engine : Engine) (frame : RequestFrame)
    (h : s.patience = some 0) :
    ((t.evaluate engine frame).result s = .ok []
        ∨ (t.evaluate engine frame).result s = .error .cancelled)
      ∧ (t.evaluate engine frame).after s = s := by
  unfold evaluate
  dsimp only
  split
  · exact ⟨.inl rfl, rfl⟩
  · obtain ⟨hresult, hafter⟩ := Expression.execute_cancelled frame.range
      ((Commands.extract t.expression).1.hints frame.resolution) frame.quality h
      (Commands.extract t.expression).2
    exact ⟨.inr (Step.result_bind_error hresult), (Step.after_bind_error hresult).trans hafter⟩

theorem not_endsProgram_given_up (t : TargetRequest) (engine : Engine) (frame : RequestFrame)
    (h : s.patience = some 0) {f : Fault} (hf : (t.evaluate engine frame).result s = .error f) :
    f.endsProgram = false := by
  rcases (t.evaluate_given_up engine frame h).1 with hok | hcancelled
  · rw [hok] at hf
    cases hf
  · rw [hcancelled] at hf
    cases hf
    rfl

theorem answer_given_up (t : TargetRequest) (engine : Engine) (frame : RequestFrame)
    (h : s.patience = some 0) :
    ((t.answer engine frame).result s = .ok []
        ∨ (t.answer engine frame).result s = .error .cancelled)
      ∧ (t.answer engine frame).after s = s := by
  obtain ⟨hevaluate, hafter⟩ := t.evaluate_given_up engine frame h
  refine ⟨hevaluate.imp (fun h => ?_) (fun h => ?_), (after_answer t engine frame s).trans hafter⟩
  · rw [result_answer, h]
    rfl
  · rw [result_answer, h]
    rfl

end TargetRequest

/-! ## All targets -/

section InTurn

variable {engine : Engine} {frame : RequestFrame} {targets : List TargetRequest} {s : Session}

/-- Targets begun by a caller who has given up leave the session as it is and have no responses. -/
theorem answersInTurn_given_up (h : s.patience = some 0) :
    (∀ i, sessionBefore engine frame targets s i = s)
      ∧ ∀ x ∈ answersInTurn engine frame targets s, x = .ok [] ∨ x = .error .cancelled := by
  have hbefore : ∀ i, sessionBefore engine frame targets s i = s := by
    intro i
    unfold sessionBefore
    induction targets.take i with
    | nil => rfl
    | cons t rest ih => rw [List.foldl_cons, (t.answer_given_up engine frame h).2, ih]
  refine ⟨hbefore, fun x hx => ?_⟩
  obtain ⟨i, hi, rfl⟩ := List.mem_mapIdx.mp hx
  rw [hbefore]
  exact (targets[i].answer_given_up engine frame h).1

theorem sessionBefore_add (i k : Nat) : sessionBefore engine frame targets s (i + k)
    = sessionBefore engine frame (targets.drop i) (sessionBefore engine frame targets s i) k := by
  unfold sessionBefore
  rw [List.take_add, List.foldl_append]

theorem sessionBefore_succ {i : Nat} {t : TargetRequest} (ht : targets[i]? = some t) :
    sessionBefore engine frame targets s (i + 1)
      = (t.answer engine frame).after (sessionBefore engine frame targets s i) := by
  unfold sessionBefore
  rw [List.take_add_one, ht, List.foldl_append]
  rfl

/-- If the caller is found to have given up when the samples of a target have arrived, and no
target before it has ended the program, none after it does: they are not evaluated. -/
theorem noneEndsProgram_of_drains {i : Nat} {t : TargetRequest} (ht : targets[i]? = some t)
    (hbefore : NoneEndsProgram engine frame (targets.take i) s)
    (h : t.DrainsGivenUp engine frame (sessionBefore engine frame targets s i)) :
    NoneEndsProgram engine frame targets s := by
  intro j u f hu hf
  obtain ⟨hresult, hgone⟩ := TargetRequest.evaluate_drains_given_up h
  rcases Nat.lt_trichotomy j i with hlt | rfl | hgt
  · refine hbefore j u f ((List.getElem?_take_of_lt hlt).trans hu) ?_
    unfold sessionBefore at hf ⊢
    rwa [List.take_take, Nat.min_eq_left (le_of_lt hlt)]
  · obtain rfl := Option.some.inj (hu.symm.trans ht)
    rw [hresult] at hf
    cases hf
    rfl
  · obtain ⟨k, rfl⟩ := Nat.exists_eq_add_of_lt hgt
    rw [← TargetRequest.after_answer, ← sessionBefore_succ ht] at hgone
    rw [show i + k + 1 = i + 1 + k by omega, sessionBefore_add,
      (answersInTurn_given_up hgone).1] at hf
    exact u.not_endsProgram_given_up engine frame hgone hf

end InTurn

namespace Request

theorem join_eq_nil {answers : List (Except Fault (List Response))}
    (h : ∀ x ∈ answers, x = .ok [] ∨ x = .error .cancelled) {responses : List Response}
    (hjoin : join answers = .ok responses) : responses = [] := by
  unfold join at hjoin
  induction answers generalizing responses with
  | nil =>
      cases hjoin
      rfl
  | cons x rest ih =>
      rw [mapM_id_cons] at hjoin
      rcases h x List.mem_cons_self with rfl | rfl
      · cases hrest : rest.mapM id with
        | error f =>
            rw [hrest] at hjoin
            cases hjoin
        | ok parts =>
            rw [hrest] at hjoin ih
            cases hjoin
            exact ih (fun x hx => h x (List.mem_cons_of_mem _ hx)) rfl
      · cases hjoin

/-- A caller who has given up before a request is answered has no responses to it. -/
theorem answer_given_up {engine : Engine} {r : Request} {frame : RequestFrame}
    (hframe : r.frame = .ok frame) {s : Session} (h : s.patience = some 0) :
    (r.answer engine).after s = s
      ∧ ∀ responses, (r.answer engine).result s = .ok responses → responses = [] := by
  obtain ⟨hbefore, hempty⟩ :=
    @answersInTurn_given_up engine frame r.targets s h
  have hgoes : NoneEndsProgram engine frame r.targets s := by
    intro i t f ht hf
    rw [hbefore] at hf
    exact t.not_endsProgram_given_up engine frame h hf
  refine ⟨?_, fun responses hr => ?_⟩
  · rw [after_answer, (run_answers hframe hgoes).2, hbefore]
  · rw [result_answer_eq_join hframe hgoes] at hr
    exact join_eq_nil hempty hr

/-- If the samples of one target arrive for a caller who has given up, there are no responses,
whatever session the others were answered in and whatever they came to; and unless one of them
has ended the program the answer is that he has given up. -/
theorem join_drains_given_up {engine : Engine} {frame : RequestFrame}
    {targets : List TargetRequest} (sessions : Nat → Session) {i : Nat} {t : TargetRequest}
    (ht : targets[i]? = some t) (h : t.DrainsGivenUp engine frame (sessions i)) :
    let answers := targets.mapIdx fun j t => (t.answer engine frame).result (sessions j)
    (∃ f, f.isPassedOn = true ∧ join answers = .error f)
      ∧ ((∀ f, .error f ∈ answers → f.endsProgram = false) → join answers = .error .cancelled) := by
  intro answers
  have hmem : .error .cancelled ∈ answers := by
    refine List.mem_of_getElem? (i := i) ?_
    rw [List.getElem?_mapIdx, ht, Option.map_some, TargetRequest.answer_drains_given_up h]
  have hpassed : ∀ f, .error f ∈ answers → f.isPassedOn = true := by
    intro f hf
    obtain ⟨j, hj, he⟩ := List.mem_mapIdx.mp hf
    rw [TargetRequest.result_answer] at he
    exact (TargetRequest.passedOn_of_answered he).2
  refine ⟨?_, fun hgoes => join_cancelled hmem fun f hf =>
    Fault.eq_cancelled (hpassed f hf) (hgoes f hf)⟩
  obtain ⟨f, hf, hjoin⟩ := exists_mapM_id_error hmem
  refine ⟨f, hpassed f hf, ?_⟩
  unfold join
  rw [hjoin]
  rfl

/-- If the caller has given up before a request is answered, the source is not asked and there are
no responses. If he has by the time the stream of one of the targets has been read, the answer is
that he has, and nothing else; and so it is if every target is answered in a session of its own,
whatever that has been through, as long as none ends the program. -/
theorem answer_all_or_nothing (engine : Engine) (r : Request) (s : Session) :
    (s.patience = some 0 → ((r.answer engine).after s).fetches = s.fetches
        ∧ ∀ responses, (r.answer engine).result s = .ok responses → responses = [])
      ∧ ∀ frame, r.frame = .ok frame → ∀ (i : Nat) (t : TargetRequest), r.targets[i]? = some t →
        (NoneEndsProgram engine frame (r.targets.take i) s →
          t.DrainsGivenUp engine frame (sessionBefore engine frame r.targets s i) →
            (r.answer engine).result s = .error .cancelled)
        ∧ ∀ sessions : Nat → Session, t.DrainsGivenUp engine frame (sessions i) →
          let answers := r.targets.mapIdx fun j t => (t.answer engine frame).result (sessions j)
          (∃ f, f.isPassedOn = true ∧ join answers = .error f)
            ∧ ((∀ f, .error f ∈ answers → f.endsProgram = false) →
              join answers = .error .cancelled) := by
  refine ⟨fun h => ?_, fun frame hframe i t ht =>
    ⟨fun hbefore hdrains => ?_, fun sessions hdrains => join_drains_given_up sessions ht hdrains⟩⟩
  · cases hframe : r.frame with
    | error f =>
        unfold answer answers
        rw [hframe]
        exact ⟨rfl, fun responses hr => by cases hr⟩
    | ok frame =>
        obtain ⟨hafter, hnone⟩ := answer_given_up hframe h
        exact ⟨congrArg Session.fetches hafter, hnone⟩
  · have hgoes := noneEndsProgram_of_drains ht hbefore hdrains
    rw [result_answer_eq_join hframe hgoes]
    exact (join_drains_given_up (sessionBefore engine frame r.targets s) ht hdrains).2
      fun f hf => by rw [hgoes.of_mem hf]; rfl

/-- The caller gives up while the samples of the first target arrive, and the second names no
function; or he has given up before. -/
theorem answer_all_or_nothing_while_read :
    let engine : Engine := ⟨Catalog.empty, ⟨[], [], [], []⟩,
      fun _ _ _ => .ok ⟨[.ok (.of (Text.of "PPA:1") 1.5 1000.0 0)], true⟩, id⟩
    let asking : TargetRequest := ⟨Text.of "A", Text.of "PPA:1"⟩
    let r : Request := ⟨[asking, ⟨Text.of "B", Text.of "Nope(PPA:1)"⟩],
      .millis 0.0, .millis 2000.0, none, none, ⟨0, false⟩⟩
    let frame : RequestFrame := ⟨⟨0.0, 2000.0⟩, none, none, ⟨0, false⟩⟩
    let s := Session.begun engine 60000 (Clock.still 0) []
    r.frame = .ok frame ∧ asking.DrainsGivenUp engine frame s
      ∧ (r.answer engine).result s = .error .cancelled
      ∧ join (r.targets.mapIdx fun _ t => (t.answer engine frame).result s) = .error .cancelled
      ∧ ((r.answer engine).after { s with patience := some 0 }).fetches = [] := by
  intro engine asking r frame s
  have hframe : r.frame = .ok frame := rfl
  have hcommands : Commands.extract asking.expression = (Commands.none, Text.of "PPA:1") := by
    decide +kernel
  have hparse : Expression.parse (Text.of "PPA:1") = .ok ⟨[], Text.of "PPA:1"⟩ := by
    decide +kernel
  have hresolve : Resolver.resolve engine.catalog engine.layout (Text.of "PPA:1")
      = .ok ⟨[⟨Text.of "PPA:1", Text.of "PPA:1", false⟩], []⟩ := by
    decide +kernel
  have hwaits : s.Waits engine := Session.waits_begun engine 60000 (Clock.still 0) []
  have hplanned : Planned engine (Text.of "PPA:1") :=
    planned_iff.mpr ⟨_, hparse, fun call hc => absurd hc List.not_mem_nil, fun _ => ⟨_, hresolve⟩⟩
  have hreads : Reads engine (Text.of "PPA:1") (Text.of "PPA:1") :=
    ⟨_, .whole _, .intro hparse (by decide) hresolve (by decide)⟩
  obtain ⟨plan, hans, hext⟩ := Plan.collectFrom_planned hplanned (le_refl _) Plan.empty
  have hplan : (Expression.prepare engine (Text.of "PPA:1")).result s = .ok plan := by
    obtain ⟨hval, hafter⟩ := Step.run_checkPatience hwaits.patience
    unfold Expression.prepare Plan.collect
    rw [Step.result_bind_ok hval, hafter]
    exact (hans s hwaits.sound).1
  obtain ⟨q, more, hq⟩ := List.exists_cons_of_ne_nil
    (Plan.asked_ne_nil ((hext.keys_iff _).mpr (.inr hreads)) frame.range
      (Commands.none.hints frame.resolution))
  have hdrains : asking.DrainsGivenUp engine frame s :=
    .intro hcommands (by decide) hplan (hq ▸ List.mem_cons_self) ⟨rfl, _, rfl⟩ (.inl rfl)
  obtain ⟨-, hdrained⟩ := answer_all_or_nothing engine r s
  obtain ⟨hone, hall⟩ := hdrained frame hframe 0 asking rfl
  obtain ⟨hgone, -⟩ := answer_all_or_nothing engine r { s with patience := some 0 }
  have hnobefore : NoneEndsProgram engine frame (r.targets.take 0) s :=
    fun i t f ht => absurd ht (by rw [List.take_zero, List.getElem?_nil]; exact nofun)
  have hgoes : ∀ f, .error f ∈ r.targets.mapIdx (fun _ t => (t.answer engine frame).result s) →
      f.endsProgram = false := by
    intro f hf
    have hends : (r.targets.mapIdx fun _ t => (t.answer engine frame).result s).all
        (fun | .error f => !f.endsProgram | .ok _ => true) = true := by
      decide +kernel
    exact Bool.not_eq_true' f.endsProgram ▸ List.all_eq_true.mp hends _ hf
  exact ⟨hframe, hdrains, hone hnobefore hdrains, (hall (fun _ => s) hdrains).2 hgoes,
    (hgone rfl).1⟩

end Request

end SeriesQuery
