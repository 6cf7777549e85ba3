import SeriesQuery.Proofs.CacheTransparency
import SeriesQuery.Proofs.SingleFetch

/-!
# Targets of a request do not touch each other

The targets of a request are answered one after the other in one session, so what one of them
has cached before it failed is there when the next one begins. It makes no difference. The answer
is the list of the targets' own answers put together, a target that cannot be evaluated has one
response with its fault, and the answer to a target is the same whatever the other targets are
and whatever the session has been through.

Three things carry over all the same. A source that says of one target that the query has been
given up ends all of it, and so does a target whose evaluation ends the program, which only one
with a percentile does: all sorts are taken to return, also those of values that are not in order.
A label with a field in braces is kept by its spelling, which may be that of another label.
-/

namespace SeriesQuery

/-! ## What ends the program -/

theorem Fault.not_endsProgram {f : Fault} (h : f.kind ≠ .overrun) : f.endsProgram = false := by
  cases f with
  | overrun count place => exact absurd rfl h
  | _ => rfl

/-- A source that ends the program neither when it is asked nor while samples arrive. -/
def Source.KeepsRunning (source : Source) : Prop :=
  ∀ keys range hints f, (source keys range hints = .error f
    ∨ ∃ stream, source keys range hints = .ok stream ∧ .error f ∈ stream.items) →
      f.endsProgram = false

theorem Archive.keepsRunning (a : Archive) : a.source.KeepsRunning := by
  rintro keys range hints f (h | ⟨stream, h, hmem⟩)
  · cases h
  · cases h
    obtain ⟨sample, -, he⟩ := List.mem_map.mp hmem
    cases he

theorem FirstFault.kind_mem {engine : Engine} {text : Text} {f : Fault}
    (h : FirstFault engine text f) : f.kind ∈ expressionKinds ++ targetKinds := by
  obtain ⟨part, -, hf⟩ := h.exists_part
  cases hf with
  | parse he => exact List.mem_append_left _ (faultsIn_parse part f he)
  | resolve _ _ hr => exact List.mem_append_right _ (faultsIn_resolve _ _ _ f hr)

/-- A query without percentiles, at whatever depth, does not end the program. -/
theorem Expression.execute_keepsRunning {engine : Engine}
    (hsrc : engine.source.KeepsRunning) (range : TimeRange) (hints : FetchHints)
    (quality : QualityFilter) {text : Text}
    (hnone : ∀ call, CallWithin text call → call.operator ≠ .percentile) {s : Session}
    (hs : s.Sound engine.catalog engine.layout) {f : Fault}
    (hf : (execute engine range hints quality text).result s = .error f) :
    f.endsProgram = false := by
  by_cases hp : s.patience = some 0
  · obtain ⟨hval, -⟩ := execute_cancelled range hints quality hp text
    cases hval.symm.trans hf
    rfl
  · by_cases hplan : Planned engine text
    · obtain ⟨plan, -, -, hfaults⟩ := execute_planned range hints quality (List.Subset.refl _) hs hp
        (.inr hnone) hplan
      obtain hkind | ⟨q, -, hq⟩ := hfaults f hf
      · exact Fault.not_endsProgram fun he => absurd (he ▸ hkind) (by decide)
      · exact hsrc q.keys q.range q.hints f hq
    · obtain ⟨g, hg⟩ := exists_firstFault hplan
      obtain ⟨hval, -⟩ := execute_fault range hints quality hs hp hg
      cases hval.symm.trans hf
      exact Fault.not_endsProgram fun he => absurd (he ▸ hg.kind_mem) (by decide)

/-! ## Sessions in which a caller waits -/

/-- The session in which a query of a caller who waits begins, after visits. -/
def Session.begun (engine : Engine) (idle : Nat) (clock : Clock) (visits : List Visit) :
    Session :=
  { (Session.start idle clock).visitAll engine.catalog engine.layout visits with
    patience := none, fetches := [] }

theorem Session.waits_begun (engine : Engine) (idle : Nat) (clock : Clock)
    (visits : List Visit) : (Session.begun engine idle clock visits).Waits engine := by
  have h : ((Session.start idle clock).visitAll engine.catalog engine.layout visits).Sound
      engine.catalog engine.layout := Session.Sound.visitAll (.start idle clock) visits
  exact ⟨⟨h.expressions, h.targets⟩, rfl⟩

/-! ## One target -/

theorem Fault.eq_cancelled {f : Fault} (hpassed : f.isPassedOn = true)
    (hgoes : f.endsProgram = false) : f = .cancelled := by
  rw [isPassedOn, hgoes, Bool.or_false] at hpassed
  exact eq_of_beq hpassed

namespace TargetRequest

variable {engine : Engine} (frame : RequestFrame) (t : TargetRequest)

/-- What a target is answered with, by what evaluating it has come to. -/
def answered (t : TargetRequest) : Except Fault (List Response) → Except Fault (List Response)
  | .ok responses => .ok responses
  | .error f => if f.isPassedOn then .error f else .ok [Response.ofFault t.refId t.expression f]

theorem result_answer (s : Session) :
    (t.answer engine frame).result s = t.answered ((t.evaluate engine frame).result s) := by
  unfold answer
  cases hr : (t.evaluate engine frame).result s with
  | ok responses => exact (Step.run_tryCatch_ok hr).1
  | error f =>
      rw [(Step.run_tryCatch_error hr).1, answered]
      split
      · rfl
      · rfl

variable {t}

/-- Only faults that are passed on stand in place of responses. -/
theorem passedOn_of_answered {x : Except Fault (List Response)} {f : Fault}
    (h : t.answered x = .error f) : x = .error f ∧ f.isPassedOn = true := by
  cases x with
  | ok responses => cases h
  | error g =>
      rw [answered] at h
      split at h
      · next hpassed =>
          cases h
          exact ⟨rfl, hpassed⟩
      · cases h

variable (t)

/-- A target whose calls, at whatever depth, are no percentiles. -/
def NoPercentiles (t : TargetRequest) : Prop :=
  ∀ call, CallWithin (Commands.extract t.expression).2 call → call.operator ≠ .percentile

theorem evaluate_keepsRunning (hsrc : engine.source.KeepsRunning) {t : TargetRequest}
    (ht : t.NoPercentiles) {s : Session} (hs : s.Sound engine.catalog engine.layout) {f : Fault}
    (hf : (t.evaluate engine frame).result s = .error f) : f.endsProgram = false := by
  unfold evaluate at hf
  dsimp only at hf
  split at hf
  · cases hf
  · cases hr : (Expression.execute engine frame.range
        ((Commands.extract t.expression).1.hints frame.resolution) frame.quality
        (Commands.extract t.expression).2).result s with
    | error g =>
        cases (Step.result_bind_error hr).symm.trans hf
        exact Expression.execute_keepsRunning hsrc _ _ _ ht hs hr
    | ok series =>
        rw [Step.result_bind_ok hr] at hf
        cases hf

theorem waits_after_answer (hsrc : engine.source.LeavesCaller) {s : Session}
    (hs : s.Waits engine) : ((t.answer engine frame).after s).Waits engine := by
  have hassembled : Assembled engine True (t.answer engine frame) fun _ => True :=
    t.assembled_answer frame (.inl trivial)
  exact hassembled.keepsWaiting hsrc hs

theorem evaluate_ne_cancelled (hsrc : engine.source.NeverCancels) {s : Session}
    (hs : s.Waits engine) : (t.evaluate engine frame).result s ≠ .error .cancelled := by
  have hassembled : Assembled engine True (t.evaluate engine frame) fun _ => True :=
    t.assembled_evaluate frame (.inl trivial)
  exact hassembled.ne_cancelled hsrc hs.sound hs.patience

section NoCalls

variable {t : TargetRequest} {e : Expression}
  (h : Expression.parse (Commands.extract t.expression).2 = .ok e) (he : e.calls = [])

include h he

theorem noPercentiles_of_no_calls : t.NoPercentiles :=
  fun _ hw => absurd hw (CallWithin.not_of_no_calls h he)

end NoCalls

end TargetRequest

/-! ## All targets -/

/-- The session in which the target at a place is answered: what the ones before it leave. -/
def sessionBefore (engine : Engine) (frame : RequestFrame) (targets : List TargetRequest)
    (s : Session) (i : Nat) : Session :=
  (targets.take i).foldl (fun s t => (t.answer engine frame).after s) s

theorem waits_sessionBefore {engine : Engine} (hsrc : engine.source.LeavesCaller)
    (frame : RequestFrame) (targets : List TargetRequest) {s : Session} (hs : s.Waits engine)
    (i : Nat) : (sessionBefore engine frame targets s i).Waits engine := by
  unfold sessionBefore
  induction targets.take i generalizing s with
  | nil => exact hs
  | cons t rest ih => exact ih (t.waits_after_answer frame hsrc hs)

/-- What targets are answered with one after the other, each in the session that the ones before
it leave. -/
def answersInTurn (engine : Engine) (frame : RequestFrame) (targets : List TargetRequest)
    (s : Session) : List (Except Fault (List Response)) :=
  targets.mapIdx fun i t =>
    (t.answer engine frame).result (sessionBefore engine frame targets s i)

theorem answersInTurn_cons (engine : Engine) (frame : RequestFrame) (t : TargetRequest)
    (rest : List TargetRequest) (s : Session) : answersInTurn engine frame (t :: rest) s
      = (t.answer engine frame).result s
        :: answersInTurn engine frame rest ((t.answer engine frame).after s) :=
  List.mapIdx_cons

theorem getElem?_answersInTurn (engine : Engine) (frame : RequestFrame)
    {targets : List TargetRequest} {i : Nat} {t : TargetRequest} (ht : targets[i]? = some t)
    (s : Session) : (answersInTurn engine frame targets s)[i]?
      = some ((t.answer engine frame).result (sessionBefore engine frame targets s i)) := by
  unfold answersInTurn
  rw [List.getElem?_mapIdx, ht, Option.map_some]

/-- No target ends the program, each evaluated in the session that the ones before it leave. -/
def NoneEndsProgram (engine : Engine) (frame : RequestFrame) (targets : List TargetRequest)
    (s : Session) : Prop :=
  ∀ (i : Nat) (t : TargetRequest) (f : Fault), targets[i]? = some t →
    (t.evaluate engine frame).result (sessionBefore engine frame targets s i) = .error f →
      f.endsProgram = false

/-- A target comes to the news that the query has been given up. -/
def SomeGivenUp (engine : Engine) (frame : RequestFrame) (targets : List TargetRequest)
    (s : Session) : Prop :=
  ∃ (i : Nat) (t : TargetRequest), targets[i]? = some t
    ∧ (t.evaluate engine frame).result (sessionBefore engine frame targets s i)
      = .error .cancelled

section InTurn

variable {engine : Engine} {frame : RequestFrame} {targets : List TargetRequest} {s : Session}

/-- A target has a fault in place of responses just if evaluating it comes to one that is passed
on. -/
theorem mem_answersInTurn_iff {f : Fault} : .error f ∈ answersInTurn engine frame targets s ↔
    f.isPassedOn = true ∧ ∃ (i : Nat) (t : TargetRequest), targets[i]? = some t
      ∧ (t.evaluate engine frame).result (sessionBefore engine frame targets s i) = .error f := by
  constructor
  · intro h
    obtain ⟨i, hi, he⟩ := List.mem_mapIdx.mp h
    rw [TargetRequest.result_answer] at he
    obtain ⟨hevaluate, hpassed⟩ := TargetRequest.passedOn_of_answered he
    exact ⟨hpassed, i, targets[i], List.getElem?_eq_getElem hi, hevaluate⟩
  · rintro ⟨hpassed, i, t, ht, he⟩
    refine List.mem_of_getElem? (i := i) ?_
    rw [getElem?_answersInTurn engine frame ht, TargetRequest.result_answer, he,
      TargetRequest.answered, if_pos hpassed]

theorem NoneEndsProgram.of_mem (h : NoneEndsProgram engine frame targets s) {f : Fault}
    (hf : .error f ∈ answersInTurn engine frame targets s) : f = .cancelled := by
  obtain ⟨hpassed, i, t, ht, he⟩ := mem_answersInTurn_iff.mp hf
  exact Fault.eq_cancelled hpassed (h i t f ht he)

theorem someGivenUp_iff : SomeGivenUp engine frame targets s ↔
    .error .cancelled ∈ answersInTurn engine frame targets s :=
  mem_answersInTurn_iff.trans ⟨And.right, fun h => ⟨rfl, h⟩⟩ |>.symm

/-- Only a percentile or the source ends the program. -/
theorem noneEndsProgram_of_noPercentiles (hleaves : engine.source.LeavesCaller)
    (hsrc : engine.source.KeepsRunning) (hs : s.Waits engine)
    (h : ∀ t ∈ targets, t.NoPercentiles) : NoneEndsProgram engine frame targets s :=
  fun i t _ ht he => TargetRequest.evaluate_keepsRunning frame hsrc
    (h t (List.mem_of_getElem? ht)) (waits_sessionBefore hleaves frame targets hs i).sound he

theorem not_someGivenUp (hsrc : engine.source.NeverCancels) (hs : s.Waits engine) :
    ¬ SomeGivenUp engine frame targets s := by
  rintro ⟨i, t, ht, he⟩
  have hwaits := waits_sessionBefore hsrc.leavesCaller frame targets hs i
  exact t.evaluate_ne_cancelled frame hsrc hwaits he

/-- Targets none of which ends the program are all answered. -/
theorem run_answersInTurn
    (h : ∀ f, .error f ∈ answersInTurn engine frame targets s → f.endsProgram = false) :
    let answers := targets.mapM fun t => (t.answer engine frame).outcome
    Step.result answers s = .ok (answersInTurn engine frame targets s)
      ∧ Step.after answers s = sessionBefore engine frame targets s targets.length := by
  induction targets generalizing s with
  | nil => exact ⟨rfl, rfl⟩
  | cons t rest ih =>
      rw [answersInTurn_cons] at h ⊢
      have hfirst : (t.answer engine frame).outcome.result s
          = .ok ((t.answer engine frame).result s) := by
        rw [Step.result_outcome]
        exact Step.settled_of_ne fun f hf => h f (hf ▸ List.mem_cons_self)
      obtain ⟨hrest, hafter⟩ := ih fun f hf => h f (List.mem_cons_of_mem _ hf)
      rw [List.mapM_cons]
      dsimp only
      rw [Step.result_bind_ok hfirst, Step.after_bind_ok hfirst, Step.after_outcome,
        Step.result_bind_ok hrest, Step.after_bind_ok hrest, hafter]
      exact ⟨rfl, rfl⟩

end InTurn

/-! ## Answers put together -/

theorem exists_mapM_id_error {α ε : Type} {xs : List (Except ε α)} {e : ε} (h : .error e ∈ xs) :
    ∃ first, .error first ∈ xs ∧ xs.mapM id = .error first := by
  induction xs with
  | nil => cases h
  | cons x xs ih =>
      rw [mapM_id_cons]
      cases x with
      | error first => exact ⟨first, List.mem_cons_self, rfl⟩
      | ok a =>
          have hmem : .error e ∈ xs := (List.mem_cons.mp h).resolve_left fun he => by cases he
          obtain ⟨first, hfirst, hrest⟩ := ih hmem
          rw [hrest]
          exact ⟨first, List.mem_cons_of_mem _ hfirst, rfl⟩

theorem mapM_id_ok {α ε : Type} {xs : List (Except ε α)} (h : ∀ e, .error e ∉ xs) :
    ∃ parts, xs = parts.map .ok ∧ xs.mapM id = .ok parts := by
  induction xs with
  | nil => exact ⟨[], rfl, rfl⟩
  | cons x xs ih =>
      obtain ⟨parts, hxs, hparts⟩ := ih fun e he => h e (List.mem_cons_of_mem _ he)
      cases x with
      | error e => exact absurd List.mem_cons_self (h e)
      | ok a =>
          refine ⟨a :: parts, by rw [hxs, List.map_cons], ?_⟩
          rw [mapM_id_cons, hparts]
          rfl

namespace Request

/-- If one answer is that the caller has given the query up and none ends the program, this is
the answer to all. -/
theorem join_cancelled {answers : List (Except Fault (List Response))}
    (h : .error .cancelled ∈ answers) (hall : ∀ f, .error f ∈ answers → f = .cancelled) :
    join answers = .error .cancelled := by
  obtain ⟨f, hf, hfirst⟩ := exists_mapM_id_error h
  unfold join
  rw [hfirst, hall f hf]
  rfl

section Answers

variable {engine : Engine} {r : Request} {frame : RequestFrame} (hframe : r.frame = .ok frame)
  {s : Session} (h : NoneEndsProgram engine frame r.targets s)

include hframe h

theorem run_answers :
    (r.answers engine).result s = .ok (answersInTurn engine frame r.targets s)
      ∧ (r.answers engine).after s
        = sessionBefore engine frame r.targets s r.targets.length := by
  have hof : (Step.ofExcept r.frame).result s = .ok frame :=
    (Step.result_ofExcept _ _).trans hframe
  unfold answers
  rw [Step.result_bind_ok hof, Step.after_bind_ok hof, Step.after_ofExcept]
  refine run_answersInTurn fun f hf => ?_
  rw [h.of_mem hf]
  rfl

/-- The answer to a request is that of its targets put together. -/
theorem result_answer_eq_join :
    (r.answer engine).result s = join (answersInTurn engine frame r.targets s) := by
  unfold answer
  rw [Step.result_bind_ok (run_answers hframe h).1]
  exact Step.result_ofExcept _ _

/-- If no target comes to the news that the query has been given up, there is a list of responses
for each of them. -/
theorem exists_parts (hnone : ¬ SomeGivenUp engine frame r.targets s) :
    ∃ parts : List (List Response), answersInTurn engine frame r.targets s = parts.map .ok
      ∧ (r.answers engine).result s = .ok (parts.map .ok)
      ∧ (r.answer engine).result s = .ok parts.flatten := by
  have hall : ∀ f, .error f ∉ answersInTurn engine frame r.targets s := by
    intro f hf
    rw [h.of_mem hf] at hf
    exact hnone (someGivenUp_iff.mpr hf)
  obtain ⟨parts, hparts, hjoin⟩ := mapM_id_ok hall
  refine ⟨parts, hparts, hparts ▸ (run_answers hframe h).1, ?_⟩
  rw [result_answer_eq_join hframe h, join, hjoin]
  rfl

end Answers

end Request

end SeriesQuery
