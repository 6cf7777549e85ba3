import SeriesQuery.Proofs.FetchPlan
import SeriesQuery.Proofs.ScanSteps

/-!
# Evaluating what has been planned

Evaluating goes through an expression a second time, in another order and through caches that may
have changed. Once no part has a fault, it meets none either: all that can go wrong is that a
parameter cannot be read, that the caller gives up, or that a function reads past the end of the
samples, because a call that was read has the parameters that its function requires. Nor does it ask
the source: of the samples it reads those of the keys of the literal targets, which are the keys of
the plan.
-/

namespace SeriesQuery

/-- The classes of faults of an evaluation that has been planned. -/
def evaluationKinds : List FaultKind :=
  [.format, .outOfRange, .unresolvedParameter, .overrun, .cancelled]

/-- Those of an evaluation that does not read past the end of samples. -/
def boundedKinds : List FaultKind := [.format, .outOfRange, .unresolvedParameter, .cancelled]

theorem parameterKinds_subset_boundedKinds : parameterKinds ⊆ boundedKinds := by decide

theorem boundedKinds_subset_evaluationKinds : boundedKinds ⊆ evaluationKinds := by decide

/-! ## Steps of an evaluation -/

/-- A step that keeps caches sound and asks the source nothing. Its results are as promised, and
its faults are of the listed classes. -/
def Step.Confined (engine : Engine) (kinds : List FaultKind) {α : Type} (p : Step α)
    (post : α → Prop) : Prop :=
  ∀ s : Session, s.Sound engine.catalog engine.layout →
    ((p.after s).Sound engine.catalog engine.layout ∧ (p.after s).fetches = s.fetches)
      ∧ (∀ a, p.result s = .ok a → post a) ∧ FaultsIn kinds (p.result s)

namespace Step.Confined

variable {engine : Engine} {kinds : List FaultKind} {α β : Type} {post : α → Prop}

theorem pure {a : α} (h : post a) : Confined engine kinds (pure a) post := by
  intro s hs
  refine ⟨⟨hs, rfl⟩, fun b hb => ?_, .ok a⟩
  cases hb
  exact h

theorem ofExcept {x : Except Fault α} (h : FaultsIn kinds x) :
    Confined engine kinds (ofExcept x) fun _ => True := by
  intro s hs
  rw [after_ofExcept, result_ofExcept]
  exact ⟨⟨hs, rfl⟩, fun _ _ => trivial, h⟩

theorem checkPatience (hkinds : boundedKinds ⊆ kinds) :
    Confined engine kinds checkPatience fun _ => True := by
  intro s hs
  obtain ⟨patience, hafter⟩ := OnlyWaits.checkPatience s
  rw [hafter]
  refine ⟨⟨⟨hs.expressions, hs.targets⟩, rfl⟩, fun _ _ => trivial, fun f hf => ?_⟩
  rw [result_checkPatience_cancelled hf]
  exact hkinds (by decide)

theorem of_answers {p : Step α} {a : α} (h : Answers engine p (.ok a)) :
    Confined engine kinds p (· = a) := by
  intro s hs
  obtain ⟨hval, hsound, hfetches, -⟩ := h s hs
  rw [hval]
  refine ⟨⟨hsound, hfetches⟩, fun b hb => ?_, .ok a⟩
  cases hb
  rfl

theorem label (key : Text) (make : Unit → Text) :
    Confined engine kinds (label key make) fun _ => True := by
  intro s hs
  rw [after_label, result_label]
  exact ⟨⟨⟨hs.expressions, hs.targets⟩, rfl⟩, fun _ _ => trivial, .ok _⟩

theorem bind {p : Step α} {k : α → Step β} {post' : β → Prop}
    (hp : Confined engine kinds p post) (hk : ∀ a, post a → Confined engine kinds (k a) post') :
    Confined engine kinds (p >>= k) post' := by
  intro s hs
  obtain ⟨⟨hsound, hfetches⟩, hpost, hfaults⟩ := hp s hs
  cases hr : p.result s with
  | error f =>
      rw [after_bind_error hr, result_bind_error hr]
      refine ⟨⟨hsound, hfetches⟩, fun b hb => ?_, .error (hfaults f hr)⟩
      cases hb
  | ok a =>
      obtain ⟨⟨hsound', hfetches'⟩, hrest⟩ := hk a (hpost a hr) _ hsound
      rw [after_bind_ok hr, result_bind_ok hr]
      exact ⟨⟨hsound', hfetches'.trans hfetches⟩, hrest⟩

theorem mapM {γ : Type} {f : γ → Step α} {l : List γ}
    (h : ∀ c ∈ l, Confined engine kinds (f c) fun _ => True) :
    Confined engine kinds (l.mapM f) fun _ => True := by
  induction l with
  | nil =>
      rw [List.mapM_nil]
      exact .pure trivial
  | cons c l ih =>
      rw [List.mapM_cons]
      refine .bind (h c List.mem_cons_self) fun a _ => ?_
      exact .bind (ih fun d hd => h d (List.mem_cons_of_mem _ hd)) fun as _ => .pure trivial

end Step.Confined

/-! ## Calls -/

namespace Call

/-- A call with the parameters that its function requires. -/
def Complete (c : Call) : Prop := requiredCount c.grouping c.operator ≤ c.parameters.length

theorem complete_of_ofFields {grouping : Grouping} {operator : Operator} {fields : List Text}
    {call : Call} (h : ofFields grouping operator fields = .ok call) : call.Complete := by
  unfold ofFields at h
  dsimp only at h
  split at h
  · cases h
  next hcount =>
  split at h
  · cases h
  cases h
  simp only [Bool.or_eq_true, decide_eq_true_eq, not_or] at hcount
  show requiredCount grouping operator ≤ _
  rw [List.length_append, List.length_take]
  omega

/-- The calls of an expression have the parameters that their functions require. -/
theorem complete_of_parse {text : Text} {e : Expression} {call : Call}
    (he : Expression.parse text = .ok e) (hc : call ∈ e.calls) : call.Complete := by
  obtain ⟨pieces, calls, -, hcalls, rfl⟩ := Expression.parse_ok he
  obtain ⟨c, -, hcall⟩ := exists_callText_of_mem_callsOf hcalls hc
  exact complete_of_ofFields hcall

variable {engine : Engine} {kinds : List FaultKind} (hkinds : boundedKinds ⊆ kinds)
  (m : Material) (c : Call) (inputs : List Series)

include hkinds

theorem confined_function {f : Operator} (hoverrun : f = .percentile → .overrun ∈ kinds)
    {parameters : List Text} (h : f.signature.required ≤ parameters.length) (scope : Scope)
    (samples : List Sample) :
    Step.Confined engine kinds (Step.ofExcept (f.apply parameters scope samples))
      fun _ => True :=
  .ofExcept (faultsIn_apply_of_length
    (List.Subset.trans parameterKinds_subset_boundedKinds hkinds) f parameters scope samples
    hoverrun h)

theorem confined_applyEach (hoverrun : c.operator = .percentile → .overrun ∈ kinds)
    (h : c.operator.signature.required ≤ c.parameters.length) :
    Step.Confined engine kinds (c.applyEach engine m inputs) fun _ => True := by
  unfold applyEach
  refine .mapM fun input _ => .bind (.checkPatience hkinds) fun _ _ => ?_
  exact .bind (confined_function hkinds hoverrun h _ _) fun samples _ => .pure trivial

theorem confined_applySet (hoverrun : c.operator = .percentile → .overrun ∈ kinds)
    (h : c.operator.signature.required ≤ c.parameters.length) :
    Step.Confined engine kinds (c.applySet engine m inputs) fun _ => True := by
  unfold applySet
  refine .bind (.checkPatience hkinds) fun _ _ => ?_
  exact .bind (confined_function hkinds hoverrun h _ _) fun samples _ => .pure trivial

theorem confined_applySlices (hoverrun : c.operator = .percentile → .overrun ∈ kinds)
    (h : c.operator.signature.required + 1 ≤ c.parameters.length) :
    Step.Confined engine kinds (c.applySlices engine m inputs) fun _ => True := by
  unfold applySlices
  split
  · next hp =>
      rw [hp] at h
      exact absurd h (Nat.not_succ_le_zero _)
  · next tolerance parameters hp =>
      rw [hp, List.length_cons, Nat.add_le_add_iff_right] at h
      have hfloat := (Parameter.faultsIn_float ⟨.set, m.names, engine.shuffle⟩
        (allSamples inputs) true tolerance).mono
          (List.Subset.trans parameterKinds_subset_boundedKinds hkinds)
      refine .bind (.ofExcept hfloat) fun seconds _ => ?_
      refine .bind (.mapM fun slice _ => .bind (.checkPatience hkinds)
        fun _ _ => confined_function hkinds hoverrun h _ _) fun results _ => ?_
      split
      · exact .pure trivial
      · exact .pure trivial

omit hkinds in
theorem confined_applyLabel (h : 1 ≤ c.parameters.length) :
    Step.Confined engine kinds (c.applyLabel engine inputs) fun _ => True := by
  unfold applyLabel
  split
  · next hp =>
      rw [hp] at h
      exact absurd h (Nat.not_succ_le_zero _)
  · refine .bind (.mapM fun input _ => ?_) fun names _ => .pure trivial
    unfold Template.renderCached
    split
    · exact .label _ _
    · exact .pure trivial

/-- A call that has its parameters is applied without looking for others. -/
theorem confined_apply (hoverrun : c.operator = .percentile → .overrun ∈ kinds)
    (h : c.Complete) :
    Step.Confined engine kinds (c.apply engine m inputs) fun _ => True := by
  unfold Complete requiredCount at h
  unfold apply
  split
  · next hop =>
      refine c.confined_applyLabel inputs ?_
      rw [eq_of_beq hop] at h
      split at h
      · exact Nat.le_of_succ_le h
      · exact h
  · split
    · next hg =>
        rw [hg] at h
        exact c.confined_applyEach hkinds m inputs hoverrun h
    · next hg =>
        rw [hg] at h
        exact c.confined_applySet hkinds m inputs hoverrun h
    · next hg =>
        rw [hg] at h
        exact c.confined_applySlices hkinds m inputs hoverrun h

end Call

/-! ## Expressions -/

namespace Expression

variable {engine : Engine} {kinds : List FaultKind}

/-- An expression without faults is evaluated without meeting any. -/
theorem confined_evaluateFrom (hkinds : boundedKinds ⊆ kinds) (m : Material) {depth : Nat}
    {text : Text} (hoverrun : .overrun ∈ kinds ∨ ∀ call, CallWithin text call →
      call.operator ≠ .percentile) (h : Planned engine text) :
    Step.Confined engine kinds (evaluateFrom engine m depth text) fun _ => True := by
  have hliterals : ∀ {e : Expression} (called : List Series),
      (e.remainder ≠ [] → ∃ targets,
        Resolver.resolve engine.catalog engine.layout e.remainder = .ok targets) →
      Step.Confined engine kinds (if e.remainder.isEmpty then return called else do
        let targets ← Step.resolve engine e.remainder
        return called ++ targets.series m.data) fun _ => True := by
    intro e called htargets
    split
    · exact .pure trivial
    · next hne =>
        obtain ⟨targets, hr⟩ := htargets fun he => hne (List.isEmpty_iff.mpr he)
        exact .bind (.of_answers (.resolve hr)) fun _ _ => .pure trivial
  induction depth generalizing text with
  | zero =>
      obtain ⟨e, he, -, htargets⟩ := planned_iff.mp h
      unfold evaluateFrom
      refine .bind (.of_answers (.parse he)) fun e' he' => ?_
      subst he'
      exact hliterals [] htargets
  | succ depth ih =>
      obtain ⟨e, he, hcalls, htargets⟩ := planned_iff.mp h
      unfold evaluateFrom
      refine .bind (.of_answers (.parse he)) fun e' he' => ?_
      subst he'
      refine .bind (.mapM fun call hc => ?_) fun called _ => hliterals called.flatten htargets
      refine .bind (.checkPatience hkinds) fun _ _ =>
        .bind (ih ?_ (hcalls call hc)) fun inputs _ => ?_
      · exact hoverrun.imp id fun hnone c hw => hnone c (.deeper he hc hw)
      · exact call.confined_apply hkinds m inputs
          (fun hop => hoverrun.resolve_right fun hnone => hnone call (.here he hc) hop)
          (Call.complete_of_parse he hc)

end Expression

/-! ## What is read -/

/-- A step that keeps caches sound, with results as promised. -/
def Step.Keeps (engine : Engine) {α : Type} (p : Step α) (post : α → Prop) : Prop :=
  ∀ s : Session, s.Sound engine.catalog engine.layout →
    (p.after s).Sound engine.catalog engine.layout ∧ ∀ a, p.result s = .ok a → post a

theorem Assembled.keeps {engine : Engine} {α : Type} {p : Step α} {post : α → Prop}
    (h : Assembled engine True p post) : Step.Keeps engine p post :=
  fun _ hs => h.sound hs

/-- Two steps that cannot be told apart in sessions with sound caches. -/
def Step.Agree (engine : Engine) {α : Type} (p q : Step α) : Prop :=
  ∀ s : Session, s.Sound engine.catalog engine.layout →
    p.result s = q.result s ∧ p.after s = q.after s

namespace Step.Agree

variable {engine : Engine} {α β γ : Type}

theorem refl (p : Step α) : Agree engine p p := fun _ _ => ⟨rfl, rfl⟩

theorem symm {p q : Step α} (h : Agree engine p q) : Agree engine q p :=
  fun s hs => ⟨(h s hs).1.symm, (h s hs).2.symm⟩

theorem trans {p q r : Step α} (h : Agree engine p q) (h' : Agree engine q r) :
    Agree engine p r :=
  fun s hs => ⟨(h s hs).1.trans (h' s hs).1, (h s hs).2.trans (h' s hs).2⟩

theorem bind_of_keeps {p q : Step α} {k k' : α → Step β} {post : α → Prop}
    (hp : Keeps engine p post) (h : Agree engine p q)
    (hk : ∀ a, post a → Agree engine (k a) (k' a)) : Agree engine (p >>= k) (q >>= k') := by
  intro s hs
  obtain ⟨hval, hafter⟩ := h s hs
  obtain ⟨hsound, hpost⟩ := hp s hs
  cases hr : p.result s with
  | error f =>
      have hr' : q.result s = .error f := hval.symm.trans hr
      rw [result_bind_error hr, after_bind_error hr, result_bind_error hr', after_bind_error hr']
      exact ⟨rfl, hafter⟩
  | ok a =>
      have hr' : q.result s = .ok a := hval.symm.trans hr
      rw [result_bind_ok hr, after_bind_ok hr, result_bind_ok hr', after_bind_ok hr', ← hafter]
      exact hk a (hpost a hr) _ hsound

/-- Of two steps that agree, nothing that follows can tell which it was. -/
theorem andThen {p q : Step α} (h : Agree engine p q) (k : α → Step β) :
    Agree engine (p >>= k) (q >>= k) := by
  intro s hs
  have hrun : p.run.run s = q.run.run s := Prod.ext (h s hs).1 (h s hs).2
  unfold result after
  rw [run_bind, run_bind, hrun]
  exact ⟨rfl, rfl⟩

theorem mapM_of_keeps {f g : γ → Step α} {l : List γ}
    (hf : ∀ c ∈ l, Keeps engine (f c) fun _ => True)
    (h : ∀ c ∈ l, Agree engine (f c) (g c)) : Agree engine (l.mapM f) (l.mapM g) := by
  induction l with
  | nil =>
      rw [List.mapM_nil, List.mapM_nil]
      exact .refl _
  | cons c l ih =>
      rw [List.mapM_cons, List.mapM_cons]
      refine .bind_of_keeps (hf c List.mem_cons_self) (h c List.mem_cons_self) fun a _ => ?_
      refine .andThen (ih (fun d hd => ?_) fun d hd => ?_) _
      · exact hf d (List.mem_cons_of_mem _ hd)
      · exact h d (List.mem_cons_of_mem _ hd)

theorem foldlM_of_keeps {f g : β → γ → Step β} {l : List γ}
    (hf : ∀ b, ∀ c ∈ l, Keeps engine (f b c) fun _ => True)
    (h : ∀ b, ∀ c ∈ l, Agree engine (f b c) (g b c)) (b : β) :
    Agree engine (l.foldlM f b) (l.foldlM g b) := by
  induction l generalizing b with
  | nil =>
      rw [List.foldlM_nil, List.foldlM_nil]
      exact .refl _
  | cons c l ih =>
      rw [List.foldlM_cons, List.foldlM_cons]
      refine .bind_of_keeps (hf b c List.mem_cons_self) (h b c List.mem_cons_self) fun b' _ => ?_
      refine ih (fun b d hd => ?_) (fun b d hd => ?_) b'
      · exact hf b d (List.mem_cons_of_mem _ hd)
      · exact h b d (List.mem_cons_of_mem _ hd)

end Step.Agree

theorem Targets.series_congr {m : Targets} {d d' : RawData}
    (h : ∀ key ∈ m.keys, d.samplesOf key = d'.samplesOf key) : m.series d = m.series d' := by
  unfold series
  refine List.map_congr_left fun t ht => ?_
  rw [h t.key (List.mem_map_of_mem ht)]

namespace Expression

variable {engine : Engine}

/-- An evaluation reads no samples but those of the keys of its literal targets. -/
theorem agree_evaluateFrom {d d' : RawData} (names : NameTable) {depth : Nat} {text : Text}
    (hdata : ∀ key, Reads engine text key → d.samplesOf key = d'.samplesOf key) :
    Step.Agree engine (evaluateFrom engine ⟨d, names⟩ depth text)
      (evaluateFrom engine ⟨d', names⟩ depth text) := by
  have hliterals : ∀ {text : Text} {e : Expression} (called : List Series),
      (∀ key, Reads engine text key → d.samplesOf key = d'.samplesOf key) →
      parse text = .ok e →
      Step.Agree engine
        (if e.remainder.isEmpty then return called else do
          let targets ← Step.resolve engine e.remainder
          return called ++ targets.series d)
        (if e.remainder.isEmpty then return called else do
          let targets ← Step.resolve engine e.remainder
          return called ++ targets.series d') := by
    intro text e called hdata he
    split
    · exact .refl _
    · next hnil =>
        have hne : e.remainder ≠ [] := fun he => hnil (List.isEmpty_iff.mpr he)
        refine .bind_of_keeps (Assembled.resolve _).keeps (.refl _) fun targets hr => ?_
        rw [Targets.series_congr fun key hkey =>
          hdata key ((reads_iff he).mpr (.inr ⟨hne, targets, hr, hkey⟩))]
        exact .refl _
  induction depth generalizing text with
  | zero =>
      unfold evaluateFrom
      refine .bind_of_keeps (Assembled.parse text).keeps (.refl _) fun e he => ?_
      exact hliterals [] hdata he
  | succ depth ih =>
      unfold evaluateFrom
      refine .bind_of_keeps (Assembled.parse text).keeps (.refl _) fun e he => ?_
      have hinner : ∀ call ∈ e.calls, Step.Agree engine
          (evaluateFrom engine ⟨d, names⟩ depth call.inner)
          (evaluateFrom engine ⟨d', names⟩ depth call.inner) := fun call hc =>
        ih fun key hkey => hdata key ((reads_iff he).mpr (.inl ⟨call, hc, hkey⟩))
      have hevaluated (call : Call) : Assembled engine True
          (evaluateFrom engine ⟨d, names⟩ depth call.inner) _ :=
        assembled_evaluateFrom ⟨d, names⟩ depth call.inner (.inl trivial)
      have hcalled : ∀ call : Call, Assembled engine True (do
          Step.checkPatience
          call.apply engine ⟨d, names⟩ (← evaluateFrom engine ⟨d, names⟩ depth call.inner))
          fun _ => True := fun call =>
        .mono (assembled_called _ call (hevaluated call) (.inl trivial)) fun _ _ => trivial
      refine .bind_of_keeps (Assembled.mapM fun call _ => hcalled call).keeps
        (.mapM_of_keeps (fun call _ => (hcalled call).keeps) fun call hc => ?_) fun called _ =>
          hliterals called.flatten hdata he
      refine .bind_of_keeps Assembled.patience.keeps (.refl _) fun _ _ => ?_
      exact .bind_of_keeps (hevaluated call).keeps (hinner call hc) fun inputs _ => .refl _

end Expression

end SeriesQuery
