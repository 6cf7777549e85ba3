import Mathlib.Data.List.Forall2
import SeriesQuery.Proofs.Assembly

/-!
# What queries yield

`Call.Yields` and `Expression.Yields` say what a call and an expression give, without sessions
and faults: which samples the function was applied to, what each series is named after, and where
the series of literal targets stand. The functions that evaluate are shown to be put together as
queries are and to yield just that; so are planning and answering.

A template without an opening brace needs no label, which is why labels are mentioned throughout
only for the calls within an expression whose templates have one.
-/

namespace SeriesQuery

/-! ## Lists of steps -/

namespace Assembled

variable {engine : Engine} {labels : Prop} {α β γ : Type}

/-- A result that is no news of the caller, as a step. -/
theorem lift {x : Except Fault α} (h : x ≠ .error .cancelled) :
    Assembled engine labels (Step.ofExcept x) fun a => x = .ok a := by
  cases x with
  | ok a => exact .pure rfl
  | error f => exact .fault fun hf => h (congrArg Except.error hf)

theorem mapM {f : γ → Step α} {post : γ → α → Prop} {l : List γ}
    (h : ∀ c ∈ l, Assembled engine labels (f c) (post c)) :
    Assembled engine labels (l.mapM f) (List.Forall₂ post l) := by
  induction l with
  | nil =>
      rw [List.mapM_nil]
      exact .pure .nil
  | cons c l ih =>
      rw [List.mapM_cons]
      refine .bind (h c List.mem_cons_self) fun a ha => ?_
      refine .bind (ih fun d hd => h d (List.mem_cons_of_mem _ hd)) fun as has => ?_
      exact .pure (.cons ha has)

theorem foldlM {f : β → γ → Step β} {l : List γ}
    (h : ∀ b, ∀ c ∈ l, Assembled engine labels (f b c) fun _ => True) (b : β) :
    Assembled engine labels (l.foldlM f b) fun _ => True := by
  induction l generalizing b with
  | nil =>
      rw [List.foldlM_nil]
      exact .pure trivial
  | cons c l ih =>
      rw [List.foldlM_cons]
      refine .bind (h b c List.mem_cons_self) fun b' _ => ?_
      exact ih (fun b d hd => h b d (List.mem_cons_of_mem _ hd)) b'

end Assembled

/-! ## Calls -/

namespace Call

/-- A call whose template, if it is a label, puts nothing in. -/
def PlainLabel (c : Call) : Prop :=
  c.operator = .label → ∀ parameter ∈ c.parameters.head?, '{' ∉ Text.unquote parameter

/-- What a call yields for the series of its inside. -/
inductive Yields (engine : Engine) (m : Material) (c : Call) (inputs : List Series) :
    List Series → Prop
  /-- The same samples under new names. -/
  | label {names : List Text} : c.operator = .label → names.length = inputs.length →
      Yields engine m c inputs
        (List.zipWith (fun input name => { input with name }) inputs (distinctNames names))
  /-- One series for each of the inputs. -/
  | each {series : List Series} : c.operator ≠ .label → c.grouping = .each →
      List.Forall₂ (fun input s => ∃ samples,
        c.operator.apply c.parameters ⟨.each, m.names, engine.shuffle⟩ input.samples = .ok samples
          ∧ s = ⟨c.nameFor input.name, input.root, samples⟩) inputs series →
      Yields engine m c inputs series
  /-- One series for all samples of the inputs. -/
  | set {samples : List Sample} : c.operator ≠ .label → c.grouping = .set →
      c.operator.apply c.parameters ⟨.set, m.names, engine.shuffle⟩ (allSamples inputs)
        = .ok samples →
      Yields engine m c inputs [c.setSeries inputs samples]
  /-- What the slices yield, in one series or in one for each key. -/
  | slice {tolerance : Text} {parameters : List Text} {seconds : Float}
      {results : List (List Sample)} : c.operator ≠ .label → c.grouping = .slice →
      c.parameters = tolerance :: parameters →
      Parameter.float ⟨.set, m.names, engine.shuffle⟩ (allSamples inputs) true tolerance
        = .ok seconds →
      List.Forall₂ (fun slice samples =>
        c.operator.apply parameters ⟨.slice, m.names, engine.shuffle⟩ slice = .ok samples)
        ((Slicer.ofInputs (seconds * 1000.0) (inputs.map (·.samples))).slices true) results →
      Yields engine m c inputs
        (if c.operator.isScalar then [⟨c.nameFor c.inner, c.inner, results.flatten⟩]
        else c.sliceSeries inputs results.flatten)

variable {engine : Engine} {labels : Prop} (m : Material) (c : Call) (inputs : List Series)

theorem assembled_function (f : Operator) (parameters : List Text) (scope : Scope)
    (samples : List Sample) :
    Assembled engine labels (Step.ofExcept (f.apply parameters scope samples)) fun out =>
      f.apply parameters scope samples = .ok out :=
  .lift ((faultsIn_apply f parameters scope samples).ne_error (by decide))

theorem assembled_applyEach (hop : c.operator ≠ .label) (hg : c.grouping = .each) :
    Assembled engine labels (c.applyEach engine m inputs) (c.Yields engine m inputs) := by
  unfold applyEach
  refine .mono (.mapM fun input _ => ?_) fun series h => .each hop hg h
  refine .bind .patience fun _ _ => .bind (assembled_function _ _ _ _) fun samples hs => ?_
  exact .pure ⟨samples, hs, rfl⟩

theorem assembled_applySet (hop : c.operator ≠ .label) (hg : c.grouping = .set) :
    Assembled engine labels (c.applySet engine m inputs) (c.Yields engine m inputs) := by
  unfold applySet
  refine .bind .patience fun _ _ => .bind (assembled_function _ _ _ _) fun samples hs => ?_
  exact .pure (.set hop hg hs)

theorem assembled_applySlices (hop : c.operator ≠ .label) (hg : c.grouping = .slice) :
    Assembled engine labels (c.applySlices engine m inputs) (c.Yields engine m inputs) := by
  unfold applySlices
  split
  · exact .fault (by intro h; cases h)
  · next tolerance parameters hp =>
      have hfloat := (Parameter.faultsIn_float ⟨.set, m.names, engine.shuffle⟩
        (allSamples inputs) true tolerance).ne_error (f := .cancelled) (by decide)
      refine .bind (.lift hfloat) fun seconds hs => ?_
      refine .bind (.mapM fun slice _ =>
        .bind .patience fun _ _ => assembled_function _ _ _ slice) fun results hr => ?_
      have hy := Yields.slice hop hg hp hs hr
      split
      · next hscalar =>
          rw [if_pos hscalar] at hy
          exact .pure hy
      · next hscalar =>
          rw [if_neg hscalar] at hy
          exact .pure hy

end Call

/-! ## Labels -/

theorem Text.splitOnce?_spelling {mark : Char} {t before after : Text}
    (h : Text.splitOnce? mark t = some (before, after)) : before ++ mark :: after = t := by
  induction t generalizing before after with
  | nil => cases h
  | cons c rest ih =>
      rw [Text.splitOnce?] at h
      split at h
      · next hc =>
          cases h
          rw [List.nil_append, eq_of_beq hc]
      · rw [Option.map_eq_some_iff] at h
        obtain ⟨⟨b, a⟩, hr, he⟩ := h
        cases he
        rw [List.cons_append, ih hr]

theorem Template.not_mem_body {catalog : Catalog} {whole : Text} (h : '{' ∉ whole) :
    '{' ∉ (Template.ofText catalog whole).body := by
  unfold Template.ofText
  split
  · next lead body hs =>
      dsimp only
      split
      · rw [← Text.splitOnce?_spelling hs] at h
        exact fun hb => h (List.mem_append_right _ (List.mem_cons_of_mem _ hb))
      · exact h
  · exact h

theorem length_enumerated (body : Text) (count : Nat) : (enumerated body count).length = count := by
  unfold enumerated
  rw [List.length_map, List.length_range]

namespace Call

variable {engine : Engine} {labels : Prop} (m : Material) (c : Call) (inputs : List Series)

theorem assembled_renderCached (whole root : Text)
    (h : labels ∨ '{' ∉ (Template.ofText engine.catalog whole).body) :
    Assembled engine labels ((Template.ofText engine.catalog whole).renderCached engine root)
      fun _ => True := by
  unfold Template.renderCached
  split
  · next hb =>
      have hmem := List.contains_iff_mem.mp hb
      rcases h with hl | hn
      · exact .label hl hmem
      · exact absurd hmem hn
  · exact .pure trivial

theorem assembled_applyLabel (hop : c.operator = .label) (hl : labels ∨ c.PlainLabel) :
    Assembled engine labels (c.applyLabel engine inputs) (c.Yields engine m inputs) := by
  unfold applyLabel
  split
  · exact .fault (by intro h; cases h)
  · next parameter rest hp =>
      have hbody : labels ∨
          '{' ∉ (Template.ofText engine.catalog (Text.unquote parameter)).body := by
        refine hl.imp id fun hplain => Template.not_mem_body (hplain hop parameter ?_)
        rw [hp]
        rfl
      refine .bind (.mapM fun input _ => assembled_renderCached _ input.root hbody)
        fun names hnames => ?_
      refine .pure (.label hop ?_)
      split
      · rw [length_enumerated, hnames.length_eq]
      · exact hnames.length_eq.symm

theorem assembled_apply (hl : labels ∨ c.PlainLabel) :
    Assembled engine labels (c.apply engine m inputs) (c.Yields engine m inputs) := by
  unfold apply
  split
  · next hop => exact assembled_applyLabel m c inputs (eq_of_beq hop) hl
  · next hop =>
      have hne : c.operator ≠ .label := fun h => hop (by rw [h]; rfl)
      split
      · next hg => exact assembled_applyEach m c inputs hne hg
      · next hg => exact assembled_applySet m c inputs hne hg
      · next hg => exact assembled_applySlices m c inputs hne hg

end Call

/-! ## Expressions -/

/-- The calls of a text, of the insides of its calls, and so on. -/
inductive CallWithin : Text → Call → Prop
  /-- A call of the text. -/
  | here {text : Text} {e : Expression} {call : Call} : Expression.parse text = .ok e →
      call ∈ e.calls → CallWithin text call
  /-- A call within the inside of one. -/
  | deeper {text : Text} {e : Expression} {outer call : Call} : Expression.parse text = .ok e →
      outer ∈ e.calls → CallWithin outer.inner call → CallWithin text call

theorem CallWithin.inv {text : Text} {e : Expression} {call : Call} (h : CallWithin text call)
    (he : Expression.parse text = .ok e) :
    ∃ outer ∈ e.calls, call = outer ∨ CallWithin outer.inner call := by
  cases h with
  | here he' hc =>
      cases he.symm.trans he'
      exact ⟨call, hc, .inl rfl⟩
  | @deeper _ _ outer _ he' hc hin =>
      cases he.symm.trans he'
      exact ⟨outer, hc, .inr hin⟩

theorem CallWithin.not_of_no_calls {text : Text} {e : Expression}
    (he : Expression.parse text = .ok e) (hcalls : e.calls = []) {call : Call} :
    ¬ CallWithin text call := by
  intro h
  obtain ⟨outer, hmem, -⟩ := h.inv he
  rw [hcalls] at hmem
  cases hmem

/-- A call without calls inside is all there is. -/
theorem CallWithin.eq_of_single {text : Text} {call c : Call} {remainder remainder' : Text}
    (h : CallWithin text c) (hone : Expression.parse text = .ok ⟨[call], remainder⟩)
    (hnone : Expression.parse call.inner = .ok ⟨[], remainder'⟩) : c = call := by
  obtain ⟨outer, hmem, hc⟩ := h.inv hone
  rw [List.mem_singleton.mp hmem] at hc
  exact hc.resolve_right (CallWithin.not_of_no_calls hnone rfl)

namespace Expression

/-- The series of calls with those of the literal targets after them, if there are any. -/
def WithLiterals (engine : Engine) (m : Material) (e : Expression) (called out : List Series) :
    Prop :=
  (e.remainder = [] ∧ out = called) ∨ e.remainder ≠ [] ∧ ∃ targets,
    Resolver.resolve engine.catalog engine.layout e.remainder = .ok targets
      ∧ out = called ++ targets.series m.data

/-- What an expression yields with calls nested at most `depth` deep: what its calls yield for
what their insides do, then the series of its literal targets. -/
def YieldsFrom (engine : Engine) (m : Material) : Nat → Text → List Series → Prop
  | 0, text, out => ∃ e, parse text = .ok e ∧ e.WithLiterals engine m [] out
  | depth + 1, text, out => ∃ e called, parse text = .ok e
      ∧ List.Forall₂ (fun call series => ∃ inputs,
          YieldsFrom engine m depth call.inner inputs ∧ call.Yields engine m inputs series)
        e.calls called
      ∧ e.WithLiterals engine m called.flatten out

/-- What an expression yields. -/
def Yields (engine : Engine) (m : Material) (text : Text) (out : List Series) : Prop :=
  YieldsFrom engine m (parens text) text out

variable {engine : Engine} {labels : Prop}

theorem assembled_literals (m : Material) (e : Expression) (called : List Series) :
    Assembled engine labels
      (if e.remainder.isEmpty then return called else do
        let targets ← Step.resolve engine e.remainder
        return called ++ targets.series m.data) (e.WithLiterals engine m called) := by
  split
  · next h => exact .pure (.inl ⟨List.isEmpty_iff.mp h, rfl⟩)
  · next h =>
      have hne : e.remainder ≠ [] := fun he => h (List.isEmpty_iff.mpr he)
      exact .bind (.resolve _) fun targets ht => .pure (.inr ⟨hne, targets, ht, rfl⟩)

/-- A call over whatever series its inside is evaluated to. -/
theorem assembled_called (m : Material) (call : Call) {inner : Step (List Series)}
    {post : List Series → Prop} (hinner : Assembled engine labels inner post)
    (hl : labels ∨ call.PlainLabel) :
    Assembled engine labels (do Step.checkPatience; call.apply engine m (← inner))
      fun series => ∃ inputs, post inputs ∧ call.Yields engine m inputs series :=
  .bind .patience fun _ _ => .bind hinner fun inputs hin =>
    .mono (call.assembled_apply m inputs hl) fun _ hs => ⟨inputs, hin, hs⟩

theorem assembled_evaluateFrom (m : Material) (depth : Nat) (text : Text)
    (hl : labels ∨ ∀ call, CallWithin text call → call.PlainLabel) :
    Assembled engine labels (evaluateFrom engine m depth text)
      (YieldsFrom engine m depth text) := by
  induction depth generalizing text with
  | zero =>
      unfold evaluateFrom
      refine .bind (.parse text) fun e he => ?_
      exact .mono (assembled_literals m e []) fun out hout => ⟨e, he, hout⟩
  | succ depth ih =>
      unfold evaluateFrom
      refine .bind (.parse text) fun e he => ?_
      have hcall : ∀ call ∈ e.calls, Assembled engine labels
          (do
            Step.checkPatience
            call.apply engine m (← evaluateFrom engine m depth call.inner))
          fun series => ∃ inputs,
            YieldsFrom engine m depth call.inner inputs ∧ call.Yields engine m inputs series := by
        intro call hc
        have hinner : labels ∨ ∀ c, CallWithin call.inner c → c.PlainLabel :=
          hl.imp id fun h c hw => h c (.deeper he hc hw)
        have hplain : labels ∨ call.PlainLabel := hl.imp id fun h => h call (.here he hc)
        exact assembled_called m call (ih call.inner hinner) hplain
      refine .bind (.mapM hcall) fun called hcalled => ?_
      exact .mono (assembled_literals m e called.flatten) fun out hout =>
        ⟨e, called, he, hcalled, hout⟩

/-- The literal targets of an expression, added to a plan. -/
theorem assembled_addLiterals (e : Expression) (p : Plan) : Assembled engine labels
    (if e.remainder.isEmpty then return p else
      return p.addTargets (← Step.resolve engine e.remainder)) fun _ => True := by
  split
  · exact .pure trivial
  · exact .bind (.resolve _) fun targets _ => .pure trivial

theorem assembled_collectFrom (depth : Nat) (p : Plan) (text : Text) :
    Assembled engine labels (Plan.collectFrom engine depth p text) fun _ => True := by
  induction depth generalizing p text with
  | zero =>
      unfold Plan.collectFrom
      exact .bind (.parse text) fun e _ => assembled_addLiterals e p
  | succ depth ih =>
      unfold Plan.collectFrom
      refine .bind (.parse text) fun e _ => ?_
      exact .bind (.foldlM (fun p call _ => ih (p.addCall call) call.inner) p) fun p _ =>
        assembled_addLiterals e p

theorem assembled_execute (range : TimeRange) (hints : FetchHints) (quality : QualityFilter)
    (text : Text) (hl : labels ∨ ∀ call, CallWithin text call → call.PlainLabel) :
    Assembled engine labels (execute engine range hints quality text) fun out =>
      ∃ m, Yields engine m text out := by
  unfold execute Plan.collect evaluate
  refine .bind .patience fun _ _ => ?_
  refine .bind (assembled_collectFrom _ _ text) fun plan _ => ?_
  refine .bind (.fetch plan range hints quality) fun data _ => ?_
  exact .mono (assembled_evaluateFrom _ _ text hl) fun out hout => ⟨_, hout⟩

end Expression

/-! ## Requests -/

namespace TargetRequest

/-- A target whose labels put nothing in. -/
def PlainLabels (t : TargetRequest) : Prop :=
  ∀ call, CallWithin (Commands.extract t.expression).2 call → call.PlainLabel

variable {engine : Engine} {labels : Prop} (frame : RequestFrame) (t : TargetRequest)

theorem assembled_evaluate (hl : labels ∨ t.PlainLabels) :
    Assembled engine labels (t.evaluate engine frame) fun _ => True := by
  unfold evaluate
  dsimp only
  split
  · exact .pure trivial
  · exact .bind (Expression.assembled_execute _ _ _ _ hl) fun series _ => .pure trivial

theorem assembled_answer (hl : labels ∨ t.PlainLabels) :
    Assembled engine labels (t.answer engine frame) fun _ => True := by
  unfold answer
  refine .rescue (assembled_evaluate frame t hl) (fun f hf => ?_) rfl
  split
  · exact .fault hf
  · exact .pure trivial

end TargetRequest

theorem Request.assembled_answers (engine : Engine) (r : Request) :
    Assembled engine True (r.answers engine) fun _ => True := by
  unfold Request.answers
  refine .bind (.lift (r.faultsIn_frame.ne_error (by decide))) fun frame _ => ?_
  exact .mono (.mapM fun t _ => .outcome (t.assembled_answer frame (.inl trivial)))
    fun answers _ => trivial

/-- To put answers together leaves the session as it is. -/
theorem Request.after_answer (engine : Engine) (r : Request) (s : Session) :
    (r.answer engine).after s = (r.answers engine).after s := by
  unfold Request.answer
  cases h : (r.answers engine).result s with
  | error f => exact Step.after_bind_error h
  | ok answers => exact (Step.after_bind_ok h).trans (Step.after_ofExcept _ _)

end SeriesQuery
