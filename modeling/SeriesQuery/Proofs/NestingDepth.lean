import SeriesQuery.CommandLine.Report
import SeriesQuery.Proofs.PlannedEvaluation

/-!
# How deep calls nest

Planning, evaluating and printing read the insides of calls again, and the insides of the calls in
them. The inside of a call may be longer than the text it was read from, because a space is put
behind every comma between its fields. It has fewer opening parentheses: the one in front of the
call is gone, and scanning, splitting, trimming and joining make no others. So the reading ends,
and their number bounds how deep it goes.

The three functions carry a bound. `NestsWithin` says without it that reading insides ends, and how
deep it goes. A bound that covers the depth makes no difference: it is reached only where there are
no calls left to read.
-/

namespace SeriesQuery

/-- Reading the insides of calls again, and of the calls in them, ends with calls nested at most so
deep. -/
inductive NestsWithin : Nat → Text → Prop
  /-- There are no calls. -/
  | flat {n : Nat} {text : Text} :
      (∀ e, Expression.parse text = .ok e → e.calls = []) → NestsWithin n text
  /-- The insides of the calls nest less deep. -/
  | deeper {n : Nat} {text : Text} :
      (∀ e, Expression.parse text = .ok e → ∀ call ∈ e.calls, NestsWithin n call.inner) →
      NestsWithin (n + 1) text

/-- Calls nest no deeper than there are opening parentheses. -/
theorem nestsWithin_of_parens_le {n : Nat} {text : Text} (h : parens text ≤ n) :
    NestsWithin n text := by
  induction n generalizing text with
  | zero => exact .flat fun e he => Plan.no_calls he h
  | succ n ih =>
      refine .deeper fun e he call hc => ih ?_
      have hlt := parens_inner_lt he hc
      omega

/-! ## Printing -/

namespace CommandLine

theorem printTreeFrom_flat {text : Text}
    (h : ∀ e, Expression.parse text = .ok e → e.calls = []) (depth level : Nat) :
    printTreeFrom depth level text = printTreeFrom 0 level text := by
  cases depth with
  | zero => rfl
  | succ depth =>
      unfold printTreeFrom
      cases he : Expression.parse text with
      | error f => rfl
      | ok e =>
          dsimp only
          rw [h e he]
          rfl

theorem printTreeFrom_congr {n : Nat} {text : Text} (h : NestsWithin n text) {depth : Nat}
    (hdepth : n ≤ depth) (level : Nat) :
    printTreeFrom depth level text = printTreeFrom n level text := by
  induction h generalizing depth level with
  | flat hflat =>
      exact (printTreeFrom_flat hflat _ level).trans (printTreeFrom_flat hflat _ level).symm
  | @deeper n text _ ih =>
      obtain ⟨depth, rfl⟩ : ∃ d, depth = d + 1 := ⟨depth - 1, by omega⟩
      unfold printTreeFrom
      cases he : Expression.parse text with
      | error f => rfl
      | ok e =>
          dsimp only
          congr 1
          refine List.foldl_ext _ _ _ fun printed call hc => ?_
          rw [ih e he call hc (by omega) (level + 1)]

end CommandLine

/-! ## Planning -/

namespace Plan

variable {engine : Engine}

theorem collectFrom_flat {text : Text}
    (h : ∀ e, Expression.parse text = .ok e → e.calls = []) (depth : Nat) (p : Plan) :
    Step.Agree engine (collectFrom engine depth p text) (collectFrom engine 0 p text) := by
  cases depth with
  | zero => exact .refl _
  | succ depth =>
      unfold collectFrom
      refine .bind_of_keeps (Assembled.parse text).keeps (.refl _) fun e he => ?_
      rw [h e he]
      exact .refl _

theorem collectFrom_congr {n : Nat} {text : Text} (h : NestsWithin n text) {depth : Nat}
    (hdepth : n ≤ depth) (p : Plan) :
    Step.Agree engine (collectFrom engine depth p text) (collectFrom engine n p text) := by
  induction h generalizing depth p with
  | flat hflat => exact (collectFrom_flat hflat depth p).trans (collectFrom_flat hflat _ p).symm
  | @deeper n text _ ih =>
      obtain ⟨depth, rfl⟩ : ∃ d, depth = d + 1 := ⟨depth - 1, by omega⟩
      unfold collectFrom
      refine .bind_of_keeps (Assembled.parse text).keeps (.refl _) fun e he => ?_
      refine .andThen (.foldlM_of_keeps (fun p call _ => ?_) (fun p call hc => ?_) p) _
      · exact (Expression.assembled_collectFrom _ _ _).keeps
      · exact ih e he call hc (by omega) (p.addCall call)

end Plan

/-! ## Evaluating -/

namespace Expression

variable {engine : Engine}

theorem evaluateFrom_flat (m : Material) {text : Text}
    (h : ∀ e, parse text = .ok e → e.calls = []) (depth : Nat) :
    Step.Agree engine (evaluateFrom engine m depth text) (evaluateFrom engine m 0 text) := by
  cases depth with
  | zero => exact .refl _
  | succ depth =>
      unfold evaluateFrom
      refine .bind_of_keeps (Assembled.parse text).keeps (.refl _) fun e he => ?_
      rw [h e he]
      exact .refl _

theorem evaluateFrom_congr (m : Material) {n : Nat} {text : Text} (h : NestsWithin n text)
    {depth : Nat} (hdepth : n ≤ depth) :
    Step.Agree engine (evaluateFrom engine m depth text) (evaluateFrom engine m n text) := by
  induction h generalizing depth with
  | flat hflat => exact (evaluateFrom_flat m hflat depth).trans (evaluateFrom_flat m hflat _).symm
  | @deeper n text _ ih =>
      obtain ⟨depth, rfl⟩ : ∃ d, depth = d + 1 := ⟨depth - 1, by omega⟩
      have hinside : ∀ (call : Call) (d : Nat), Assembled engine True (do
          Step.checkPatience
          call.apply engine m (← evaluateFrom engine m d call.inner)) fun _ => True := by
        intro call d
        refine .bind .patience fun _ _ => .bind (assembled_evaluateFrom m d _ (.inl trivial)) ?_
        exact fun inputs _ =>
          .mono (call.assembled_apply m inputs (.inl trivial)) fun _ _ => trivial
      unfold evaluateFrom
      refine .bind_of_keeps (Assembled.parse text).keeps (.refl _) fun e he => ?_
      refine .andThen (.mapM_of_keeps (fun call _ => (hinside call depth).keeps)
        fun call hc => ?_) _
      refine .bind_of_keeps (Assembled.patience).keeps (.refl _) fun _ _ => ?_
      exact .andThen (ih e he call hc (by omega)) _

end Expression

/-! ## Reading insides ends -/

namespace Expression

/-- The inside of a call may have more bytes than the text that holds the call. -/
theorem inner_longer : ∃ text e call, parse text = .ok e ∧ call ∈ e.calls
    ∧ Text.utf8Size text < Text.utf8Size call.inner := by
  have h : parse (Text.of "Sum(a,b,c,d,e,f,g)")
      = .ok ⟨[⟨.each, .total, [], Text.of "a, b, c, d, e, f, g"⟩], []⟩ := by
    rw [parse, scan_eq]
    decide +kernel
  exact ⟨_, _, _, h, List.mem_cons_self, by decide⟩

/-- The inside of a call has fewer opening parentheses than the text that holds it, though it may
have more bytes. So reading insides again ends, with calls nested no deeper than the text has
opening parentheses, and to print, plan or evaluate an expression under a larger bound than that
comes to the same. -/
theorem insides_end :
    (∃ text e call, parse text = .ok e ∧ call ∈ e.calls
        ∧ Text.utf8Size text < Text.utf8Size call.inner)
      ∧ ∀ text, (∀ e call, parse text = .ok e → call ∈ e.calls →
            parens call.inner < parens text)
          ∧ NestsWithin (parens text) text
          ∧ ∀ depth, parens text ≤ depth →
            (∀ level, CommandLine.printTreeFrom depth level text
                = CommandLine.printTreeFrom (parens text) level text)
              ∧ (∀ engine p, Step.Agree engine (Plan.collectFrom engine depth p text)
                  (Plan.collectFrom engine (parens text) p text))
              ∧ ∀ engine m, Step.Agree engine (evaluateFrom engine m depth text)
                  (evaluate engine m text) := by
  refine ⟨inner_longer, fun text => ?_⟩
  have hnests : NestsWithin (parens text) text := nestsWithin_of_parens_le (le_refl _)
  refine ⟨fun e call he hc => parens_inner_lt he hc, hnests, fun depth hdepth => ⟨?_, ?_, ?_⟩⟩
  · exact CommandLine.printTreeFrom_congr hnests hdepth
  · exact fun engine => Plan.collectFrom_congr hnests hdepth
  · exact fun engine m => evaluateFrom_congr m hnests hdepth

/-- Two calls, one in the other. -/
theorem insides_end_two_calls :
    let text := Text.of "Average(Maximum(PPA:1))"
    parens (Text.of "Maximum(PPA:1)") < parens text ∧ NestsWithin 2 text
      ∧ CommandLine.printTreeFrom 9 0 text = CommandLine.printTreeFrom 2 0 text := by
  intro text
  have hparse : parse text
      = .ok ⟨[⟨.each, .average, [], Text.of "Maximum(PPA:1)"⟩], []⟩ := by
    rw [parse, scan_eq]
    decide +kernel
  have htwo : parens text = 2 := by decide
  obtain ⟨hfewer, hnests, hbound⟩ := insides_end.2 text
  obtain ⟨hprint, -, -⟩ := hbound 9 (by rw [htwo]; decide)
  rw [htwo] at hnests hprint
  exact ⟨hfewer _ _ hparse List.mem_cons_self, hnests, hprint 0⟩

end Expression

end SeriesQuery
