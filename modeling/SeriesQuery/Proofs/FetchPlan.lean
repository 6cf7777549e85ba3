import SeriesQuery.Proofs.CacheTransparency

/-!
# What planning finds

Planning goes through an expression, the insides of its calls and the insides of theirs, and
resolves the literal targets of each. These are the parts of the expression, and what is said here
is said of them, in no order but that of the faults: either every part can be read and resolved,
and then the plan holds the keys of all of them, each once, or there is a first fault, and then it
is the fault of the plan.

Planning asks the source nothing and never looks whether the caller waits. Both are part of what
`Step.Answers` says, so that a plan leaves the one question to the fetch.
-/

namespace SeriesQuery

/-! ## The parts of an expression -/

/-- A text, the insides of its calls, those of the calls in them, and so on. -/
inductive Part : Text → Text → Prop
  | whole (text : Text) : Part text text
  | inside {text part : Text} {e : Expression} {call : Call} : Expression.parse text = .ok e →
      call ∈ e.calls → Part call.inner part → Part text part

/-- A part that cannot be read, or whose literal targets cannot be resolved. -/
inductive PartFault (engine : Engine) (part : Text) : Fault → Prop
  | parse {f : Fault} : Expression.parse part = .error f → PartFault engine part f
  | resolve {e : Expression} {f : Fault} : Expression.parse part = .ok e → e.remainder ≠ [] →
      Resolver.resolve engine.catalog engine.layout e.remainder = .error f →
      PartFault engine part f

/-- The series of a key is among the literal targets of a part. -/
inductive PartReads (engine : Engine) (part key : Text) : Prop
  | intro {e : Expression} {targets : Targets} : Expression.parse part = .ok e →
      e.remainder ≠ [] →
      Resolver.resolve engine.catalog engine.layout e.remainder = .ok targets →
      key ∈ targets.keys → PartReads engine part key

/-- The samples of a key are read for a literal target anywhere in the expression. -/
def Reads (engine : Engine) (text key : Text) : Prop :=
  ∃ part, Part text part ∧ PartReads engine part key

/-- No part of the expression has a fault. -/
def Planned (engine : Engine) (text : Text) : Prop :=
  ∀ part, Part text part → ∀ f, ¬ PartFault engine part f

/-- The fault that is met first: insides of calls come in order, and before the literal targets
beside the calls. -/
inductive FirstFault (engine : Engine) : Text → Fault → Prop
  | parse {text : Text} {f : Fault} : Expression.parse text = .error f →
      FirstFault engine text f
  | inside {text : Text} {e : Expression} {before after : List Call} {call : Call} {f : Fault} :
      Expression.parse text = .ok e → e.calls = before ++ call :: after →
      (∀ c ∈ before, Planned engine c.inner) → FirstFault engine call.inner f →
      FirstFault engine text f
  | resolve {text : Text} {e : Expression} {f : Fault} : Expression.parse text = .ok e →
      (∀ c ∈ e.calls, Planned engine c.inner) → e.remainder ≠ [] →
      Resolver.resolve engine.catalog engine.layout e.remainder = .error f →
      FirstFault engine text f

variable {engine : Engine}

/-- It is the fault of a part. -/
theorem FirstFault.exists_part {text : Text} {f : Fault} (h : FirstFault engine text f) :
    ∃ part, Part text part ∧ PartFault engine part f := by
  induction h with
  | parse he => exact ⟨_, .whole _, .parse he⟩
  | inside he hcalls _ _ ih =>
      obtain ⟨part, hpart, hf⟩ := ih
      refine ⟨part, .inside he ?_ hpart, hf⟩
      rw [hcalls]
      exact List.mem_append_right _ List.mem_cons_self
  | resolve he _ hne hf => exact ⟨_, .whole _, .resolve he hne hf⟩

/-- What it takes for an expression to have no faults. -/
theorem planned_iff {text : Text} : Planned engine text ↔ ∃ e, Expression.parse text = .ok e
    ∧ (∀ call ∈ e.calls, Planned engine call.inner)
    ∧ (e.remainder ≠ [] → ∃ targets,
        Resolver.resolve engine.catalog engine.layout e.remainder = .ok targets) := by
  constructor
  · intro h
    cases he : Expression.parse text with
    | error f => exact absurd (.parse he) (h text (.whole text) f)
    | ok e =>
        refine ⟨e, rfl, fun call hc part hpart => h part (.inside he hc hpart), fun hne => ?_⟩
        cases hr : Resolver.resolve engine.catalog engine.layout e.remainder with
        | error f => exact absurd (.resolve he hne hr) (h text (.whole text) f)
        | ok targets => exact ⟨targets, rfl⟩
  · rintro ⟨e, he, hcalls, htargets⟩ part hpart f hf
    cases hpart with
    | whole =>
        cases hf with
        | parse he' =>
            rw [he] at he'
            cases he'
        | resolve he' hne hr =>
            cases he.symm.trans he'
            obtain ⟨targets, hok⟩ := htargets hne
            rw [hok] at hr
            cases hr
    | inside he' hc hpart =>
        cases he.symm.trans he'
        exact hcalls _ hc part hpart f hf

/-- The first entry of a list of which something does not hold. -/
theorem exists_first_not {α : Type} {p : α → Prop} {l : List α} (h : ¬ ∀ a ∈ l, p a) :
    ∃ before a after, l = before ++ a :: after ∧ (∀ b ∈ before, p b) ∧ ¬ p a := by
  induction l with
  | nil => exact absurd (fun a ha => absurd ha List.not_mem_nil) h
  | cons b l ih =>
      by_cases hb : p b
      · obtain ⟨before, a, after, rfl, hbefore, ha⟩ :=
          ih fun hl => h (List.forall_mem_cons.mpr ⟨hb, hl⟩)
        exact ⟨b :: before, a, after, rfl, List.forall_mem_cons.mpr ⟨hb, hbefore⟩, ha⟩
      · exact ⟨[], b, l, rfl, fun c hc => absurd hc List.not_mem_nil, hb⟩

/-- An expression with a fault has a first one. -/
theorem exists_firstFault {text : Text} (h : ¬ Planned engine text) :
    ∃ f, FirstFault engine text f := by
  induction hn : parens text using Nat.strongRecOn generalizing text with
  | ind n ih =>
      cases he : Expression.parse text with
      | error f => exact ⟨f, .parse he⟩
      | ok e =>
          by_cases hcalls : ∀ call ∈ e.calls, Planned engine call.inner
          · cases hr : Resolver.resolve engine.catalog engine.layout e.remainder with
            | error f =>
                refine ⟨f, .resolve he hcalls (fun hnil => ?_) hr⟩
                exact h (planned_iff.mpr ⟨e, he, hcalls, fun hne => absurd hnil hne⟩)
            | ok targets =>
                exact absurd (planned_iff.mpr ⟨e, he, hcalls, fun _ => ⟨targets, hr⟩⟩) h
          · obtain ⟨before, call, after, hsplit, hbefore, hcall⟩ := exists_first_not hcalls
            have hmem : call ∈ e.calls := by
              rw [hsplit]
              exact List.mem_append_right _ List.mem_cons_self
            obtain ⟨f, hf⟩ := ih _ (hn ▸ parens_inner_lt he hmem) hcall rfl
            exact ⟨f, .inside he hsplit hbefore hf⟩

/-- The keys of an expression are those of its literal targets and of its calls. -/
theorem reads_iff {text key : Text} {e : Expression} (he : Expression.parse text = .ok e) :
    Reads engine text key ↔ (∃ call ∈ e.calls, Reads engine call.inner key)
      ∨ e.remainder ≠ [] ∧ ∃ targets,
        Resolver.resolve engine.catalog engine.layout e.remainder = .ok targets
          ∧ key ∈ targets.keys := by
  constructor
  · rintro ⟨part, hpart, hreads⟩
    cases hpart with
    | whole =>
        obtain ⟨he', hne, hr, hkey⟩ := hreads
        cases he.symm.trans he'
        exact .inr ⟨hne, _, hr, hkey⟩
    | inside he' hc hpart =>
        cases he.symm.trans he'
        exact .inl ⟨_, hc, part, hpart, hreads⟩
  · rintro (⟨call, hc, part, hpart, hreads⟩ | ⟨hne, targets, hr, hkey⟩)
    · exact ⟨part, .inside he hc hpart, hreads⟩
    · exact ⟨text, .whole text, .intro he hne hr hkey⟩

/-! ## Steps that only read and resolve -/

/-- A step that gives the same from every session with sound caches, asks the source nothing and
never looks whether the caller waits. -/
def Step.Answers (engine : Engine) {α : Type} (p : Step α) (x : Except Fault α) : Prop :=
  ∀ s : Session, s.Sound engine.catalog engine.layout → p.result s = x
    ∧ (p.after s).Sound engine.catalog engine.layout
    ∧ (p.after s).fetches = s.fetches ∧ (p.after s).patience = s.patience

namespace Step.Answers

variable {α β : Type}

theorem pure (a : α) : Answers engine (pure a) (.ok a) := fun _ hs => ⟨rfl, hs, rfl, rfl⟩

theorem parse {text : Text} {x : Except Fault Expression} (h : Expression.parse text = x) :
    Answers engine (Step.parse text) x := by
  intro s hs
  obtain ⟨hval, hsound⟩ := hs.parse text
  refine ⟨hval.trans h, hsound, ?_⟩
  rw [after_parse]
  exact ⟨rfl, rfl⟩

theorem resolve {text : Text} {x : Except Fault Targets}
    (h : Resolver.resolve engine.catalog engine.layout text = x) :
    Answers engine (Step.resolve engine text) x := by
  intro s hs
  obtain ⟨hval, hsound⟩ := hs.resolve text
  refine ⟨hval.trans h, hsound, ?_⟩
  rw [after_resolve]
  exact ⟨rfl, rfl⟩

theorem bind {p : Step α} {k : α → Step β} {a : α} {x : Except Fault β}
    (hp : Answers engine p (.ok a)) (hk : Answers engine (k a) x) :
    Answers engine (p >>= k) x := by
  intro s hs
  obtain ⟨hval, hsound, hfetches, hpatience⟩ := hp s hs
  obtain ⟨hval', hsound', hfetches', hpatience'⟩ := hk _ hsound
  rw [result_bind_ok hval, after_bind_ok hval]
  exact ⟨hval', hsound', hfetches'.trans hfetches, hpatience'.trans hpatience⟩

theorem bind_error {p : Step α} {k : α → Step β} {f : Fault}
    (hp : Answers engine p (.error f)) : Answers engine (p >>= k) (.error f) := by
  intro s hs
  obtain ⟨hval, hrest⟩ := hp s hs
  rw [result_bind_error hval, after_bind_error hval]
  exact ⟨rfl, hrest⟩

theorem foldlM_error {γ : Type} {f : β → γ → Step β} {before after : List γ} {c : γ} {fault : Fault}
    (hbefore : ∀ b, ∀ d ∈ before, ∃ b', Answers engine (f b d) (.ok b'))
    (hc : ∀ b, Answers engine (f b c) (.error fault)) (b : β) :
    Answers engine ((before ++ c :: after).foldlM f b) (.error fault) := by
  induction before generalizing b with
  | nil =>
      rw [List.nil_append, List.foldlM_cons]
      exact bind_error (hc b)
  | cons d before ih =>
      obtain ⟨b', hb'⟩ := hbefore b d List.mem_cons_self
      rw [List.cons_append, List.foldlM_cons]
      exact bind hb' (ih (fun b d hd => hbefore b d (List.mem_cons_of_mem _ hd)) b')

end Step.Answers

/-! ## Keys -/

namespace Plan

theorem mem_addKeys {keys more : List Text} {key : Text} :
    key ∈ addKeys keys more ↔ key ∈ keys ∨ key ∈ more := by
  induction more generalizing keys with
  | nil => simp [addKeys]
  | cons first more ih =>
      rw [addKeys, ih]
      split
      · next hc =>
          have hmem := List.contains_iff_mem.mp hc
          constructor
          · exact fun h => h.imp id (List.mem_cons_of_mem _)
          · rintro (h | h)
            · exact .inl h
            · rcases List.mem_cons.mp h with rfl | h
              · exact .inl hmem
              · exact .inr h
      · simp [or_assoc]

theorem nodup_addKeys {keys more : List Text} (h : keys.Nodup) : (addKeys keys more).Nodup := by
  induction more generalizing keys with
  | nil => exact h
  | cons first more ih =>
      rw [addKeys]
      split
      · exact ih h
      · next hc =>
          refine ih (List.nodup_append.mpr ⟨h, List.pairwise_singleton _ first, ?_⟩)
          intro a ha b hb hab
          rw [hab, List.mem_singleton.mp hb] at ha
          exact hc (List.contains_iff_mem.mpr ha)

/-- A plan with more keys, still each once. -/
structure Extends (p p' : Plan) (more : Text → Prop) : Prop where
  /-- No key is there twice. -/
  nodup : p.keys.Nodup → p'.keys.Nodup
  /-- The keys are those before and the further ones. -/
  keys_iff : ∀ key, key ∈ p'.keys ↔ key ∈ p.keys ∨ more key

namespace Extends

theorem refl (p : Plan) : Extends p p fun _ => False :=
  ⟨id, fun _ => by rw [or_false]⟩

theorem trans {p p' p'' : Plan} {more more' : Text → Prop} (h : Extends p p' more)
    (h' : Extends p' p'' more') : Extends p p'' fun key => more key ∨ more' key :=
  ⟨fun hn => h'.nodup (h.nodup hn), fun key => by rw [h'.keys_iff, h.keys_iff, or_assoc]⟩

theorem congr {p p' : Plan} {more more' : Text → Prop} (h : Extends p p' more)
    (he : ∀ key, more key ↔ more' key) : Extends p p' more' :=
  ⟨h.nodup, fun key => by rw [h.keys_iff, he]⟩

theorem addTargets (p : Plan) (m : Targets) : Extends p (p.addTargets m) (· ∈ m.keys) :=
  ⟨nodup_addKeys, fun _ => mem_addKeys⟩

end Extends

/-! ## Plans -/

theorem foldlM_extends {f : Plan → Call → Step Plan} {reads : Call → Text → Prop} {l : List Call}
    (h : ∀ p, ∀ c ∈ l, ∃ p', Step.Answers engine (f p c) (.ok p') ∧ Extends p p' (reads c))
    (p : Plan) : ∃ p', Step.Answers engine (l.foldlM f p) (.ok p')
      ∧ Extends p p' fun key => ∃ c ∈ l, reads c key := by
  induction l generalizing p with
  | nil => exact ⟨p, .pure p, (Extends.refl p).congr fun key => by simp⟩
  | cons c l ih =>
      obtain ⟨p₁, hans, hext⟩ := h p c List.mem_cons_self
      obtain ⟨p₂, hans', hext'⟩ := ih (fun p d hd => h p d (List.mem_cons_of_mem _ hd)) p₁
      rw [List.foldlM_cons]
      exact ⟨p₂, .bind hans hans', (hext.trans hext').congr fun key => by simp⟩

/-- The literal targets beside the calls. -/
theorem literals_extends {e : Expression} (h : e.remainder ≠ [] → ∃ targets,
      Resolver.resolve engine.catalog engine.layout e.remainder = .ok targets) (p : Plan) :
    ∃ p', Step.Answers engine (if e.remainder.isEmpty then return p else
        return p.addTargets (← Step.resolve engine e.remainder)) (.ok p')
      ∧ Extends p p' fun key => e.remainder ≠ [] ∧ ∃ targets,
        Resolver.resolve engine.catalog engine.layout e.remainder = .ok targets
          ∧ key ∈ targets.keys := by
  by_cases hnil : e.remainder = []
  · rw [if_pos (List.isEmpty_iff.mpr hnil)]
    exact ⟨p, .pure p, (Extends.refl p).congr fun key => by simp [hnil]⟩
  · obtain ⟨targets, hr⟩ := h hnil
    rw [if_neg fun he => hnil (List.isEmpty_iff.mp he)]
    refine ⟨p.addTargets targets, .bind (.resolve hr) (.pure _), ?_⟩
    exact (Extends.addTargets p targets).congr fun key => by simp [hnil, hr]

theorem no_calls {text : Text} {e : Expression} (he : Expression.parse text = .ok e)
    (h : parens text ≤ 0) : e.calls = [] := by
  refine List.eq_nil_iff_forall_not_mem.mpr fun call hc => ?_
  have hlt := parens_inner_lt he hc
  omega

/-- The plan of an expression without faults holds its keys besides those before. -/
theorem collectFrom_planned {depth : Nat} {text : Text} (h : Planned engine text)
    (hdepth : parens text ≤ depth) (p : Plan) :
    ∃ p', Step.Answers engine (collectFrom engine depth p text) (.ok p')
      ∧ Extends p p' (Reads engine text) := by
  induction depth generalizing p text with
  | zero =>
      obtain ⟨e, he, -, htargets⟩ := planned_iff.mp h
      obtain ⟨p', hans, hext⟩ := literals_extends htargets p
      unfold collectFrom
      refine ⟨p', .bind (.parse he) (.bind (.pure p) hans), hext.congr fun key => ?_⟩
      rw [reads_iff he, no_calls he hdepth]
      simp
  | succ depth ih =>
      obtain ⟨e, he, hcalls, htargets⟩ := planned_iff.mp h
      have hinside : ∀ p, ∀ call ∈ e.calls, ∃ p',
          Step.Answers engine (collectFrom engine depth (p.addCall call) call.inner) (.ok p')
            ∧ Extends p p' (Reads engine call.inner) := by
        intro p call hc
        have hlt := parens_inner_lt he hc
        obtain ⟨p', hans, hext⟩ := ih (hcalls call hc) (by omega) (p.addCall call)
        exact ⟨p', hans, hext.nodup, hext.keys_iff⟩
      obtain ⟨p₁, hans₁, hext₁⟩ := foldlM_extends hinside p
      obtain ⟨p₂, hans₂, hext₂⟩ := literals_extends htargets p₁
      unfold collectFrom
      refine ⟨p₂, .bind (.parse he) (.bind hans₁ hans₂), ?_⟩
      exact (hext₁.trans hext₂).congr fun key => (reads_iff he).symm

theorem collectFrom_inside {depth : Nat} {text : Text} {e : Expression} {call : Call}
    (he : Expression.parse text = .ok e) (hc : call ∈ e.calls) (h : Planned engine call.inner)
    (hdepth : parens text ≤ depth + 1) (p : Plan) :
    ∃ p', Step.Answers engine (collectFrom engine depth (p.addCall call) call.inner) (.ok p')
      ∧ Extends p p' (Reads engine call.inner) := by
  have hlt := parens_inner_lt he hc
  have hle : parens call.inner ≤ depth := by omega
  obtain ⟨p', hans, hext⟩ := collectFrom_planned h hle (p.addCall call)
  exact ⟨p', hans, hext.nodup, hext.keys_iff⟩

/-- The first fault of an expression is the fault of its plan. -/
theorem collectFrom_fault {depth : Nat} {text : Text} {f : Fault} (h : FirstFault engine text f)
    (hdepth : parens text ≤ depth) (p : Plan) :
    Step.Answers engine (collectFrom engine depth p text) (.error f) := by
  induction h generalizing depth p with
  | @parse text f he =>
      unfold collectFrom
      exact .bind_error (.parse he)
  | @inside text e before after call f he hsplit hbefore _ ih =>
      have hmem : ∀ c, c ∈ before ∨ c = call → c ∈ e.calls := by
        intro c hc
        rw [hsplit]
        rcases hc with hc | rfl
        · exact List.mem_append_left _ hc
        · exact List.mem_append_right _ List.mem_cons_self
      have hlt := parens_inner_lt he (hmem call (.inr rfl))
      obtain ⟨depth, rfl⟩ : ∃ d, depth = d + 1 := ⟨depth - 1, by omega⟩
      have hcall : ∀ p : Plan, Step.Answers engine
          (collectFrom engine depth (p.addCall call) call.inner) (.error f) :=
        fun p => ih (by omega) (p.addCall call)
      unfold collectFrom
      refine .bind (.parse he) (.bind_error ?_)
      rw [hsplit]
      refine .foldlM_error
        (f := fun p call => collectFrom engine depth (p.addCall call) call.inner)
        (fun p c hc => ?_) hcall p
      obtain ⟨p', hans, -⟩ := collectFrom_inside he (hmem c (.inl hc)) (hbefore c hc) hdepth p
      exact ⟨p', hans⟩
  | @resolve text e f he hcalls hne hr =>
      have hliterals : ∀ p : Plan, Step.Answers engine (if e.remainder.isEmpty then return p else
          return p.addTargets (← Step.resolve engine e.remainder)) (.error f) := by
        intro p
        rw [if_neg fun he => hne (List.isEmpty_iff.mp he)]
        exact .bind_error (.resolve hr)
      cases depth with
      | zero =>
          unfold collectFrom
          exact .bind (.parse he) (.bind (.pure p) (hliterals p))
      | succ depth =>
          obtain ⟨p₁, hans₁, -⟩ := foldlM_extends
            (fun p call hc => collectFrom_inside he hc (hcalls call hc) hdepth p) p
          unfold collectFrom
          exact .bind (.parse he) (.bind hans₁ (hliterals p₁))

end Plan

end SeriesQuery
