import SeriesQuery.Proofs.Steps

/-!
# Two steps side by side

That something does not show in an answer is said of two steps that differ in it. From sessions
that are related they give related results, or the same fault, and they leave sessions that are
related again. Which sessions are related is left open here: it is what the difference is about.
The rules follow the ways in which steps are built.
-/

namespace SeriesQuery

/-- The same fault, or two results that are related. -/
inductive SameOutcome {α β : Type} (R : α → β → Prop) : Except Fault α → Except Fault β → Prop
  /-- Two results. -/
  | ok {a : α} {b : β} : R a b → SameOutcome R (.ok a) (.ok b)
  /-- One fault. -/
  | error (f : Fault) : SameOutcome R (.error f) (.error f)

theorem SameOutcome.refl {α : Type} (x : Except Fault α) : SameOutcome Eq x x := by
  cases x with
  | ok a => exact .ok rfl
  | error f => exact .error f

theorem SameOutcome.of_ok {α β : Type} {R : α → β → Prop} {x : Except Fault α}
    {y : Except Fault β} (h : SameOutcome R x y) {a : α} (hx : x = .ok a) :
    ∃ b, y = .ok b ∧ R a b := by
  cases h with
  | ok hab =>
      cases hx
      exact ⟨_, rfl, hab⟩
  | error f => cases hx

theorem SameOutcome.map {α β γ δ : Type} {R : α → β → Prop} {S : γ → δ → Prop}
    {x : Except Fault α} {y : Except Fault β} {f : α → γ} {g : β → δ} (h : SameOutcome R x y)
    (hfg : ∀ a b, R a b → S (f a) (g b)) : SameOutcome S (x.map f) (y.map g) := by
  cases h with
  | ok hab => exact .ok (hfg _ _ hab)
  | error f => exact .error f

/-- The first faults of two lists are the same if all outcomes are, and so are the results. -/
theorem SameOutcome.mapM_id {α β γ : Type} {R : γ → α → β → Prop} {l : List γ}
    {pairs : List (Except Fault α × Except Fault β)}
    (h : List.Forall₂ (fun c p => SameOutcome (R c) p.1 p.2) l pairs) :
    SameOutcome (fun as bs => ∃ pairs : List (α × β), as = pairs.map Prod.fst
      ∧ bs = pairs.map Prod.snd ∧ List.Forall₂ (fun c p => R c p.1 p.2) l pairs)
      ((pairs.map Prod.fst).mapM id) ((pairs.map Prod.snd).mapM id) := by
  induction h with
  | nil => exact .ok ⟨[], rfl, rfl, .nil⟩
  | @cons c p l pairs hp _ ih =>
      rw [List.map_cons, List.map_cons, mapM_id_cons, mapM_id_cons]
      obtain ⟨x, y⟩ := p
      cases hp with
      | error f => exact .error f
      | @ok a b hab =>
          refine ih.map fun as bs hrest => ?_
          obtain ⟨rest, rfl, rfl, hall⟩ := hrest
          exact ⟨(a, b) :: rest, rfl, rfl, .cons hab hall⟩

/-- From related sessions two steps give related results, or the same fault, and leave related
sessions. -/
def Step.Related (T : Session → Session → Prop) {α β : Type} (R : α → β → Prop) (p : Step α)
    (q : Step β) : Prop :=
  ∀ s s' : Session, T s s' → SameOutcome R (p.result s) (q.result s') ∧ T (p.after s) (q.after s')

namespace Step.Related

variable {T : Session → Session → Prop} {α β γ δ : Type} {R : α → β → Prop} {S : γ → δ → Prop}

/-- From one session a step does one thing. -/
theorem refl (p : Step α) : Related Eq Eq p p := by
  rintro s _ rfl
  exact ⟨.refl _, rfl⟩

theorem pure {a : α} {b : β} (h : R a b) : Related T R (pure a) (pure b) :=
  fun _ _ hs => ⟨.ok h, hs⟩

theorem throw (f : Fault) : Related T R (throw f) (throw f) := fun _ _ hs => ⟨.error f, hs⟩

theorem ofExcept {x : Except Fault α} {y : Except Fault β} (h : SameOutcome R x y) :
    Related T R (ofExcept x) (ofExcept y) := by
  intro s s' hs
  rw [result_ofExcept, result_ofExcept, after_ofExcept, after_ofExcept]
  exact ⟨h, hs⟩

theorem bind {p : Step α} {q : Step β} {k : α → Step γ} {k' : β → Step δ} (h : Related T R p q)
    (hk : ∀ a b, R a b → Related T S (k a) (k' b)) : Related T S (p >>= k) (q >>= k') := by
  intro s s' hs
  obtain ⟨houtcome, hafter⟩ := h s s' hs
  generalize hp : p.result s = x at houtcome
  generalize hq : q.result s' = y at houtcome
  cases houtcome with
  | ok hab =>
      rw [result_bind_ok hp, result_bind_ok hq, after_bind_ok hp, after_bind_ok hq]
      exact hk _ _ hab _ _ hafter
  | error f =>
      rw [result_bind_error hp, result_bind_error hq, after_bind_error hp, after_bind_error hq]
      exact ⟨.error f, hafter⟩

theorem tryCatch {p : Step α} {q : Step β} {rescue : Fault → Step α} {rescue' : Fault → Step β}
    (h : Related T R p q) (hrescue : ∀ f, Related T R (rescue f) (rescue' f)) :
    Related T R (tryCatch p rescue) (tryCatch q rescue') := by
  intro s s' hs
  obtain ⟨houtcome, hafter⟩ := h s s' hs
  generalize hp : p.result s = x at houtcome
  generalize hq : q.result s' = y at houtcome
  cases houtcome with
  | ok hab =>
      rw [(run_tryCatch_ok hp).1, (run_tryCatch_ok hq).1, (run_tryCatch_ok hp).2,
        (run_tryCatch_ok hq).2]
      exact ⟨.ok hab, hafter⟩
  | error f =>
      rw [(run_tryCatch_error hp).1, (run_tryCatch_error hq).1, (run_tryCatch_error hp).2,
        (run_tryCatch_error hq).2]
      exact hrescue f _ _ hafter

theorem outcome {p : Step α} {q : Step β} (h : Related T R p q) :
    Related T (SameOutcome R) p.outcome q.outcome := by
  refine .tryCatch (.bind h fun a b hab => .pure (.ok hab)) fun f => ?_
  split
  · exact .throw f
  · exact .pure (.error f)

theorem mono {R' : α → β → Prop} {p : Step α} {q : Step β} (h : Related T R p q)
    (himp : ∀ a b, R a b → R' a b) : Related T R' p q := by
  intro s s' hs
  obtain ⟨houtcome, hafter⟩ := h s s' hs
  refine ⟨?_, hafter⟩
  generalize p.result s = x at houtcome
  generalize q.result s' = y at houtcome
  cases houtcome with
  | ok hab => exact .ok (himp _ _ hab)
  | error f => exact .error f

/-- A step for each entry of a list, and of each what the two steps give. -/
theorem mapM {f : γ → Step α} {g : γ → Step β} {R : γ → α → β → Prop} {l : List γ}
    (h : ∀ c, Related T (R c) (f c) (g c)) :
    Related T (fun as bs => ∃ pairs : List (α × β), as = pairs.map Prod.fst
      ∧ bs = pairs.map Prod.snd ∧ List.Forall₂ (fun c p => R c p.1 p.2) l pairs)
      (l.mapM f) (l.mapM g) := by
  induction l with
  | nil =>
      rw [List.mapM_nil, List.mapM_nil]
      exact .pure ⟨[], rfl, rfl, .nil⟩
  | cons c l ih =>
      rw [List.mapM_cons, List.mapM_cons]
      refine .bind (h c) fun a b hab => .bind ih ?_
      rintro as bs ⟨pairs, rfl, rfl, hpairs⟩
      exact .pure ⟨(a, b) :: pairs, rfl, rfl, .cons hab hpairs⟩

end Step.Related

end SeriesQuery
