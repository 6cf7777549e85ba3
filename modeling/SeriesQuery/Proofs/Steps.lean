import SeriesQuery.Engine.Answer
import SeriesQuery.Proofs.CacheFaithful
import SeriesQuery.Proofs.Trimming

/-!
# Steps run from a session

A step is looked at as two functions of the session it starts from: what it gives and the session
it leaves. The lemmas here say both of every way in which steps are built: doing nothing, failing,
one step after another, a step for each entry of a list, and a step with a rescue. After them come
the steps that touch a session at all, each with the one part of it that it reads and writes.
-/

namespace SeriesQuery

theorem mapM_id_cons {α ε : Type} (x : Except ε α) (xs : List (Except ε α)) :
    (x :: xs).mapM id = match x with
      | .error e => .error e
      | .ok a => (xs.mapM id).map (a :: ·) := by
  rw [List.mapM_cons]
  cases x with
  | error e => rfl
  | ok a =>
      rw [show id (Except.ok a : Except ε α) = Except.ok a from rfl]
      cases xs.mapM id <;> rfl

namespace Step

variable {α β : Type}

/-- What a step gives from a session. -/
def result (p : Step α) (s : Session) : Except Fault α := (p.run.run s).1

/-- The session that a step leaves. -/
def after (p : Step α) (s : Session) : Session := (p.run.run s).2

@[simp] theorem result_pure (a : α) (s : Session) : (pure a : Step α).result s = .ok a := rfl

@[simp] theorem after_pure (a : α) (s : Session) : (pure a : Step α).after s = s := rfl

@[simp] theorem after_throw (f : Fault) (s : Session) : (throw f : Step α).after s = s := rfl

@[simp] theorem result_ofExcept (x : Except Fault α) (s : Session) :
    (ofExcept x).result s = x := by
  cases x <;> rfl

@[simp] theorem after_ofExcept (x : Except Fault α) (s : Session) :
    (ofExcept x).after s = s := by
  cases x <;> rfl

/-! ## One step after another -/

theorem run_bind (p : Step α) (k : α → Step β) (s : Session) :
    (p >>= k).run.run s = match p.run.run s with
      | (.ok a, s) => (k a).run.run s
      | (.error f, s) => (.error f, s) := by
  unfold ExceptT.run StateT.run
  simp only [bind, ExceptT.bind, ExceptT.mk, StateT.bind, ExceptT.bindCont]
  cases p s with
  | mk r s => cases r <;> rfl

theorem result_bind_ok {p : Step α} {k : α → Step β} {s : Session} {a : α}
    (h : p.result s = .ok a) : (p >>= k).result s = (k a).result (p.after s) := by
  unfold result after at *
  rw [run_bind]
  cases hr : p.run.run s with
  | mk r s' =>
      rw [hr] at h
      cases h
      rfl

theorem after_bind_ok {p : Step α} {k : α → Step β} {s : Session} {a : α}
    (h : p.result s = .ok a) : (p >>= k).after s = (k a).after (p.after s) := by
  unfold result after at *
  rw [run_bind]
  cases hr : p.run.run s with
  | mk r s' =>
      rw [hr] at h
      cases h
      rfl

theorem result_bind_error {p : Step α} {k : α → Step β} {s : Session} {f : Fault}
    (h : p.result s = .error f) : (p >>= k).result s = .error f := by
  unfold result at *
  rw [run_bind]
  cases hr : p.run.run s with
  | mk r s' =>
      rw [hr] at h
      cases h
      rfl

/-- What comes after a step gives something only if the step does. -/
theorem exists_of_result_bind {p : Step α} {k : α → Step β} {s : Session} {b : β}
    (h : (p >>= k).result s = .ok b) :
    ∃ a, p.result s = .ok a ∧ (k a).result (p.after s) = .ok b := by
  cases hp : p.result s with
  | error f =>
      rw [result_bind_error hp] at h
      cases h
  | ok a => exact ⟨a, rfl, (result_bind_ok hp).symm.trans h⟩

theorem after_bind_error {p : Step α} {k : α → Step β} {s : Session} {f : Fault}
    (h : p.result s = .error f) : (p >>= k).after s = p.after s := by
  unfold result after at *
  rw [run_bind]
  cases hr : p.run.run s with
  | mk r s' =>
      rw [hr] at h
      cases h
      rfl

theorem result_bind_pure (p : Step α) (g : α → β) (s : Session) :
    (p >>= fun a => pure (g a)).result s = (p.result s).map g := by
  cases h : p.result s with
  | error f => exact result_bind_error h
  | ok a => exact result_bind_ok h

theorem after_bind_pure (p : Step α) (g : α → β) (s : Session) :
    (p >>= fun a => pure (g a)).after s = p.after s := by
  cases h : p.result s with
  | error f => exact after_bind_error h
  | ok a => exact after_bind_ok h

/-! ## Steps that only wait -/

/-- All that a check of the caller's patience can do. -/
theorem checkPatience_cases (s : Session) :
    (s.patience = none ∧ checkPatience.result s = .ok () ∧ checkPatience.after s = s)
      ∨ (s.patience = some 0 ∧ checkPatience.result s = .error .cancelled
          ∧ checkPatience.after s = s)
      ∨ ∃ n, s.patience = some (n + 1) ∧ checkPatience.result s = .ok ()
          ∧ checkPatience.after s = { s with patience := some n } := by
  cases s with
  | mk caches clock patience fetches =>
      rcases patience with _ | _ | n
      · exact .inl ⟨rfl, rfl, rfl⟩
      · exact .inr (.inl ⟨rfl, rfl, rfl⟩)
      · exact .inr (.inr ⟨n, rfl, rfl, rfl⟩)

/-- A step that changes nothing but how long the caller waits. -/
def OnlyWaits (p : Step α) : Prop := ∀ s : Session, ∃ patience, p.after s = { s with patience }

namespace OnlyWaits

theorem ofExcept (x : Except Fault α) : OnlyWaits (ofExcept x) := by
  intro s
  rw [after_ofExcept]
  exact ⟨s.patience, rfl⟩

theorem bind {p : Step α} {k : α → Step β} (hp : OnlyWaits p) (hk : ∀ a, OnlyWaits (k a)) :
    OnlyWaits (p >>= k) := by
  intro s
  obtain ⟨patience, hafter⟩ := hp s
  cases h : p.result s with
  | error f =>
      rw [after_bind_error h]
      exact ⟨patience, hafter⟩
  | ok a =>
      obtain ⟨patience', hafter'⟩ := hk a (p.after s)
      rw [after_bind_ok h, hafter', hafter]
      exact ⟨patience', rfl⟩

theorem checkPatience : OnlyWaits checkPatience := by
  intro s
  obtain ⟨-, -, h⟩ | ⟨-, -, h⟩ | ⟨n, -, -, h⟩ := checkPatience_cases s
  · exact ⟨s.patience, h⟩
  · exact ⟨s.patience, h⟩
  · exact ⟨some n, h⟩

end OnlyWaits

/-! ## A step with a rescue -/

theorem run_tryCatch (p : Step α) (rescue : Fault → Step α) (s : Session) :
    (tryCatch p rescue).run.run s = match p.run.run s with
      | (.ok a, s) => (.ok a, s)
      | (.error f, s) => (rescue f).run.run s := by
  unfold ExceptT.run StateT.run
  simp only [tryCatch, tryCatchThe, MonadExceptOf.tryCatch, ExceptT.tryCatch, ExceptT.mk, bind,
    StateT.bind]
  cases p s with
  | mk r s => cases r <;> rfl

theorem run_tryCatch_ok {p : Step α} {rescue : Fault → Step α} {s : Session} {a : α}
    (h : p.result s = .ok a) :
    (tryCatch p rescue).result s = .ok a ∧ (tryCatch p rescue).after s = p.after s := by
  unfold result after at *
  rw [run_tryCatch]
  cases hr : p.run.run s with
  | mk r s' =>
      rw [hr] at h
      cases h
      exact ⟨rfl, rfl⟩

theorem run_tryCatch_error {p : Step α} {rescue : Fault → Step α} {s : Session} {f : Fault}
    (h : p.result s = .error f) :
    (tryCatch p rescue).result s = (rescue f).result (p.after s)
      ∧ (tryCatch p rescue).after s = (rescue f).after (p.after s) := by
  unfold result after at *
  rw [run_tryCatch]
  cases hr : p.run.run s with
  | mk r s' =>
      rw [hr] at h
      cases h
      exact ⟨rfl, rfl⟩

/-- A result or a fault, unless that ends the program. -/
def settled : Except Fault α → Except Fault (Except Fault α)
  | .ok a => .ok (.ok a)
  | .error f => if f.endsProgram then .error f else .ok (.error f)

theorem eq_of_settled {x y : Except Fault α} (h : settled x = .ok y) : y = x := by
  cases x with
  | ok a => exact (Except.ok.inj h).symm
  | error f =>
      rw [settled] at h
      split at h
      · cases h
      · exact (Except.ok.inj h).symm

theorem settled_of_ne {x : Except Fault α} (h : ∀ f, x = .error f → f.endsProgram = false) :
    settled x = .ok x := by
  cases x with
  | ok a => rfl
  | error f =>
      rw [settled, h f rfl]
      rfl

theorem endsProgram_of_settled {x : Except Fault α} {f : Fault} (h : settled x = .error f) :
    x = .error f ∧ f.endsProgram = true := by
  cases x with
  | ok a => cases h
  | error g =>
      rw [settled] at h
      split at h
      · next hends =>
          cases h
          exact ⟨rfl, hends⟩
      · cases h

theorem result_outcome (p : Step α) (s : Session) : p.outcome.result s = settled (p.result s) := by
  unfold outcome
  cases h : p.result s with
  | ok a => exact (run_tryCatch_ok (result_bind_ok h)).1
  | error f =>
      rw [(run_tryCatch_error (result_bind_error h)).1, settled]
      split
      · rfl
      · rfl

theorem after_outcome (p : Step α) (s : Session) : p.outcome.after s = p.after s := by
  unfold outcome
  cases h : p.result s with
  | ok a => exact (run_tryCatch_ok (result_bind_ok h)).2.trans (after_bind_ok h)
  | error f =>
      rw [(run_tryCatch_error (result_bind_error h)).2, after_bind_error h]
      split
      · rfl
      · rfl

/-! ## The steps that touch a session -/

theorem result_parse (text : Text) (s : Session) :
    (parse text).result s = (s.caches.expressions.getOrTry s.clock (Text.trim text)
      fun _ => Expression.parse (Text.trim text)).1 :=
  result_ofExcept _ _

theorem after_parse (text : Text) (s : Session) :
    let looked := s.caches.expressions.getOrTry s.clock (Text.trim text)
      fun _ => Expression.parse (Text.trim text)
    (parse text).after s =
      { s with caches := { s.caches with expressions := looked.2.1 }, clock := looked.2.2 } :=
  after_ofExcept _ _

theorem result_resolve (engine : Engine) (text : Text) (s : Session) :
    (resolve engine text).result s = (s.caches.targets.getOrTry s.clock
      (engine.layout.table, Text.trim text)
      fun _ => Resolver.resolve engine.catalog engine.layout text).1 :=
  result_ofExcept _ _

theorem after_resolve (engine : Engine) (text : Text) (s : Session) :
    let looked := s.caches.targets.getOrTry s.clock (engine.layout.table, Text.trim text)
      fun _ => Resolver.resolve engine.catalog engine.layout text
    (resolve engine text).after s =
      { s with caches := { s.caches with targets := looked.2.1 }, clock := looked.2.2 } :=
  after_ofExcept _ _

theorem result_label (key : Text) (make : Unit → Text) (s : Session) :
    (label key make).result s = .ok (s.caches.labels.getOrInsert s.clock key make).1 := rfl

theorem after_label (key : Text) (make : Unit → Text) (s : Session) :
    let looked := s.caches.labels.getOrInsert s.clock key make
    (label key make).after s =
      { s with caches := { s.caches with labels := looked.2.1 }, clock := looked.2.2 } := rfl

theorem run_label (key : Text) (make : Unit → Text) (s : Session) :
    (∃ t, (label key make).result s = .ok t)
      ∧ ((label key make).after s).caches.expressions = s.caches.expressions
      ∧ ((label key make).after s).caches.targets = s.caches.targets
      ∧ ((label key make).after s).patience = s.patience :=
  ⟨⟨_, rfl⟩, rfl, rfl, rfl⟩

theorem caches_after_checkPatience (s : Session) : (checkPatience.after s).caches = s.caches := by
  obtain ⟨patience, hafter⟩ := OnlyWaits.checkPatience s
  rw [hafter]

theorem result_checkPatience {s : Session} (h : s.patience ≠ some 0) :
    checkPatience.result s = .ok () := by
  obtain ⟨-, hr, -⟩ | ⟨hzero, -, -⟩ | ⟨n, -, hr, -⟩ := checkPatience_cases s
  · exact hr
  · exact absurd hzero h
  · exact hr

theorem run_checkPatience_zero {s : Session} (h : s.patience = some 0) :
    checkPatience.result s = .error .cancelled ∧ checkPatience.after s = s := by
  obtain ⟨hnone, -, -⟩ | ⟨-, hr, ha⟩ | ⟨n, hsome, -, -⟩ := checkPatience_cases s
  · rw [h] at hnone
    cases hnone
  · exact ⟨hr, ha⟩
  · rw [h] at hsome
    cases hsome

theorem result_checkPatience_cancelled {s : Session} {f : Fault}
    (h : checkPatience.result s = .error f) : f = .cancelled := by
  obtain ⟨-, hr, -⟩ | ⟨-, hr, -⟩ | ⟨n, -, hr, -⟩ := checkPatience_cases s
  · rw [hr] at h
    cases h
  · rw [hr] at h
    cases h
    rfl
  · rw [hr] at h
    cases h

theorem run_checkPatience {s : Session} (h : s.patience = none) :
    checkPatience.result s = .ok () ∧ checkPatience.after s = s := by
  obtain ⟨-, hr, ha⟩ | ⟨hzero, -, -⟩ | ⟨n, hsome, -, -⟩ := checkPatience_cases s
  · exact ⟨hr, ha⟩
  · rw [h] at hzero
    cases hzero
  · rw [h] at hsome
    cases hsome

end Step

end SeriesQuery
