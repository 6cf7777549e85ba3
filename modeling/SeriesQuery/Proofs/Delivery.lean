import SeriesQuery.Proofs.Queries

/-!
# What a caller who waits is given

`Assembled` says what holds of a result if there is one. Here a step is said to give a value: from
every session with sound caches, to a caller who waits. An expression without labels gives what
it yields, so yielding tells all about evaluating, and what an expression evaluates to can be
worked out without a session. For the same purpose a text is cut into pieces by a recursion on a
number of characters instead of on the length of what is left.
-/

namespace SeriesQuery

/-- A step that gives a caller who waits a value and leaves him waiting. -/
def Delivers (engine : Engine) {α : Type} (p : Step α) (a : α) : Prop :=
  ∀ s : Session, s.Waits engine → p.result s = .ok a ∧ (p.after s).Waits engine

namespace Delivers

variable {engine : Engine} {α β γ : Type}

theorem pure (a : α) : Delivers engine (pure a) a := fun _ hs => ⟨rfl, hs⟩

theorem bind {p : Step α} {k : α → Step β} {a : α} {b : β} (hp : Delivers engine p a)
    (hk : Delivers engine (k a) b) : Delivers engine (p >>= k) b := by
  intro s hs
  obtain ⟨hval, hwait⟩ := hp s hs
  rw [Step.result_bind_ok hval, Step.after_bind_ok hval]
  exact hk _ hwait

theorem patience : Delivers engine Step.checkPatience () := by
  intro s hs
  obtain ⟨hval, hafter⟩ := Step.run_checkPatience hs.patience
  rw [hafter]
  exact ⟨hval, hs⟩

theorem ofExcept {x : Except Fault α} {a : α} (h : x = .ok a) :
    Delivers engine (Step.ofExcept x) a := by
  intro s hs
  rw [Step.result_ofExcept, Step.after_ofExcept]
  exact ⟨h, hs⟩

theorem parse {text : Text} {e : Expression} (h : Expression.parse text = .ok e) :
    Delivers engine (Step.parse text) e := by
  intro s hs
  obtain ⟨hval, hsound⟩ := hs.sound.parse text
  refine ⟨hval.trans h, hsound, ?_⟩
  rw [Step.after_parse]
  exact hs.patience

theorem resolve {text : Text} {targets : Targets}
    (h : Resolver.resolve engine.catalog engine.layout text = .ok targets) :
    Delivers engine (Step.resolve engine text) targets := by
  intro s hs
  obtain ⟨hval, hsound⟩ := hs.sound.resolve text
  refine ⟨hval.trans h, hsound, ?_⟩
  rw [Step.after_resolve]
  exact hs.patience

theorem fetch (hsrc : engine.source.LeavesCaller) {p : Plan}
    {range : TimeRange} {hints : FetchHints} {quality : QualityFilter} {data : RawData}
    (h : p.given engine range hints quality = .ok data) :
    Delivers engine (p.fetch engine range hints quality) data := by
  intro s hs
  obtain ⟨hresult, hpatience⟩ := p.run_fetch range hints quality hsrc hs.patience
  have hcaches := @Plan.caches_after_fetch engine p range hints quality s
  exact ⟨hresult.trans h, hs.sound.of_caches (congrArg Caches.expressions hcaches)
    (congrArg Caches.targets hcaches), hpatience⟩

theorem mapM {f : γ → Step α} {l : List γ} {out : List α}
    (h : List.Forall₂ (fun c a => Delivers engine (f c) a) l out) :
    Delivers engine (l.mapM f) out := by
  induction h with
  | nil =>
      rw [List.mapM_nil]
      exact pure []
  | cons hc _ ih =>
      rw [List.mapM_cons]
      exact bind hc (bind ih (pure _))

end Delivers

/-! ## Calls -/

/-- A call that is no label delivers what it yields. -/
theorem Call.Yields.delivers {engine : Engine} {m : Material} {c : Call}
    {inputs out : List Series} (h : c.Yields engine m inputs out) (hlabel : c.operator ≠ .label) :
    Delivers engine (c.apply engine m inputs) out := by
  have hop : ¬ (c.operator == .label) = true := fun he => hlabel (eq_of_beq he)
  unfold Call.apply
  rw [if_neg hop]
  cases h with
  | label hl => exact absurd hl hlabel
  | each _ hg hall =>
      rw [hg]
      refine .mapM (hall.imp fun input series hs => ?_)
      obtain ⟨samples, happly, rfl⟩ := hs
      exact .bind .patience (.bind (.ofExcept happly) (.pure _))
  | set _ hg happly =>
      rw [hg]
      exact .bind .patience (.bind (.ofExcept happly) (.pure _))
  | slice _ hg hp hfloat hall =>
      rw [hg]
      dsimp only [applySlices]
      rw [hp]
      refine .bind (.ofExcept hfloat) (.bind (.mapM (hall.imp fun slice samples hs => ?_)) ?_)
      · exact .bind .patience (.ofExcept hs)
      · split
        · exact .pure _
        · exact .pure _

/-! ## Expressions -/

namespace Expression

variable {engine : Engine} {m : Material}

theorem WithLiterals.delivers {e : Expression} {called out : List Series}
    (h : e.WithLiterals engine m called out) :
    Delivers engine (if e.remainder.isEmpty then return called else do
      let targets ← Step.resolve engine e.remainder
      return called ++ targets.series m.data) out := by
  rcases h with ⟨he, rfl⟩ | ⟨hne, targets, hresolve, rfl⟩
  · rw [if_pos (List.isEmpty_iff.mpr he)]
    exact .pure _
  · rw [if_neg fun he => hne (List.isEmpty_iff.mp he)]
    exact .bind (.resolve hresolve) (.pure _)

/-- An expression without labels delivers what it yields. -/
theorem YieldsFrom.delivers {depth : ℕ} {text : Text} {out : List Series}
    (hlabels : ∀ call, CallWithin text call → call.operator ≠ .label)
    (h : YieldsFrom engine m depth text out) :
    Delivers engine (evaluateFrom engine m depth text) out := by
  induction depth generalizing text out with
  | zero =>
      obtain ⟨e, he, hlit⟩ := h
      exact .bind (.parse he) hlit.delivers
  | succ depth ih =>
      obtain ⟨e, called, he, hall, hlit⟩ := h
      refine .bind (.parse he) (.bind (.mapM ?_) hlit.delivers)
      have hmem := (List.forall₂_and_left _ _).mpr ⟨fun call hc => hc, hall⟩
      refine hmem.imp fun call series hc => ?_
      obtain ⟨hcall, inputs, hinside, hyields⟩ := hc
      refine .bind .patience (.bind ?_ (hyields.delivers (hlabels call (.here he hcall))))
      exact ih (fun c hc => hlabels c (.deeper he hcall hc)) hinside

end Expression

end SeriesQuery
