import SeriesQuery.Proofs.FaultKinds
import SeriesQuery.Proofs.Steps

/-!
# What queries are put together from

A query touches its session in six ways only: it looks whether the caller still waits, reads an
expression, resolves targets, makes a label, and asks the source. `Assembled` says of a step that
it is put together from these, and the section after it goes once through planning, evaluating
and answering. What is then said of all such steps is proved on the six ways and on the ways of
putting together, and needs no second look at what a query does:

* the caches keep holding what reading and resolving give without them;
* a caller who waits goes on waiting, unless he gives up while samples arrive;
* nobody but the source and the caller says that the query has been given up;
* without labels, what a step gives does not depend on what has happened before it.
-/

namespace SeriesQuery

/-- Every cached expression and every cached list of series is what its key is read as and
resolved to. -/
structure Session.Sound (catalog : Catalog) (layout : Layout) (s : Session) : Prop where
  /-- Expressions are what their texts are read as. -/
  expressions : s.caches.expressions.Holds fun text e => Expression.parse text = .ok e
  /-- Series are what their texts are resolved to in their table. -/
  targets : s.caches.targets.Holds fun key m =>
    Resolver.resolve catalog { layout with table := key.1 } key.2 = .ok m

/-- A source whose samples never arrive for a caller who gives the query up meanwhile. -/
def Source.LeavesCaller (source : Source) : Prop :=
  ∀ keys range hints stream, source keys range hints = .ok stream → stream.givenUp = false

/-- A source that does not answer with the news that the query has been given up, either. -/
structure Source.NeverCancels (source : Source) : Prop where
  /-- The caller goes on waiting. -/
  leavesCaller : source.LeavesCaller
  /-- A question is not refused with the news. -/
  answers : ∀ keys range hints, source keys range hints ≠ .error .cancelled
  /-- It is not among the samples. -/
  streams : ∀ keys range hints stream, source keys range hints = .ok stream →
    .error .cancelled ∉ stream.items

/-- A step that touches its session only as queries do, and what holds of each result. Labels
are made only where `labels` allows them. -/
inductive Assembled (engine : Engine) (labels : Prop) :
    {α : Type} → Step α → (α → Prop) → Prop
  | pure {α : Type} {post : α → Prop} {a : α} : post a → Assembled engine labels (pure a) post
  | fault {α : Type} {post : α → Prop} {f : Fault} :
      f ≠ .cancelled → Assembled engine labels (throw f) post
  | patience : Assembled engine labels Step.checkPatience fun _ => True
  | parse (text : Text) :
      Assembled engine labels (Step.parse text) fun e => Expression.parse text = .ok e
  | resolve (text : Text) :
      Assembled engine labels (Step.resolve engine text) fun m =>
        Resolver.resolve engine.catalog engine.layout text = .ok m
  | label {whole root : Text} :
      labels → '{' ∈ (Template.ofText engine.catalog whole).body →
        Assembled engine labels
          (Step.label ((Template.ofText engine.catalog whole).cacheKey root) fun _ =>
            (Template.ofText engine.catalog whole).render engine root) fun _ => True
  | fetch (p : Plan) (range : TimeRange) (hints : FetchHints) (quality : QualityFilter) :
      Assembled engine labels (p.fetch engine range hints quality) fun _ => True
  | bind {α β : Type} {mid : α → Prop} {post : β → Prop} {p : Step α} {k : α → Step β} :
      Assembled engine labels p mid → (∀ a, mid a → Assembled engine labels (k a) post) →
        Assembled engine labels (p >>= k) post
  | outcome {α : Type} {post : α → Prop} {p : Step α} :
      Assembled engine labels p post →
        Assembled engine labels p.outcome fun x => ∀ a, x = .ok a → post a
  | rescue {α : Type} {post : α → Prop} {p : Step α} {handler : Fault → Step α} :
      Assembled engine labels p post →
        (∀ f, f ≠ .cancelled → Assembled engine labels (handler f) post) →
          handler .cancelled = throw .cancelled →
            Assembled engine labels (tryCatch p handler) post
  | mono {α : Type} {mid post : α → Prop} {p : Step α} :
      Assembled engine labels p mid → (∀ a, mid a → post a) → Assembled engine labels p post

/-! ## Asking the source -/

namespace Plan

/-- What the source gives for the keys of a plan, if it has any. -/
def given (engine : Engine) (p : Plan) (range : TimeRange) (hints : FetchHints)
    (quality : QualityFilter) : Except Fault RawData :=
  if p.keys.isEmpty then .ok RawData.empty
  else
    (engine.source p.keys range { hints with includePeaks := hints.includePeaks && !p.everySample })
      >>= fun stream => RawData.collect quality stream.items

end Plan

theorem RawData.error_mem_of_collect {q : QualityFilter} {items : List (Except Fault Sample)}
    {f : Fault} (h : RawData.collect q items = .error f) : .error f ∈ items := by
  induction items with
  | nil => cases h
  | cons item rest ih =>
      cases item with
      | error g =>
          cases h
          exact List.mem_cons_self
      | ok sample =>
          rw [RawData.collect] at h
          cases hr : RawData.collect q rest with
          | error g =>
              rw [hr] at h
              cases h
              exact List.mem_cons_of_mem _ (ih hr)
          | ok d =>
              rw [hr] at h
              cases h

theorem Archive.leavesCaller (a : Archive) : a.source.LeavesCaller := by
  intro keys range hints stream h
  cases h
  rfl

theorem Archive.neverCancels (a : Archive) : a.source.NeverCancels where
  leavesCaller := a.leavesCaller
  answers := by
    intro keys range hints h
    cases h
  streams := by
    intro keys range hints stream h hmem
    cases h
    obtain ⟨sample, -, he⟩ := List.mem_map.mp hmem
    cases he

namespace Plan

variable {engine : Engine} (p : Plan) (range : TimeRange) (hints : FetchHints)
  (quality : QualityFilter)

theorem given_ne_cancelled (hsrc : engine.source.NeverCancels) :
    p.given engine range hints quality ≠ .error .cancelled := by
  intro h
  unfold given at h
  split at h
  · cases h
  · cases hs : engine.source p.keys range
        { hints with includePeaks := hints.includePeaks && !p.everySample } with
    | error f =>
        rw [hs] at h
        cases h
        exact hsrc.answers _ _ _ hs
    | ok stream =>
        rw [hs] at h
        exact hsrc.streams _ _ _ stream hs (RawData.error_mem_of_collect h)

/-- The source is asked if there are keys, and then nothing changes but how long the caller
waits. -/
theorem after_fetch (s : Session) : ∃ patience,
    (p.fetch engine range hints quality).after s = if p.keys.isEmpty then s else
      { s with
        fetches := s.fetches ++ [⟨p.keys, range,
          { hints with includePeaks := hints.includePeaks && !p.everySample }⟩]
        patience } := by
  have hcheck : ∀ data : RawData, Step.OnlyWaits (do Step.checkPatience; return data) := fun data =>
    .bind .checkPatience fun _ => .ofExcept (.ok data)
  unfold fetch
  split
  · exact ⟨s.patience, rfl⟩
  · rw [Step.after_bind_ok (a := ⟨⟩) rfl]
    refine Step.OnlyWaits.bind (.ofExcept _) (fun stream => .bind (.ofExcept _) fun data => ?_) _
    split
    · exact .bind (fun s => ⟨some 0, rfl⟩) fun _ => hcheck data
    · exact hcheck data

theorem caches_after_fetch (s : Session) :
    ((p.fetch engine range hints quality).after s).caches = s.caches := by
  obtain ⟨patience, hafter⟩ := @after_fetch engine p range hints quality s
  rw [hafter]
  split <;> rfl

theorem run_fetch (hsrc : engine.source.LeavesCaller) {s : Session} (hw : s.patience = none) :
    (p.fetch engine range hints quality).result s = p.given engine range hints quality
      ∧ ((p.fetch engine range hints quality).after s).patience = none := by
  unfold fetch given
  split
  · exact ⟨rfl, hw⟩
  · dsimp only
    generalize { hints with includePeaks := hints.includePeaks && !p.everySample } = told
    rw [Step.result_bind_ok (a := ⟨⟩) rfl, Step.after_bind_ok (a := ⟨⟩) rfl]
    -- The session once the question is on record; its caller waits as before.
    generalize hs : Step.after _ s = asked
    replace hw : asked.patience = none := by
      rw [← hs]
      exact hw
    cases hstream : engine.source p.keys range told with
    | error f => exact ⟨Step.result_bind_error rfl, hw⟩
    | ok stream =>
        have hgiven := hsrc p.keys range told stream hstream
        simp only [Step.ofExcept, pure_bind]
        cases hdata : RawData.collect quality stream.items with
        | error f => exact ⟨(Step.result_bind_error rfl).trans hdata.symm, hw⟩
        | ok data =>
            obtain ⟨hcheck, hstays⟩ := Step.run_checkPatience hw
            simp only [pure_bind, hgiven]
            rw [if_neg Bool.false_ne_true, Step.result_bind_ok hcheck, Step.after_bind_ok hcheck,
              hstays]
            exact ⟨hdata.symm, hw⟩

end Plan

/-! ## Cached reading and resolving -/

namespace Session.Sound

variable {catalog : Catalog} {layout : Layout} {s : Session}

theorem of_caches {s' : Session} (h : s.Sound catalog layout)
    (he : s'.caches.expressions = s.caches.expressions)
    (ht : s'.caches.targets = s.caches.targets) : s'.Sound catalog layout := by
  constructor
  · rw [he]
    exact h.expressions
  · rw [ht]
    exact h.targets

/-- A cached reading is a reading, and what it leaves is sound again. -/
theorem parse (h : s.Sound catalog layout) (text : Text) :
    (Step.parse text).result s = Expression.parse text
      ∧ ((Step.parse text).after s).Sound catalog layout := by
  obtain ⟨hval, hkeep⟩ := Cache.Holds.getOrTry Expression.parse h.expressions s.clock
    (Text.trim text) (fun _ => Expression.parse (Text.trim text)) rfl
  constructor
  · rw [Step.result_parse, hval, Expression.parse_trim]
  · rw [Step.after_parse]
    exact ⟨hkeep, h.targets⟩

/-- Cached resolving is resolving, and what it leaves is sound again. -/
theorem resolve {engine : Engine} (h : s.Sound engine.catalog engine.layout) (text : Text) :
    (Step.resolve engine text).result s = Resolver.resolve engine.catalog engine.layout text
      ∧ ((Step.resolve engine text).after s).Sound engine.catalog engine.layout := by
  obtain ⟨hval, hkeep⟩ := Cache.Holds.getOrTry
    (fun key : Text × Text =>
      Resolver.resolve engine.catalog { engine.layout with table := key.1 } key.2)
    h.targets s.clock (engine.layout.table, Text.trim text)
    (fun _ => Resolver.resolve engine.catalog engine.layout text)
    (Resolver.resolve_trim engine.catalog engine.layout text).symm
  constructor
  · rw [Step.result_resolve, hval]
    exact Resolver.resolve_trim engine.catalog engine.layout text
  · rw [Step.after_resolve]
    exact ⟨h.expressions, hkeep⟩

end Session.Sound

/-! ## What holds of every step that is put together so -/

namespace Assembled

variable {engine : Engine} {labels : Prop} {α β : Type}

/-- The caches stay sound, and a result is as promised. -/
theorem sound {p : Step α} {post : α → Prop} (h : Assembled engine labels p post) {s : Session}
    (hs : s.Sound engine.catalog engine.layout) :
    (p.after s).Sound engine.catalog engine.layout ∧ ∀ a, p.result s = .ok a → post a := by
  induction h generalizing s with
  | pure hpost =>
      refine ⟨hs, fun b hb => ?_⟩
      cases hb
      exact hpost
  | fault hf => exact ⟨hs, fun b hb => by cases hb⟩
  | patience =>
      have hc := Step.caches_after_checkPatience s
      exact ⟨hs.of_caches (by rw [hc]) (by rw [hc]), fun _ _ => trivial⟩
  | parse text =>
      obtain ⟨hval, hkeep⟩ := hs.parse text
      exact ⟨hkeep, fun e he => hval ▸ he⟩
  | resolve text =>
      obtain ⟨hval, hkeep⟩ := hs.resolve text
      exact ⟨hkeep, fun m hm => hval ▸ hm⟩
  | label =>
      obtain ⟨-, he, ht, -⟩ := Step.run_label _ _ s
      exact ⟨hs.of_caches he ht, fun _ _ => trivial⟩
  | fetch p range hints quality =>
      have hc : ((p.fetch engine range hints quality).after s).caches = s.caches :=
        p.caches_after_fetch range hints quality s
      exact ⟨hs.of_caches (by rw [hc]) (by rw [hc]), fun _ _ => trivial⟩
  | @bind _ _ _ _ q k hp hk ihp ihk =>
      obtain ⟨hkeep, hmid⟩ := ihp hs
      cases hr : q.result s with
      | error f =>
          rw [Step.after_bind_error hr, Step.result_bind_error hr]
          exact ⟨hkeep, fun b hb => by cases hb⟩
      | ok a =>
          rw [Step.after_bind_ok hr, Step.result_bind_ok hr]
          exact ihk a (hmid a hr) hkeep
  | @outcome _ _ q hp ihp =>
      obtain ⟨hkeep, hmid⟩ := ihp hs
      rw [Step.after_outcome, Step.result_outcome]
      refine ⟨hkeep, fun x hx a ha => hmid a ?_⟩
      rw [← Step.eq_of_settled hx, ha]
  | @rescue _ _ q handler hp hh hc ihp ihh =>
      obtain ⟨hkeep, hmid⟩ := ihp hs
      cases hr : q.result s with
      | ok a =>
          obtain ⟨hres, haft⟩ := Step.run_tryCatch_ok hr
          rw [haft, hres, ← hr]
          exact ⟨hkeep, hmid⟩
      | error f =>
          obtain ⟨hres, haft⟩ := Step.run_tryCatch_error hr
          rw [haft, hres]
          by_cases hf : f = .cancelled
          · rw [hf, hc]
            exact ⟨hkeep, fun b hb => by cases hb⟩
          · exact ihh f hf hkeep
  | mono hp himp ihp =>
      obtain ⟨hkeep, hmid⟩ := ihp hs
      exact ⟨hkeep, fun a ha => himp a (hmid a ha)⟩

/-- A caller who waits keeps waiting. -/
theorem waits {p : Step α} {post : α → Prop} (h : Assembled engine labels p post)
    (hsrc : engine.source.LeavesCaller) {s : Session}
    (hs : s.Sound engine.catalog engine.layout) (hw : s.patience = none) :
    (p.after s).patience = none := by
  induction h generalizing s with
  | pure hpost => exact hw
  | fault hf => exact hw
  | patience =>
      rw [(Step.run_checkPatience hw).2]
      exact hw
  | parse text =>
      rw [Step.after_parse]
      exact hw
  | resolve text =>
      rw [Step.after_resolve]
      exact hw
  | label =>
      obtain ⟨-, -, -, hp⟩ := Step.run_label _ _ s
      rw [hp]
      exact hw
  | fetch p range hints quality => exact (p.run_fetch range hints quality hsrc hw).2
  | @bind _ _ _ _ q k hp hk ihp ihk =>
      obtain ⟨hkeep, hmid⟩ := hp.sound hs
      cases hr : q.result s with
      | error f =>
          rw [Step.after_bind_error hr]
          exact ihp hs hw
      | ok a =>
          rw [Step.after_bind_ok hr]
          exact ihk a (hmid a hr) hkeep (ihp hs hw)
  | @outcome _ _ q hp ihp =>
      rw [Step.after_outcome]
      exact ihp hs hw
  | @rescue _ _ q handler hp hh hc ihp ihh =>
      cases hr : q.result s with
      | ok a =>
          rw [(Step.run_tryCatch_ok hr).2]
          exact ihp hs hw
      | error f =>
          rw [(Step.run_tryCatch_error hr).2]
          by_cases hf : f = .cancelled
          · rw [hf, hc]
            exact ihp hs hw
          · exact ihh f hf (hp.sound hs).1 (ihp hs hw)
  | mono hp himp ihp => exact ihp hs hw

/-- A caller who waits is not told that the query has been given up, unless the source says so. -/
theorem ne_cancelled {p : Step α} {post : α → Prop} (h : Assembled engine labels p post)
    (hsrc : engine.source.NeverCancels) {s : Session}
    (hs : s.Sound engine.catalog engine.layout) (hw : s.patience = none) :
    p.result s ≠ .error .cancelled := by
  induction h generalizing s with
  | pure hpost => exact fun h => by cases h
  | fault hf => exact fun h => hf (Except.error.inj h)
  | patience =>
      rw [(Step.run_checkPatience hw).1]
      exact fun h => by cases h
  | parse text =>
      rw [(hs.parse text).1]
      exact (faultsIn_parse text).ne_error (by decide)
  | resolve text =>
      rw [(hs.resolve text).1]
      exact (faultsIn_resolve _ _ text).ne_error (by decide)
  | label =>
      obtain ⟨⟨t, hok⟩, -⟩ := Step.run_label _ _ s
      rw [hok]
      exact fun h => by cases h
  | fetch p range hints quality =>
      rw [(p.run_fetch range hints quality hsrc.leavesCaller hw).1]
      exact p.given_ne_cancelled range hints quality hsrc
  | @bind _ _ _ _ q k hp hk ihp ihk =>
      obtain ⟨hkeep, hmid⟩ := hp.sound hs
      cases hr : q.result s with
      | error f =>
          rw [Step.result_bind_error hr]
          exact fun h => ihp hs hw (hr.trans (congrArg Except.error (Except.error.inj h)))
      | ok a =>
          rw [Step.result_bind_ok hr]
          exact ihk a (hmid a hr) hkeep (hp.waits hsrc.leavesCaller hs hw)
  | @outcome _ _ q hp ihp =>
      rw [Step.result_outcome]
      exact fun h => ihp hs hw (Step.endsProgram_of_settled h).1
  | @rescue _ _ q handler hp hh hc ihp ihh =>
      cases hr : q.result s with
      | ok a =>
          rw [(Step.run_tryCatch_ok hr).1]
          exact fun h => by cases h
      | error f =>
          rw [(Step.run_tryCatch_error hr).1]
          refine ihh f ?_ (hp.sound hs).1 (hp.waits hsrc.leavesCaller hs hw)
          rintro rfl
          exact ihp hs hw hr
  | mono hp himp ihp => exact ihp hs hw

end Assembled

/-! ## Sessions in which a caller waits -/

/-- A session whose caches are sound and whose caller waits for good. -/
structure Session.Waits (engine : Engine) (s : Session) : Prop where
  /-- Cached answers are answers. -/
  sound : s.Sound engine.catalog engine.layout
  /-- The caller never gives up. -/
  patience : s.patience = none

theorem Assembled.keepsWaiting {engine : Engine} {labels : Prop} {α : Type} {p : Step α}
    {post : α → Prop} (h : Assembled engine labels p post) (hsrc : engine.source.LeavesCaller)
    {s : Session} (hs : s.Waits engine) : (p.after s).Waits engine :=
  ⟨(h.sound hs.sound).1, h.waits hsrc hs.sound hs.patience⟩

end SeriesQuery
