import SeriesQuery.Proofs.LabelCache

/-!
# Which expressions are cached does not show

A cached expression is what its text is read as, so it makes no difference to a query whether an
expression is found in its cache or read anew, but for the time it takes: a miss reads the clock
more often than a hit, and later look-ups come later. On a clock that stands still nothing is left
of that. Two sessions that differ in their cached expressions alone are `Abreast` then, and they
stay so through every step of a query, which gives the same result in both.

So two texts may be exchanged for each other if what is done with the one expression is what is
done with the other (`Step.Abreast.parse_bind`).
-/

namespace SeriesQuery

/-! ## A clock that stands still -/

/-- Readings that are all the same. -/
def Clock.Still (c : Clock) : Prop := c.steps = []

theorem Clock.Still.of_still (now : Nat) : (still now).Still := rfl

theorem Clock.Still.read {c : Clock} (h : c.Still) : c.read = (c.now, c) := by
  obtain ⟨now, steps⟩ := c
  cases h
  rfl

namespace Cache

variable {κ β : Type} [BEq κ] {clock : Clock} (h : clock.Still) (c : Cache κ β)

include h

theorem clock_insert (key : κ) (value : β) : (c.insert clock key value).2 = clock := by
  unfold insert
  simp only [h.read]
  split <;> simp only [h.read]

theorem clock_getOrTry {ε : Type} (key : κ) (compute : Unit → Except ε β) :
    (c.getOrTry clock key compute).2.2 = clock := by
  unfold getOrTry
  simp only [h.read]
  split
  · rfl
  · split
    · rfl
    · exact clock_insert h _ _ _

theorem clock_getOrInsert (key : κ) (compute : Unit → β) :
    (c.getOrInsert clock key compute).2.2 = clock := by
  unfold getOrInsert
  simp only [h.read]
  split
  · rfl
  · exact clock_insert h _ _ _

end Cache

/-! ## Steps that see no cache -/

/-- A step that neither reads nor changes a cache or the clock. -/
def Step.Blind {α : Type} (p : Step α) : Prop :=
  ∀ (s : Session) (caches : Caches) (clock : Clock),
    p.result { s with caches, clock } = p.result s
      ∧ p.after { s with caches, clock } = { p.after s with caches, clock }

namespace Step.Blind

variable {α β : Type}

theorem pure (a : α) : Blind (pure a) := fun _ _ _ => ⟨rfl, rfl⟩

theorem ofExcept (x : Except Fault α) : Blind (ofExcept x) := by
  cases x <;> exact fun _ _ _ => ⟨rfl, rfl⟩

theorem modify {f : Session → Session}
    (h : ∀ s caches clock, f { s with caches, clock } = { f s with caches, clock }) :
    Blind (modify f : Step PUnit) := fun s caches clock => ⟨rfl, h s caches clock⟩

theorem bind {p : Step α} {k : α → Step β} (hp : Blind p) (hk : ∀ a, Blind (k a)) :
    Blind (p >>= k) := by
  intro s caches clock
  obtain ⟨hresult, hafter⟩ := hp s caches clock
  cases h : p.result s with
  | error f =>
      rw [h] at hresult
      rw [result_bind_error h, result_bind_error hresult, after_bind_error h,
        after_bind_error hresult]
      exact ⟨rfl, hafter⟩
  | ok a =>
      rw [h] at hresult
      rw [result_bind_ok h, result_bind_ok hresult, after_bind_ok h, after_bind_ok hresult, hafter]
      exact hk a _ caches clock

theorem checkPatience : Blind checkPatience := by
  rintro ⟨_, _, patience, fetches⟩ caches clock
  rcases patience with _ | _ | n <;> exact ⟨rfl, rfl⟩

theorem fetch {engine : Engine} (p : Plan) (range : TimeRange) (hints : FetchHints)
    (quality : QualityFilter) : Blind (p.fetch engine range hints quality) := by
  unfold Plan.fetch
  split
  · exact pure _
  · refine .bind (.modify fun _ _ _ => rfl) fun _ => .bind (.ofExcept _) fun stream => ?_
    refine .bind (.ofExcept _) fun data => ?_
    split
    · exact .bind (.modify fun _ _ _ => rfl) fun _ => .bind .checkPatience fun _ => .pure _
    · exact .bind .checkPatience fun _ => .pure _

/-- It leaves the caches and the clock as they are. -/
theorem after_eq {p : Step α} (h : Blind p) (s : Session) :
    (p.after s).caches = s.caches ∧ (p.after s).clock = s.clock := by
  have hafter : p.after s = { p.after s with caches := s.caches, clock := s.clock } :=
    (h s s.caches s.clock).2
  have hcaches := congrArg Session.caches hafter
  have hclock := congrArg Session.clock hafter
  exact ⟨hcaches, hclock⟩

end Step.Blind

/-! ## Sessions abreast -/

/-- Two sessions that differ in their cached expressions alone, those of each being what their
texts are read as, on a clock that stands still. -/
structure Session.Abreast (engine : Engine) (s s' : Session) : Prop where
  /-- What the first has cached of expressions and targets is right. -/
  sound : s.Sound engine.catalog engine.layout
  /-- What the second has cached of them is right. -/
  sound' : s'.Sound engine.catalog engine.layout
  /-- Time does not go on. -/
  still : s.clock.Still
  /-- All but the cached expressions is the same. -/
  same : ∃ expressions, s' = { s with caches := { s.caches with expressions } }

variable {engine : Engine}

theorem Session.Abreast.refl {s : Session} (hs : s.Sound engine.catalog engine.layout)
    (hstill : s.clock.Still) : Session.Abreast engine s s :=
  ⟨hs, hs, hstill, s.caches.expressions, rfl⟩

namespace Session.Abreast

variable {s s' : Session} (h : Session.Abreast engine s s')

include h

theorem blind {α : Type} {p : Step α} {labels : Prop} {post : α → Prop} (hp : p.Blind)
    (ha : Assembled engine labels p post) :
    p.result s' = p.result s ∧ Session.Abreast engine (p.after s) (p.after s') := by
  obtain ⟨hs, hs', hstill, expressions, rfl⟩ := h
  obtain ⟨hresult, hafter⟩ := hp s { s.caches with expressions } s.clock
  obtain ⟨hcaches, hclock⟩ := hp.after_eq s
  refine ⟨hresult, (ha.sound hs).1, (ha.sound hs').1, ?_, expressions, ?_⟩
  · rw [hclock]
    exact hstill
  · rw [hafter, hcaches, ← hclock]

/-- What is looked up in the other caches is there for both or for none. -/
theorem resolve (text : Text) :
    (Step.resolve engine text).result s' = (Step.resolve engine text).result s
      ∧ Session.Abreast engine ((Step.resolve engine text).after s)
        ((Step.resolve engine text).after s') := by
  have ha : Assembled engine True (Step.resolve engine text) _ := .resolve text
  obtain ⟨hs, hs', hstill, expressions, rfl⟩ := h
  refine ⟨?_, (ha.sound hs).1, (ha.sound hs').1, ?_, expressions, ?_⟩
  · rw [Step.result_resolve, Step.result_resolve]
  · rw [Step.after_resolve]
    exact (congrArg Clock.Still (Cache.clock_getOrTry hstill _ _ _)).mpr hstill
  · rw [Step.after_resolve, Step.after_resolve]

theorem label {key : Text} {make : Unit → Text} {labels : Prop} {post : Text → Prop}
    (ha : Assembled engine labels (Step.label key make) post) :
    (Step.label key make).result s' = (Step.label key make).result s
      ∧ Session.Abreast engine ((Step.label key make).after s)
        ((Step.label key make).after s') := by
  obtain ⟨hs, hs', hstill, expressions, rfl⟩ := h
  refine ⟨rfl, (ha.sound hs).1, (ha.sound hs').1, ?_, expressions, rfl⟩
  have hclock := Cache.clock_getOrInsert hstill s.caches.labels key make
  rw [Step.after_label]
  exact (congrArg Clock.Still hclock).mpr hstill

/-- Two texts may be read side by side. -/
theorem parse (text text' : Text) :
    Session.Abreast engine ((Step.parse text).after s) ((Step.parse text').after s') := by
  obtain ⟨hs, hs', hstill, expressions, rfl⟩ := h
  have hp : ∀ text, Assembled engine True (Step.parse text) _ := .parse
  refine ⟨((hp text).sound hs).1, ((hp text').sound hs').1, ?_, ?_⟩
  · rw [Step.after_parse]
    exact (congrArg Clock.Still (Cache.clock_getOrTry hstill _ _ _)).mpr hstill
  · rw [Step.after_parse, Step.after_parse]
    dsimp only
    rw [Cache.clock_getOrTry hstill, Cache.clock_getOrTry hstill]
    exact ⟨_, rfl⟩

end Session.Abreast

/-- Steps that give the same and leave the sessions abreast, one after another. -/
theorem Session.Abreast.bind {s s' : Session} {α β : Type} {p q : Step α} {k k' : α → Step β}
    (hp : q.result s' = p.result s ∧ Session.Abreast engine (p.after s) (q.after s'))
    (hk : ∀ a, p.result s = .ok a → (k' a).result (q.after s') = (k a).result (p.after s)
      ∧ Session.Abreast engine ((k a).after (p.after s)) ((k' a).after (q.after s'))) :
    (q >>= k').result s' = (p >>= k).result s
      ∧ Session.Abreast engine ((p >>= k).after s) ((q >>= k').after s') := by
  obtain ⟨hresult, hafter⟩ := hp
  cases hr : p.result s with
  | error f =>
      rw [hr] at hresult
      rw [Step.result_bind_error hr, Step.result_bind_error hresult, Step.after_bind_error hr,
        Step.after_bind_error hresult]
      exact ⟨rfl, hafter⟩
  | ok a =>
      rw [hr] at hresult
      rw [Step.result_bind_ok hr, Step.result_bind_ok hresult, Step.after_bind_ok hr,
        Step.after_bind_ok hresult]
      exact hk a hr

/-- A step of a query gives the same in both sessions and leaves them abreast. -/
theorem Assembled.abreast {labels : Prop} {α : Type} {p : Step α} {post : α → Prop}
    (ha : Assembled engine labels p post) {s s' : Session} (h : Session.Abreast engine s s') :
    p.result s' = p.result s ∧ Session.Abreast engine (p.after s) (p.after s') := by
  induction ha generalizing s s' with
  | pure hpost => exact ⟨rfl, h⟩
  | fault hf => exact ⟨rfl, h⟩
  | patience => exact h.blind .checkPatience (@Assembled.patience engine labels)
  | parse text =>
      refine ⟨?_, h.parse text text⟩
      rw [(h.sound.parse text).1, (h.sound'.parse text).1]
  | resolve text => exact h.resolve text
  | label hlabels hbody => exact h.label (.label hlabels hbody)
  | fetch p range hints quality =>
      exact h.blind (.fetch p range hints quality)
        (@Assembled.fetch engine labels p range hints quality)
  | bind hp hk ihp ihk =>
      have hmid := (hp.sound h.sound).2
      exact Session.Abreast.bind (ihp h) fun a ha => ihk a (hmid a ha) (ihp h).2
  | @outcome _ _ q hp ihp =>
      obtain ⟨hresult, hafter⟩ := ihp h
      rw [Step.result_outcome, Step.result_outcome, Step.after_outcome, Step.after_outcome, hresult]
      exact ⟨rfl, hafter⟩
  | @rescue _ _ q handler hp hh hc ihp ihh =>
      obtain ⟨hresult, hafter⟩ := ihp h
      cases hr : q.result s with
      | ok a =>
          rw [hr] at hresult
          rw [(Step.run_tryCatch_ok hr).1, (Step.run_tryCatch_ok hresult).1,
            (Step.run_tryCatch_ok hr).2, (Step.run_tryCatch_ok hresult).2]
          exact ⟨rfl, hafter⟩
      | error f =>
          rw [hr] at hresult
          rw [(Step.run_tryCatch_error hr).1, (Step.run_tryCatch_error hresult).1,
            (Step.run_tryCatch_error hr).2, (Step.run_tryCatch_error hresult).2]
          by_cases hf : f = .cancelled
          · rw [hf, hc]
            exact ⟨rfl, hafter⟩
          · exact ihh f hf hafter
  | mono hp himp ihp => exact ihp h

/-! ## Histories -/

/-- A step of a query does not make time go on. -/
theorem Assembled.still {labels : Prop} {α : Type} {p : Step α} {post : α → Prop}
    (ha : Assembled engine labels p post) {s : Session}
    (hs : s.Sound engine.catalog engine.layout) (hstill : s.clock.Still) :
    (p.after s).clock.Still :=
  (ha.abreast (.refl hs hstill)).2.still

namespace Session

theorem still_visit {s : Session} (hs : s.Sound engine.catalog engine.layout)
    (hstill : s.clock.Still) (v : Visit) :
    (s.visit engine.catalog engine.layout v).clock.Still := by
  cases v with
  | query source shuffle patience r =>
      let asked : Engine := ⟨engine.catalog, engine.layout, source, shuffle⟩
      let begun : Session := { s with patience, fetches := [] }
      have hbegun : begun.Sound asked.catalog asked.layout := ⟨hs.expressions, hs.targets⟩
      rw [Session.visit_query]
      exact (r.assembled_answers asked).still hbegun hstill
  | parse text =>
      have ha : Assembled engine True (Step.parse text) _ := .parse text
      exact ha.still hs hstill
  | resolve text =>
      let asked : Engine := ⟨engine.catalog, engine.layout, Archive.source ⟨[]⟩, id⟩
      have ha : Assembled asked True (Step.resolve asked text) _ := .resolve text
      have hsound : s.Sound asked.catalog asked.layout := hs
      exact ha.still hsound hstill
  | clear => exact hstill
  | sweep =>
      simp only [visit, Caches.sweep, hstill.read]
      exact hstill
  | wait millis => exact hstill

/-- A clock that stood still at the beginning stands still after every history. -/
theorem still_labelVisitAll (engine : Engine) (idle : Nat) {clock : Clock} (hstill : clock.Still)
    (visits : List LabelVisit) :
    ((start idle clock).labelVisitAll engine visits).clock.Still := by
  suffices h : ∀ s : Session, s.Sound engine.catalog engine.layout → s.LabelsSound engine →
      s.clock.Still → (s.labelVisitAll engine visits).clock.Still from
    h _ (.start idle clock) (Cache.Holds.empty idle clock.now) hstill
  induction visits with
  | nil => exact fun s _ _ hstill => hstill
  | cons v visits ih =>
      intro s hs hl hstill
      obtain ⟨hs', hl'⟩ := hl.labelVisit hs v
      refine ih _ hs' hl' ?_
      cases v with
      | render whole root =>
          have ha : Assembled engine True
              ((Template.ofText engine.catalog whole).renderCached engine root) fun _ => True :=
            Call.assembled_renderCached whole root (.inl trivial)
          exact ha.still hs hstill
      | visit v => exact still_visit hs hstill v

end Session

/-! ## Steps abreast -/

/-- Two steps that give the same from sessions abreast and leave them abreast. -/
def Step.Abreast (engine : Engine) {α : Type} (p q : Step α) : Prop :=
  ∀ s s' : Session, Session.Abreast engine s s' →
    q.result s' = p.result s ∧ Session.Abreast engine (p.after s) (q.after s')

namespace Step.Abreast

variable {α β : Type}

theorem of_assembled {labels : Prop} {p : Step α} {post : α → Prop}
    (ha : Assembled engine labels p post) : Abreast engine p p := fun _ _ h => ha.abreast h

theorem bind {p q : Step α} {k k' : α → Step β} (h : Abreast engine p q)
    (hk : ∀ a, Abreast engine (k a) (k' a)) : Abreast engine (p >>= k) (q >>= k') :=
  fun s s' hs => Session.Abreast.bind (h s s' hs) fun a _ => hk a _ _ (h s s' hs).2

/-- Where two texts are read, only what is done with their expressions matters. -/
theorem parse_bind {text text' : Text} {e e' : Expression} {k k' : Expression → Step β}
    (he : Expression.parse text = .ok e) (he' : Expression.parse text' = .ok e')
    (hk : Abreast engine (k e) (k' e')) :
    Abreast engine (Step.parse text >>= k) (Step.parse text' >>= k') := by
  intro s s' hs
  have hr := (hs.sound.parse text).1.trans he
  have hr' := (hs.sound'.parse text').1.trans he'
  rw [result_bind_ok hr, result_bind_ok hr', after_bind_ok hr, after_bind_ok hr']
  exact hk _ _ (hs.parse text text')

end Step.Abreast

end SeriesQuery
