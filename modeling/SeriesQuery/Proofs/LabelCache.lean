import SeriesQuery.Proofs.CacheTransparency

/-!
# When a cached label is the label

A label is kept under its template and its root with an `@` between them. Both may hold an `@` of
their own, so different templates may share a key with different roots, and whichever of them is
rendered first decides what the others are given: labels, unlike expressions and targets, are not
cached transparently.

What does hold is that a cached label is what some template gives to some root of the same key.
`LabelsSound` says so of a session, and every step of a query keeps it. A label is therefore the
same after all histories exactly if all templates and roots that share its key agree on it. Roots
without `@` share none.
-/

namespace SeriesQuery

namespace Template

/-- Some template that puts fields in gives this label to some root, under this key. -/
def Gives (engine : Engine) (key label : Text) : Prop :=
  ∃ whole root : Text, '{' ∈ (ofText engine.catalog whole).body
    ∧ (ofText engine.catalog whole).cacheKey root = key
    ∧ (ofText engine.catalog whole).render engine root = label

/-- Where no root holds an `@`, the last one in a key tells template and root apart. -/
theorem cacheKey_injective {t t' : Template} {root root' : Text} (h : '@' ∉ root)
    (h' : '@' ∉ root') (hkey : t.cacheKey root = t'.cacheKey root') :
    t.whole = t'.whole ∧ root = root' := by
  unfold cacheKey at hkey
  rcases List.append_eq_append_iff.mp hkey with ⟨more, hwhole, hroot⟩ | ⟨more, hwhole, hroot⟩
  · cases more with
    | nil => exact ⟨by rw [hwhole, List.append_nil], (List.cons.inj hroot).2⟩
    | cons c more =>
        refine absurd ?_ h
        rw [(List.cons.inj hroot).2]
        exact List.mem_append_right _ List.mem_cons_self
  · cases more with
    | nil => exact ⟨by rw [hwhole, List.append_nil], (List.cons.inj hroot).2.symm⟩
    | cons c more =>
        refine absurd ?_ h'
        rw [(List.cons.inj hroot).2]
        exact List.mem_append_right _ List.mem_cons_self

end Template

/-! ## What cached labels are -/

/-- Every cached label is one that its key stands for. -/
def Session.LabelsSound (engine : Engine) (s : Session) : Prop :=
  s.caches.labels.Holds (Template.Gives engine)

/-- A step of a query makes labels of templates only, so what it caches is sound. -/
theorem Assembled.labelsSound {engine : Engine} {labels : Prop} {α : Type} {p : Step α}
    {post : α → Prop} (h : Assembled engine labels p post) {s : Session}
    (hs : s.Sound engine.catalog engine.layout) (hl : s.LabelsSound engine) :
    (p.after s).LabelsSound engine := by
  induction h generalizing s with
  | pure hpost => exact hl
  | fault hf => exact hl
  | patience =>
      unfold Session.LabelsSound
      rw [Step.caches_after_checkPatience]
      exact hl
  | parse text =>
      rw [Step.after_parse]
      exact hl
  | resolve text =>
      rw [Step.after_resolve]
      exact hl
  | @label whole root _ hbody =>
      rw [Step.after_label]
      exact (Cache.Holds.getOrInsert hl s.clock ⟨whole, root, hbody, rfl, rfl⟩).2
  | fetch p range hints quality =>
      have hc : ((p.fetch engine range hints quality).after s).caches = s.caches :=
        p.caches_after_fetch range hints quality s
      unfold Session.LabelsSound
      rw [hc]
      exact hl
  | @bind _ _ _ _ q k hp hk ihp ihk =>
      obtain ⟨hkeep, hmid⟩ := hp.sound hs
      cases hr : q.result s with
      | error f =>
          rw [Step.after_bind_error hr]
          exact ihp hs hl
      | ok a =>
          rw [Step.after_bind_ok hr]
          exact ihk a (hmid a hr) hkeep (ihp hs hl)
  | @outcome _ _ q hp ihp =>
      rw [Step.after_outcome]
      exact ihp hs hl
  | @rescue _ _ q handler hp hh hc ihp ihh =>
      cases hr : q.result s with
      | ok a =>
          rw [(Step.run_tryCatch_ok hr).2]
          exact ihp hs hl
      | error f =>
          rw [(Step.run_tryCatch_error hr).2]
          by_cases hf : f = .cancelled
          · rw [hf, hc]
            exact ihp hs hl
          · exact ihh f hf (hp.sound hs).1 (ihp hs hl)
  | mono hp himp ihp => exact ihp hs hl

/-- In a session with sound labels a template gives its own body if it puts nothing in, and else
a label that its key stands for. -/
theorem Template.result_renderCached {engine : Engine} {s : Session} (hl : s.LabelsSound engine)
    (whole root : Text) :
    let t := Template.ofText engine.catalog whole
    ∃ label, (t.renderCached engine root).result s = .ok label
      ∧ if t.body.contains '{' then Gives engine (t.cacheKey root) label else label = t.body := by
  intro t
  unfold renderCached
  split
  · next hbody =>
      have hgives : Gives engine (t.cacheKey root) (t.render engine root) :=
        ⟨whole, root, List.contains_iff_mem.mp hbody, rfl, rfl⟩
      exact ⟨_, Step.result_label _ _ s, (Cache.Holds.getOrInsert hl s.clock hgives).1⟩
  · exact ⟨t.body, rfl, rfl⟩

/-! ## Histories -/

/-- What the labels of an engine go through. -/
inductive LabelVisit where
  /-- A template names the series of a root. -/
  | render (whole root : Text)
  /-- Whatever else a session goes through, queries with labels of their own among it. -/
  | visit (v : Visit)

namespace Session

/-- The session after a visit to the labels of an engine. -/
def labelVisit (engine : Engine) (s : Session) : LabelVisit → Session
  | .render whole root => ((Template.ofText engine.catalog whole).renderCached engine root).after s
  | .visit v => s.visit engine.catalog engine.layout v

/-- The session after visits to the labels of an engine, one after the other. -/
def labelVisitAll (engine : Engine) (s : Session) (visits : List LabelVisit) : Session :=
  visits.foldl (labelVisit engine) s

variable {engine : Engine}

/-- A visit keeps the labels sound. -/
theorem LabelsSound.visit {s : Session} (hs : s.Sound engine.catalog engine.layout)
    (hl : s.LabelsSound engine) (v : Visit) :
    (s.visit engine.catalog engine.layout v).LabelsSound engine := by
  cases v with
  | query source shuffle patience r =>
      have hbegun : Session.Sound engine.catalog engine.layout { s with patience, fetches := [] } :=
        ⟨hs.expressions, hs.targets⟩
      rw [Session.visit_query]
      exact (r.assembled_answers ⟨engine.catalog, engine.layout, source, shuffle⟩).labelsSound
        hbegun hl
  | parse text =>
      show ((Step.parse text).after s).LabelsSound engine
      rw [Step.after_parse]
      exact hl
  | resolve text =>
      show ((Step.resolve _ text).after s).LabelsSound engine
      rw [Step.after_resolve]
      exact hl
  | clear => exact Cache.Holds.clear
  | sweep => exact hl.sweep _
  | wait millis => exact hl

theorem LabelsSound.labelVisit {s : Session} (hs : s.Sound engine.catalog engine.layout)
    (hl : s.LabelsSound engine) (v : LabelVisit) :
    (s.labelVisit engine v).Sound engine.catalog engine.layout
      ∧ (s.labelVisit engine v).LabelsSound engine := by
  cases v with
  | render whole root =>
      have h : Assembled engine True
          ((Template.ofText engine.catalog whole).renderCached engine root) fun _ => True :=
        Call.assembled_renderCached whole root (.inl trivial)
      exact ⟨(h.sound hs).1, h.labelsSound hs hl⟩
  | visit v => exact ⟨hs.visit v, hl.visit hs v⟩

/-- Whatever an engine has been through, its caches are sound. -/
theorem sound_labelVisitAll (engine : Engine) (idle : Nat) (clock : Clock)
    (visits : List LabelVisit) :
    ((start idle clock).labelVisitAll engine visits).Sound engine.catalog engine.layout
      ∧ ((start idle clock).labelVisitAll engine visits).LabelsSound engine := by
  suffices h : ∀ s : Session, s.Sound engine.catalog engine.layout → s.LabelsSound engine →
      (s.labelVisitAll engine visits).Sound engine.catalog engine.layout
        ∧ (s.labelVisitAll engine visits).LabelsSound engine from
    h _ (.start idle clock) (Cache.Holds.empty idle clock.now)
  induction visits with
  | nil => exact fun s hs hl => ⟨hs, hl⟩
  | cons v visits ih =>
      intro s hs hl
      obtain ⟨hs', hl'⟩ := hl.labelVisit hs v
      exact ih _ hs' hl'

theorem labelsSound_labelVisitAll (engine : Engine) (idle : Nat) (clock : Clock)
    (visits : List LabelVisit) :
    ((start idle clock).labelVisitAll engine visits).LabelsSound engine :=
  (sound_labelVisitAll engine idle clock visits).2

/-! ## When histories do not show -/

/-- A label that has just been rendered is given again to all that shares its key. -/
theorem result_render_again {t t' : Template} {root root' : Text} (hbody : '{' ∈ t.body)
    (hbody' : '{' ∈ t'.body) (hkey : t'.cacheKey root' = t.cacheKey root) (idle now : Nat) :
    let s := (t'.renderCached engine root').after (start idle (Clock.still now))
    (t.renderCached engine root).result s = .ok (t'.render engine root') := by
  have hagain := Cache.getOrInsert_again (Cache.empty idle now) now (t.cacheKey root)
    (fun _ => t'.render engine root') fun _ => t.render engine root
  intro s
  have hs : s = (Step.label (t.cacheKey root) fun _ => t'.render engine root').after
      (start idle (Clock.still now)) := by
    show (t'.renderCached engine root').after _ = _
    unfold Template.renderCached
    rw [if_pos (List.contains_iff_mem.mpr hbody'), hkey]
  unfold Template.renderCached
  rw [if_pos (List.contains_iff_mem.mpr hbody), hs, Step.result_label]
  exact congrArg Except.ok hagain

/-- The label that a template gives to a root is what a session without a past would give, after
every history, exactly if all that shares its key renders the same. -/
theorem label_transparent_iff (engine : Engine) (whole root : Text) :
    let t := Template.ofText engine.catalog whole
    (∀ idle clock idle' clock' visits, (t.renderCached engine root).result
          ((start idle clock).labelVisitAll engine visits)
        = (t.renderCached engine root).result (start idle' clock'))
      ↔ ('{' ∈ t.body → ∀ whole' root', let t' := Template.ofText engine.catalog whole'
          '{' ∈ t'.body → t'.cacheKey root' = t.cacheKey root →
            t'.render engine root' = t.render engine root) := by
  intro t
  have hfresh : '{' ∈ t.body → ∀ idle clock, (t.renderCached engine root).result
      (start idle clock) = .ok (t.render engine root) := by
    intro hbody idle clock
    unfold Template.renderCached
    rw [if_pos (List.contains_iff_mem.mpr hbody)]
    rfl
  constructor
  · intro h hbody whole' root' t' hbody' hkey
    have hrun := h 0 (.still 0) 0 (.still 0) [.render whole' root']
    have hagain := @result_render_again engine _ _ _ _ hbody hbody' hkey 0 0
    rw [hfresh hbody] at hrun
    exact Except.ok.inj (hagain.symm.trans hrun)
  · intro h idle clock idle' clock' visits
    obtain ⟨label, hresult, hlabel⟩ := Template.result_renderCached
      (labelsSound_labelVisitAll engine idle clock visits) whole root
    rw [hresult]
    split at hlabel
    · next hcontains =>
        have hbody := List.contains_iff_mem.mp hcontains
        obtain ⟨whole', root', hbody', hkey, hrender⟩ := hlabel
        rw [hfresh hbody, ← hrender, h hbody whole' root' hbody' hkey]
    · next hcontains =>
        unfold Template.renderCached
        rw [if_neg hcontains, hlabel]
        rfl

/-- The tag `A@B` under the template `{Device}` and the tag `B` under the template `{Device}@A`
share a key, so the second series is given the name of the first one's device. -/
theorem label_mistaken_after_shared_key :
    let row (key tag device : String) : Fields := Fields.ofList [(Text.of "ID", Text.of key),
      (Text.of "PointTag", Text.of tag), (Text.of "Device", Text.of device)]
    let catalog : Catalog := ⟨[(Text.of "ActiveMeasurements",
      [row "PPA:1" "B" "ONE", row "PPA:2" "A@B" "TWO"])], .standard⟩
    let layout : Layout := ⟨Text.of "ActiveMeasurements", Text.of "ID", Text.of "PointTag",
      Text.of "SignalID"⟩
    let engine : Engine := ⟨catalog, layout, Archive.source ⟨[]⟩, id⟩
    let fresh := start 60000 (Clock.still 0)
    let s := fresh.labelVisitAll engine [.render (Text.of "{Device}") (Text.of "A@B")]
    let t := Template.ofText catalog (Text.of "{Device}@A")
    (t.renderCached engine (Text.of "B")).result fresh = .ok (Text.of "ONE@A")
      ∧ (t.renderCached engine (Text.of "B")).result s = .ok (Text.of "TWO") := by
  intro row catalog layout engine fresh s t
  have hother : (Template.ofText catalog (Text.of "{Device}")).render engine (Text.of "A@B")
      = Text.of "TWO" := by decide +kernel
  refine ⟨by decide +kernel, ?_⟩
  rw [← hother]
  exact result_render_again (by decide +kernel) (by decide +kernel) (by decide +kernel) 60000 0

end Session

end SeriesQuery
