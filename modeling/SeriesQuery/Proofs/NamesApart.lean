import SeriesQuery.Proofs.LabelNames
import SeriesQuery.Proofs.RelatedSteps

/-!
# What queries yield but for names

What a session has been through may show in a label, and so in the names of series. It shows
nowhere else: no root and no sample is made from a name. So from two sessions with sound caches,
whose callers wait equally long, an expression gives the same series but for their names, or it
fails with the same fault.

`Step.Alike` says so of two steps, with a relation between their results. Its rules are those of
steps side by side, and of the steps that touch a session, and evaluating is then gone through
once, call by call.
-/

namespace SeriesQuery

/-- Two sessions with sound caches whose callers wait equally long. -/
structure Session.Alike (engine : Engine) (s s' : Session) : Prop where
  /-- Cached answers of the first are answers. -/
  sound : s.Sound engine.catalog engine.layout
  /-- Its labels are sound. -/
  labelsSound : s.LabelsSound engine
  /-- Cached answers of the second are answers. -/
  sound' : s'.Sound engine.catalog engine.layout
  /-- Its labels are sound. -/
  labelsSound' : s'.LabelsSound engine
  /-- Neither caller gives up before the other. -/
  patience : s.patience = s'.patience

/-- From sessions that are alike two steps give related results, or the same fault, and leave
sessions that are alike. -/
def Step.Alike (engine : Engine) {α β : Type} (R : α → β → Prop) (p : Step α) (q : Step β) :
    Prop :=
  ∀ s s' : Session, Session.Alike engine s s' →
    SameOutcome R (p.result s) (q.result s') ∧ Session.Alike engine (p.after s) (q.after s')

variable {engine : Engine}

/-- What a step of a query does to the caches keeps sessions alike. -/
theorem Session.Alike.after {s s' : Session} (h : Session.Alike engine s s') {α β : Type}
    {p : Step α} {q : Step β} {post : α → Prop} {post' : β → Prop}
    (hp : Assembled engine True p post) (hq : Assembled engine True q post')
    (hpatience : (p.after s).patience = (q.after s').patience) :
    Session.Alike engine (p.after s) (q.after s') where
  sound := (hp.sound h.sound).1
  labelsSound := hp.labelsSound h.sound h.labelsSound
  sound' := (hq.sound h.sound').1
  labelsSound' := hq.labelsSound h.sound' h.labelsSound'
  patience := hpatience

namespace Step.Alike

variable {α β γ δ : Type} {R : α → β → Prop} {S : γ → δ → Prop}

theorem pure {a : α} {b : β} (h : R a b) : Alike engine R (pure a) (pure b) := Related.pure h

theorem throw (f : Fault) : Alike engine R (throw f) (throw f) := Related.throw f

theorem ofExcept (x : Except Fault α) : Alike engine Eq (ofExcept x) (ofExcept x) :=
  Related.ofExcept (.refl x)

theorem bind {p : Step α} {q : Step β} {k : α → Step γ} {k' : β → Step δ}
    (h : Alike engine R p q) (hk : ∀ a b, R a b → Alike engine S (k a) (k' b)) :
    Alike engine S (p >>= k) (q >>= k') :=
  Related.bind h hk

theorem mono {R' : α → β → Prop} {p : Step α} {q : Step β} (h : Alike engine R p q)
    (himp : ∀ a b, R a b → R' a b) : Alike engine R' p q :=
  Related.mono h himp

/-- What holds of the results from sessions with sound labels holds of both results. -/
theorem and_labelling {p : Step α} {q : Step β} (h : Alike engine R p q) {post : α → Prop}
    {post' : β → Prop} (hp : Labelling engine p post) (hq : Labelling engine q post') :
    Alike engine (fun a b => R a b ∧ post a ∧ post' b) p q := by
  intro s s' hs
  obtain ⟨houtcome, hafter⟩ := h s s' hs
  obtain ⟨a, ha, hpost, -⟩ := hp s hs.labelsSound
  obtain ⟨b, hb, hpost', -⟩ := hq s' hs.labelsSound'
  rw [ha, hb] at houtcome ⊢
  cases houtcome with
  | ok hab => exact ⟨.ok ⟨hab, hpost, hpost'⟩, hafter⟩

/-- A step for each entry of two lists; each gives a result for every entry. -/
theorem mapM {f : γ → Step α} {g : δ → Step β} {l : List γ} {l' : List δ}
    (hl : List.Forall₂ S l l') (h : ∀ c d, S c d → Alike engine R (f c) (g d)) :
    Alike engine (fun as bs => List.Forall₂ R as bs ∧ as.length = l.length) (l.mapM f)
      (l'.mapM g) := by
  induction hl with
  | nil =>
      rw [List.mapM_nil, List.mapM_nil]
      exact .pure ⟨.nil, rfl⟩
  | @cons c d l l' hcd _ ih =>
      rw [List.mapM_cons, List.mapM_cons]
      refine .bind (h c d hcd) fun a b hab => .bind ih fun as bs hbs => .pure ?_
      exact ⟨.cons hab hbs.1, congrArg (· + 1) hbs.2⟩

theorem mapM_one {f : γ → Step α} {g : δ → Step β} {c : γ} {d : δ}
    (h : Alike engine R (f c) (g d)) :
    Alike engine (fun as bs => ∃ a b, as = [a] ∧ bs = [b] ∧ R a b) ([c].mapM f) ([d].mapM g) := by
  rw [List.mapM_cons, List.mapM_nil, List.mapM_cons, List.mapM_nil]
  exact .bind h fun a b hab => .pure ⟨a, b, rfl, rfl, hab⟩

theorem mapM_same {f : γ → Step α} {g : γ → Step β} {l : List γ}
    (h : ∀ c, Alike engine R (f c) (g c)) :
    Alike engine (List.Forall₂ R) (l.mapM f) (l.mapM g) := by
  have hl : List.Forall₂ Eq l l := List.forall₂_same.mpr fun c _ => rfl
  refine .mono (.mapM hl fun c d hcd => ?_) fun as bs hbs => hbs.1
  rw [← hcd]
  exact h c

theorem foldlM_same {f : β → γ → Step β} {l : List γ}
    (h : ∀ b c, Alike engine Eq (f b c) (f b c)) (b : β) :
    Alike engine Eq (l.foldlM f b) (l.foldlM f b) := by
  induction l generalizing b with
  | nil =>
      rw [List.foldlM_nil]
      exact .pure rfl
  | cons c l ih =>
      rw [List.foldlM_cons]
      refine .bind (h b c) fun b' _ hsame => ?_
      rw [← hsame]
      exact ih b'

/-- What is done to the session apart from its caches. -/
theorem modify {f : Session → Session} (hcaches : ∀ s, (f s).caches = s.caches)
    (hpatience : ∀ s s' : Session, s.patience = s'.patience → (f s).patience = (f s').patience) :
    Alike engine Eq (modify f : Step PUnit) (modify f) := by
  intro s s' hs
  have hlabels : ∀ {s : Session}, s.LabelsSound engine → (f s).LabelsSound engine := by
    intro s hl
    unfold Session.LabelsSound
    rw [hcaches]
    exact hl
  refine ⟨.ok rfl, ?_, hlabels hs.labelsSound, ?_, hlabels hs.labelsSound',
    hpatience s s' hs.patience⟩
  · exact hs.sound.of_caches (by rw [← hcaches s]; rfl) (by rw [← hcaches s]; rfl)
  · exact hs.sound'.of_caches (by rw [← hcaches s']; rfl) (by rw [← hcaches s']; rfl)

theorem parse {text text' : Text} {R : Expression → Expression → Prop}
    (h : SameOutcome R (Expression.parse text) (Expression.parse text')) :
    Alike engine R (parse text) (parse text') := by
  intro s s' hs
  refine ⟨?_, hs.after (.parse text) (.parse text') ?_⟩
  · rw [(hs.sound.parse text).1, (hs.sound'.parse text').1]
    exact h
  · rw [after_parse, after_parse]
    exact hs.patience

theorem resolve (text : Text) : Alike engine Eq (resolve engine text) (resolve engine text) := by
  intro s s' hs
  refine ⟨?_, hs.after (.resolve text) (.resolve text) ?_⟩
  · rw [(hs.sound.resolve text).1, (hs.sound'.resolve text).1]
    exact .refl _
  · rw [after_resolve, after_resolve]
    exact hs.patience

/-- All that a check of the caller's patience does is decided by the patience. -/
theorem checkPatience_eq (s : Session) :
    checkPatience.result s = (if s.patience = some 0 then .error .cancelled else .ok ())
      ∧ (checkPatience.after s).patience = s.patience.map (· - 1) := by
  obtain ⟨hp, hr, ha⟩ | ⟨hp, hr, ha⟩ | ⟨n, hp, hr, ha⟩ := checkPatience_cases s
  all_goals rw [hr, ha, hp]; exact ⟨rfl, rfl⟩

theorem checkPatience : Alike engine Eq checkPatience checkPatience := by
  intro s s' hs
  obtain ⟨hr, ha⟩ := checkPatience_eq s
  obtain ⟨hr', ha'⟩ := checkPatience_eq s'
  refine ⟨?_, hs.after .patience .patience ?_⟩
  · rw [hr, hr', hs.patience]
    exact .refl _
  · rw [ha, ha', hs.patience]

/-- Templates may give different names, but each gives one. -/
theorem renderCached (whole root whole' root' : Text) :
    Alike engine (fun _ _ => True)
      ((Template.ofText engine.catalog whole).renderCached engine root)
      ((Template.ofText engine.catalog whole').renderCached engine root') := by
  have hwaits : ∀ (t : Template) (root : Text) (s : Session),
      ((t.renderCached engine root).after s).patience = s.patience := by
    intro t root s
    unfold Template.renderCached
    split <;> rfl
  intro s s' hs
  obtain ⟨name, hname, -⟩ := Template.result_renderCached hs.labelsSound whole root
  obtain ⟨name', hname', -⟩ := Template.result_renderCached hs.labelsSound' whole' root'
  refine ⟨?_, hs.after (Call.assembled_renderCached whole root (.inl trivial))
    (Call.assembled_renderCached whole' root' (.inl trivial)) ?_⟩
  · rw [hname, hname']
    exact .ok trivial
  · rw [hwaits, hwaits]
    exact hs.patience

end Step.Alike

/-! ## Series that differ in their names only -/

theorem Series.Renames.symm {a b : Series} (h : a.Renames b) : b.Renames a := by
  unfold Renames at *
  rw [h]

theorem Series.Renames.trans {a b c : Series} (h : a.Renames b) (h' : b.Renames c) :
    a.Renames c := by
  unfold Renames at *
  rw [h', h]

/-- Series that have been renamed twice over differ in their names only. -/
theorem renames_of_common {a b : List Series} (h : List.Forall₂ Series.Renames a b)
    {a' b' : List Series} (ha : List.Forall₂ Series.Renames a a')
    (hb : List.Forall₂ Series.Renames b b') : List.Forall₂ Series.Renames a' b' := by
  induction h generalizing a' b' with
  | nil =>
      cases ha
      cases hb
      exact .nil
  | cons hab _ ih =>
      cases ha with
      | cons haa ha =>
          cases hb with
          | cons hbb hb => exact .cons ((haa.symm.trans hab).trans hbb) (ih ha hb)

section Renamed

variable {inputs outputs : List Series} (h : List.Forall₂ Series.Renames inputs outputs)

include h

theorem samples_of_renames : outputs.map (·.samples) = inputs.map (·.samples) := by
  induction h with
  | nil => rfl
  | cons hab _ ih => rw [List.map_cons, List.map_cons, ih, hab]

theorem allSamples_of_renames : allSamples outputs = allSamples inputs := by
  unfold allSamples
  rw [List.flatMap_def, List.flatMap_def, samples_of_renames h]

/-- Which series a key leads to is a matter of samples. -/
theorem seriesOfKey?_of_renames (key : Text) :
    Option.Rel Series.Renames (seriesOfKey? inputs key) (seriesOfKey? outputs key) := by
  unfold seriesOfKey?
  induction h with
  | nil => exact .none
  | @cons a b _ _ hab _ ih =>
      have hsamples : b.samples = a.samples := by rw [hab]
      rw [List.find?_cons, List.find?_cons, hsamples]
      split
      · exact .some hab
      · exact ih

end Renamed

namespace Call

variable {inputs outputs : List Series} (c : Call)

theorem setSeries_of_renames (h : List.Forall₂ Series.Renames inputs outputs)
    (samples : List Sample) :
    (c.setSeries inputs samples).Renames (c.setSeries outputs samples) := by
  have hsource : Option.Rel Series.Renames
      (if c.operator.isRepresentative then
        samples.head?.bind fun first => seriesOfKey? inputs first.key else none)
      (if c.operator.isRepresentative then
        samples.head?.bind fun first => seriesOfKey? outputs first.key else none) := by
    split
    · cases samples.head? with
      | none => exact .none
      | some first => exact seriesOfKey?_of_renames h first.key
    · exact .none
  unfold setSeries
  dsimp only
  generalize (if c.operator.isRepresentative then
    samples.head?.bind fun first => seriesOfKey? inputs first.key else none) = a at hsource ⊢
  generalize (if c.operator.isRepresentative then
    samples.head?.bind fun first => seriesOfKey? outputs first.key else none) = b at hsource ⊢
  cases hsource with
  | none => rfl
  | some hab =>
      rw [hab]
      rfl

theorem sliceSeries_of_renames (h : List.Forall₂ Series.Renames inputs outputs)
    (samples : List Sample) :
    List.Forall₂ Series.Renames (c.sliceSeries inputs samples)
      (c.sliceSeries outputs samples) := by
  unfold sliceSeries
  refine List.forall₂_map_left_iff.mpr (List.forall₂_map_right_iff.mpr ?_)
  refine List.forall₂_same.mpr fun key _ => ?_
  have hsource := seriesOfKey?_of_renames h key
  generalize seriesOfKey? inputs key = a at hsource ⊢
  generalize seriesOfKey? outputs key = b at hsource ⊢
  cases hsource with
  | none => rfl
  | some hab =>
      rw [hab]
      rfl

/-! ## Calls -/

variable (m : Material)

theorem alike_applyEach (h : List.Forall₂ Series.Renames inputs outputs) :
    Step.Alike engine (List.Forall₂ Series.Renames) (c.applyEach engine m inputs)
      (c.applyEach engine m outputs) := by
  unfold applyEach
  refine .mono (.mapM h fun input output hab => ?_) fun _ _ hseries => hseries.1
  refine .bind .checkPatience fun _ _ _ => ?_
  rw [hab]
  refine .bind (.ofExcept _) fun samples samples' hsame => .pure ?_
  rw [hsame]
  rfl

theorem alike_applySet (h : List.Forall₂ Series.Renames inputs outputs) :
    Step.Alike engine (List.Forall₂ Series.Renames) (c.applySet engine m inputs)
      (c.applySet engine m outputs) := by
  unfold applySet
  rw [allSamples_of_renames h]
  refine .bind .checkPatience fun _ _ _ => .bind (.ofExcept _) fun samples samples' hsame => ?_
  rw [hsame]
  exact .pure (.cons (c.setSeries_of_renames h samples') .nil)

theorem alike_applySlices (h : List.Forall₂ Series.Renames inputs outputs) :
    Step.Alike engine (List.Forall₂ Series.Renames) (c.applySlices engine m inputs)
      (c.applySlices engine m outputs) := by
  unfold applySlices
  split
  · exact .throw _
  · rw [allSamples_of_renames h, samples_of_renames h]
    refine .bind (.ofExcept _) fun seconds seconds' hsame => ?_
    subst hsame
    refine .bind (.mapM_same fun slice => .bind .checkPatience fun _ _ _ => .ofExcept _)
      fun results results' hsame => ?_
    rw [List.forall₂_eq_eq_eq] at hsame
    subst hsame
    split
    · exact .pure (.cons rfl .nil)
    · exact .pure (c.sliceSeries_of_renames h _)

/-- Two labels of series that differ in their names only, whatever their templates are. -/
theorem alike_applyLabel {d : Call} {t u : Text} {ts us : List Text}
    (hc : c.parameters = t :: ts) (hd : d.parameters = u :: us)
    (h : List.Forall₂ Series.Renames inputs outputs) :
    Step.Alike engine (List.Forall₂ Series.Renames) (c.applyLabel engine inputs)
      (d.applyLabel engine outputs) := by
  unfold applyLabel
  rw [hc, hd]
  refine .bind (.mapM h fun _ _ _ => .renderCached _ _ _ _) fun names names' hnames => .pure ?_
  have hlength : names'.length = outputs.length := by
    rw [← hnames.1.length_eq, hnames.2, h.length_eq]
  refine renames_of_common h (renames_renamed ?_).1 (renames_renamed ?_).1
  · exact (Template.length_settle _ names).trans hnames.2
  · exact (Template.length_settle _ names').trans hlength

theorem alike_apply (h : List.Forall₂ Series.Renames inputs outputs) :
    Step.Alike engine (List.Forall₂ Series.Renames) (c.apply engine m inputs)
      (c.apply engine m outputs) := by
  unfold apply
  split
  · cases hp : c.parameters with
    | nil =>
        unfold applyLabel
        rw [hp]
        exact .throw _
    | cons t ts => exact c.alike_applyLabel hp hp h
  · split
    · exact c.alike_applyEach m h
    · exact c.alike_applySet m h
    · exact c.alike_applySlices m h

end Call

/-! ## Expressions -/

namespace Expression

/-- What sessions have been through shows in names only. -/
theorem alike_evaluateFrom (m : Material) (depth : Nat) (text : Text) :
    Step.Alike engine (List.Forall₂ Series.Renames) (evaluateFrom engine m depth text)
      (evaluateFrom engine m depth text) := by
  have hliterals : ∀ (e : Expression) {called called' : List Series},
      List.Forall₂ Series.Renames called called' →
      Step.Alike engine (List.Forall₂ Series.Renames)
        (if e.remainder.isEmpty then return called else do
          let targets ← Step.resolve engine e.remainder
          return called ++ targets.series m.data)
        (if e.remainder.isEmpty then return called' else do
          let targets ← Step.resolve engine e.remainder
          return called' ++ targets.series m.data) := by
    intro e called called' hcalled
    split
    · exact .pure hcalled
    · refine .bind (.resolve _) fun targets _ hsame => .pure ?_
      subst hsame
      exact List.rel_append hcalled (List.forall₂_same.mpr fun _ _ => rfl)
  induction depth generalizing text with
  | zero =>
      unfold evaluateFrom
      refine .bind (.parse (.refl _)) fun e _ hsame => ?_
      subst hsame
      exact hliterals e .nil
  | succ depth ih =>
      unfold evaluateFrom
      refine .bind (.parse (.refl _)) fun e _ hsame => ?_
      subst hsame
      refine .bind (.mapM_same fun call => ?_) fun called called' h =>
        hliterals e (List.rel_flatten h)
      exact .bind .checkPatience fun _ _ _ => .bind (ih call.inner) fun inputs outputs h =>
        call.alike_apply m h

end Expression

/-! ## Plans -/

namespace Plan

theorem alike_collectFrom (depth : Nat) (p : Plan) (text : Text) :
    Step.Alike engine Eq (collectFrom engine depth p text) (collectFrom engine depth p text) := by
  have hliterals : ∀ (e : Expression) (p : Plan), Step.Alike engine Eq
      (if e.remainder.isEmpty then return p else
        return p.addTargets (← Step.resolve engine e.remainder))
      (if e.remainder.isEmpty then return p else
        return p.addTargets (← Step.resolve engine e.remainder)) := by
    intro e p
    split
    · exact .pure rfl
    · refine .bind (.resolve _) fun targets _ hsame => .pure ?_
      rw [hsame]
  induction depth generalizing p text with
  | zero =>
      unfold collectFrom
      refine .bind (.parse (.refl _)) fun e _ hsame => ?_
      subst hsame
      exact hliterals e p
  | succ depth ih =>
      unfold collectFrom
      refine .bind (.parse (.refl _)) fun e _ hsame => ?_
      subst hsame
      refine .bind (.foldlM_same (fun p call => ih (p.addCall call) call.inner) p)
        fun p' _ hsame => ?_
      subst hsame
      exact hliterals e p'

/-- What the source gives does not depend on the session; how long the caller waits for it is the
same for both. -/
theorem alike_fetch (p : Plan) (range : TimeRange) (hints : FetchHints) (quality : QualityFilter) :
    Step.Alike engine Eq (p.fetch engine range hints quality)
      (p.fetch engine range hints quality) := by
  have hcheck : ∀ data : RawData, Step.Alike engine Eq
      (do Step.checkPatience; return data) (do Step.checkPatience; return data) := fun data =>
    .bind .checkPatience fun _ _ _ => .pure rfl
  unfold fetch
  split
  · exact .pure rfl
  · refine .bind (.modify (fun _ => rfl) fun _ _ hp => hp) fun _ _ _ => ?_
    refine .bind (.ofExcept _) fun stream _ hsame => ?_
    subst hsame
    refine .bind (.ofExcept _) fun data _ hsame => ?_
    subst hsame
    split
    · exact .bind (.modify (fun _ => rfl) fun _ _ _ => rfl) fun _ _ _ => hcheck data
    · exact hcheck data

end Plan

end SeriesQuery
