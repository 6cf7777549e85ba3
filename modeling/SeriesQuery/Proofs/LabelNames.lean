import SeriesQuery.Proofs.DistinctNames
import SeriesQuery.Proofs.LabelCache

/-!
# Labels rename

A label gives its series other names and nothing else, and no two of them the same. The names
follow from the template and the roots alone: what the series were called before has no part in
them, so of two labels, one around the other, only the outer one shows.

The cache stands between a label and its template. `Labelling` says what a step gives from every
session whose labels are sound. There a template without `@` gives a root without `@` its own
label: the key holds a single `@`, so no other template and root share it.
-/

namespace SeriesQuery

/-- From every session with sound labels a step gives something, which is as promised, and leaves
the labels sound. -/
def Labelling (engine : Engine) {α : Type} (p : Step α) (post : α → Prop) : Prop :=
  ∀ s : Session, s.LabelsSound engine →
    ∃ a, p.result s = .ok a ∧ post a ∧ (p.after s).LabelsSound engine

namespace Labelling

variable {engine : Engine} {α β γ : Type}

theorem pure {a : α} {post : α → Prop} (h : post a) : Labelling engine (pure a) post :=
  fun _ hs => ⟨a, rfl, h, hs⟩

theorem bind {p : Step α} {k : α → Step β} {mid : α → Prop} {post : β → Prop}
    (hp : Labelling engine p mid) (hk : ∀ a, mid a → Labelling engine (k a) post) :
    Labelling engine (p >>= k) post := by
  intro s hs
  obtain ⟨a, hval, hmid, hs'⟩ := hp s hs
  rw [Step.result_bind_ok hval, Step.after_bind_ok hval]
  exact hk a hmid _ hs'

theorem mono {p : Step α} {mid post : α → Prop} (hp : Labelling engine p mid)
    (h : ∀ a, mid a → post a) : Labelling engine p post := by
  intro s hs
  obtain ⟨a, hval, hmid, hs'⟩ := hp s hs
  exact ⟨a, hval, h a hmid, hs'⟩

theorem mapM {f : γ → Step α} {post : γ → α → Prop} (h : ∀ c, Labelling engine (f c) (post c))
    (l : List γ) : Labelling engine (l.mapM f) (List.Forall₂ post l) := by
  induction l with
  | nil =>
      rw [List.mapM_nil]
      exact pure .nil
  | cons c l ih =>
      rw [List.mapM_cons]
      exact bind (h c) fun a ha => bind ih fun rest hrest => pure (.cons ha hrest)

end Labelling

/-! ## One name -/

namespace Template

/-- Without a brace there is nothing to put in. -/
theorem fill_of_not_mem (row : Fields) {t : Text} (h : '{' ∉ t) : fill row t = t := by
  induction t with
  | nil => rw [fill]
  | cons c rest ih =>
      have hc : ¬ (c == '{') = true := fun he => h (eq_of_beq he ▸ List.mem_cons_self)
      rw [fill, if_neg hc, ih fun hmem => h (List.mem_cons_of_mem _ hmem)]

theorem render_of_not_mem (engine : Engine) {t : Template} (root : Text) (h : '{' ∉ t.body) :
    t.render engine root = t.body := by
  unfold render
  split
  · rfl
  · next row _ => exact fill_of_not_mem row h

theorem whole_ofText (catalog : Catalog) (whole : Text) : (ofText catalog whole).whole = whole := by
  unfold ofText
  split
  · dsimp only
    split <;> rfl
  · rfl

/-- A key with a single `@` stands for one template and one root. -/
theorem cacheKey_unshared {t t' : Template} {root root' : Text} (ht : '@' ∉ t.whole)
    (hroot : '@' ∉ root) (hkey : t'.cacheKey root' = t.cacheKey root) :
    t'.whole = t.whole ∧ root' = root := by
  refine cacheKey_injective (fun hmem => ?_) hroot hkey
  have hone : List.count '@' (t.cacheKey root) = 1 := by
    rw [cacheKey, List.count_append, List.count_cons_self, List.count_eq_zero.mpr ht,
      List.count_eq_zero.mpr hroot]
  have hmore : 0 < List.count '@' root' := List.count_pos_iff.mpr hmem
  rw [← hkey, cacheKey, List.count_append, List.count_cons_self] at hone
  omega

/-- All that is kept under the key of a template and a root is what the template gives to it. -/
def Unshared (engine : Engine) (t : Template) (root : Text) : Prop :=
  '{' ∈ t.body → ∀ whole' root', let t' := ofText engine.catalog whole'
    '{' ∈ t'.body → t'.cacheKey root' = t.cacheKey root →
      t'.render engine root' = t.render engine root

theorem unshared_of_not_mem (engine : Engine) {whole root : Text} (hwhole : '@' ∉ whole)
    (hroot : '@' ∉ root) : (ofText engine.catalog whole).Unshared engine root := by
  intro _ whole' root' t' _ hkey
  rw [← whole_ofText engine.catalog whole] at hwhole
  obtain ⟨hw, rfl⟩ := cacheKey_unshared hwhole hroot hkey
  rw [whole_ofText, whole_ofText] at hw
  show (ofText engine.catalog whole').render engine root' = _
  rw [hw]

/-- A template gives a name; if it shares its key with no other, the name that it renders. -/
theorem labelling_renderCached (engine : Engine) (whole root : Text) :
    Labelling engine ((ofText engine.catalog whole).renderCached engine root) fun name =>
      (ofText engine.catalog whole).Unshared engine root →
        name = (ofText engine.catalog whole).render engine root := by
  intro s hs
  obtain ⟨name, hname, hgives⟩ := result_renderCached hs whole root
  have hafter : (((ofText engine.catalog whole).renderCached engine root).after s).LabelsSound
      engine := by
    unfold renderCached
    split
    · next hbody =>
        rw [Step.after_label]
        exact (Cache.Holds.getOrInsert hs s.clock
          ⟨whole, root, List.contains_iff_mem.mp hbody, rfl, rfl⟩).2
    · exact hs
  refine ⟨name, hname, fun hunshared => ?_, hafter⟩
  split at hgives
  · next hbody =>
      obtain ⟨whole', root', hbody', hkey, hrender⟩ := hgives
      rw [← hrender, hunshared (List.contains_iff_mem.mp hbody) whole' root' hbody' hkey]
  · next hbody =>
      rw [hgives, render_of_not_mem engine root fun hmem => hbody (List.contains_iff_mem.mpr hmem)]

/-! ## All names -/

/-- The names in place of those that a template has rendered: numbered from one if the template is
all there is, and made different. -/
def settle (t : Template) (rendered : List Text) : List Text :=
  distinctNames <|
    if rendered.all (· == t.body) && 1 < rendered.length then enumerated t.body rendered.length
    else rendered

/-- The names that a template gives to the series of some roots. -/
def names (engine : Engine) (t : Template) (roots : List Text) : List Text :=
  t.settle (roots.map (t.render engine))

theorem length_settle (t : Template) (rendered : List Text) :
    (t.settle rendered).length = rendered.length := by
  unfold settle
  rw [length_distinctNames]
  split
  · exact length_enumerated _ _
  · rfl

theorem length_names (engine : Engine) (t : Template) (roots : List Text) :
    (t.names engine roots).length = roots.length := by
  rw [names, length_settle, List.length_map]

end Template

/-! ## Series under other names -/

/-- A series is another one under a name of its own. -/
def Series.Renames (input output : Series) : Prop := output = { input with name := output.name }

/-- The series under other names. -/
def renamed (inputs : List Series) (names : List Text) : List Series :=
  List.zipWith (fun input name => { input with name }) inputs names

theorem renames_renamed {inputs : List Series} {names : List Text}
    (h : names.length = inputs.length) :
    List.Forall₂ Series.Renames inputs (renamed inputs names)
      ∧ (renamed inputs names).map (·.name) = names := by
  induction names generalizing inputs with
  | nil =>
      obtain rfl := List.eq_nil_of_length_eq_zero h.symm
      exact ⟨.nil, rfl⟩
  | cons name names ih =>
      cases inputs with
      | nil => cases h
      | cons input inputs =>
          obtain ⟨hrenames, hnames⟩ := ih (Nat.succ.inj h)
          exact ⟨.cons rfl hrenames, congrArg (name :: ·) hnames⟩

/-- Neither the roots nor what a label makes of the series depend on the names they had. -/
theorem root_of_renames {inputs outputs : List Series}
    (h : List.Forall₂ Series.Renames inputs outputs) :
    outputs.map (·.root) = inputs.map (·.root)
      ∧ ∀ names, renamed outputs names = renamed inputs names := by
  induction h with
  | nil => exact ⟨rfl, fun names => rfl⟩
  | @cons input output _ _ hout _ ih =>
      obtain ⟨hroots, hrenamed⟩ := ih
      refine ⟨?_, fun names => ?_⟩
      · rw [List.map_cons, List.map_cons, hroots, hout]
      · cases names with
        | nil => rfl
        | cons name names =>
            show { output with name } :: renamed _ names = { input with name } :: renamed _ names
            rw [hrenamed, hout]

/-- The response for a series under another name is its own under that name. -/
theorem Series.Renames.response? {input output : Series} (h : input.Renames output)
    (commands : Commands) (engine : Engine) (frame : RequestFrame) (refId : Text) :
    commands.response? engine frame refId output
      = (commands.response? engine frame refId input).map
          fun r => { r with target := output.name } := by
  rw [h]
  unfold Commands.response?
  dsimp only
  split <;> rfl

/-! ## Labels -/

namespace Call

variable {engine : Engine} {c : Call} {template : Text} {rest : List Text}

/-- A label gives series that are the inputs under names of which no two are equal. If its
template shares no key, these are the names that the template gives to the roots. -/
theorem labelling_applyLabel_of_unshared (hp : c.parameters = template :: rest)
    (inputs : List Series) :
    Labelling engine (c.applyLabel engine inputs) fun outputs =>
      List.Forall₂ Series.Renames inputs outputs ∧ (outputs.map (·.name)).Nodup
        ∧ ((∀ root ∈ inputs.map (·.root),
              (Template.ofText engine.catalog (Text.unquote template)).Unshared engine root) →
            outputs = renamed inputs ((Template.ofText engine.catalog
              (Text.unquote template)).names engine (inputs.map (·.root)))) := by
  unfold applyLabel
  rw [hp]
  dsimp only
  generalize Text.unquote template = whole
  have hmapM := Labelling.mapM
    (fun input : Series => Template.labelling_renderCached engine whole input.root) inputs
  generalize Template.ofText engine.catalog whole = t at hmapM ⊢
  refine hmapM.bind fun rendered hrendered => .pure ?_
  have hlength : (t.settle rendered).length = inputs.length :=
    (t.length_settle rendered).trans hrendered.length_eq.symm
  obtain ⟨hrenames, hnames⟩ := renames_renamed hlength
  change List.Forall₂ Series.Renames inputs (renamed inputs (t.settle rendered))
    ∧ ((renamed inputs (t.settle rendered)).map (·.name)).Nodup ∧ _
  refine ⟨hrenames, ?_, fun hunshared => ?_⟩
  · rw [hnames]
    exact nodup_distinctNames _
  · have hall := (List.forall₂_and_left _ _).mpr ⟨List.forall_mem_map.mp hunshared, hrendered⟩
    have hrender : List.Forall₂ Eq (inputs.map fun input => t.render engine input.root) rendered :=
      List.forall₂_map_left_iff.mpr
        (hall.imp fun input name hname => (hname.2 hname.1).symm)
    rw [List.forall₂_eq_eq_eq] at hrender
    rw [Template.names, List.map_map, ← hrender]
    rfl

/-- Without `@` the names of a label are those that its template gives to the roots. -/
theorem labelling_applyLabel (hp : c.parameters = template :: rest) (inputs : List Series) :
    Labelling engine (c.applyLabel engine inputs) fun outputs =>
      List.Forall₂ Series.Renames inputs outputs ∧ (outputs.map (·.name)).Nodup
        ∧ ('@' ∉ Text.unquote template → (∀ root ∈ inputs.map (·.root), '@' ∉ root) →
            outputs = renamed inputs ((Template.ofText engine.catalog
              (Text.unquote template)).names engine (inputs.map (·.root)))) := by
  refine (labelling_applyLabel_of_unshared hp inputs).mono fun outputs h => ?_
  refine ⟨h.1, h.2.1, fun hat hroots => h.2.2 fun root hroot => ?_⟩
  exact Template.unshared_of_not_mem engine hat (hroots root hroot)

end Call

/-- After whatever an engine has been through, a label leaves the series in their order with their
samples and roots, which metadata is looked up by, and gives them names of which no two are equal.
Where template and roots hold no `@`, the names are those of the template, and a label around
another one gives what it gives without it. -/
theorem label_renames (engine : Engine) (m : Material) (idle : Nat) (clock : Clock)
    (visits : List LabelVisit) {outer inner : Call} {t u : Text} {ts us : List Text}
    (houter : outer.operator = .label) (hinner : inner.operator = .label)
    (ht : outer.parameters = t :: ts) (hu : inner.parameters = u :: us) (inputs : List Series) :
    let s := (Session.start idle clock).labelVisitAll engine visits
    ∃ outputs, (outer.apply engine m inputs).result s = .ok outputs
      ∧ List.Forall₂ (fun input output => output = { input with name := output.name }
          ∧ ∀ (commands : Commands) (frame : RequestFrame) (refId : Text),
            commands.response? engine frame refId output
              = (commands.response? engine frame refId input).map
                  fun r => { r with target := output.name }) inputs outputs
      ∧ (outputs.map (·.name)).Nodup
      ∧ ('@' ∉ Text.unquote t → (∀ input ∈ inputs, '@' ∉ input.root) →
          outputs.map (·.name) = (Template.ofText engine.catalog (Text.unquote t)).names engine
              (inputs.map (·.root))
            ∧ (inner.apply engine m inputs >>= outer.apply engine m).result s = .ok outputs) := by
  intro s
  have hs : s.LabelsSound engine := Session.labelsSound_labelVisitAll engine idle clock visits
  have happly {c : Call} (hc : c.operator = .label) (l : List Series) :
      c.apply engine m l = c.applyLabel engine l := by
    unfold Call.apply
    rw [hc]
    rfl
  obtain ⟨outputs, hresult, ⟨hrenames, hnodup, hnames⟩, -⟩ :=
    Call.labelling_applyLabel ht inputs s hs
  refine ⟨outputs, by rwa [happly houter], ?_, hnodup, fun hat hroots => ?_⟩
  · exact hrenames.imp fun input output h => ⟨h, fun commands => h.response? commands engine⟩
  · replace hroots : ∀ root ∈ inputs.map (·.root), '@' ∉ root := List.forall_mem_map.mpr hroots
    obtain ⟨between, hfirst, ⟨hbetween, -, -⟩, hs'⟩ :=
      Call.labelling_applyLabel hu inputs s hs
    obtain ⟨hsame, hrenamed⟩ := root_of_renames hbetween
    obtain ⟨outputs', hsecond, ⟨-, -, hnames'⟩, -⟩ :=
      Call.labelling_applyLabel ht between _ hs'
    rw [hsame, hrenamed] at hnames'
    rw [happly hinner, funext (happly houter), Step.result_bind_ok hfirst, hsecond,
      hnames' hat hroots, ← hnames hat hroots]
    refine ⟨?_, rfl⟩
    rw [hnames hat hroots]
    exact (renames_renamed ((Template.length_names ..).trans (List.length_map _))).2

/-- Two tags of one device under the template `{Device}`, first put under another label: only the
outer one shows, and the second series is numbered. -/
theorem label_renames_devices :
    let row (key tag : String) : Fields := Fields.ofList [(Text.of "ID", Text.of key),
      (Text.of "PointTag", Text.of tag), (Text.of "Device", Text.of "SHELBY")]
    let catalog : Catalog :=
      ⟨[(Text.of "ActiveMeasurements", [row "PPA:1" "A", row "PPA:2" "B"])], .standard⟩
    let layout : Layout := ⟨Text.of "ActiveMeasurements", Text.of "ID", Text.of "PointTag",
      Text.of "SignalID"⟩
    let engine : Engine := ⟨catalog, layout, Archive.source ⟨[]⟩, id⟩
    let outer : Call := ⟨.each, .label, [Text.of "'{Device}'"], Text.of "A; B"⟩
    let inner : Call := ⟨.each, .label, [Text.of "Power"], Text.of "A; B"⟩
    let s := (Session.start 60000 (Clock.still 0)).labelVisitAll engine []
    let m : Material := ⟨RawData.empty, ⟨[]⟩⟩
    let inputs : List Series := [⟨Text.of "x", Text.of "A", []⟩, ⟨Text.of "y", Text.of "B", []⟩]
    (inner.apply engine m inputs >>= outer.apply engine m).result s
      = .ok [⟨Text.of "SHELBY", Text.of "A", []⟩, ⟨Text.of "SHELBY 2", Text.of "B", []⟩] := by
  intro row catalog layout engine outer inner s m inputs
  obtain ⟨outputs, hresult, -, -, houtermost⟩ := @label_renames engine m 60000
    (Clock.still 0) [] outer inner _ _ _ _ rfl rfl rfl rfl inputs
  rw [(houtermost (by decide) (by decide)).2, ← hresult]
  decide +kernel

end SeriesQuery
