import SeriesQuery.Proofs.CallSpelling
import SeriesQuery.Proofs.CatalogValues
import SeriesQuery.Proofs.NamesApart

/-!
# Labels under a grouping

A label gives names to all series of its inside, so it makes no difference whether it is applied
to each of them or to a set. Written over slices it makes one: a call over slices has a tolerance
in front of its parameters, and a label takes its first parameter for the template, whatever that
is. So the series are the same and in the same order, but they are named after the tolerance.

What a label is evaluated to is compared between any two sessions. Their caches may hold different
labels for the inside, which do not show; of the outer template it is asked that it shares its key
with no other.
-/

namespace SeriesQuery

/-! ## A number as a parameter -/

/-- A text that spells a number. -/
def Text.IsNumeral (t : Text) : Prop := ∃ x, readFloat? t = some x

namespace Text.IsNumeral

variable {t : Text} (h : IsNumeral t)

include h

theorem mem_cases (c : Char) (hc : c ∈ t) :
    isAsciiAlphanumeric c = true ∨ c = '.' ∨ c = '+' ∨ c = '-' := by
  obtain ⟨x, hx⟩ := h
  exact mem_of_readFloat? hx c hc

/-- No other mark is one of its characters. -/
theorem ne_mark {mark : Char} (hclass : isAsciiAlphanumeric mark = false)
    (hmark : mark ∉ ['.', '+', '-']) {c : Char} (hc : c ∈ t) : (c == mark) = false := by
  rw [beq_eq_false_iff_ne]
  rintro rfl
  rcases h.mem_cases c hc with hc | rfl | rfl | rfl
  · rw [hclass] at hc
    cases hc
  all_goals exact hmark (by decide)

theorem ne_nil : t ≠ [] := by
  rintro rfl
  obtain ⟨x, hx⟩ := h
  have hnone : readFloat? [] = none := by decide
  rw [hnone] at hx
  cases hx

theorem trim_eq : trim t = t := by
  have hblank : ∀ c ∈ t, Text.isBlank c = false := by
    intro c hc
    rcases h.mem_cases c hc with hc | rfl | rfl | rfl
    · exact isBlank_of_isAsciiAlphanumeric hc
    all_goals decide
  exact trim_of_ends (fun c hc => hblank c (List.mem_of_mem_head? hc))
    fun c hc => hblank c (List.mem_of_getLast? hc)

/-- A number is not in quotes. -/
theorem unquote_eq : unquote t = t := by
  unfold unquote
  rw [h.trim_eq]
  dsimp only
  split
  · rw [h.ne_mark (by decide) (by decide) List.mem_cons_self,
      h.ne_mark (by decide) (by decide) List.mem_cons_self]
    rfl
  · rfl

theorem marks_eq : marks t = [] := by
  refine List.filter_eq_nil_iff.mpr fun c hc => ?_
  unfold Nesting.isPlain
  rw [h.ne_mark (by decide) (by decide) hc, h.ne_mark (by decide) (by decide) hc,
    h.ne_mark (by decide) (by decide) hc]
  decide

theorem not_mem {mark : Char} (hclass : isAsciiAlphanumeric mark = false)
    (hmark : mark ∉ ['.', '+', '-']) : mark ∉ t := by
  intro hmem
  have hself := h.ne_mark hclass hmark hmem
  rw [beq_self_eq_true] at hself
  cases hself

theorem step_eq (n : Nesting) {c : Char} (hc : c ∈ t) : n.step c = n := by
  have hopen : Nesting.isOpening c = false := by
    unfold Nesting.isOpening
    rw [h.ne_mark (by decide) (by decide) hc, h.ne_mark (by decide) (by decide) hc,
      h.ne_mark (by decide) (by decide) hc]
    rfl
  have hclose : Nesting.isClosing c = false := by
    unfold Nesting.isClosing
    rw [h.ne_mark (by decide) (by decide) hc, h.ne_mark (by decide) (by decide) hc,
      h.ne_mark (by decide) (by decide) hc]
    rfl
  unfold Nesting.step
  rw [h.ne_mark (by decide) (by decide) hc, hopen, hclose]
  cases n.quoted <;> rfl

theorem isSealed : Sealed ',' t := by
  refine (sealed_iff isDelimiter_comma).mpr ⟨?_, ?_⟩
  · exact rawFields_of_not_mem (h.not_mem (by decide) (by decide)) Nesting.outside
  · exact run_of_step fun c hc => h.step_eq Nesting.outside hc

/-- It is a field in front of others. -/
theorem fields_append (body : Text) :
    fields ',' (t ++ (Call.comma ++ body)) = t :: fields ',' body := by
  have hblank : trim (' ' :: body) = trim body := trim_blanks_append body isBlankRun_space
  have hsame : fields ',' (' ' :: body) = fields ',' body := by
    rw [← fields_trim isDelimiter_comma.noBlank, hblank, fields_trim isDelimiter_comma.noBlank]
  rw [← hsame]
  exact h.isSealed.fields_append isDelimiter_comma h.trim_eq (' ' :: body)

theorem parens_eq : parens t = 0 := List.count_eq_zero.mpr (h.not_mem (by decide) (by decide))

/-- As a template it puts nothing in. -/
theorem unshared (engine : Engine) (root : Text) :
    (Template.ofText engine.catalog t).Unshared engine root := by
  intro hbody
  exact absurd hbody (Template.not_mem_body (h.not_mem (by decide) (by decide)))

/-- Nothing in it opens or closes. -/
theorem closed_append {body : Text} (hbody : Closed body) : Closed (t ++ (Call.comma ++ body)) := by
  refine (closed_congr ?_).mpr hbody
  rw [marks_append, marks_append, h.marks_eq]
  rfl

end Text.IsNumeral

/-! ## Texts of labels -/

namespace Call

theorem parse_spell (grouping : Grouping) (operator : Operator) {body : Text}
    (hbody : Text.Closed body) :
    Expression.parse (spell grouping operator [] body)
      = (ofFields grouping operator (Text.fields ',' body)).map fun call => ⟨[call], []⟩ := by
  let c : CallText := ⟨fullName grouping operator, [], body, grouping, operator⟩
  have hspell : spell grouping operator [] body = c.spelling := by
    simp [spell, CallText.spelling, c]
  have hnames : Scan.Names c.word c.grouping c.operator := names_fullName grouping operator
  rw [hspell, Expression.parse_callText (hnames.ahead _) hnames hbody]
  rfl

/-- The fields of a label are its template and at least one more. -/
theorem ofFields_label {template : Text} {rest : List Text} (ht : template ≠ [])
    (hrest : rest ≠ []) :
    ofFields .each .label (template :: rest)
        = .ok ⟨.each, .label, [template], Text.join comma rest⟩
      ∧ ofFields .set .label (template :: rest)
        = .ok ⟨.set, .label, [template], Text.join comma rest⟩
      ∧ ∀ x : Text, x ≠ [] → ofFields .slice .label (x :: template :: rest)
        = .ok ⟨.slice, .label, [x, template], Text.join comma rest⟩ := by
  obtain ⟨first, more, rfl⟩ := List.exists_cons_of_ne_nil hrest
  refine ⟨?_, ?_, fun x hx => ?_⟩
  · simp [ofFields, requiredCount, Operator.signature, spanOptional, ht]
  · simp [ofFields, requiredCount, Operator.signature, spanOptional, ht]
  · have hcount : ¬ more.length + 1 + 1 + 1 < 2 := by omega
    simp [ofFields, requiredCount, Operator.signature, spanOptional, ht, hx, hcount]

theorem ne_nil_of_ofFields_label {template : Text} {rest : List Text} {call : Call}
    (h : ofFields .each .label (template :: rest) = .ok call) : template ≠ [] ∧ rest ≠ [] := by
  constructor
  · rintro rfl
    simp [ofFields, requiredCount, Operator.signature] at h
  · rintro rfl
    unfold ofFields at h
    dsimp only at h
    split at h
    · cases h
    · split at h
      · cases h
      · next hlength => exact absurd rfl hlength

theorem parens_spell_label (grouping : Grouping) (parameters : List Text) (body : Text)
    (hparameters : ∀ p ∈ parameters, parens p = 0) :
    parens (spell grouping .label parameters body) = parens body + 1 := by
  have hname : parens (fullName grouping .label) = 0 := by cases grouping <;> decide
  have hcomma : parens comma = 0 := by decide
  have hfront : parens (parameters.flatMap (· ++ comma)) = 0 := by
    induction parameters with
    | nil => rfl
    | cons p parameters ih =>
        rw [List.flatMap_cons, parens_append, parens_append, hcomma,
          hparameters p List.mem_cons_self,
          ih fun q hq => hparameters q (List.mem_cons_of_mem _ hq)]
  simp [spell, parens_append, parens_cons, hname, hfront]

end Call

/-- A text that is one label around an inside, under some grouping, with a template for its first
parameter. -/
def Expression.IsLabel (text template inner : Text) : Prop :=
  ∃ grouping more, Expression.parse text = .ok ⟨[⟨grouping, .label, template :: more, inner⟩], []⟩

/-! ## Evaluating labels -/

/-- Series are named as a template names their roots, unless it shares the key for one of them. -/
def NamedBy (engine : Engine) (template : Text) (series : List Series) : Prop :=
  let t := Template.ofText engine.catalog (Text.unquote template)
  (∀ root ∈ series.map (·.root), t.Unshared engine root) →
    series.map (·.name) = t.names engine (series.map (·.root))

variable {engine : Engine}

theorem namedBy_of_renamed {inputs outputs : List Series} {t : Text}
    (hrenames : List.Forall₂ Series.Renames inputs outputs)
    (hnames : (∀ root ∈ inputs.map (·.root),
        (Template.ofText engine.catalog (Text.unquote t)).Unshared engine root) →
      outputs = renamed inputs ((Template.ofText engine.catalog (Text.unquote t)).names engine
        (inputs.map (·.root)))) : NamedBy engine t outputs := by
  intro hunshared
  rw [(root_of_renames hrenames).1] at hunshared ⊢
  rw [hnames hunshared]
  exact (renames_renamed ((Template.length_names ..).trans (List.length_map _))).2

/-- No grouping makes a difference to how a label is applied. -/
theorem Call.apply_of_label {c : Call} (hc : c.operator = .label) (m : Material)
    (inputs : List Series) : c.apply engine m inputs = c.applyLabel engine inputs := by
  unfold apply
  rw [hc]
  rfl

theorem Call.alike_labels {c d : Call} {t u : Text} {ts us : List Text}
    {inputs outputs : List Series} (m : Material)
    (hc : c.operator = .label) (hd : d.operator = .label)
    (ht : c.parameters = t :: ts) (hu : d.parameters = u :: us)
    (h : List.Forall₂ Series.Renames inputs outputs) :
    Step.Alike engine (fun a b => List.Forall₂ Series.Renames a b ∧ NamedBy engine t a
      ∧ NamedBy engine u b) (c.apply engine m inputs) (d.apply engine m outputs) := by
  rw [apply_of_label hc, apply_of_label hd]
  refine .mono ((c.alike_applyLabel ht hu h).and_labelling
    (labelling_applyLabel_of_unshared ht inputs) (labelling_applyLabel_of_unshared hu outputs)) ?_
  intro a b hab
  exact ⟨hab.1, namedBy_of_renamed hab.2.1.1 hab.2.1.2.2, namedBy_of_renamed hab.2.2.1 hab.2.2.2.2⟩

/-- A label asks for no samples of its own. -/
theorem Plan.addCall_label {c : Call} (hc : c.operator = .label) (p : Plan) : p.addCall c = p := by
  have hsample : asksEverySample c = false := by
    unfold asksEverySample
    rw [hc]
    rfl
  unfold addCall
  rw [hsample, Bool.or_false]

namespace Expression

section Labels

variable {text text' t u inner : Text} (ht : IsLabel text t inner) (hu : IsLabel text' u inner)

include ht in
theorem IsLabel.parens_eq_succ : ∃ depth, parens text = depth + 1 := by
  obtain ⟨grouping, more, hparse⟩ := ht
  have hlt := parens_inner_lt hparse List.mem_cons_self
  exact ⟨parens text - 1, by omega⟩

include ht hu

theorem alike_parse_labels : ∃ c d : Call,
    (c.operator = .label ∧ d.operator = .label) ∧ (c.inner = inner ∧ d.inner = inner)
      ∧ (∃ ts us, c.parameters = t :: ts ∧ d.parameters = u :: us)
      ∧ Step.Alike engine (fun e f => e = ⟨[c], []⟩ ∧ f = ⟨[d], []⟩) (Step.parse text)
          (Step.parse text') := by
  obtain ⟨g, ts, hparse⟩ := ht
  obtain ⟨g', us, hparse'⟩ := hu
  refine ⟨⟨g, .label, t :: ts, inner⟩, ⟨g', .label, u :: us, inner⟩, ⟨rfl, rfl⟩, ⟨rfl, rfl⟩,
    ⟨ts, us, rfl, rfl⟩, .parse ?_⟩
  rw [hparse, hparse']
  exact .ok ⟨rfl, rfl⟩

theorem alike_collect_labels (hparens : parens text' = parens text) :
    Step.Alike engine Eq (Plan.collect engine text) (Plan.collect engine text') := by
  obtain ⟨depth, hdepth⟩ := ht.parens_eq_succ
  obtain ⟨c, d, ⟨hc, hd⟩, ⟨hci, hdi⟩, -, hparse⟩ := @alike_parse_labels engine _ _ _ _ _ ht hu
  unfold Plan.collect
  rw [hparens, hdepth]
  unfold Plan.collectFrom
  refine hparse.bind fun e f hef => ?_
  obtain ⟨rfl, rfl⟩ := hef
  dsimp only
  rw [List.foldlM_cons, List.foldlM_cons, Plan.addCall_label hc, Plan.addCall_label hd, hci, hdi]
  refine .bind (R := Eq) (.bind (Plan.alike_collectFrom depth Plan.empty inner) ?_) ?_
  · exact fun p p' hsame => .pure hsame
  · exact fun p p' hsame => .pure hsame

/-- Labels around one inside give the same series, each under the names of its own template. -/
theorem alike_evaluate_labels (hparens : parens text' = parens text) (m : Material) :
    Step.Alike engine (fun a b => List.Forall₂ Series.Renames a b ∧ NamedBy engine t a
      ∧ NamedBy engine u b) (evaluate engine m text) (evaluate engine m text') := by
  obtain ⟨depth, hdepth⟩ := ht.parens_eq_succ
  obtain ⟨c, d, ⟨hc, hd⟩, ⟨hci, hdi⟩, ⟨ts, us, hts, hus⟩, hparse⟩ :=
    @alike_parse_labels engine _ _ _ _ _ ht hu
  unfold evaluate
  rw [hparens, hdepth]
  unfold evaluateFrom
  refine hparse.bind fun e f hef => ?_
  obtain ⟨rfl, rfl⟩ := hef
  have hinner : Step.Alike engine (List.Forall₂ Series.Renames)
      (evaluateFrom engine m depth c.inner) (evaluateFrom engine m depth d.inner) := by
    rw [hci, hdi]
    exact alike_evaluateFrom m depth inner
  refine .bind (.mapM_one (.bind .checkPatience fun _ _ _ => .bind hinner fun inputs outputs h =>
    Call.alike_labels m hc hd hts hus h)) fun called called' hcalled => ?_
  obtain ⟨a, b, rfl, rfl, hab⟩ := hcalled
  refine .pure ?_
  rwa [List.flatten_singleton, List.flatten_singleton]

theorem alike_execute_labels (hparens : parens text' = parens text) (range : TimeRange)
    (hints : FetchHints) (quality : QualityFilter) :
    Step.Alike engine (fun a b => List.Forall₂ Series.Renames a b ∧ NamedBy engine t a
      ∧ NamedBy engine u b) (execute engine range hints quality text)
      (execute engine range hints quality text') := by
  unfold execute
  refine .bind .checkPatience fun _ _ _ => ?_
  refine .bind (alike_collect_labels ht hu hparens) fun plan _ hsame => ?_
  subst hsame
  refine .bind (plan.alike_fetch range hints quality) fun data _ hsame => ?_
  subst hsame
  exact alike_evaluate_labels ht hu hparens _

end Labels

/-- Series that are others under other names are decided by those names. -/
theorem eq_renamed_of_renames {inputs outputs : List Series}
    (h : List.Forall₂ Series.Renames inputs outputs) :
    outputs = renamed inputs (outputs.map (·.name)) := by
  induction h with
  | nil => rfl
  | cons hab _ ih => exact congrArg₂ List.cons hab ih

/-- The three ways to write a label with one text between its parentheses, the third with a number
in front of it. -/
theorem isLabel_spell {body template : Text} {rest : List Text} (hbody : Text.Closed body)
    (hfields : Text.fields ',' body = template :: rest) (ht : template ≠ []) (hrest : rest ≠ []) :
    let inner := Text.join Call.comma rest
    IsLabel (Call.spell .each .label [] body) template inner
      ∧ IsLabel (Call.spell .set .label [] body) template inner
      ∧ ∀ x : Text, x.IsNumeral → IsLabel (Call.spell .slice .label [x] body) x inner := by
  obtain ⟨heach, hset, hslice⟩ := Call.ofFields_label ht hrest
  refine ⟨⟨.each, [], ?_⟩, ⟨.set, [], ?_⟩, fun x hx => ⟨.slice, [template], ?_⟩⟩
  · rw [Call.parse_spell _ _ hbody, hfields, heach]
    rfl
  · rw [Call.parse_spell _ _ hbody, hfields, hset]
    rfl
  · have hspell : Call.spell .slice .label [x] body
        = Call.spell .slice .label [] (x ++ (Call.comma ++ body)) := by
      simp [Call.spell]
    rw [hspell, Call.parse_spell _ _ (hx.closed_append hbody), hx.fields_append, hfields,
      hslice x hx.ne_nil]
    rfl

/-- A query gives something only if its text is read. -/
theorem parse_of_execute {range : TimeRange} {hints : FetchHints} {quality : QualityFilter}
    {text : Text} {s : Session} {out : List Series} (hs : s.Sound engine.catalog engine.layout)
    (h : (execute engine range hints quality text).result s = .ok out) :
    ∃ e, parse text = .ok e := by
  have hcheck : Assembled engine True Step.checkPatience fun _ => True := .patience
  have hs' : (Step.checkPatience.after s).Sound engine.catalog engine.layout := (hcheck.sound hs).1
  unfold execute at h
  obtain ⟨_, -, h⟩ := Step.exists_of_result_bind h
  obtain ⟨plan, hplan, -⟩ := Step.exists_of_result_bind h
  unfold Plan.collect Plan.collectFrom at hplan
  obtain ⟨e, he, -⟩ := Step.exists_of_result_bind hplan
  exact ⟨e, (hs'.parse text).1.symm.trans he⟩

/-- A label over a set gives what the label gives, whatever either has been through, if its
template shares its key with no other. A label over slices gives the same series in the same
order, but under the names that its tolerance gives as a template. -/
theorem label_any_grouping (engine : Engine) (range : TimeRange) (hints : FetchHints)
    (quality : QualityFilter) (idle idle' : Nat) (clock clock' : Clock)
    (visits visits' : List LabelVisit) (patience : Option Nat) {body template : Text}
    {rest : List Text} (hbody : Text.Closed body)
    (hfields : Text.fields ',' body = template :: rest) {groups : List Series} :
    let s := { (Session.start idle clock).labelVisitAll engine visits with patience }
    let s' := { (Session.start idle' clock').labelVisitAll engine visits' with patience }
    let query := execute engine range hints quality
    (query (Call.spell .each .label [] body)).result s = .ok groups →
    (∀ root ∈ groups.map (·.root),
      (Template.ofText engine.catalog (Text.unquote template)).Unshared engine root) →
    (query (Call.spell .set .label [] body)).result s' = .ok groups
      ∧ ∀ x : Text, x.IsNumeral → (query (Call.spell .slice .label [x] body)).result s'
        = .ok (renamed groups ((Template.ofText engine.catalog x).names engine
            (groups.map (·.root)))) := by
  intro s s' query hlabel hunshared
  have halike : Session.Alike engine s s' := by
    obtain ⟨hs, hl⟩ := Session.sound_labelVisitAll engine idle clock visits
    obtain ⟨hs', hl'⟩ := Session.sound_labelVisitAll engine idle' clock' visits'
    exact ⟨⟨hs.expressions, hs.targets⟩, hl, ⟨hs'.expressions, hs'.targets⟩, hl', rfl⟩
  obtain ⟨e, hparse⟩ := parse_of_execute halike.sound hlabel
  obtain ⟨ht, hrest⟩ : template ≠ [] ∧ rest ≠ [] := by
    rw [Call.parse_spell _ _ hbody, hfields] at hparse
    cases hcall : Call.ofFields .each .label (template :: rest) with
    | error f =>
        rw [hcall] at hparse
        cases hparse
    | ok call => exact Call.ne_nil_of_ofFields_label hcall
  obtain ⟨heach, hset, hslice⟩ := isLabel_spell hbody hfields ht hrest
  have hnone : ∀ p ∈ ([] : List Text), parens p = 0 := fun p hp => absurd hp List.not_mem_nil
  have hparens := Call.parens_spell_label .each [] body hnone
  constructor
  · have hsame := (Call.parens_spell_label .set [] body hnone).trans hparens.symm
    obtain ⟨outputs, houtputs, hrenames, hgroups, hnames⟩ :=
      ((alike_execute_labels heach hset hsame range hints quality) s s' halike).1.of_ok hlabel
    rw [houtputs]
    obtain ⟨hroots, -⟩ := root_of_renames hrenames
    have hnamed : outputs.map (·.name) = groups.map (·.name) := by
      rw [hgroups hunshared, ← hroots]
      exact hnames (hroots ▸ hunshared)
    rw [eq_renamed_of_renames hrenames, hnamed]
    exact congrArg Except.ok (eq_renamed_of_renames (List.forall₂_same.mpr fun _ _ => rfl)).symm
  · intro x hx
    have hzero : ∀ p ∈ [x], parens p = 0 := fun p hp => List.mem_singleton.mp hp ▸ hx.parens_eq
    have hsame := (Call.parens_spell_label .slice [x] body hzero).trans hparens.symm
    obtain ⟨outputs, houtputs, hrenames, -, hnames⟩ :=
      ((alike_execute_labels heach (hslice x hx) hsame range hints quality) s s' halike).1.of_ok
        hlabel
    obtain ⟨hroots, -⟩ := root_of_renames hrenames
    unfold NamedBy at hnames
    rw [hx.unquote_eq, hroots] at hnames
    rw [houtputs, eq_renamed_of_renames hrenames, hnames fun root _ => hx.unshared engine root]

/-- Two tags of one device, one of them without samples. -/
theorem label_any_grouping_devices :
    let row (key tag : String) : Fields := Fields.ofList [(Text.of "ID", Text.of key),
      (Text.of "PointTag", Text.of tag), (Text.of "Device", Text.of "SHELBY")]
    let catalog : Catalog :=
      ⟨[(Text.of "ActiveMeasurements", [row "PPA:1" "A", row "PPA:2" "B"])], .standard⟩
    let layout : Layout := ⟨Text.of "ActiveMeasurements", Text.of "ID", Text.of "PointTag",
      Text.of "SignalID"⟩
    let one : Sample := .of (Text.of "PPA:1") 1.0 1000.0 0
    let engine : Engine := ⟨catalog, layout, Archive.source ⟨[one]⟩, id⟩
    let query := execute engine ⟨0.0, 2000.0⟩ ⟨none, true⟩ ⟨0, false⟩
    let s := { (Session.start 60000 (Clock.still 0)).labelVisitAll engine [] with patience := none }
    let s' := { (Session.start 60000 (Clock.still 0)).labelVisitAll engine
      [.render (Text.of "{Device}") (Text.of "A"), .visit (.wait 5)] with patience := none }
    let groups : List Series := [⟨Text.of "SHELBY", Text.of "A", [one]⟩,
      ⟨Text.of "SHELBY 2", Text.of "B", []⟩]
    (query (Text.of "Label('{Device}', PPA:1; PPA:2)")).result s = .ok groups
      ∧ (query (Text.of "SetLabel('{Device}', PPA:1; PPA:2)")).result s' = .ok groups
      ∧ (query (Text.of "SliceLabel(0.5, '{Device}', PPA:1; PPA:2)")).result s'
        = .ok [⟨Text.of "0.5 1", Text.of "A", [one]⟩, ⟨Text.of "0.5 2", Text.of "B", []⟩] := by
  intro row catalog layout one engine query s s' groups
  have hlabel : (query (Text.of "Label('{Device}', PPA:1; PPA:2)")).result s = .ok groups := by
    decide +kernel
  have hunshared : ∀ root ∈ groups.map (·.root), (Template.ofText engine.catalog
      (Text.unquote (Text.of "'{Device}'"))).Unshared engine root := by
    intro root hroot
    have hat : ∀ root ∈ groups.map (·.root), '@' ∉ root := by decide
    exact Template.unshared_of_not_mem engine (by decide) (hat root hroot)
  have hbody : Text.Closed (Text.of "'{Device}', PPA:1; PPA:2") := by decide
  have hfields : Text.fields ',' (Text.of "'{Device}', PPA:1; PPA:2")
      = [Text.of "'{Device}'", Text.of "PPA:1; PPA:2"] := by
    decide +kernel
  obtain ⟨hset, hslice⟩ := label_any_grouping engine ⟨0.0, 2000.0⟩ ⟨none, true⟩ ⟨0, false⟩ 60000
    60000 (Clock.still 0) (Clock.still 0) []
    [.render (Text.of "{Device}") (Text.of "A"), .visit (.wait 5)] none hbody hfields hlabel
    hunshared
  have hnames : renamed groups ((Template.ofText engine.catalog (Text.of "0.5")).names engine
        (groups.map (·.root)))
      = [⟨Text.of "0.5 1", Text.of "A", [one]⟩, ⟨Text.of "0.5 2", Text.of "B", []⟩] := by
    decide +kernel
  refine ⟨hlabel, hset, ?_⟩
  rw [← hnames]
  exact hslice (Text.of "0.5") ⟨0.5, by decide +kernel⟩

/-- The tolerance stands where the template was asked for. -/
theorem label_named_after_tolerance :
    let one : Sample := .of (Text.of "PPA:1") 1.0 1000.0 0
    let engine : Engine := ⟨Catalog.empty, ⟨[], [], [], []⟩, Archive.source ⟨[one]⟩, id⟩
    let query := execute engine ⟨0.0, 2000.0⟩ ⟨none, true⟩ ⟨0, false⟩
    let s := Session.start 60000 (Clock.still 0)
    (query (Text.of "Label('X', PPA:1)")).result s
        = .ok [⟨Text.of "X", Text.of "PPA:1", [one]⟩]
      ∧ (query (Text.of "SliceLabel(0, 'X', PPA:1)")).result s
        = .ok [⟨Text.of "0", Text.of "PPA:1", [one]⟩] := by
  decide +kernel

end Expression

end SeriesQuery
