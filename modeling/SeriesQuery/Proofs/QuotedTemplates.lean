import SeriesQuery.Proofs.LabelGroupings
import SeriesQuery.Proofs.SessionsAbreast

/-!
# Quotes around a template

A label takes its template without the quotes around it, of either kind. But what is read before
that knows single quotes only: the search for the parenthesis that closes the call, and the split
at commas. In double quotes a template is read as it stands, so it must be a parameter without any
quotes at all (`Text.SelfContained`): no comma outside its brackets, and everything closed that it
opens. This is all that it takes. The call is then read like the one in single quotes, whatever
stands after the template, and evaluated to the same series.
-/

namespace SeriesQuery

namespace Text

open Nesting (outside)

/-! ## Texts in quotes -/

/-- A text in quotes. -/
def quoted (quote : Char) (t : Text) : Text := quote :: (t ++ [quote])

theorem trim_quoted {quote : Char} (h : isBlank quote = false) (t : Text) :
    trim (quoted quote t) = quoted quote t := by
  refine trim_of_ends (fun c hc => ?_) fun c hc => ?_
  · cases hc
    exact h
  · rw [quoted, ← List.cons_append, List.getLast?_concat] at hc
    cases hc
    exact h

theorem unquote_quoted {quote : Char} (h : quote = '\'' ∨ quote = '"') (t : Text) :
    unquote (quoted quote t) = t := by
  have hblank : isBlank quote = false := by
    rcases h with rfl | rfl <;> decide
  have hquote : (quote == '\'' || quote == '"') = true := by
    rcases h with rfl | rfl <;> decide
  obtain ⟨c, rest, hrest⟩ := List.exists_cons_of_ne_nil (List.concat_ne_nil quote t)
  unfold unquote
  rw [trim_quoted hblank, quoted, hrest]
  dsimp only
  rw [← hrest, List.getLast?_concat, List.dropLast_concat, hquote, beq_self_eq_true]
  rfl

/-- A text that is one parameter as it stands: no comma outside its brackets, everything closed
that it opens, and its parentheses closed for themselves. -/
structure SelfContained (t : Text) : Prop where
  /-- It is a field between commas. -/
  isSealed : Sealed ',' t
  /-- Its parentheses match. -/
  closed : Closed t

/-- A text that is read as one parameter. -/
structure IsParameter (t : Text) : Prop extends SelfContained t where
  /-- There is no white space around it. -/
  trimmed : trim t = t
  /-- It is not left out. -/
  ne_nil : t ≠ []

theorem IsParameter.of_quoted {quote : Char} {t : Text} (hblank : isBlank quote = false)
    (h : SelfContained (quoted quote t)) : IsParameter (quoted quote t) :=
  ⟨h, trim_quoted hblank t, List.cons_ne_nil _ _⟩

/-- In single quotes nothing ends a field. -/
theorem rawFields_quoted (d : Char) {t : Text} (h : '\'' ∉ t) :
    rawFields d ⟨0, true⟩ (t ++ ['\'']) = [t ++ ['\'']]
      ∧ Nesting.run ⟨0, true⟩ (t ++ ['\'']) = outside := by
  have hsep : ∀ c, Nesting.separates ⟨0, true⟩ d c = false := by
    intro c
    simp [Nesting.separates, Nesting.isOutside]
  induction t with
  | nil => exact ⟨rawFields_cons_eq_singleton.mpr ⟨hsep '\'', rfl⟩, rfl⟩
  | cons c t ih =>
      obtain ⟨hc, ht⟩ := List.ne_and_not_mem_of_not_mem_cons h
      have hstep : Nesting.step ⟨0, true⟩ c = ⟨0, true⟩ := by
        unfold Nesting.step
        rw [beq_eq_false_iff_ne.mpr hc.symm]
        rfl
      obtain ⟨hone, hout⟩ := ih ht
      constructor
      · exact rawFields_cons_eq_singleton.mpr ⟨hsep c, by rw [hstep]; exact hone⟩
      · show (Nesting.step ⟨0, true⟩ c).run (t ++ ['\'']) = outside
        rw [hstep]
        exact hout

theorem selfContained_quoted {t : Text} (h : '\'' ∉ t) : SelfContained (quoted '\'' t) where
  isSealed := by
    obtain ⟨hone, hout⟩ := rawFields_quoted ',' h
    exact (sealed_iff isDelimiter_comma).mpr ⟨rawFields_cons_eq_singleton.mpr ⟨rfl, hone⟩, hout⟩
  closed := Closed.quotes h

/-- A double quote is a character like any other. -/
theorem step_doubleQuote (n : Nesting) : n.step '"' = n ∧ n.separates ',' '"' = false := by
  obtain ⟨depth, quoted⟩ := n
  cases quoted <;> exact ⟨rfl, rfl⟩

theorem rawFields_append_doubleQuote {n : Nesting} {t : Text} :
    rawFields ',' n (t ++ ['"']) = [t ++ ['"']] ↔ rawFields ',' n t = [t] := by
  induction t generalizing n with
  | nil =>
      exact iff_of_true (rawFields_cons_eq_singleton.mpr ⟨(step_doubleQuote n).2, rfl⟩) rfl
  | cons c t ih =>
      rw [List.cons_append, rawFields_cons_eq_singleton, rawFields_cons_eq_singleton, ih]

/-- In double quotes a text is a parameter only if it is one without them. -/
theorem selfContained_doubleQuoted {t : Text} :
    SelfContained (quoted '"' t) ↔ SelfContained t := by
  have hsealed : Sealed ',' (quoted '"' t) ↔ Sealed ',' t := by
    have hrun : outside.run (quoted '"' t) = outside.run t := by
      show (outside.step '"').run (t ++ ['"']) = _
      rw [(step_doubleQuote outside).1, run_append]
      exact (step_doubleQuote _).1
    rw [sealed_iff isDelimiter_comma, sealed_iff isDelimiter_comma, hrun, quoted,
      rawFields_cons_eq_singleton, (step_doubleQuote outside).1, rawFields_append_doubleQuote]
    exact and_congr_left' (and_iff_right (step_doubleQuote outside).2)
  have hclosed : Closed (quoted '"' t) ↔ Closed t := by
    refine closed_congr ?_
    show marks (['"'] ++ (t ++ ['"'])) = marks t
    rw [marks_append, marks_append]
    exact List.append_nil _
  exact ⟨fun h => ⟨hsealed.mp h.isSealed, hclosed.mp h.closed⟩,
    fun h => ⟨hsealed.mpr h.isSealed, hclosed.mpr h.closed⟩⟩

/-! ## Parentheses after a field -/

/-- Both scans agree on whether a place is in quotes. -/
theorem quoted_of_openAfter? {n m k : Nesting} {t : Text} (h : n.openAfter? t = some m)
    (hk : k.quoted = n.quoted) : (k.run t).quoted = m.quoted := by
  induction t generalizing n k with
  | nil =>
      cases h
      exact hk
  | cons c t ih =>
      obtain ⟨next, hmeet, hrest⟩ := Option.bind_eq_some_iff.mp h
      refine ih hrest ?_
      unfold Nesting.meet? at hmeet
      unfold Nesting.step
      grind

/-- What stands in front of a closed text is closed if the two are together. -/
theorem closed_of_append {a b : Text} (h : Closed (a ++ b)) (hb : Closed b)
    (ha : outside.run a = outside) : Closed a := by
  unfold Closed at h
  rw [Nesting.openAfter?_append] at h
  obtain ⟨⟨depth, inQuotes⟩, hm, hrest⟩ := Option.bind_eq_some_iff.mp h
  have hquoted := quoted_of_openAfter? hm (k := outside) rfl
  rw [ha] at hquoted
  cases hquoted
  have hdeeper := Nesting.openAfter?_deeper hb depth
  rw [show (⟨outside.depth + depth, outside.quoted⟩ : Nesting) = ⟨depth, false⟩ by
    simp [outside]] at hdeeper
  cases hdeeper.symm.trans hrest
  exact hm

end Text

/-! ## Labels as they are read -/

namespace Expression

open Call (comma fullName ofFields spell)

/-- A text that begins with a label is cut into the label, up to the parenthesis that closes it,
and the pieces of what follows. -/
theorem scan_label_iff {a e : Text} {all : List Piece} :
    scan (spell .each .label [a] e) = .ok all ↔ ∃ body after pieces,
      a ++ (comma ++ (e ++ [')'])) = body ++ ')' :: after ∧ Text.Closed body
        ∧ Scan.pieces false after = .ok pieces
        ∧ all = .call ⟨fullName .each .label, [], body, .each, .label⟩ :: pieces := by
  have hnames := Call.names_fullName .each .label
  let inside := a ++ (comma ++ (e ++ [')']))
  have hspell : spell .each .label [a] e = fullName .each .label ++ ([] ++ '(' :: inside) := by
    simp [spell, inside]
  have hpieces := Scan.pieces_names (hnames.ahead inside) hnames
  rw [← hspell] at hpieces
  unfold scan
  rw [hpieces]
  constructor
  · intro h
    cases hclose : Text.splitAtClose? 1 false inside with
    | none =>
        rw [hclose] at h
        cases h
    | some p =>
        obtain ⟨hinside, hbody⟩ := Text.closed_of_splitAtClose? hclose
        rw [hclose] at h
        dsimp only at h
        cases hmore : Scan.pieces false p.2 with
        | error o =>
            rw [hmore] at h
            cases h
        | ok pieces =>
            rw [hmore] at h
            cases h
            exact ⟨p.1, p.2, pieces, hinside, hbody, hmore, rfl⟩
  · rintro ⟨body, after, pieces, hinside, hbody, hmore, rfl⟩
    rw [show inside = body ++ ')' :: after from hinside, Text.splitAtClose?_of_closed hbody]
    dsimp only
    rw [hmore]
    rfl

/-- Such a text is read as the label, the calls of what follows it and their remainder. -/
theorem parse_label_iff {a e : Text} {x : Expression} :
    parse (spell .each .label [a] e) = .ok x ↔ ∃ body after call pieces calls,
      a ++ (comma ++ (e ++ [')'])) = body ++ ')' :: after ∧ Text.Closed body
        ∧ ofFields .each .label (Text.fields ',' body) = .ok call
        ∧ Scan.pieces false after = .ok pieces ∧ callsOf (callTexts pieces) = .ok calls
        ∧ x = ⟨call :: calls, SeriesQuery.remainder pieces⟩ := by
  have htrim : Text.trim (spell .each .label [a] e) = spell .each .label [a] e := by
    refine Text.trim_of_ends (fun c hc => ?_) fun c hc => ?_
    · cases hc
      decide
    · rw [spell, List.getLast?_concat] at hc
      cases hc
      decide
  constructor
  · intro h
    obtain ⟨all, l, hscan, hall, rfl⟩ := parse_ok h
    rw [htrim] at hscan
    obtain ⟨body, after, pieces, hinside, hbody, hmore, rfl⟩ := scan_label_iff.mp hscan
    obtain ⟨call, calls, hcall, hcalls, rfl⟩ := callsOf_cons_ok.mp hall
    exact ⟨body, after, call, pieces, calls, hinside, hbody, hcall, hmore, hcalls, rfl⟩
  · rintro ⟨body, after, call, pieces, calls, hinside, hbody, hcall, hmore, hcalls, rfl⟩
    have hscan := scan_label_iff.mpr ⟨body, after, pieces, hinside, hbody, hmore, rfl⟩
    have hall : callsOf (callTexts
        (.call ⟨fullName .each .label, [], body, .each, .label⟩ :: pieces)) = .ok (call :: calls) :=
      callsOf_cons_ok.mpr ⟨call, calls, hcall, hcalls, rfl⟩
    unfold parse
    rw [htrim, hscan]
    show (callsOf (callTexts _) >>= _) = _
    rw [hall]
    rfl

/-- After a parameter the inside of the label is the same, whatever the parameter is. -/
theorem parse_label_parameter_iff {a e : Text} {x : Expression} (ha : a.IsParameter) :
    parse (spell .each .label [a] e) = .ok x ↔ ∃ body after pieces calls,
      comma ++ (e ++ [')']) = ',' :: body ++ ')' :: after ∧ Text.Closed body
        ∧ Scan.pieces false after = .ok pieces ∧ callsOf (callTexts pieces) = .ok calls
        ∧ x = ⟨⟨.each, .label, [a], Text.join comma (Text.fields ',' body)⟩ :: calls,
          SeriesQuery.remainder pieces⟩ := by
  have hclosed : ∀ body, Text.Closed (a ++ ',' :: body) ↔ Text.Closed body := fun body =>
    ha.closed.append_iff
  have hfields : ∀ body, ofFields .each .label (Text.fields ',' (a ++ ',' :: body))
      = .ok ⟨.each, .label, [a], Text.join comma (Text.fields ',' body)⟩ := by
    intro body
    rw [ha.isSealed.fields_append Text.isDelimiter_comma ha.trimmed]
    exact (Call.ofFields_label ha.ne_nil (Text.fields_ne_nil ',' body)).1
  rw [parse_label_iff]
  constructor
  · rintro ⟨body, after, call, pieces, calls, hinside, hbody, hcall, hmore, hcalls, rfl⟩
    rcases List.append_eq_append_iff.mp hinside with ⟨rest, rfl, hrest⟩ | ⟨rest, rfl, hrest⟩
    · cases rest with
      | nil => cases (List.cons.inj hrest).1
      | cons c rest =>
          obtain ⟨rfl, -⟩ := List.cons.inj hrest
          rw [hfields] at hcall
          cases hcall
          exact ⟨rest, after, pieces, calls, hrest, (hclosed rest).mp hbody, hmore, hcalls, rfl⟩
    · cases rest with
      | nil => cases (List.cons.inj hrest).1
      | cons c rest =>
          -- The parameter would close the parenthesis of the call itself.
          obtain ⟨rfl, -⟩ := List.cons.inj hrest
          exact absurd ha.closed.balanced (Text.not_balanced_of_close hbody rest)
  · rintro ⟨body, after, pieces, calls, hrest, hbody, hmore, hcalls, rfl⟩
    refine ⟨a ++ ',' :: body, after, _, pieces, calls, ?_, (hclosed body).mpr hbody, hfields body,
      hmore, hcalls, rfl⟩
    rw [hrest, List.append_assoc]

/-- One parameter may stand for another. -/
theorem parse_label_congr {a a' e : Text} {x : Expression} (ha : a.IsParameter)
    (ha' : a'.IsParameter) (h : parse (spell .each .label [a] e) = .ok x) :
    ∃ inner calls rest, Text.Closed inner ∧ x = ⟨⟨.each, .label, [a], inner⟩ :: calls, rest⟩
      ∧ parse (spell .each .label [a'] e)
        = .ok ⟨⟨.each, .label, [a'], inner⟩ :: calls, rest⟩ := by
  obtain ⟨body, after, pieces, calls, hrest, hbody, hmore, hcalls, rfl⟩ :=
    (parse_label_parameter_iff ha).mp h
  refine ⟨_, calls, _, (Text.closed_join_fields body).mpr hbody, rfl, ?_⟩
  exact (parse_label_parameter_iff ha').mpr
    ⟨body, after, pieces, calls, hrest, hbody, hmore, hcalls, rfl⟩

/-- Only a text that is one parameter is read as the template of a label with a closed inside. -/
theorem selfContained_of_parse {a e inner : Text} {calls : List Call} {rest : Text}
    (h : parse (spell .each .label [a] e) = .ok ⟨⟨.each, .label, [a], inner⟩ :: calls, rest⟩)
    (hinner : Text.Closed inner) : a.SelfContained := by
  obtain ⟨body, after, call, pieces, _, -, hbody, hcall, -, -, hx⟩ := parse_label_iff.mp h
  cases hx
  obtain ⟨-, -, more, hmore, hfields, hjoin⟩ := Call.ofFields_ok hcall
  dsimp only at hjoin
  rw [List.singleton_append] at hfields
  have hsealed : Text.Sealed ',' a := by
    have hall := ((Text.delimited_fields Text.isDelimiter_comma body).sealed
      Text.isDelimiter_comma).1
    rw [hfields, List.dropLast_cons_of_ne_nil hmore] at hall
    exact hall a List.mem_cons_self
  refine ⟨hsealed, ?_⟩
  rw [← Text.closed_join_fields, hfields, Text.join_cons _ a hmore, ← hjoin] at hbody
  have hcomma : Text.Closed (comma ++ inner) := hinner
  exact Text.closed_of_append hbody hcomma hsealed.ends_outside

/-! ## Labels as they are evaluated -/

section Abreast

variable {engine : Engine} {text text' a a' inner rest : Text} {calls : List Call}

theorem depth_of_label {c : Call} (h : parse text = .ok ⟨c :: calls, rest⟩) :
    ∃ depth, parens text = depth + 1 := by
  have hlt := parens_inner_lt h List.mem_cons_self
  exact ⟨parens text - 1, by omega⟩

variable (h : parse text = .ok ⟨⟨.each, .label, [a], inner⟩ :: calls, rest⟩)
  (h' : parse text' = .ok ⟨⟨.each, .label, [a'], inner⟩ :: calls, rest⟩)
  (hparens : parens text' = parens text)

include h h' hparens

theorem abreast_collect :
    Step.Abreast engine (Plan.collect engine text) (Plan.collect engine text') := by
  obtain ⟨depth, hdepth⟩ := depth_of_label h
  unfold Plan.collect
  rw [hparens, hdepth]
  unfold Plan.collectFrom
  refine .parse_bind h h' ?_
  dsimp only
  rw [List.foldlM_cons, List.foldlM_cons, Plan.addCall_label rfl, Plan.addCall_label rfl]
  have hcollect : ∀ p t, Assembled engine True (Plan.collectFrom engine depth p t) fun _ => True :=
    fun p t => assembled_collectFrom depth p t
  refine .bind (.bind (.of_assembled (hcollect _ inner)) fun p => .of_assembled (.foldlM
    (fun p call _ => hcollect (p.addCall call) call.inner) p)) fun p => ?_
  exact .of_assembled (@assembled_addLiterals engine True ⟨calls, rest⟩ p)

theorem abreast_evaluate (hunquote : Text.unquote a' = Text.unquote a) (m : Material) :
    Step.Abreast engine (evaluate engine m text) (evaluate engine m text') := by
  obtain ⟨depth, hdepth⟩ := depth_of_label h
  have happly : ∀ inputs, (⟨.each, .label, [a'], inner⟩ : Call).apply engine m inputs
      = (⟨.each, .label, [a], inner⟩ : Call).apply engine m inputs := by
    intro inputs
    rw [Call.apply_of_label rfl, Call.apply_of_label rfl]
    unfold Call.applyLabel
    dsimp only
    rw [hunquote]
  unfold evaluate
  rw [hparens, hdepth]
  unfold evaluateFrom
  refine .parse_bind h h' ?_
  dsimp only
  rw [List.mapM_cons, List.mapM_cons]
  simp only [happly]
  have hcalled : ∀ call : Call, Assembled engine True
      (do Step.checkPatience; call.apply engine m (← evaluateFrom engine m depth call.inner))
      fun _ => True := fun call => .mono (assembled_called m call
        (assembled_evaluateFrom m depth call.inner (.inl trivial)) (.inl trivial))
        fun _ _ => trivial
  refine .bind (.bind (.of_assembled (hcalled ⟨.each, .label, [a], inner⟩)) fun series =>
    .bind (.of_assembled (.mapM fun call _ => hcalled call)) fun more => ?_) fun called => ?_
  · exact .of_assembled (@Assembled.pure engine True _ (fun _ => True) _ trivial)
  · exact .of_assembled (@assembled_literals engine True m ⟨calls, rest⟩ called.flatten)

/-- Where one of two labels gives something, the other gives the same. -/
theorem abreast_execute (hunquote : Text.unquote a' = Text.unquote a) (range : TimeRange)
    (hints : FetchHints) (quality : QualityFilter) :
    Step.Abreast engine (execute engine range hints quality text)
      (execute engine range hints quality text') := by
  unfold execute
  refine .bind (.of_assembled (@Assembled.patience engine True)) fun _ => ?_
  refine .bind (abreast_collect h h' hparens) fun plan => ?_
  refine .bind (.of_assembled (@Assembled.fetch engine True plan range hints quality))
    fun data => ?_
  exact abreast_evaluate h h' hparens hunquote _

end Abreast

section Alike

variable {engine : Engine}

theorem isLabel_of_closed {a e : Text} (ha : a.IsParameter) (he : Text.Closed e) :
    IsLabel (spell .each .label [a] e) a (Text.join comma (Text.fields ',' (' ' :: e))) := by
  have hbody : Text.Closed (a ++ ',' :: ' ' :: e) := ha.closed.append_iff.mpr he
  have hspell : spell .each .label [a] e = spell .each .label [] (a ++ ',' :: ' ' :: e) := by
    simp [spell, comma]
  rw [hspell]
  exact (isLabel_spell hbody (ha.isSealed.fields_append Text.isDelimiter_comma ha.trimmed _)
    ha.ne_nil (Text.fields_ne_nil ',' _)).1

/-- Two labels of one inside give the same if their templates are the same without the quotes,
unless the template shares its key with another. -/
theorem result_of_labels {text text' t u inner : Text} (ht : IsLabel text t inner)
    (hu : IsLabel text' u inner) (hunquote : Text.unquote u = Text.unquote t)
    (hparens : parens text' = parens text) {range : TimeRange} {hints : FetchHints}
    {quality : QualityFilter} {s s' : Session} (halike : Session.Alike engine s s')
    {groups : List Series} (h : (execute engine range hints quality text).result s = .ok groups)
    (hunshared : ∀ root ∈ groups.map (·.root),
      (Template.ofText engine.catalog (Text.unquote t)).Unshared engine root) :
    (execute engine range hints quality text').result s' = .ok groups := by
  obtain ⟨outputs, houtputs, hrenames, hgroups, hnames⟩ :=
    ((alike_execute_labels ht hu hparens range hints quality) s s' halike).1.of_ok h
  obtain ⟨hroots, -⟩ := root_of_renames hrenames
  unfold NamedBy at hnames
  rw [hunquote, hroots] at hnames
  have hnamed : outputs.map (·.name) = groups.map (·.name) :=
    (hnames hunshared).trans (hgroups hunshared).symm
  rw [houtputs, eq_renamed_of_renames hrenames, hnamed]
  exact congrArg Except.ok (eq_renamed_of_renames (List.forall₂_same.mpr fun _ _ => rfl)).symm

end Alike

/-- A template in double quotes is that template in single quotes if it is one parameter without
any, and only then is the call read alike, whatever stands behind the template. It is then evaluated
alike from a session of any history on whose clock no time goes by, whatever labels are within; and
from any two sessions, if the parentheses of the inside match and the template shares no key. -/
theorem label_double_quoted (engine : Engine) (range : TimeRange) (hints : FetchHints)
    (quality : QualityFilter) {t e : Text} (ht : '\'' ∉ t) :
    let single := spell .each .label [Text.quoted '\'' t] e
    let double := spell .each .label [Text.quoted '"' t] e
    let query := execute engine range hints quality
    (Text.unquote (Text.quoted '\'' t) = t ∧ Text.unquote (Text.quoted '"' t) = t)
      ∧ (∀ x, parse single = .ok x → ∃ inner calls rest,
        x = ⟨⟨.each, .label, [Text.quoted '\'' t], inner⟩ :: calls, rest⟩
          ∧ (parse double = .ok ⟨⟨.each, .label, [Text.quoted '"' t], inner⟩ :: calls, rest⟩
            ↔ t.SelfContained))
      ∧ (t.SelfContained → ∀ groups,
        (∀ idle now visits patience,
          let s :=
            { (Session.start idle (Clock.still now)).labelVisitAll engine visits with patience }
          (query single).result s = .ok groups → (query double).result s = .ok groups)
        ∧ (Text.Closed e → (∀ root ∈ groups.map (·.root),
            (Template.ofText engine.catalog t).Unshared engine root) →
          ∀ idle idle' clock clock' visits visits' patience,
            let s := { (Session.start idle clock).labelVisitAll engine visits with patience }
            let s' := { (Session.start idle' clock').labelVisitAll engine visits' with patience }
            (query single).result s = .ok groups → (query double).result s' = .ok groups)) := by
  intro single double query
  have hsingle := Text.IsParameter.of_quoted (by decide) (Text.selfContained_quoted ht)
  have hunquote := Text.unquote_quoted (.inl rfl) t
  have hunquote' := Text.unquote_quoted (.inr rfl) t
  have hdouble : t.SelfContained → Text.IsParameter (Text.quoted '"' t) := fun h =>
    .of_quoted (by decide) (Text.selfContained_doubleQuoted.mpr h)
  have hparens : parens double = parens single := by
    simp [single, double, spell, Text.quoted, parens_cons]
  refine ⟨⟨hunquote, hunquote'⟩, fun x hx => ?_, fun h groups => ⟨?_, ?_⟩⟩
  · obtain ⟨inner, calls, rest, hinner, rfl, -⟩ := parse_label_congr hsingle hsingle hx
    refine ⟨inner, calls, rest, rfl, fun hparse => ?_, fun h => ?_⟩
    · exact Text.selfContained_doubleQuoted.mp (selfContained_of_parse hparse hinner)
    · obtain ⟨_, _, _, -, hx', hparse⟩ := parse_label_congr hsingle (hdouble h) hx
      cases hx'
      exact hparse
  · intro idle now visits patience s hgroups
    have hsound : s.Sound engine.catalog engine.layout := by
      obtain ⟨hs, -⟩ := Session.sound_labelVisitAll engine idle (Clock.still now) visits
      exact ⟨hs.expressions, hs.targets⟩
    have hstill : s.clock.Still := Session.still_labelVisitAll engine idle (.of_still now) visits
    obtain ⟨x, hx⟩ := parse_of_execute hsound hgroups
    obtain ⟨_, _, _, -, rfl, hx'⟩ := parse_label_congr hsingle (hdouble h) hx
    have hsame := (abreast_execute hx hx' hparens (hunquote'.trans hunquote.symm) range hints
      quality) s s (.refl hsound hstill)
    exact hsame.1.trans hgroups
  · intro he hunshared idle idle' clock clock' visits visits' patience s s' hgroups
    have halike : Session.Alike engine s s' := by
      obtain ⟨hs, hl⟩ := Session.sound_labelVisitAll engine idle clock visits
      obtain ⟨hs', hl'⟩ := Session.sound_labelVisitAll engine idle' clock' visits'
      exact ⟨⟨hs.expressions, hs.targets⟩, hl, ⟨hs'.expressions, hs'.targets⟩, hl', rfl⟩
    refine result_of_labels (isLabel_of_closed hsingle he) (isLabel_of_closed (hdouble h) he)
      (hunquote'.trans hunquote.symm) hparens halike hgroups ?_
    rw [hunquote]
    exact hunshared

/-- A template with a comma in its brackets. -/
theorem label_double_quoted_brackets :
    let row (key tag : String) : Fields := Fields.ofList [(Text.of "ID", Text.of key),
      (Text.of "PointTag", Text.of tag), (Text.of "Device", Text.of "SHELBY")]
    let catalog : Catalog :=
      ⟨[(Text.of "ActiveMeasurements", [row "PPA:1" "A", row "PPA:2" "B"])], .standard⟩
    let layout : Layout := ⟨Text.of "ActiveMeasurements", Text.of "ID", Text.of "PointTag",
      Text.of "SignalID"⟩
    let one : Sample := .of (Text.of "PPA:1") 1.0 1000.0 0
    let engine : Engine := ⟨catalog, layout, Archive.source ⟨[one]⟩, id⟩
    let query := execute engine ⟨0.0, 2000.0⟩ ⟨none, true⟩ ⟨0, false⟩
    let s := { (Session.start 60000 (Clock.still 0)).labelVisitAll engine
      [.render (Text.of "{Device}") (Text.of "A"), .visit (.wait 5)] with patience := none }
    let groups : List Series := [⟨Text.of "(a, b) SHELBY", Text.of "A", [one]⟩,
      ⟨Text.of "(a, b) SHELBY 2", Text.of "B", []⟩]
    (query (Text.of "Label('(a, b) {Device}', PPA:1; PPA:2)")).result s = .ok groups
      ∧ parse (Text.of "Label(\"(a, b) {Device}\", PPA:1; PPA:2)")
        = .ok ⟨[⟨.each, .label, [Text.of "\"(a, b) {Device}\""], Text.of "PPA:1; PPA:2"⟩], []⟩
      ∧ (query (Text.of "Label(\"(a, b) {Device}\", PPA:1; PPA:2)")).result s = .ok groups := by
  intro row catalog layout one engine query s groups
  have hone : Text.SelfContained (Text.of "(a, b) {Device}") :=
    ⟨(Text.sealed_iff Text.isDelimiter_comma).mpr (by decide +kernel), by decide⟩
  have hsingle : (query (Text.of "Label('(a, b) {Device}', PPA:1; PPA:2)")).result s
      = .ok groups := by decide +kernel
  have hparse : parse (Text.of "Label('(a, b) {Device}', PPA:1; PPA:2)")
      = .ok ⟨[⟨.each, .label, [Text.of "'(a, b) {Device}'"], Text.of "PPA:1; PPA:2"⟩], []⟩ := by
    rw [parse, scan_eq]
    decide +kernel
  obtain ⟨-, hread, hgive⟩ := @label_double_quoted engine ⟨0.0, 2000.0⟩ ⟨none, true⟩ ⟨0, false⟩
    (Text.of "(a, b) {Device}") (Text.of "PPA:1; PPA:2") (by decide)
  obtain ⟨inner, calls, rest, hx, hiff⟩ := hread _ hparse
  cases hx
  exact ⟨hsingle, hiff.mpr hone, (hgive hone groups).1 60000 0 _ none hsingle⟩

/-- A comma that no bracket encloses ends the template in double quotes. -/
theorem label_double_quoted_comma :
    let one : Sample := .of (Text.of "PPA:1") 1.0 1000.0 0
    let engine : Engine := ⟨Catalog.empty, ⟨[], [], [], []⟩, Archive.source ⟨[one]⟩, id⟩
    let query := execute engine ⟨0.0, 2000.0⟩ ⟨none, true⟩ ⟨0, false⟩
    let s := Session.start 60000 (Clock.still 0)
    (query (Text.of "Label('a, b', PPA:1)")).result s
        = .ok [⟨Text.of "a, b", Text.of "PPA:1", [one]⟩]
      ∧ parse (Text.of "Label(\"a, b\", PPA:1)")
        = .ok ⟨[⟨.each, .label, [Text.of "\"a"], Text.of "b\", PPA:1"⟩], []⟩
      ∧ (query (Text.of "Label(\"a, b\", PPA:1)")).result s = .ok [] := by
  intro one engine query s
  refine ⟨by decide +kernel, ?_, by decide +kernel⟩
  rw [parse, scan_eq]
  decide +kernel

end Expression

end SeriesQuery
