import Mathlib.Data.List.Forall2
import SeriesQuery.Proofs.CharacterClasses
import SeriesQuery.Proofs.JoinedFields
import SeriesQuery.Proofs.ScanSteps

/-!
# Calls written out and read again

A call is written out with the canonical name of its function, its parameters and the text of the
expression that it is applied to. What stands between the parentheses are the fields of the call
as it was read, joined again (`shown_of_ofFields`). So the scan finds one call in the text, with
the same fields, and reads it as it was read the first time.
-/

namespace SeriesQuery

/-! ## Names -/

/-- What the scan asks of the word before a parenthesis to make it a call of a function. -/
structure Scan.Names (word : Text) (grouping : Grouping) (operator : Operator) : Prop where
  /-- It stands for the function. -/
  resolves : Operator.ofCallName? word = some (grouping, operator)
  /-- It is an identifier. -/
  identifier : isIdentifier word = true
  /-- It begins no clause. -/
  noClause : isOneOf clauseWords word = false
  /-- It takes no operand. -/
  noPredicate : isOneOf predicateWords word = false

/-- The characters of a name. -/
theorem Scan.mem_identifier {word : Text} (h : isIdentifier word = true) :
    ∀ c ∈ word, Text.isAsciiAlphanumeric c = true ∨ c = '_' := by
  cases word with
  | nil => cases h
  | cons first rest =>
      simp only [isIdentifier, Bool.and_eq_true, List.all_eq_true, Bool.or_eq_true,
        beq_iff_eq] at h
      intro c hc
      rcases List.mem_cons.mp hc with rfl | hc
      · exact h.1.imp_left fun hletter => Bool.or_eq_true_iff.mpr (Or.inl hletter)
      · exact h.2 c hc

theorem Scan.isWordChar_of_isIdentifier {word : Text} (h : isIdentifier word = true) :
    ∀ c ∈ word, isWordChar c = true := by
  intro c hc
  by_contra hnot
  simp only [isWordChar, Text.isAsciiBlank, Bool.not_eq_true', Bool.not_eq_false,
    Bool.or_eq_true, beq_iff_eq] at hnot
  have hmem := mem_identifier h c hc
  rcases hnot with (((((((((((rfl | rfl) | rfl) | rfl) | rfl) | rfl) | rfl) | rfl) | rfl) | rfl)
      | rfl) | rfl) <;> revert hmem <;> decide

theorem Scan.isBlank_of_isIdentifier {word : Text} (h : isIdentifier word = true) :
    ∀ c ∈ word, Text.isBlank c = false := by
  intro c hc
  rcases mem_identifier h c hc with hc | rfl
  · exact Text.isBlank_of_isAsciiAlphanumeric hc
  · decide

/-- What is checked of the table entry by entry holds of every function in every grouping. -/
theorem Call.forall_of_table {p : Grouping → Operator → Prop}
    (h : ∀ g ∈ [Grouping.each, .set, .slice], ∀ f ∈ Operator.all, p g f)
    (grouping : Grouping) (operator : Operator) : p grouping operator :=
  h grouping (by cases grouping <;> decide) operator (by cases operator <;> decide)

theorem Call.ofCallName?_fullName (grouping : Grouping) (operator : Operator) :
    Operator.ofCallName? (fullName grouping operator) = some (grouping, operator) := by
  refine forall_of_table (p := fun g f => Operator.ofCallName? (fullName g f) = some (g, f)) ?_ _ _
  decide +kernel

theorem Call.isIdentifier_fullName (grouping : Grouping) (operator : Operator) :
    Scan.isIdentifier (fullName grouping operator) = true := by
  refine forall_of_table (p := fun g f => Scan.isIdentifier (fullName g f) = true) ?_ _ _
  decide +kernel

/-- The canonical names of the table, with what any grouping puts in front of them. -/
theorem Call.names_fullName (grouping : Grouping) (operator : Operator) :
    Scan.Names (fullName grouping operator) grouping operator where
  resolves := ofCallName?_fullName grouping operator
  identifier := isIdentifier_fullName grouping operator
  noClause := by
    refine forall_of_table
      (p := fun g f => Scan.isOneOf Scan.clauseWords (fullName g f) = false) ?_ _ _
    decide +kernel
  noPredicate := by
    refine forall_of_table
      (p := fun g f => Scan.isOneOf Scan.predicateWords (fullName g f) = false) ?_ _ _
    decide +kernel

/-- Such a word stands right ahead of its parenthesis. -/
theorem Scan.Names.ahead {word : Text} {grouping : Grouping} {operator : Operator}
    (h : Names word grouping operator) (inside : Text) : Ahead word [] inside := by
  refine ⟨⟨?_, isWordChar_of_isIdentifier h.identifier, fun c hc => ?_⟩, h.identifier,
    fun c hc => ?_⟩
  · intro hnil
    have hidentifier := h.identifier
    rw [hnil] at hidentifier
    cases hidentifier
  · cases hc
    decide
  · cases hc

/-! ## A text that is one call -/

/-- At the front of a text the scan finds a call, unless its parenthesis is not closed. -/
theorem Scan.firstWord_names {word gap inside : Text} {grouping : Grouping} {operator : Operator}
    (ha : Ahead word gap inside) (hn : Names word grouping operator) :
    firstWord false (word ++ (gap ++ '(' :: inside))
      = match Text.splitAtClose? 1 false inside with
        | some (body, after) => .ok (.call ⟨word, gap, body, grouping, operator⟩, after, false)
        | none => .error (.unclosed ('(' :: inside)) := by
  unfold firstWord
  dsimp only
  rw [ha.whole.span.1, ha.whole.span.2, hn.noClause, ha.span.1, ha.span.2]
  simp only [hn.identifier, hn.noPredicate, hn.resolves]
  rfl

theorem Scan.firstPiece_of_wordChar {clause : Bool} {c : Char} {rest : Text}
    (h : isWordChar c = true) : firstPiece clause c rest = firstWord clause (c :: rest) := by
  have hne : ∀ d : Char, isWordChar d = false → (c == d) = false := by
    intro d hd
    rw [beq_eq_false_iff_ne]
    rintro rfl
    rw [h] at hd
    cases hd
  unfold firstPiece
  rw [hne '\'' (by decide), hne '(' (by decide), hne ')' (by decide), hne ';' (by decide), h]
  rfl

/-- The pieces of such a text are the call and the pieces of what follows it. -/
theorem Scan.pieces_names {word gap inside : Text} {grouping : Grouping} {operator : Operator}
    (ha : Ahead word gap inside) (hn : Names word grouping operator) :
    pieces false (word ++ (gap ++ '(' :: inside))
      = match Text.splitAtClose? 1 false inside with
        | some (body, after) =>
          (pieces false after).map (.call ⟨word, gap, body, grouping, operator⟩ :: ·)
        | none => .error (.unclosed ('(' :: inside)) := by
  have hfirst := firstWord_names ha hn
  obtain ⟨c, rest, hword⟩ := List.exists_cons_of_ne_nil ha.whole.ne_nil
  have hchar : isWordChar c = true := ha.whole.all c (hword ▸ List.mem_cons_self)
  have htext : word ++ (gap ++ '(' :: inside) = c :: (rest ++ (gap ++ '(' :: inside)) := by
    rw [hword]
    rfl
  rw [htext, ← firstPiece_of_wordChar hchar] at hfirst
  rw [htext, pieces]
  split
  · next o he =>
      rw [hfirst] at he
      cases hclose : Text.splitAtClose? 1 false inside with
      | none =>
          rw [hclose] at he
          cases he
          rfl
      | some p =>
          rw [hclose] at he
          cases he
  · next piece after next he =>
      rw [hfirst] at he
      cases hclose : Text.splitAtClose? 1 false inside with
      | none =>
          rw [hclose] at he
          cases he
      | some p =>
          rw [hclose] at he
          cases he
          dsimp only
          cases pieces false p.2 <;> rfl

theorem scan_call {c : CallText} (ha : Scan.Ahead c.word c.gap (c.body ++ [')']))
    (hn : Scan.Names c.word c.grouping c.operator) (hbody : Text.Closed c.body) :
    scan c.spelling = .ok [.call c] := by
  have hspell : c.spelling = c.word ++ (c.gap ++ '(' :: (c.body ++ [')'])) := by
    simp [CallText.spelling]
  have hnone : Scan.pieces false [] = .ok [] := by rw [Scan.pieces]
  unfold scan
  rw [hspell, Scan.pieces_names ha hn, Text.splitAtClose?_of_closed hbody]
  dsimp only
  rw [hnone]
  rfl

/-- Such a text is read as its call and nothing besides, or has the fault of its call. -/
theorem Expression.parse_callText {c : CallText} (ha : Scan.Ahead c.word c.gap (c.body ++ [')']))
    (hn : Scan.Names c.word c.grouping c.operator) (hbody : Text.Closed c.body) :
    parse c.spelling = (Call.ofText c).map fun call => ⟨[call], []⟩ := by
  have htrim : Text.trim c.spelling = c.spelling := by
    refine Text.trim_of_ends (fun d hd => ?_) fun d hd => ?_
    · obtain ⟨w, more, hword⟩ := List.exists_cons_of_ne_nil ha.whole.ne_nil
      rw [CallText.spelling, hword] at hd
      cases hd
      exact Scan.isBlank_of_isIdentifier hn.identifier d (hword ▸ List.mem_cons_self)
    · rw [CallText.spelling, List.getLast?_concat] at hd
      cases hd
      decide
  unfold parse
  rw [htrim, scan_call ha hn hbody]
  show (callsOf [c] >>= fun calls => pure (Expression.mk calls (SeriesQuery.remainder [.call c])))
    = _
  unfold callsOf
  cases Call.ofText c with
  | error f => rfl
  | ok call => rfl

theorem Expression.parse_call {c : CallText} {call : Call}
    (ha : Scan.Ahead c.word c.gap (c.body ++ [')']))
    (hn : Scan.Names c.word c.grouping c.operator) (hbody : Text.Closed c.body)
    (hcall : Call.ofText c = .ok call) : parse c.spelling = .ok ⟨[call], []⟩ := by
  rw [parse_callText ha hn hbody, hcall]
  rfl

/-! ## The fields of a call -/

namespace Call

theorem spanOptional_append (n : ℕ) (l : List Text) :
    (spanOptional n l).1 ++ (spanOptional n l).2 = l := by
  fun_induction spanOptional n l with
  | case1 => rfl
  | case2 => rfl
  | case3 => rfl
  | case4 => rfl
  | case5 n field next fields h taken left heq ih =>
      rw [heq] at ih
      exact congrArg (field :: ·) ih

theorem spanOptional_ne_nil (n : ℕ) {l : List Text} (h : l ≠ []) : (spanOptional n l).2 ≠ [] := by
  fun_induction spanOptional n l with
  | case1 => exact h
  | case2 => exact h
  | case3 => exact List.cons_ne_nil _ _
  | case4 => exact List.cons_ne_nil _ _
  | case5 n field next fields hlook taken left heq ih =>
      rw [heq] at ih
      exact ih (List.cons_ne_nil _ _)

/-- The fields of a call are its parameters and those of the expression it is applied to, of which
there is at least one. -/
theorem ofFields_ok {grouping : Grouping} {operator : Operator} {fields : List Text} {call : Call}
    (h : ofFields grouping operator fields = .ok call) :
    call.grouping = grouping ∧ call.operator = operator
      ∧ ∃ rest, rest ≠ [] ∧ fields = call.parameters ++ rest
        ∧ call.inner = Text.join comma rest := by
  unfold ofFields at h
  dsimp only at h
  split at h
  · cases h
  next hcount =>
  split at h
  · cases h
  next hlen =>
  cases h
  simp only [Bool.or_eq_true, decide_eq_true_eq, not_or, beq_iff_eq] at hcount hlen
  refine ⟨rfl, rfl, _, spanOptional_ne_nil _ ?_, ?_, rfl⟩
  · intro hnil
    have hle := List.drop_eq_nil_iff.mp hnil
    omega
  · rw [List.append_assoc, spanOptional_append, List.take_append_drop]

/-- What stands between the parentheses of a call that is written out. -/
def shown (c : Call) : Text := c.parameters.flatMap (· ++ comma) ++ c.inner

theorem join_append (a : List Text) {b : List Text} (hb : b ≠ []) :
    Text.join comma (a ++ b) = a.flatMap (· ++ comma) ++ Text.join comma b := by
  induction a with
  | nil => rfl
  | cons f a ih =>
      have hne : a ++ b ≠ [] := fun h => hb (List.append_eq_nil_iff.mp h).2
      rw [List.cons_append, Text.join_cons _ f hne, ih, List.flatMap_cons]
      simp [comma]

/-- A call shows the fields that it was made of, joined. -/
theorem shown_of_ofFields {grouping : Grouping} {operator : Operator} {fields : List Text}
    {call : Call} (h : ofFields grouping operator fields = .ok call) :
    call.shown = Text.join comma fields := by
  obtain ⟨-, -, rest, hne, rfl, hinner⟩ := ofFields_ok h
  rw [join_append _ hne, shown, hinner]

/-- A call as it is written out. -/
def written (c : Call) : CallText :=
  ⟨fullName c.grouping c.operator, [], c.shown, c.grouping, c.operator⟩

theorem spelling_written (c : Call) : c.written.spelling = c.spelling := by
  simp [CallText.spelling, written, shown, spelling, spell]

end Call

/-! ## Expressions -/

/-- What a scan takes for the inside of a call closes what it opens. -/
theorem Scan.Cuts.closed_body {clause : Bool} {t : Text} {pieces : List Piece}
    (h : Cuts clause t pieces) : ∀ c ∈ callTexts pieces, Text.Closed c.body := by
  induction h with
  | nil => exact fun c hc => absurd hc List.not_mem_nil
  | cons hcut _ ih =>
      intro c hc
      cases hcut with
      | call _ _ _ _ hbody =>
          rcases List.mem_cons.mp hc with rfl | hc
          · exact hbody
          · exact ih c hc
      | _ => exact ih c hc

/-- A call reads the same when it is written out, and its fields are those it was read with. -/
theorem Call.reads_back {c : CallText} {call : Call} (hbody : Text.Closed c.body)
    (h : ofText c = .ok call) : Expression.parse call.spelling = .ok ⟨[call], []⟩
      ∧ scan call.spelling = .ok [.call call.written]
      ∧ Text.fields ',' call.shown = Text.fields ',' c.body := by
  have hshown : call.shown = Text.join comma (Text.fields ',' c.body) := shown_of_ofFields h
  have hfields : Text.fields ',' call.shown = Text.fields ',' c.body := by
    rw [hshown]
    exact Text.fields_join_suffix (a := []) (Text.fields_ne_nil ',' c.body) rfl
  have hclosed : Text.Closed call.written.body := by
    show Text.Closed call.shown
    rw [hshown]
    exact (Text.closed_join_fields c.body).mpr hbody
  have hnames : Scan.Names call.written.word call.written.grouping call.written.operator :=
    names_fullName call.grouping call.operator
  have hahead : Scan.Ahead call.written.word call.written.gap (call.written.body ++ [')']) :=
    hnames.ahead _
  have hsame : ofText call.written = .ok call := by
    obtain ⟨hg, hf, -⟩ := ofFields_ok h
    unfold ofText written
    dsimp only
    rw [hfields, hg, hf]
    exact h
  rw [← spelling_written]
  exact ⟨Expression.parse_call hahead hnames hclosed hsame, scan_call hahead hnames hclosed,
    hfields⟩

theorem Expression.callsOf_cons_ok {c : CallText} {texts : List CallText} {l : List Call} :
    callsOf (c :: texts) = .ok l
      ↔ ∃ call calls, Call.ofText c = .ok call ∧ callsOf texts = .ok calls ∧ l = call :: calls := by
  have hcons : callsOf (c :: texts)
      = Call.ofText c >>= fun call => callsOf texts >>= fun calls => pure (call :: calls) := rfl
  rw [hcons]
  constructor
  · intro h
    cases hc : Call.ofText c with
    | error f =>
        rw [hc] at h
        cases h
    | ok call =>
        cases hrest : callsOf texts with
        | error f =>
            rw [hc, hrest] at h
            cases h
        | ok calls =>
            rw [hc, hrest] at h
            cases h
            exact ⟨call, calls, rfl, rfl, rfl⟩
  · rintro ⟨call, calls, hc, hrest, rfl⟩
    rw [hc, hrest]
    rfl

theorem Expression.forall₂_callsOf {texts : List CallText} {calls : List Call}
    (h : callsOf texts = .ok calls) :
    List.Forall₂ (fun c call => Call.ofText c = .ok call) texts calls := by
  induction texts generalizing calls with
  | nil =>
      cases h
      exact .nil
  | cons c texts ih =>
      obtain ⟨call, rest, hc, hrest, rfl⟩ := callsOf_cons_ok.mp h
      exact .cons hc (ih hrest)

/-- Every call of an expression, written out, is read as that call and nothing else. What it shows
between its parentheses are the fields of the call in the expression, first its parameters and then
those of the expression that it is applied to. -/
theorem Expression.parse_spelling {text : Text} {e : Expression} (h : parse text = .ok e) :
    ∃ pieces, scan (Text.trim text) = .ok pieces
      ∧ List.Forall₂ (fun c call =>
          (call.grouping = c.grouping ∧ call.operator = c.operator)
            ∧ parse call.spelling = .ok ⟨[call], []⟩
            ∧ scan call.spelling = .ok [.call call.written]
            ∧ Text.fields ',' call.written.body = Text.fields ',' c.body
            ∧ call.parameters ++ Text.fields ',' call.inner = Text.fields ',' c.body)
        (callTexts pieces) e.calls := by
  obtain ⟨pieces, calls, hscan, hcalls, rfl⟩ := parse_ok h
  refine ⟨pieces, hscan, ?_⟩
  have hbodies := (cuts_of_scan hscan).closed_body
  have hall := (List.forall₂_and_left _ _).mpr ⟨hbodies, forall₂_callsOf hcalls⟩
  refine hall.imp fun c call hc => ?_
  obtain ⟨hg, hf, rest, hne, hfields, hinner⟩ := Call.ofFields_ok hc.2
  obtain ⟨hparse, hone, hshown⟩ := Call.reads_back hc.1 hc.2
  refine ⟨⟨hg, hf⟩, hparse, hone, hshown, ?_⟩
  rw [hinner, Text.fields_join_suffix hne hfields, hfields]

/-- Brackets that do not match, a quoted comma and empty fields. -/
theorem Expression.parse_spelling_empty_fields :
    let call : Call := ⟨.slice, .subtract, [Text.of "0.5", Text.of "'a,)'"],
      Text.of ", [x ] ]; PPA:2, "⟩
    parse (Text.of " slicesub( 0.5 ,'a,)' , ,[x ] ]; PPA:2 ,); PPA:3")
        = .ok ⟨[call], Text.of "; PPA:3"⟩
      ∧ call.spelling = Text.of "SliceSubtract(0.5, 'a,)', , [x ] ]; PPA:2, )"
      ∧ parse call.spelling = .ok ⟨[call], []⟩ := by
  intro call
  have hparse : parse (Text.of " slicesub( 0.5 ,'a,)' , ,[x ] ]; PPA:2 ,); PPA:3")
      = .ok ⟨[call], Text.of "; PPA:3"⟩ := by
    rw [parse, scan_eq]
    decide +kernel
  obtain ⟨pieces, -, hall⟩ := parse_spelling hparse
  refine ⟨hparse, by decide +kernel, ?_⟩
  generalize callTexts pieces = texts at hall
  cases hall with
  | cons hcall _ => exact hcall.2.1

end SeriesQuery
