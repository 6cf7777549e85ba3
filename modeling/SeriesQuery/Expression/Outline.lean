import SeriesQuery.Expression.Basic

/-!
# The tree of an expression

Reading the inside of every call again, and the insides of their calls, ends: the inside of a
call is rebuilt from its fields and may be longer than the text it was read from, but it has
fewer parentheses. `parens_inner_lt` says so, and `Outline.ofText` recurses on it.
-/

namespace SeriesQuery

/-- The number of opening parentheses in a text. -/
def parens (t : Text) : Nat := t.count '('

@[simp] theorem parens_nil : parens [] = 0 := rfl

@[simp] theorem parens_append (a b : Text) : parens (a ++ b) = parens a + parens b := by
  simp [parens]

theorem parens_cons (c : Char) (t : Text) :
    parens (c :: t) = parens t + if c == '(' then 1 else 0 := by
  simp [parens, List.count_cons]

/-- The parentheses of all of a list of texts. -/
def parensAll : List Text → Nat
  | [] => 0
  | t :: rest => parens t + parensAll rest

@[simp] theorem parensAll_nil : parensAll [] = 0 := rfl

@[simp] theorem parensAll_cons (t : Text) (l : List Text) :
    parensAll (t :: l) = parens t + parensAll l := rfl

/-! ## Trimming, splitting and joining -/

theorem parens_dropWhile {p : Char → Bool} (hp : p '(' = false) (t : Text) :
    parens (t.dropWhile p) = parens t := by
  induction t with
  | nil => rfl
  | cons c t ih =>
    by_cases h : p c = true
    · have hc : (c == '(') = false := by
        rw [beq_eq_false_iff_ne]; rintro rfl; simp [hp] at h
      simp [h, ih, parens_cons, hc]
    · simp [h]

theorem parens_reverse (t : Text) : parens t.reverse = parens t := by
  simp [parens]

theorem parens_trim (t : Text) : parens (Text.trim t) = parens t := by
  have hp : Text.isBlank '(' = false := by decide
  simp only [Text.trim, Text.stripWhile, Text.dropEndWhile, parens_reverse]
  rw [parens_dropWhile hp, parens_reverse, parens_dropWhile hp]

theorem parensAll_pushFront (c : Char) (l : List Text) :
    parensAll (Text.pushFront c l) = parensAll l + if c == '(' then 1 else 0 := by
  cases l with
  | nil => simp [Text.pushFront, parens_cons]
  | cons t l => simp [Text.pushFront, parens_cons]; omega

theorem parensAll_rawFields (delimiter : Char) (n : Text.Nesting) (t : Text) :
    parensAll (Text.rawFields delimiter n t) = parens t := by
  induction t generalizing n with
  | nil => simp [Text.rawFields]
  | cons c t ih =>
    rw [Text.rawFields]
    split
    · rename_i h
      have hc : (c == '(') = false := by
        rw [beq_eq_false_iff_ne]; rintro rfl
        simp [Text.Nesting.separates, Text.Nesting.isOpening] at h
      simp [ih, parens_cons, hc]
    · rw [parensAll_pushFront, ih, parens_cons]

theorem parensAll_map_trim (l : List Text) : parensAll (l.map Text.trim) = parensAll l := by
  induction l with
  | nil => rfl
  | cons t l ih => simp [parens_trim, ih]

theorem parensAll_fields (delimiter : Char) (t : Text) :
    parensAll (Text.fields delimiter t) = parens t := by
  rw [Text.fields, parensAll_map_trim]
  exact parensAll_rawFields delimiter Text.Nesting.outside t

theorem parens_join_comma (l : List Text) : parens (Text.join Call.comma l) = parensAll l := by
  have hc : parens Call.comma = 0 := by decide
  induction l with
  | nil => rfl
  | cons t l ih =>
    cases l with
    | nil => simp [Text.join]
    | cons u l => simp [Text.join, hc, ih]

theorem parensAll_append (a b : List Text) : parensAll (a ++ b) = parensAll a + parensAll b := by
  induction a with
  | nil => simp
  | cons t a ih => simp [ih, Nat.add_assoc]

theorem parensAll_spanOptional_le (n : Nat) (l : List Text) :
    parensAll (Call.spanOptional n l).2 ≤ parensAll l := by
  fun_induction Call.spanOptional n l with
  | case1 => simp
  | case2 => simp
  | case3 => simp
  | case4 => simp
  | case5 n field next fields h taken left heq ih =>
    rw [heq] at ih
    simp only [parensAll_cons] at ih ⊢
    omega

theorem parensAll_drop_le (n : Nat) (l : List Text) : parensAll (l.drop n) ≤ parensAll l := by
  have h := parensAll_append (l.take n) (l.drop n)
  rw [List.take_append_drop] at h
  omega

/-! ## Calls -/

theorem parens_inner_le_of_ofFields {grouping : Grouping} {operator : Operator}
    {fields : List Text} {call : Call} (h : Call.ofFields grouping operator fields = .ok call) :
    parens call.inner ≤ parensAll fields := by
  unfold Call.ofFields at h
  simp only at h
  split at h
  · simp at h
  split at h
  · simp at h
  · simp only [Except.ok.injEq] at h
    rw [← h]
    simp only [parens_join_comma]
    exact Nat.le_trans (parensAll_spanOptional_le _ _) (parensAll_drop_le _ _)

theorem parens_inner_le_of_ofText {c : CallText} {call : Call} (h : Call.ofText c = .ok call) :
    parens call.inner ≤ parens c.body := by
  have := parens_inner_le_of_ofFields h
  rwa [parensAll_fields] at this

theorem parens_body_lt_spelling (c : CallText) : parens c.body < parens c.spelling := by
  simp only [CallText.spelling, parens_append, parens_cons]
  simp
  omega

/-! ## Pieces -/

/-- The text of all pieces. -/
def spellingAll (pieces : List Piece) : Text := pieces.flatMap Piece.spelling

theorem spellingAll_pieces {inClause : Bool} {t : Text} {pieces : List Piece}
    (h : Scan.pieces inClause t = .ok pieces) : spellingAll pieces = t := by
  fun_induction Scan.pieces inClause t generalizing pieces with
  | case1 => simp only [Except.ok.injEq] at h; rw [← h]; rfl
  | case2 => simp at h
  | case3 => simp at h
  | case4 inClause c rest piece after clause hp more hm ih =>
    simp only [Except.ok.injEq] at h
    rw [← h]
    simp only [spellingAll, List.flatMap_cons]
    have := ih hm
    rw [spellingAll] at this
    rw [this, Scan.firstPiece_spelling hp]

theorem spellingAll_scan {t : Text} {pieces : List Piece} (h : scan t = .ok pieces) :
    spellingAll pieces = t := by
  unfold scan at h
  cases hp : Scan.pieces false t with
  | error o => rw [hp] at h; simp at h
  | ok l =>
    rw [hp] at h
    simp only [Except.ok.injEq] at h
    rw [← h]
    exact spellingAll_pieces hp

theorem parens_le_of_mem_callTexts {pieces : List Piece} {c : CallText}
    (h : c ∈ callTexts pieces) : parens c.spelling ≤ parens (spellingAll pieces) := by
  induction pieces with
  | nil => simp [callTexts] at h
  | cons p l ih =>
    rw [show spellingAll (p :: l) = p.spelling ++ spellingAll l from rfl, parens_append]
    cases p with
    | plain t => have := ih h; omega
    | call d =>
      rcases List.mem_cons.mp h with rfl | h
      · simp [Piece.spelling]
      · have := ih h; omega

theorem exists_callText_of_mem_callsOf {texts : List CallText} {calls : List Call} {call : Call}
    (h : Expression.callsOf texts = .ok calls) (hc : call ∈ calls) :
    ∃ c ∈ texts, Call.ofText c = .ok call := by
  induction texts generalizing calls with
  | nil => simp [Expression.callsOf] at h; subst h; simp at hc
  | cons t rest ih =>
    simp only [Expression.callsOf, bind, Except.bind, pure, Except.pure] at h
    split at h
    · simp at h
    · rename_i first ht
      split at h
      · simp at h
      · rename_i more hr
        simp only [Except.ok.injEq] at h
        subst h
        rcases List.mem_cons.mp hc with rfl | hc
        · exact ⟨t, by simp, ht⟩
        · obtain ⟨c, hm, hc⟩ := ih hr hc
          exact ⟨c, by simp [hm], hc⟩

/-- The inside of a call has fewer parentheses than the expression that holds the call. -/
theorem parens_inner_lt {text : Text} {e : Expression} {call : Call}
    (h : Expression.parse text = .ok e) (hc : call ∈ e.calls) :
    parens call.inner < parens text := by
  simp only [Expression.parse, bind, Except.bind, pure, Except.pure] at h
  split at h
  · simp at h
  · rename_i pieces hs
    split at h
    · simp at h
    · rename_i calls hcalls
      simp only [Except.ok.injEq] at h
      subst h
      obtain ⟨c, hm, hct⟩ := exists_callText_of_mem_callsOf hcalls hc
      have h1 := parens_inner_le_of_ofText hct
      have h2 := parens_body_lt_spelling c
      have h3 := parens_le_of_mem_callTexts hm
      rw [spellingAll_scan hs, parens_trim] at h3
      omega

/-! ## The tree -/

/-- An expression with the insides of its calls read as well. -/
inductive Outline where
  /-- The calls, each with its inside, and the text without them. -/
  | node (calls : List (Call × Outline)) (remainder : Text)

namespace Outline

/-- The tree of a text. The first fault ends it, those of a call's inside before those of the
calls after it. -/
def ofText (text : Text) : Except Fault Outline :=
  match h : Expression.parse text with
  | .error f => .error f
  | .ok e =>
    let calls := e.calls.attach.mapM fun ⟨call, _hc⟩ =>
      (ofText call.inner).map fun inner => (call, inner)
    calls.map fun calls => .node calls e.remainder
termination_by parens text
decreasing_by exact parens_inner_lt h _hc

end Outline

end SeriesQuery
