import SeriesQuery.Proofs.DelimitedFields
import SeriesQuery.Proofs.Parentheses

/-!
# Fields written again

The parameters of a call are fields between commas. A call is written again with its fields
trimmed and with a comma and a blank between them: another text, but one that has the same fields
and opens and closes the same. The first is a case of what holds of fields between any delimiters.
The second is a matter of quotes and parentheses alone, and all of them are in the fields.
-/

namespace SeriesQuery.Text

/-- The fields of a text, joined from one of them on, are its fields from there on. -/
theorem fields_join_suffix {t : Text} {a b : List Text} (hb : b ≠ []) (h : fields ',' t = a ++ b) :
    fields ',' (join Call.comma b) = b := by
  have hfrom := delimited_fields isDelimiter_comma t
  rw [h] at hfrom
  refine (hfrom.drop hb).fields_join isDelimiter_comma isBlankRun_space fun f hf =>
    trim_of_mem_fields (d := ',') (t := t) ?_
  rw [h]
  exact List.mem_append_right _ hf

/-! ## Quotes and parentheses -/

/-- The quotes and parentheses of a text. -/
def marks (t : Text) : Text := t.filter fun c => !Nesting.isPlain c

theorem openAfter?_marks (n : Nesting) (t : Text) : n.openAfter? (marks t) = n.openAfter? t := by
  unfold marks
  induction t generalizing n with
  | nil => rfl
  | cons c t ih =>
      rw [Nesting.openAfter?_cons, List.filter_cons]
      split
      · rw [Nesting.openAfter?_cons]
        cases n.meet? c with
        | none => rfl
        | some m => exact ih m
      · next hplain =>
          rw [Nesting.meet?_plain n (by simpa using hplain)]
          exact ih n

theorem closed_congr {a b : Text} (h : marks a = marks b) : Closed a ↔ Closed b := by
  unfold Closed
  rw [← openAfter?_marks, h, openAfter?_marks]

theorem marks_append (a b : Text) : marks (a ++ b) = marks a ++ marks b := List.filter_append a b

theorem marks_blanks {t : Text} (h : IsBlankRun t) : marks t = [] := by
  refine List.filter_eq_nil_iff.mpr fun c hc => ?_
  have hplain : Nesting.isPlain c = true := by
    have hne : ∀ d : Char, isBlank d = false → (c == d) = false := by
      intro d hd
      rw [beq_eq_false_iff_ne]
      rintro rfl
      rw [h c hc] at hd
      cases hd
    unfold Nesting.isPlain
    rw [hne '\'' (by decide), hne '(' (by decide), hne ')' (by decide)]
    rfl
  rw [hplain]
  decide

theorem marks_trim (t : Text) : marks (trim t) = marks t := by
  obtain ⟨lead, tail, hlead, htail, ht⟩ := exists_blanks_trim t
  have h := congrArg marks ht
  rw [marks_append, marks_append, marks_blanks hlead, marks_blanks htail, List.append_nil,
    List.nil_append] at h
  exact h.symm

theorem marks_pushFront (c : Char) (l : List Text) :
    (pushFront c l).flatMap marks = marks [c] ++ l.flatMap marks := by
  cases l with
  | nil => rfl
  | cons f l =>
      show marks (c :: f) ++ l.flatMap marks = marks [c] ++ (marks f ++ l.flatMap marks)
      rw [← List.append_assoc, ← marks_append]
      rfl

theorem marks_rawFields (n : Nesting) (t : Text) :
    (rawFields ',' n t).flatMap marks = marks t := by
  induction t generalizing n with
  | nil => rfl
  | cons c t ih =>
      have hcons : marks (c :: t) = marks [c] ++ marks t := marks_append [c] t
      rw [rawFields]
      split
      · next hsep =>
          simp only [Nesting.separates, Bool.and_eq_true, beq_iff_eq] at hsep
          rw [hcons, hsep.1.1]
          exact ih n
      · rw [marks_pushFront, ih, hcons]

theorem marks_fields (t : Text) : (fields ',' t).flatMap marks = marks t := by
  unfold fields
  rw [List.flatMap_map]
  calc (rawFields ',' Nesting.outside t).flatMap (fun f => marks (trim f))
      = (rawFields ',' Nesting.outside t).flatMap marks := by simp only [marks_trim]
    _ = marks t := marks_rawFields _ _

theorem marks_join (l : List Text) : marks (join Call.comma l) = l.flatMap marks := by
  induction l with
  | nil => rfl
  | cons f l ih =>
      by_cases hl : l = []
      · rw [hl]
        exact (List.append_nil _).symm
      · rw [join_cons _ f hl, marks_append, List.flatMap_cons, ← ih]
        rfl

/-- Joined fields close what they open exactly if the text did. -/
theorem closed_join_fields (t : Text) : Closed (join Call.comma (fields ',' t)) ↔ Closed t :=
  closed_congr ((marks_join _).trans (marks_fields t))

end SeriesQuery.Text
