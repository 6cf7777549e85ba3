import Mathlib.Data.List.TakeWhile
import SeriesQuery.Expression.Basic
import SeriesQuery.Proofs.CharacterClasses
import SeriesQuery.Resolver

/-!
# White space around a text

Expressions and lists of targets are kept under their text without the white space around it, so
the reading of either must not see that white space. An expression is trimmed before it is read;
a list of targets is not, and there the reason is that a blank is neither delimiter nor quote nor
bracket: at the front of a list it only lengthens the first field, at its end only the last one,
and every field is trimmed. The same goes for fields between any delimiters that are no blanks.
-/

namespace SeriesQuery.Text

/-- A text of white space alone. -/
def IsBlankRun (t : Text) : Prop := ∀ c ∈ t, isBlank c = true

/-! ## Trimming -/

theorem dropWhile_append_blanks {t tail : Text} (h : IsBlankRun tail) :
    ((t ++ tail).dropWhile isBlank = t.dropWhile isBlank ++ tail)
      ∨ ((t ++ tail).dropWhile isBlank = [] ∧ t.dropWhile isBlank = []) := by
  rw [List.dropWhile_append]
  split
  · next he =>
      right
      exact ⟨List.dropWhile_eq_nil_iff.mpr h, List.isEmpty_iff.mp he⟩
  · left
    rfl

theorem dropEndWhile_append_blanks (t : Text) {tail : Text} (h : IsBlankRun tail) :
    dropEndWhile isBlank (t ++ tail) = dropEndWhile isBlank t := by
  unfold dropEndWhile
  rw [List.reverse_append, List.dropWhile_append_of_pos]
  intro c hc
  exact h c (List.mem_reverse.mp hc)

theorem trim_append_blanks (t : Text) {tail : Text} (h : IsBlankRun tail) :
    trim (t ++ tail) = trim t := by
  unfold trim stripWhile
  rcases dropWhile_append_blanks (t := t) h with he | ⟨he, hnil⟩
  · rw [he]
    exact dropEndWhile_append_blanks _ h
  · rw [he, hnil]

theorem trim_blanks_append (t : Text) {lead : Text} (h : IsBlankRun lead) :
    trim (lead ++ t) = trim t := by
  unfold trim stripWhile
  rw [List.dropWhile_append_of_pos h]

/-- What is stripped from a text stood around what is left. -/
theorem exists_around_stripWhile (p : Char → Bool) (t : Text) : ∃ lead tail : Text,
    (∀ c ∈ lead, p c = true) ∧ (∀ c ∈ tail, p c = true) ∧ t = lead ++ (stripWhile p t ++ tail) := by
  refine ⟨t.takeWhile p, ((t.dropWhile p).reverse.takeWhile p).reverse, ?_, ?_, ?_⟩
  · intro c hc
    exact List.mem_takeWhile_imp hc
  · intro c hc
    exact List.mem_takeWhile_imp (List.mem_reverse.mp hc)
  · unfold stripWhile dropEndWhile
    rw [← List.reverse_append, List.takeWhile_append_dropWhile, List.reverse_reverse,
      List.takeWhile_append_dropWhile]

theorem exists_blanks_trim (t : Text) :
    ∃ lead tail, IsBlankRun lead ∧ IsBlankRun tail ∧ t = lead ++ (trim t ++ tail) :=
  exists_around_stripWhile isBlank t

@[simp] theorem trim_trim (t : Text) : trim (trim t) = trim t := by
  obtain ⟨lead, tail, hlead, htail, ht⟩ := exists_blanks_trim t
  calc trim (trim t) = trim (trim t ++ tail) := (trim_append_blanks _ htail).symm
    _ = trim (lead ++ (trim t ++ tail)) := (trim_blanks_append _ hlead).symm
    _ = trim t := by rw [← ht]

/-- A text with white space at neither end. -/
theorem trim_of_ends {t : Text} (hfirst : ∀ c ∈ t.head?, isBlank c = false)
    (hlast : ∀ c ∈ t.getLast?, isBlank c = false) : trim t = t := by
  rw [← List.head?_reverse] at hlast
  unfold trim stripWhile dropEndWhile
  rw [dropWhile_of_head? hfirst, dropWhile_of_head? hlast, List.reverse_reverse]

theorem trim_of_forall {t : Text} (h : ∀ c ∈ t, isBlank c = false) : trim t = t :=
  trim_of_ends (fun c hc => h c (List.mem_of_mem_head? hc))
    (fun c hc => h c (List.mem_of_getLast? hc))

theorem head?_of_trim_eq {t : Text} (h : trim t = t) : ∀ c ∈ t.head?, isBlank c = false := by
  intro c hc
  obtain ⟨rest, rfl⟩ := List.head?_eq_some_iff.mp hc
  rw [← Bool.not_eq_true]
  intro hblank
  have hlength := congrArg List.length h
  obtain ⟨lead, tail, -, -, hrest⟩ := exists_blanks_trim rest
  have hrestlength := congrArg List.length hrest
  have hlead : IsBlankRun [c] := by simpa [IsBlankRun] using hblank
  have htrim : trim (c :: rest) = trim rest := trim_blanks_append rest hlead
  rw [htrim, List.length_cons] at hlength
  simp only [List.length_append] at hrestlength
  omega

theorem getLast?_of_trim_eq {t : Text} (h : trim t = t) :
    ∀ c ∈ t.getLast?, isBlank c = false := by
  intro c hc
  obtain ⟨front, rfl⟩ := List.getLast?_eq_some_iff.mp hc
  rw [← Bool.not_eq_true]
  intro hblank
  have hlength := congrArg List.length h
  obtain ⟨lead, tail, -, -, hfront⟩ := exists_blanks_trim front
  have hfrontlength := congrArg List.length hfront
  have htail : IsBlankRun [c] := by simpa [IsBlankRun] using hblank
  rw [trim_append_blanks front htail, List.length_append] at hlength
  simp only [List.length_append, List.length_singleton] at hlength hfrontlength
  omega

/-! ## Fields -/

theorem rawFields_ne_nil (delimiter : Char) (n : Nesting) (t : Text) :
    rawFields delimiter n t ≠ [] := by
  cases t with
  | nil => exact List.cons_ne_nil _ _
  | cons c t =>
      rw [rawFields]
      split
      · exact List.cons_ne_nil _ _
      · cases rawFields delimiter (n.step c) t <;> exact List.cons_ne_nil _ _

/-- A text without delimiters is one field. -/
theorem rawFields_of_not_mem {delimiter : Char} {t : Text} (h : delimiter ∉ t) (n : Nesting) :
    rawFields delimiter n t = [t] := by
  induction t generalizing n with
  | nil => rfl
  | cons c t ih =>
      have hc : n.separates delimiter c = false := by
        have hne : (c == delimiter) = false := by
          rw [beq_eq_false_iff_ne]
          rintro rfl
          exact h List.mem_cons_self
        rw [Nesting.separates, hne]
        rfl
      rw [rawFields, if_neg (by simp [hc]), ih fun hm => h (List.mem_cons_of_mem _ hm)]
      rfl

section Fields

variable {delimiter : Char} (hd : isBlank delimiter = false)

include hd

/-- A blank leaves a scan as it is and ends no field. -/
theorem step_blank (n : Nesting) {c : Char} (h : isBlank c = true) :
    n.step c = n ∧ n.separates delimiter c = false := by
  have hne : ∀ d : Char, isBlank d = false → (c == d) = false := by
    intro d hd
    rw [beq_eq_false_iff_ne]
    rintro rfl
    rw [h] at hd
    cases hd
  have hq := hne '\'' (by decide)
  have hdelimiter := hne delimiter hd
  have hopen : Nesting.isOpening c = false := by
    unfold Nesting.isOpening
    rw [hne '(' (by decide), hne '{' (by decide), hne '[' (by decide)]
    rfl
  have hclose : Nesting.isClosing c = false := by
    unfold Nesting.isClosing
    rw [hne ')' (by decide), hne '}' (by decide), hne ']' (by decide)]
    rfl
  constructor
  · unfold Nesting.step
    rw [hq, hopen, hclose]
    cases n.quoted <;> rfl
  · unfold Nesting.separates
    rw [hdelimiter]
    rfl

theorem rawFields_blanks_append (n : Nesting) {lead : Text} (h : IsBlankRun lead) (t : Text)
    {first : Text} {more : List Text} (hf : rawFields delimiter n t = first :: more) :
    rawFields delimiter n (lead ++ t) = (lead ++ first) :: more := by
  induction lead with
  | nil => exact hf
  | cons c lead ih =>
      obtain ⟨hstep, hsep⟩ := step_blank hd n (h c List.mem_cons_self)
      rw [List.cons_append, rawFields, hsep, hstep,
        ih fun d hm => h d (List.mem_cons_of_mem _ hm)]
      rfl

theorem rawFields_blanks (n : Nesting) {tail : Text} (h : IsBlankRun tail) :
    rawFields delimiter n tail = [tail] := by
  have hnil : rawFields delimiter n [] = [[]] := rfl
  have h := rawFields_blanks_append hd n h [] hnil
  rwa [List.append_nil] at h

theorem rawFields_append_blanks (n : Nesting) (t : Text) {tail : Text} (h : IsBlankRun tail) :
    ∃ before last, rawFields delimiter n t = before ++ [last]
      ∧ rawFields delimiter n (t ++ tail) = before ++ [last ++ tail] := by
  induction t generalizing n with
  | nil => exact ⟨[], [], rfl, rawFields_blanks hd n h⟩
  | cons c t ih =>
      rw [List.cons_append, rawFields, rawFields]
      split
      · obtain ⟨before, last, h1, h2⟩ := ih n
        refine ⟨[] :: before, last, ?_, ?_⟩
        · rw [h1]
          rfl
        · rw [h2]
          rfl
      · obtain ⟨before, last, h1, h2⟩ := ih (n.step c)
        rw [h1, h2]
        cases before with
        | nil => exact ⟨[], c :: last, rfl, rfl⟩
        | cons first before => exact ⟨(c :: first) :: before, last, rfl, rfl⟩

/-- The fields of a text do not depend on the white space around it. -/
theorem fields_trim (t : Text) : fields delimiter (trim t) = fields delimiter t := by
  obtain ⟨lead, tail, hlead, htail, ht⟩ := exists_blanks_trim t
  have hback : fields delimiter (trim t ++ tail) = fields delimiter (trim t) := by
    obtain ⟨before, last, h1, h2⟩ := rawFields_append_blanks hd Nesting.outside (trim t) htail
    unfold fields
    rw [h1, h2, List.map_append, List.map_append, List.map_singleton, List.map_singleton,
      trim_append_blanks last htail]
  have hfront :
      fields delimiter (lead ++ (trim t ++ tail)) = fields delimiter (trim t ++ tail) := by
    obtain ⟨first, more, hf⟩ :=
      List.exists_cons_of_ne_nil (rawFields_ne_nil delimiter Nesting.outside (trim t ++ tail))
    unfold fields
    rw [rawFields_blanks_append hd Nesting.outside hlead _ hf, hf, List.map_cons, List.map_cons,
      trim_blanks_append first hlead]
  rw [← hback, ← hfront, ← ht]

end Fields

theorem targets_trim (t : Text) : targets (trim t) = targets t := by
  unfold targets
  rw [fields_trim (by decide)]

end SeriesQuery.Text

namespace SeriesQuery

/-! ## Reading and resolving -/

theorem Expression.parse_trim (text : Text) :
    Expression.parse (Text.trim text) = Expression.parse text := by
  unfold Expression.parse
  rw [Text.trim_trim]

theorem Resolver.resolve_trim (catalog : Catalog) (layout : Layout) (text : Text) :
    Resolver.resolve catalog layout (Text.trim text) = Resolver.resolve catalog layout text := by
  unfold Resolver.resolve
  rw [Text.targets_trim]

/-- Texts with the same inside are read alike. -/
theorem Expression.parse_congr {a b : Text} (h : Text.trim a = Text.trim b) :
    Expression.parse a = Expression.parse b := by
  rw [← Expression.parse_trim a, h, Expression.parse_trim]

/-- Texts with the same inside are resolved alike. -/
theorem Resolver.resolve_congr (catalog : Catalog) (layout : Layout) {a b : Text}
    (h : Text.trim a = Text.trim b) :
    Resolver.resolve catalog layout a = Resolver.resolve catalog layout b := by
  rw [← Resolver.resolve_trim catalog layout a, h, Resolver.resolve_trim]

end SeriesQuery
