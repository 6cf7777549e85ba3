import SeriesQuery.Catalog.Predicate
import SeriesQuery.Proofs.CharacterClasses
import SeriesQuery.Proofs.Trimming

/-!
# Comparisons written out and read again

The catalog is asked for the rows with a value in a field through the text of a predicate,
`field = 'value'`, in which every quote of the value stands twice. Whatever the value is, the text
is read as the comparison it was written for, so long as the field has a name that needs no
brackets. Two things could go wrong. The value could end its quotes early; it does not, as a quote
in it is never followed by anything but its twin. And the name could be taken for a keyword, as
`NOT` is one; what follows a name here is an equals sign, with which no operand and no other form
of condition goes on.
-/

namespace SeriesQuery

/-- A name of a field that needs no brackets. -/
structure Text.IsIdentifier (name : Text) : Prop where
  ne_nil : name ≠ []
  isIdentifierChar : ∀ c ∈ name, Text.isIdentifierChar c = true

namespace Text

theorem identifier?_append {name rest : Text} (h : IsIdentifier name)
    (hrest : ∀ c ∈ rest.head?, isIdentifierChar c = false) :
    identifier? (name ++ rest) = some (name, rest) := by
  unfold identifier? takeSome?
  rw [takeWhile_append_of_head? h.isIdentifierChar hrest,
    dropWhile_append_of_head? h.isIdentifierChar hrest]
  simp [h.ne_nil]

/-- A word that is read at the front of an identifier and a blank after it ends before the blank. -/
theorem afterWord?_append_blank {word name tail rest : Text} (hword : ' ' ∉ asciiLower word)
    (h : afterWord? word (name ++ ' ' :: tail) = some rest) :
    ∃ more, more <:+ name ∧ rest = more ++ ' ' :: tail := by
  induction word generalizing name with
  | nil => exact ⟨name, List.suffix_rfl, (Option.some.inj h).symm⟩
  | cons w word ih =>
      cases name with
      | nil =>
          rw [List.nil_append, afterWord?] at h
          split at h
          · next hw =>
              have hspace : w.toLower = ' ' := eq_of_beq hw
              exact absurd (List.mem_cons.mpr (.inl hspace.symm)) hword
          · cases h
      | cons c name =>
          rw [List.cons_append, afterWord?] at h
          split at h
          · obtain ⟨more, hmore, hrest⟩ := ih (fun hm => hword (List.mem_cons_of_mem _ hm)) h
            exact ⟨more, hmore.trans (List.suffix_cons c name), hrest⟩
          · cases h

end Text

namespace Predicate

theorem quotedTail?_replaceChar (value : Text) {rest : Text} (hrest : rest.head? ≠ some '\'') :
    quotedTail? (Text.replaceChar '\'' ['\'', '\''] value ++ '\'' :: rest)
      = some (value, rest) := by
  induction value with
  | nil =>
      rw [Text.replaceChar, List.flatMap_nil, List.nil_append, quotedTail?]
      · rfl
      · rintro more ⟨⟩ rfl
        exact hrest rfl
  | cons c value ih =>
      have hcons : Text.replaceChar '\'' ['\'', '\''] (c :: value)
          = (if c == '\'' then ['\'', '\''] else [c])
            ++ Text.replaceChar '\'' ['\'', '\''] value := List.flatMap_cons
      rw [hcons]
      by_cases hc : c = '\''
      · subst hc
        simp [quotedTail?, ih]
      · rw [if_neg (by simpa using hc), List.singleton_append, List.cons_append, quotedTail?]
        · simp [hc, ih]
        · simp [hc]

theorem value?_quote (value : Text) : value? (quote value) = some (value, []) := by
  have h : quotedTail? (Text.replaceChar '\'' ['\'', '\''] value ++ ['\'']) = some (value, []) :=
    quotedTail?_replaceChar value (by simp)
  unfold value? quote
  simp [h]

theorem equalsText_eq (field value : Text) :
    equalsText field value = field ++ ' ' :: '=' :: ' ' :: quote value := List.append_assoc ..

variable {lib : RegexLibrary}

theorem operand_equals (fuel : Nat) (t : Text) :
    operand lib fuel ('=' :: t) = .error .otherForm := by
  cases fuel with
  | zero => rfl
  | succ fuel => rfl

section Comparison

variable {field : Text} (hfield : Text.IsIdentifier field) (value : Text)

include hfield

theorem field?_equalsText :
    field? (equalsText field value) = some (field, ' ' :: '=' :: ' ' :: quote value) := by
  have hname : Text.identifier? (equalsText field value)
      = some (field, ' ' :: '=' :: ' ' :: quote value) := by
    rw [equalsText_eq]
    exact Text.identifier?_append hfield (by simp; decide)
  obtain ⟨c, name, rfl⟩ := List.exists_cons_of_ne_nil hfield.ne_nil
  have hc : c ≠ '[' := by
    rintro rfl
    exact absurd (hfield.isIdentifierChar '[' List.mem_cons_self) (by decide)
  unfold field?
  rw [hname]
  simp [equalsText, hc]

theorem condition_equalsText :
    condition lib (equalsText field value) = .ok (compare field .equal value, []) := by
  have hfield? := field?_equalsText hfield value
  have hnull : isNull? (equalsText field value) = none := by
    rw [isNull?, hfield?]
    rfl
  have hlist : oneOf? (equalsText field value) = none := by
    rw [oneOf?, hfield?]
    rfl
  have hlike : likeReading lib (equalsText field value) = .error .otherForm := by
    rw [likeReading, likeHead?, hfield?]
    rfl
  have hcompare : compare? (equalsText field value) = some (compare field .equal value, []) := by
    have hvalue : value? (Text.skipSeparators (' ' :: quote value)) = some (value, []) :=
      value?_quote value
    have hsign : sign? (Text.skipSeparators (' ' :: '=' :: ' ' :: quote value))
        = some (.equal, ' ' :: quote value) := rfl
    simp [compare?, hfield?, hsign, hvalue]
  unfold condition
  rw [hnull, hlist, hlike, hcompare]
  rfl

/-- A field named `NOT` is no negation. -/
theorem negation_equalsText (fuel : Nat) :
    negation (operand lib fuel) (equalsText field value) = .error .otherForm := by
  unfold negation
  cases hword : Text.afterWord? notWord (equalsText field value) with
  | none => rfl
  | some rest =>
      rw [equalsText_eq] at hword
      obtain ⟨more, hmore, rfl⟩ := Text.afterWord?_append_blank (by decide) hword
      cases more with
      | nil =>
          have hafter : Text.afterSeparators? ([] ++ ' ' :: '=' :: ' ' :: quote value)
              = some ('=' :: ' ' :: quote value) := rfl
          rw [Option.bind_some, hafter]
          dsimp only
          rw [operand_equals]
          rfl
      | cons c more =>
          have hc : Text.isSeparator c = false :=
            Text.isSeparator_of_isBlank_eq_false (Text.isBlank_of_isIdentifierChar
              (hfield.isIdentifierChar c (hmore.subset List.mem_cons_self)))
          simp [Text.afterSeparators?, hc]

theorem group_equalsText (fuel : Nat) :
    group (operand lib fuel) (equalsText field value) = .error .otherForm := by
  obtain ⟨c, name, rfl⟩ := List.exists_cons_of_ne_nil hfield.ne_nil
  have hc : c ≠ '(' := by
    rintro rfl
    exact absurd (hfield.isIdentifierChar '(' List.mem_cons_self) (by decide)
  rw [equalsText_eq, List.cons_append, group]
  rintro rest ⟨⟩
  exact hc rfl

theorem operand_equalsText (fuel : Nat) :
    operand lib (fuel + 1) (equalsText field value) = .ok (compare field .equal value, []) := by
  rw [operand, negation_equalsText hfield, group_equalsText hfield, condition_equalsText hfield]
  rfl

theorem junction_equalsText (fuel : Nat) :
    junction (operand lib (fuel + 1)) (equalsText field value)
      = .ok (compare field .equal value, []) := by
  unfold junction chain
  rw [operand_equalsText hfield]
  rfl

theorem isBlank_head?_equalsText :
    ∀ c ∈ (equalsText field value).head?, Text.isBlank c = false := by
  obtain ⟨c, name, rfl⟩ := List.exists_cons_of_ne_nil hfield.ne_nil
  rintro d ⟨⟩
  exact Text.isBlank_of_isIdentifierChar (hfield.isIdentifierChar c List.mem_cons_self)

/-- A comparison is longer than the texts that stand for every row. -/
theorem isAlways_equalsText : isAlways (equalsText field value) = false := by
  have hlong : 4 < (equalsText field value).length := by
    have := List.length_pos_iff.mpr hfield.ne_nil
    simp [equalsText, quote]
    omega
  rw [← Bool.not_eq_true]
  intro halways
  simp only [isAlways, Text.sameLetters, Bool.or_eq_true, beq_iff_eq, List.isEmpty_iff] at halways
  rcases halways with (h | h) | h
  · simp [h] at hlong
  · simp [h] at hlong
  · have hlength := congrArg List.length h
    simp [Text.asciiLower] at hlength
    omega

theorem trim_equalsText : Text.trim (equalsText field value) = equalsText field value := by
  refine Text.trim_of_ends (isBlank_head?_equalsText hfield value) ?_
  have hlast : (equalsText field value).getLast? = some '\'' := by
    rw [equalsText, quote, ← List.append_assoc, List.getLast?_concat]
  rw [hlast]
  rintro c ⟨⟩
  decide

/-- A comparison with a value is read as it was written. -/
theorem parse_equalsText :
    parse lib (equalsText field value) = .ok (compare field .equal value) := by
  have hskip : Text.skipSeparators (equalsText field value) = equalsText field value :=
    Text.dropWhile_of_head? fun c hc =>
      Text.isSeparator_of_isBlank_eq_false (isBlank_head?_equalsText hfield value c hc)
  unfold parse
  dsimp only
  rw [trim_equalsText hfield, isAlways_equalsText hfield, hskip, junction_equalsText hfield]
  rfl

end Comparison

/-- Whatever a value is made of, the text written for it is accepted as the one comparison it
stands for, and no other comparison has the same text. -/
theorem equalsText_reads_back (lib : RegexLibrary) {field : Text}
    (hfield : Text.IsIdentifier field) (value : Text) :
    parse lib (equalsText field value) = .ok (compare field .equal value)
      ∧ ∀ other otherValue, Text.IsIdentifier other →
        (equalsText other otherValue = equalsText field value
          ↔ other = field ∧ otherValue = value) := by
  have hread := @parse_equalsText lib _ hfield value
  refine ⟨hread, ?_⟩
  intro other otherValue hother
  constructor
  · intro htext
    have hread' := @parse_equalsText lib _ hother otherValue
    rw [htext, hread] at hread'
    cases hread'
    exact ⟨rfl, rfl⟩
  · intro h
    rw [h.1, h.2]

/-- A field that is spelled like a keyword, and a value that would close its quotes and go on. -/
theorem equalsText_reads_back_not :
    equalsText (Text.of "NOT") (Text.of "' OR (1=1) AND ID LIKE ''")
        = Text.of "NOT = ''' OR (1=1) AND ID LIKE '''''"
      ∧ parse .standard (Text.of "NOT = ''' OR (1=1) AND ID LIKE '''''")
        = .ok (compare (Text.of "NOT") .equal (Text.of "' OR (1=1) AND ID LIKE ''")) := by
  have hfield : Text.IsIdentifier (Text.of "NOT") :=
    ⟨by decide, List.all_eq_true.mp (by decide)⟩
  have htext : equalsText (Text.of "NOT") (Text.of "' OR (1=1) AND ID LIKE ''")
      = Text.of "NOT = ''' OR (1=1) AND ID LIKE '''''" := by decide
  refine ⟨htext, ?_⟩
  rw [← htext]
  exact (equalsText_reads_back .standard hfield _).1

end Predicate

end SeriesQuery
