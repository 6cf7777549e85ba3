import SeriesQuery.Proofs.CompiledPatterns
import SeriesQuery.Proofs.PredicateComposition

/-!
# Predicates written out and read again

Every predicate on fields can be written: fields in square brackets, values in single quotes with
inner quotes twice, and every operand of `NOT`, `AND` and `OR` in parentheses. In brackets a name
is taken as it is, be it a keyword or none, so that the forms of a condition are told apart by what
follows the bracket. What holds of composed texts does the rest, constructor by constructor.
-/

namespace SeriesQuery

open Text

/-- A comparison sign as it is written. -/
def Comparison.spelling : Comparison → Text
  | equal => ['=']
  | notEqual => ['<', '>']
  | less => ['<']
  | lessOrEqual => ['<', '=']
  | greater => ['>']
  | greaterOrEqual => ['>', '=']

namespace Predicate

variable {lib : RegexLibrary}

/-! ## Writing -/

/-- A condition: the field in square brackets, a keyword or sign, and what comes after. -/
def conditionText (field word rest : Text) : Text := '[' :: (field ++ ']' :: ' ' :: (word ++ rest))

/-- Values that follow others in a list. -/
def moreText (values : List Text) : Text := values.flatMap fun value => ',' :: ' ' :: quote value

/-- The values of a list, separated by commas. -/
def listText : List Text → Text
  | [] => []
  | first :: values => quote first ++ moreText values

/-- A predicate written out. -/
def spelling : Predicate → Text
  | always => ['1', '=', '1']
  | compare field sign value => conditionText field sign.spelling (' ' :: quote value)
  | like field pattern => conditionText field likeWord (' ' :: quote pattern)
  | oneOf field values => conditionText field inWord (' ' :: '(' :: (listText values ++ [')']))
  | isNull field => conditionText field isWord (' ' :: nullWord)
  | not p => negatedText p.spelling
  | and p q => joinedText andWord p.spelling q.spelling
  | or p q => joinedText orWord p.spelling q.spelling

/-- A name that brackets can hold. -/
def IsFieldName (field : Text) : Prop := field ≠ [] ∧ ']' ∉ field

/-- A predicate built of conditions on named fields, with no empty list of values. -/
def IsSpellable : Predicate → Prop
  | always => False
  | compare field _ _ => IsFieldName field
  | like field _ => IsFieldName field
  | oneOf field values => IsFieldName field ∧ values ≠ []
  | isNull field => IsFieldName field
  | not p => p.IsSpellable
  | and p q => p.IsSpellable ∧ q.IsSpellable
  | or p q => p.IsSpellable ∧ q.IsSpellable

/-! ## Values -/

theorem value?_quote_append (value : Text) {rest : Text} (hrest : rest.head? ≠ some '\'') :
    value? (quote value ++ rest) = some (value, rest) := by
  have htail := quotedTail?_replaceChar value hrest
  have htext : quote value ++ rest
      = '\'' :: (replaceChar '\'' ['\'', '\''] value ++ '\'' :: rest) := by simp [quote]
  rw [value?_eq, htext, quoted?, htail]
  rfl

theorem moreValues_moreText (values : List Text) (rest : Text) {fuel : Nat}
    (hfuel : values.length ≤ fuel) :
    moreValues fuel (moreText values ++ ')' :: rest) = (values, ')' :: rest) := by
  induction values generalizing fuel with
  | nil => cases fuel <;> rfl
  | cons value values ih =>
      obtain ⟨fuel, rfl⟩ : ∃ n, fuel = n + 1 := ⟨fuel - 1, by rw [List.length_cons] at hfuel; omega⟩
      have hhead : (moreText values ++ ')' :: rest).head? ≠ some '\'' := by
        cases values with
        | nil => simp [moreText]
        | cons value values => simp [moreText]
      have hvalue :
          value? (skipSeparators (' ' :: (quote value ++ (moreText values ++ ')' :: rest))))
          = some (value, moreText values ++ ')' :: rest) := value?_quote_append value hhead
      have htext : moreText (value :: values) ++ ')' :: rest
          = ',' :: ' ' :: (quote value ++ (moreText values ++ ')' :: rest)) := by simp [moreText]
      have hskip : skipSeparators (',' :: ' ' :: (quote value ++ (moreText values ++ ')' :: rest)))
          = ',' :: ' ' :: (quote value ++ (moreText values ++ ')' :: rest)) := rfl
      rw [htext, moreValues, hskip]
      simp only [hvalue, ih (Nat.le_of_succ_le_succ hfuel)]

theorem length_moreText (values : List Text) : values.length ≤ (moreText values).length := by
  induction values with
  | nil => exact Nat.le_refl 0
  | cons value values ih =>
      have hcons : moreText (value :: values) = ',' :: ' ' :: quote value ++ moreText values :=
        List.flatMap_cons
      rw [hcons]
      simp
      omega

theorem parens?_listText {values : List Text} (hne : values ≠ []) :
    parens? valueList? (' ' :: '(' :: (listText values ++ [')'])) = some (values, []) := by
  obtain ⟨first, values, rfl⟩ := List.exists_cons_of_ne_nil hne
  have hhead : (moreText values ++ [')']).head? ≠ some '\'' := by
    cases values with
    | nil => simp [moreText]
    | cons value values => simp [moreText]
  have hskip : skipSeparators (listText (first :: values) ++ [')'])
      = listText (first :: values) ++ [')'] := rfl
  have htext : listText (first :: values) ++ [')'] = quote first ++ (moreText values ++ [')']) :=
    List.append_assoc ..
  have hfuel : values.length ≤ (moreText values ++ [')']).length :=
    Nat.le_trans (length_moreText values) (by simp)
  have hlist : valueList? (listText (first :: values) ++ [')'])
      = some (first :: values, [')']) := by
    rw [valueList?, hskip, htext, value?_quote_append first hhead]
    simp only [Option.bind_some, moreValues_moreText values [] hfuel]
  have hopen : skipSeparators (' ' :: '(' :: (listText (first :: values) ++ [')']))
      = '(' :: (listText (first :: values) ++ [')']) := rfl
  rw [parens?, hopen]
  simp only [hlist]
  rfl

/-! ## Conditions -/

section Conditions

variable {field : Text} (h : IsFieldName field)

include h

theorem field?_conditionText (word rest : Text) :
    field? (conditionText field word rest) = some (field, ' ' :: (word ++ rest)) := by
  rw [field?_eq, conditionText, bracketed?_closed h.2, if_neg h.1]
  rfl

theorem condition_isNull :
    condition lib (conditionText field isWord (' ' :: nullWord)) = .ok (isNull field, []) := by
  have hnull : isNull? (conditionText field isWord (' ' :: nullWord))
      = some (isNull field, []) := by
    rw [isNull?, field?_conditionText h]
    rfl
  rw [condition, hnull]
  rfl

theorem condition_oneOf {values : List Text} (hne : values ≠ []) :
    condition lib (conditionText field inWord (' ' :: '(' :: (listText values ++ [')'])))
      = .ok (oneOf field values, []) := by
  have hfield := field?_conditionText h inWord (' ' :: '(' :: (listText values ++ [')']))
  have hnull : isNull? (conditionText field inWord (' ' :: '(' :: (listText values ++ [')'])))
      = none := by
    rw [isNull?, hfield]
    rfl
  have hword : afterSpacedWord? inWord (optionalNot (' ' :: (inWord ++ ' ' :: '(' ::
      (listText values ++ [')'])))).2 = some (' ' :: '(' :: (listText values ++ [')'])) := rfl
  have hlist : oneOf? (conditionText field inWord (' ' :: '(' :: (listText values ++ [')'])))
      = some (oneOf field values, []) := by
    rw [oneOf?_eq, hfield]
    simp only [Option.bind_some, hword, parens?_listText hne]
    rfl
  rw [condition, hnull, hlist]
  rfl

theorem condition_like {pattern : Text} (hcompiles : (Pattern.compile? lib pattern).isSome = true) :
    condition lib (conditionText field likeWord (' ' :: quote pattern))
      = .ok (like field pattern, []) := by
  have hfield := field?_conditionText h likeWord (' ' :: quote pattern)
  have hnull : isNull? (conditionText field likeWord (' ' :: quote pattern)) = none := by
    rw [isNull?, hfield]
    rfl
  have hlist : oneOf? (conditionText field likeWord (' ' :: quote pattern)) = none := by
    rw [oneOf?, hfield]
    rfl
  have hhead : likeHead? (conditionText field likeWord (' ' :: quote pattern))
      = some (field, false, quote pattern) := by
    rw [likeHead?, hfield]
    rfl
  have hlike : likeReading lib (conditionText field likeWord (' ' :: quote pattern))
      = .ok (like field pattern, []) := by
    rw [likeReading, hhead]
    simp only [value?_quote, hcompiles, if_true]
    rfl
  rw [condition, hnull, hlist, hlike]
  rfl

theorem condition_compare (sign : Comparison) (value : Text) :
    condition lib (conditionText field sign.spelling (' ' :: quote value))
      = .ok (compare field sign value, []) := by
  have hfield := field?_conditionText h sign.spelling (' ' :: quote value)
  have hnull : isNull? (conditionText field sign.spelling (' ' :: quote value)) = none := by
    rw [isNull?, hfield]
    cases sign <;> rfl
  have hlist : oneOf? (conditionText field sign.spelling (' ' :: quote value)) = none := by
    rw [oneOf?, hfield]
    cases sign <;> rfl
  have hlike : likeReading lib (conditionText field sign.spelling (' ' :: quote value))
      = .error .otherForm := by
    rw [likeReading, likeHead?, hfield]
    cases sign <;> rfl
  have hsign : sign? (skipSeparators (' ' :: (sign.spelling ++ ' ' :: quote value)))
      = some (sign, ' ' :: quote value) := by cases sign <;> rfl
  have hvalue : value? (skipSeparators (' ' :: quote value)) = some (value, []) :=
    value?_quote value
  have hcompare : compare? (conditionText field sign.spelling (' ' :: quote value))
      = some (compare field sign value, []) := by
    simp [compare?, hfield, hsign, hvalue]
  rw [condition, hnull, hlist, hlike, hcompare]
  rfl

end Conditions

/-! ## Predicates -/

/-- A condition that is read whole, from its bracket to a last character that is not blank. -/
theorem spells_conditionText {field word rest : Text} {p : Predicate} {c : Char}
    (hlast : rest.getLast? = some c) (hc : isBlank c = false)
    (hread : condition lib (conditionText field word rest) = .ok (p, [])) :
    Spells lib (conditionText field word rest) p := by
  have hend : (conditionText field word rest).getLast? = some c := by
    simp [conditionText, List.getLast?_cons, List.getLast?_append, hlast]
  obtain ⟨htrim, halways⟩ := trim_isAlways_of_ends rfl hend (by decide) hc
  have hoperand : operand lib ((conditionText field word rest).length + 1)
      (conditionText field word rest) = .ok (p, []) := by
    rw [operand, hread]
    rfl
  exact ⟨htrim, halways, (parse_eq_ok_iff htrim halways).mpr
    ⟨[], chain_of_last (chain_of_last hoperand rfl) rfl, rfl⟩⟩

theorem getLast?_quote (value : Text) : (' ' :: quote value).getLast? = some '\'' := by
  rw [quote, ← List.cons_append, List.getLast?_concat]

/-- Each constructor by what its parts are read as. -/
theorem spells_spelling {p : Predicate} (hp : p.IsSpellable)
    (hcompiles : p.Compiled lib) : Spells lib p.spelling p := by
  induction p with
  | always => exact hp.elim
  | compare field sign value =>
      exact spells_conditionText (getLast?_quote value) (by decide)
        (condition_compare hp sign value)
  | like field pattern =>
      have hcompile := hcompiles pattern (List.mem_singleton_self pattern)
      exact spells_conditionText (getLast?_quote pattern) (by decide) (condition_like hp hcompile)
  | oneOf field values =>
      have hlast : (' ' :: '(' :: (listText values ++ [')'])).getLast? = some ')' := by
        rw [← List.cons_append, ← List.cons_append, List.getLast?_concat]
      exact spells_conditionText hlast (by decide) (condition_oneOf hp.1 hp.2)
  | isNull field =>
      have hlast : (' ' :: nullWord).getLast? = some 'L' := rfl
      exact spells_conditionText hlast (by decide) (condition_isNull hp)
  | not p ih =>
      obtain ⟨htrim, halways⟩ := negatedText_ends p.spelling
      exact ⟨htrim, halways, parse_negated (ih hp (compiled_not.mp hcompiles)).readsEnclosed⟩
  | and p q ihp ihq =>
      obtain ⟨hcompilesp, hcompilesq⟩ := compiled_and.mp hcompiles
      have hleft := ihp hp.1 hcompilesp
      have hright := ihq hp.2 hcompilesq
      obtain ⟨htrim, halways⟩ := joinedText_ends andWord p.spelling q.spelling
      exact ⟨htrim, halways, parse_both hleft hright.readsEnclosed⟩
  | or p q ihp ihq =>
      obtain ⟨hcompilesp, hcompilesq⟩ := compiled_or.mp hcompiles
      have hleft := ihp hp.1 hcompilesp
      have hright := ihq hp.2 hcompilesq
      obtain ⟨htrim, halways⟩ := joinedText_ends orWord p.spelling q.spelling
      exact ⟨htrim, halways, parse_either hleft hright.readsEnclosed⟩

/-- A predicate on named fields whose patterns are compiled is read as it was written. -/
theorem reads_spelling {p : Predicate} (hp : p.IsSpellable)
    (hcompiles : ∀ pattern ∈ p.patterns, (Pattern.compile? lib pattern).isSome = true) :
    parse lib p.spelling = .ok p := (spells_spelling hp hcompiles).parse_eq

theorem reads_spelling_keywords :
    let p := and (not (like ['N', 'O', 'T'] ['a', '%'])) (oneOf ['I', 'N', '('] [['\''], []])
    p.IsSpellable ∧ (∀ pattern ∈ p.patterns, (Pattern.compile? .standard pattern).isSome = true)
      ∧ parse .standard p.spelling = .ok p := by
  intro p
  have hp : p.IsSpellable := by
    simp [p, IsSpellable, IsFieldName]
  have hcompiles : ∀ pattern ∈ p.patterns, (Pattern.compile? .standard pattern).isSome = true := by
    decide +kernel
  exact ⟨hp, hcompiles, reads_spelling hp hcompiles⟩

end Predicate

end SeriesQuery
