import SeriesQuery.Proofs.CatalogValues
import SeriesQuery.Proofs.Trimming
import SeriesQuery.Resolver

/-!
# Spellings of a globally unique identifier

A row of the catalog holds its identifier as five groups of digits with hyphens between them, in
either letter case. A target may spell it in either letter case too, and in any number of braces.
All of these are the same identifier in its canonical form, which is how the catalog is asked for
it; and to compare a value with the canonical form is to compare it with the identifier as the row
holds it, since it spells no number and letter case does not count.
-/

namespace SeriesQuery.Guid

/-- A text in the form with hyphens, of either letter case. -/
def IsHyphenated (t : Text) : Prop := (hyphenated? t).isSome = true

instance (t : Text) : Decidable (IsHyphenated t) := inferInstanceAs (Decidable (_ = true))

/-! ## Digits -/

theorem isHexDigit_iff {c : Char} : isHexDigit c = true ↔
    48 ≤ c.toNat ∧ c.toNat ≤ 57 ∨ 97 ≤ c.toNat ∧ c.toNat ≤ 102
      ∨ 65 ≤ c.toNat ∧ c.toNat ≤ 70 := by
  have hle : ∀ a b : Char, a ≤ b ↔ a.toNat ≤ b.toNat := fun a b => Iff.rfl
  simp [isHexDigit, Char.isDigit, UInt32.le_iff_toNat_le, hle, or_assoc]

theorem isHexDigit_toLower (c : Char) : isHexDigit c.toLower = isHexDigit c := by
  rw [Bool.eq_iff_iff, isHexDigit_iff, isHexDigit_iff, Text.toNat_toLower]
  split <;> omega

theorem isAsciiAlphanumeric_of_isHexDigit {c : Char} (h : isHexDigit c = true) :
    Text.isAsciiAlphanumeric c = true := by
  have := isHexDigit_iff.mp h
  rw [Text.isAsciiAlphanumeric_iff, Text.isAsciiLetter_iff]
  omega

theorem isAscii_of_isHexDigit {c : Char} (h : isHexDigit c = true) : Text.isAscii c = true := by
  have := isHexDigit_iff.mp h
  simp only [Text.isAscii, decide_eq_true_eq]
  omega

/-! ## The form with hyphens -/

/-- The characters between the places of the hyphens. -/
def groups (t : Text) : Text :=
  t.take 8 ++ (t.drop 9).take 4 ++ (t.drop 14).take 4 ++ (t.drop 19).take 4 ++ t.drop 24

theorem groups_asciiLower (t : Text) :
    groups (Text.asciiLower t) = Text.asciiLower (groups t) := by
  simp [groups, Text.asciiLower]

theorem hyphenated?_eq_some_iff {t digits : Text} : hyphenated? t = some digits ↔
    t.length = 36 ∧ (∀ i ∈ [8, 13, 18, 23], t[i]? = some '-')
      ∧ (∀ c ∈ groups t, isHexDigit c = true) ∧ groups t = digits := by
  have hdef : hyphenated? t =
      if t.length == 36 && [8, 13, 18, 23].all (fun i => t[i]? == some '-') then
        plain? (groups t) else none := rfl
  rw [hdef]
  by_cases ht : t.length = 36
  · have hlength : (groups t).length = 32 := by simp [groups, ht]
    simp [plain?, ht, hlength]
  · simp [ht]

theorem isHyphenated_iff {t : Text} : IsHyphenated t ↔
    t.length = 36 ∧ (∀ i ∈ [8, 13, 18, 23], t[i]? = some '-')
      ∧ ∀ c ∈ groups t, isHexDigit c = true := by
  simp [IsHyphenated, Option.isSome_iff_exists, hyphenated?_eq_some_iff]

theorem IsHyphenated.hyphenated?_eq {t : Text} (h : IsHyphenated t) :
    hyphenated? t = some (groups t) := by
  obtain ⟨hlength, hhyphen, hdigits⟩ := isHyphenated_iff.mp h
  exact hyphenated?_eq_some_iff.mpr ⟨hlength, hhyphen, hdigits, rfl⟩

theorem isHyphenated_asciiLower {t : Text} :
    IsHyphenated (Text.asciiLower t) ↔ IsHyphenated t := by
  rw [isHyphenated_iff, isHyphenated_iff, groups_asciiLower]
  have hhyphen : ∀ c : Char, c.toLower = '-' ↔ c = '-' := fun c => Text.toLower_eq_iff (by decide)
  simp [Text.asciiLower, isHexDigit_toLower, hhyphen]

theorem IsHyphenated.of_sameLetters {t u : Text} (h : IsHyphenated u)
    (hsame : Text.sameLetters t u = true) : IsHyphenated t := by
  have hlower : Text.asciiLower t = Text.asciiLower u := eq_of_beq hsame
  rwa [← isHyphenated_asciiLower, hlower, isHyphenated_asciiLower]

/-- The groups with the hyphens between them again. -/
theorem IsHyphenated.eq_groups {t : Text} (h : IsHyphenated t) :
    t = t.take 8 ++ '-' :: ((t.drop 9).take 4 ++ '-' :: ((t.drop 14).take 4
      ++ '-' :: ((t.drop 19).take 4 ++ '-' :: t.drop 24))) := by
  obtain ⟨-, hhyphen, -⟩ := isHyphenated_iff.mp h
  have hdrop : ∀ i ∈ [8, 13, 18, 23], '-' :: t.drop (i + 1) = t.drop i := by
    intro i hi
    obtain ⟨hlt, hget⟩ := List.getElem?_eq_some_iff.mp (hhyphen i hi)
    rw [List.drop_eq_getElem_cons hlt, hget]
  have htake : ∀ i, (t.drop i).take 4 ++ t.drop (i + 4) = t.drop i := by
    intro i
    rw [← List.drop_drop, List.take_append_drop]
  rw [hdrop 23 (by simp), htake 19, hdrop 18 (by simp), htake 14, hdrop 13 (by simp), htake 9,
    hdrop 8 (by simp), List.take_append_drop]

theorem IsHyphenated.isHexDigit_or {t : Text} (h : IsHyphenated t) {c : Char} (hc : c ∈ t) :
    isHexDigit c = true ∨ c = '-' := by
  obtain ⟨-, -, hdigits⟩ := isHyphenated_iff.mp h
  rw [h.eq_groups] at hc
  by_cases hhyphen : c = '-'
  · exact .inr hhyphen
  · simp only [List.mem_append, List.mem_cons, hhyphen, false_or] at hc
    refine .inl (hdigits c ?_)
    simp only [groups, List.mem_append]
    tauto

theorem IsHyphenated.count_hyphen {t : Text} (h : IsHyphenated t) : 2 < t.count '-' := by
  rw [h.eq_groups]
  simp only [List.count_append, List.count_cons_self]
  omega

theorem IsHyphenated.hyphenate_groups {t : Text} (h : IsHyphenated t) :
    hyphenate (groups t) = Text.asciiLower t := by
  obtain ⟨hlength, -, -⟩ := isHyphenated_iff.mp h
  conv_rhs => rw [h.eq_groups]
  simp [hyphenate, groups, Text.asciiLower, List.drop_append, hlength, List.drop_eq_nil_of_le]

/-- The canonical form has the same letters in lower case. -/
theorem IsHyphenated.canonical?_eq {t : Text} (h : IsHyphenated t) :
    canonical? t = some (Text.asciiLower t) := by
  obtain ⟨hlength, -, -⟩ := isHyphenated_iff.mp h
  have hplain : plain? t = none := by simp [plain?, hlength]
  rw [canonical?, hplain, h.hyphenated?_eq, Option.none_or, Option.some_or, Option.some_or,
    Option.map_some, h.hyphenate_groups]

/-- The standard libraries read identifiers as is documented. -/
theorem standard_readsGuids : Libraries.standard.ReadsGuids := fun _ h =>
  IsHyphenated.canonical?_eq h

/-! ## Comparing -/

theorem IsHyphenated.isBlank {t : Text} (h : IsHyphenated t) {c : Char} (hc : c ∈ t) :
    Text.isBlank c = false := by
  rcases h.isHexDigit_or hc with hdigit | rfl
  · exact Text.isBlank_of_isAsciiAlphanumeric (isAsciiAlphanumeric_of_isHexDigit hdigit)
  · decide

theorem IsHyphenated.lowercase {t : Text} (h : IsHyphenated t) :
    Text.lowercase t = Text.asciiLower t := by
  refine Text.lowercase_of_isAscii fun c hc => ?_
  rcases h.isHexDigit_or hc with hdigit | rfl
  · exact isAscii_of_isHexDigit hdigit
  · decide

theorem IsHyphenated.readFloat?_trim {t : Text} (h : IsHyphenated t) :
    readFloat? (Text.trim t) = none := by
  rw [Text.trim_of_forall fun _ => h.isBlank]
  exact readFloat?_of_hyphens h.count_hyphen

/-- To compare with the canonical form is to compare with any spelling of it. -/
theorem IsHyphenated.compareTexts_asciiLower {t : Text} (h : IsHyphenated t) (value : Text) :
    compareTexts value (Text.asciiLower t) = compareTexts value t := by
  have hlower := isHyphenated_asciiLower.mpr h
  rw [compareTexts_eq_order value hlower.readFloat?_trim, compareTexts_eq_order value
    h.readFloat?_trim, hlower.lowercase, h.lowercase, Text.asciiLower_asciiLower]

/-! ## In braces -/

/-- An identifier in any number of braces. -/
def braced (opened closed : Nat) (t : Text) : Text :=
  List.replicate opened '{' ++ t ++ List.replicate closed '}'

theorem mem_braced {opened closed : Nat} {t : Text} {c : Char} (h : c ∈ braced opened closed t) :
    c = '{' ∨ c ∈ t ∨ c = '}' := by
  simp only [braced, List.mem_append, List.mem_replicate] at h
  tauto

theorem IsHyphenated.ne_brace {t : Text} (h : IsHyphenated t) {c : Char} (hc : c ∈ t) :
    c ≠ '{' ∧ c ≠ '}' := by
  rcases h.isHexDigit_or hc with hdigit | rfl
  · constructor <;> rintro rfl <;> exact absurd hdigit (by decide)
  · decide

/-- A library that reads identifiers with hyphens is asked for the identifier in the braces. -/
theorem IsHyphenated.guid?_braced {libraries : Libraries} (hguids : libraries.ReadsGuids)
    {t : Text} (h : IsHyphenated t) (opened closed : Nat) :
    guid? libraries (braced opened closed t) = some (Text.asciiLower t) := by
  have hopen : (braced opened closed t).dropWhile (· == '{')
      = t ++ List.replicate closed '}' := by
    rw [braced, List.append_assoc]
    refine Text.dropWhile_append_of_head? (by simp) fun c hc => ?_
    rcases List.mem_append.mp (List.mem_of_mem_head? hc) with hc | hc
    · simpa using (h.ne_brace hc).1
    · rw [List.eq_of_mem_replicate hc]
      decide
  have hclose : Text.dropEndWhile (· == '}') (t ++ List.replicate closed '}') = t := by
    rw [Text.dropEndWhile, List.reverse_append, List.reverse_replicate,
      Text.dropWhile_append_of_head? (by simp), List.reverse_reverse]
    intro c hc
    simpa using (h.ne_brace (List.mem_reverse.mp (List.mem_of_mem_head? hc))).2
  rw [guid?, hopen, hclose]
  exact hguids t h

end SeriesQuery.Guid
