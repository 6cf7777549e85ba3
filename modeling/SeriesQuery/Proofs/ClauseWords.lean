import Mathlib.Data.List.Basic
import SeriesQuery.Proofs.ClosedTexts
import SeriesQuery.Proofs.QuotedValues
import SeriesQuery.Selection

/-!
# Words as they may be written

A clause may be written in many ways: its keywords in any letter case, with any run of separators
between them, a number with or without leading zeros. Each kind of word is a structure here, a text
together with what makes it one, so that whatever is built of words is well-formed as it stands;
and beside it stands what its reader makes of it, with anything behind.
-/

namespace SeriesQuery

namespace Text

/-- A keyword in some letter case. -/
structure Cased (word : Text) where
  text : Text
  same : sameLetters text word = true

/-- One separator or more. -/
structure Gap where
  text : Text
  ne_nil : text ≠ []
  isSeparator : ∀ c ∈ text, isSeparator c = true

/-- The name of a table or field. -/
structure Name where
  text : Text
  isIdentifier : IsIdentifier text

/-- A number of rows. -/
structure Count where
  digits : Text
  value : Nat
  isDigit : ∀ c ∈ digits, c.isDigit = true
  reads : readNatBelow? (twoTo 64) digits = some value

theorem readNatBelow?_of_digits {bound : Nat} {t : Text} (hne : t ≠ [])
    (h : ∀ c ∈ t, c.isDigit = true) : readNatBelow? bound t
      = if Decimal.natOfDigits t < bound then some (Decimal.natOfDigits t) else none := by
  have hall : t.all Char.isDigit = true := List.all_eq_true.mpr h
  obtain ⟨c, rest, rfl⟩ := List.exists_cons_of_ne_nil hne
  have hc : c ≠ '+' := by
    rintro rfl
    exact absurd (h '+' List.mem_cons_self) (by decide)
  simp only [readNatBelow?]
  split
  · next rest' heq =>
      injection heq with heq
      exact absurd heq hc
  · rw [hall]
    rfl

/-- Every number that fits into 64 bits can be written. -/
def Count.ofNat (n : Nat) (h : n < twoTo 64) : Count where
  digits := Text.ofNat n
  value := n
  isDigit _ hc := Nat.isDigit_of_mem_toDigits (by decide) (by decide) hc
  reads := by
    have hvalue : Decimal.natOfDigits (Text.ofNat n) = n :=
      Nat.ofDigitChars_toDigits (by decide) (by decide)
    have hne : Text.ofNat n ≠ [] := Nat.toDigits_ne_nil
    rw [readNatBelow?_of_digits hne fun c hc =>
      Nat.isDigit_of_mem_toDigits (by decide) (by decide) hc, hvalue, if_pos h]

/-! ## Letters -/

theorem isBlank_of_isAsciiLetter {c : Char} (h : isAsciiLetter c = true) : isBlank c = false :=
  isBlank_of_isAsciiAlphanumeric (isAsciiAlphanumeric_iff.mpr (.inl h))

theorem joinsWord_of_isAsciiLetter {c : Char} (h : isAsciiLetter c = true) :
    joinsWord c = true := by
  simp [joinsWord, isAsciiAlphanumeric_iff.mpr (.inl h)]

theorem isDigit_of_isAsciiLetter {c : Char} (h : isAsciiLetter c = true) : c.isDigit = false := by
  rw [isAsciiLetter_iff] at h
  simp [Char.isDigit, UInt32.le_iff_toNat_le]
  omega

/-! ## Separators -/

/-- All four separators are in a class, or none is. -/
theorem class_of_isSeparator {p : Char → Bool} {b : Bool}
    (h : p ' ' = b ∧ p '\t' = b ∧ p '\n' = b ∧ p '\r' = b) {c : Char}
    (hc : isSeparator c = true) : p c = b := by
  simp only [isSeparator, Bool.or_eq_true, beq_iff_eq] at hc
  rcases hc with ((rfl | rfl) | rfl) | rfl
  · exact h.1
  · exact h.2.1
  · exact h.2.2.1
  · exact h.2.2.2

theorem isAsciiBlank_of_isSeparator {c : Char} (h : isSeparator c = true) :
    isAsciiBlank c = true := class_of_isSeparator (by decide) h

theorem joinsWord_of_isSeparator {c : Char} (h : isSeparator c = true) : joinsWord c = false :=
  class_of_isSeparator (by decide) h

theorem isIdentifierChar_of_isSeparator {c : Char} (h : isSeparator c = true) :
    isIdentifierChar c = false := class_of_isSeparator (by decide) h

theorem isAsciiLetter_of_isSeparator {c : Char} (h : isSeparator c = true) :
    isAsciiLetter c = false := class_of_isSeparator (by decide) h

theorem isDigit_of_isSeparator {c : Char} (h : isSeparator c = true) : c.isDigit = false :=
  class_of_isSeparator (by decide) h

theorem isBlank_of_isSeparator {c : Char} (h : isSeparator c = true) : isBlank c = true :=
  isBlank_of_isAsciiBlank (isAsciiBlank_of_isSeparator h)

/-! ## Keywords -/

section Keywords

variable {word t rest : Text}

theorem Cased.length_eq (w : Cased word) : w.text.length = word.length := by
  have h := congrArg List.length (eq_of_beq w.same)
  simpa [asciiLower] using h

theorem Cased.isAsciiLetter (w : Cased word) (hword : IsLetters word) :
    ∀ c ∈ w.text, Text.isAsciiLetter c = true := by
  intro c hc
  have hmem : c.toLower ∈ asciiLower w.text := List.mem_map_of_mem hc
  rw [eq_of_beq w.same] at hmem
  obtain ⟨d, hd, hcase⟩ := List.mem_map.mp hmem
  exact isAsciiLetter_of_toLower_eq (hword.isAsciiLetter d hd) hcase

theorem afterWord?_of_sameLetters (h : sameLetters t word = true) :
    afterWord? word (t ++ rest) = some rest := by
  have hlower : asciiLower t = asciiLower word := eq_of_beq h
  induction word generalizing t with
  | nil =>
      obtain rfl : t = [] := List.map_eq_nil_iff.mp hlower
      rfl
  | cons w word ih =>
      cases t with
      | nil => cases hlower
      | cons c t =>
          injection hlower with hc hrest
          have hsame : sameLetters t word = true := beq_iff_eq.mpr hrest
          rw [List.cons_append, afterWord?, if_pos (beq_iff_eq.mpr hc.symm)]
          exact ih hsame hrest

theorem Cased.afterWord?_eq (w : Cased word) (rest : Text) :
    afterWord? word (w.text ++ rest) = some rest := afterWord?_of_sameLetters w.same

theorem Cased.afterWord?_eq_none {c d : Char} {other : Text} (w : Cased (c :: word))
    (h : d.toLower ≠ c.toLower) (rest : Text) :
    afterWord? (d :: other) (w.text ++ rest) = none := by
  have hlower : asciiLower w.text = asciiLower (c :: word) := eq_of_beq w.same
  cases htext : w.text with
  | nil =>
      rw [htext] at hlower
      cases hlower
  | cons e more =>
      rw [htext] at hlower
      injection hlower with he
      have hne : ¬ (d.toLower == e.toLower) = true := by
        rw [he]
        simpa using h
      exact if_neg hne

/-- What was read of a keyword is the keyword in some letter case. -/
theorem exists_cased_of_afterWord? (h : afterWord? word t = some rest) :
    ∃ w : Cased word, t = w.text ++ rest := by
  induction word generalizing t with
  | nil => exact ⟨⟨[], rfl⟩, Option.some.inj h⟩
  | cons w word ih =>
      cases t with
      | nil => cases h
      | cons c t =>
          rw [afterWord?] at h
          split at h
          · next hc =>
              obtain ⟨more, rfl⟩ := ih h
              have hlower : c.toLower :: asciiLower more.text = w.toLower :: asciiLower word := by
                rw [eq_of_beq hc, eq_of_beq more.same]
              exact ⟨⟨c :: more.text, beq_iff_eq.mpr hlower⟩, rfl⟩
          · cases h

end Keywords

/-! ## Texts without white space at either end -/

/-- A text that is not empty and has no white space at either end. -/
structure IsSolid (t : Text) : Prop where
  ne_nil : t ≠ []
  first : ∀ c ∈ t.head?, isBlank c = false
  last : ∀ c ∈ t.getLast?, isBlank c = false

theorem IsSolid.of_forall {t : Text} (hne : t ≠ []) (h : ∀ c ∈ t, isBlank c = false) : IsSolid t :=
  ⟨hne, fun c hc => h c (List.mem_of_mem_head? hc), fun c hc => h c (List.mem_of_getLast? hc)⟩

theorem Gap.head?_append (g : Gap) (rest : Text) :
    ∀ c ∈ (g.text ++ rest).head?, Text.isSeparator c = true := by
  intro c hc
  obtain ⟨d, more, hgap⟩ := List.exists_cons_of_ne_nil g.ne_nil
  rw [hgap] at hc
  cases hc
  exact g.isSeparator _ (by simp [hgap])

theorem Gap.getLast?_append (g : Gap) (front : Text) :
    ∀ c ∈ (front ++ g.text).getLast?, Text.isSeparator c = true := by
  intro c hc
  rw [List.getLast?_append_of_ne_nil _ g.ne_nil] at hc
  exact g.isSeparator c (List.mem_of_getLast? hc)

section Solid

variable {a b t rest : Text}

theorem IsSolid.append (ha : IsSolid a) (hb : IsSolid b) (m : Text) : IsSolid (a ++ (m ++ b)) where
  ne_nil := by simp [ha.ne_nil]
  first c hc := by
    obtain ⟨d, more, rfl⟩ := List.exists_cons_of_ne_nil ha.ne_nil
    exact ha.first c hc
  last c hc := by
    rw [← List.append_assoc, List.getLast?_append_of_ne_nil _ hb.ne_nil] at hc
    exact hb.last c hc

theorem IsSolid.trim_eq (h : IsSolid t) : trim t = t := trim_of_ends h.first h.last

theorem IsSolid.head?_isSeparator (h : IsSolid t) : ∀ c ∈ t.head?, isSeparator c = false :=
  fun c hc => isSeparator_of_isBlank_eq_false (h.first c hc)

theorem IsSolid.head?_append_isBlank (h : IsSolid t) :
    ∀ c ∈ (t ++ rest).head?, isBlank c = false := by
  intro c hc
  obtain ⟨d, more, rfl⟩ := List.exists_cons_of_ne_nil h.ne_nil
  exact h.first c hc

theorem IsSolid.head?_append (h : IsSolid t) :
    ∀ c ∈ (t ++ rest).head?, isSeparator c = false :=
  fun c hc => isSeparator_of_isBlank_eq_false (h.head?_append_isBlank c hc)

theorem IsSolid.head?_append_isAsciiBlank (h : IsSolid t) :
    ∀ c ∈ (t ++ rest).head?, isAsciiBlank c = false := by
  intro c hc
  rw [← Bool.not_eq_true]
  intro hblank
  have hnot := h.head?_append_isBlank c hc
  rw [isBlank_of_isAsciiBlank hblank] at hnot
  cases hnot

theorem IsSolid.getLast?_append (h : IsSolid t) :
    ∀ c ∈ (a ++ t).getLast?, isSeparator c = false := by
  intro c hc
  rw [List.getLast?_append_of_ne_nil _ h.ne_nil] at hc
  exact isSeparator_of_isBlank_eq_false (h.last c hc)

theorem Gap.skipSeparators_eq (g : Gap) (hrest : ∀ c ∈ rest.head?, Text.isSeparator c = false) :
    skipSeparators (g.text ++ rest) = rest := dropWhile_append_of_head? g.isSeparator hrest

theorem Gap.afterSeparators?_eq (g : Gap)
    (hrest : ∀ c ∈ rest.head?, Text.isSeparator c = false) :
    afterSeparators? (g.text ++ rest) = some rest := by
  obtain ⟨c, more, hgap⟩ := List.exists_cons_of_ne_nil g.ne_nil
  have hc := g.isSeparator c (by simp [hgap])
  have hmore : skipSeparators (more ++ rest) = rest :=
    dropWhile_append_of_head? (fun d hd => g.isSeparator d (by simp [hgap, hd])) hrest
  rw [hgap, List.cons_append, afterSeparators?, if_pos hc, hmore]

end Solid

theorem Name.isSolid (name : Name) : IsSolid name.text :=
  .of_forall name.isIdentifier.ne_nil fun c hc =>
    isBlank_of_isIdentifierChar (name.isIdentifier.isIdentifierChar c hc)

theorem Cased.isSolid {word : Text} (w : Cased word) (hne : word ≠ [])
    (hword : IsLetters word) : IsSolid w.text := by
  refine .of_forall (fun hnil => hne ?_) fun c hc =>
    isBlank_of_isAsciiLetter (w.isAsciiLetter hword c hc)
  have hlength := w.length_eq
  rw [hnil] at hlength
  exact List.length_eq_zero_iff.mp hlength.symm

theorem isBlank_of_isDigit {c : Char} (h : c.isDigit = true) : isBlank c = false := by
  refine isBlank_of_isAsciiAlphanumeric ?_
  simp [isAsciiAlphanumeric, Char.isAlphanum, h]

theorem Count.ne_nil (n : Count) : n.digits ≠ [] := by
  intro hnil
  have h := n.reads
  rw [hnil] at h
  cases h

theorem Count.isSolid (n : Count) : IsSolid n.digits :=
  .of_forall n.ne_nil fun c hc => isBlank_of_isDigit (n.isDigit c hc)

end Text

end SeriesQuery
