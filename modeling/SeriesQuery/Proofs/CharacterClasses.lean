import Mathlib.Data.List.Basic
import SeriesQuery.Text.Blank
import SeriesQuery.Text.Grammar
import SeriesQuery.Text.Guid
import SeriesQuery.Text.Lowercase

/-!
# Classes of characters

Readers take characters by class and stop before the first that is of another. What ends a word
for one of them is therefore a matter of which classes have no character in common: no letter or
number of any script is white space, and none of them is one of the ASCII signs that clauses and
predicates are written with. The classes are tables of ranges, and two tables that lie apart range
by range have no code point in common.

The letter case of the ASCII range is the other matter. A text of that range has the same lower
case under the Unicode mapping as under that of the letters `A` to `Z`.
-/

namespace SeriesQuery.Text

/-! ## Runs -/

theorem dropWhile_of_head? {p : Char → Bool} {t : Text} (h : ∀ c ∈ t.head?, p c = false) :
    t.dropWhile p = t := by
  cases t with
  | nil => rfl
  | cons c t =>
      have hc : ¬ p c = true := by simp [h c rfl]
      exact List.dropWhile_cons_of_neg hc

theorem head?_dropWhile {p : Char → Bool} (t : Text) :
    ∀ c ∈ (t.dropWhile p).head?, p c = false := by
  intro c hc
  have hnot := List.head?_dropWhile_not p t
  rwa [hc] at hnot

section Runs

variable {p : Char → Bool} {run rest : Text} (hrun : ∀ c ∈ run, p c = true)
  (hrest : ∀ c ∈ rest.head?, p c = false)

include hrun hrest

theorem takeWhile_append_of_head? : (run ++ rest).takeWhile p = run := by
  rw [List.takeWhile_append_of_pos hrun]
  cases rest with
  | nil => exact List.append_nil run
  | cons c rest => simp [hrest c rfl]

theorem dropWhile_append_of_head? : (run ++ rest).dropWhile p = rest := by
  rw [List.dropWhile_append_of_pos hrun]
  exact dropWhile_of_head? hrest

end Runs

/-! ## The ASCII range -/

theorem isAsciiLetter_iff {c : Char} : isAsciiLetter c = true ↔
    65 ≤ c.toNat ∧ c.toNat ≤ 90 ∨ 97 ≤ c.toNat ∧ c.toNat ≤ 122 := by
  unfold isAsciiLetter Char.isAlpha Char.isUpper Char.isLower
  simp [UInt32.le_iff_toNat_le]

theorem isAsciiAlphanumeric_iff {c : Char} : isAsciiAlphanumeric c = true ↔
    isAsciiLetter c = true ∨ 48 ≤ c.toNat ∧ c.toNat ≤ 57 := by
  unfold isAsciiAlphanumeric Char.isAlphanum Char.isDigit
  simp [UInt32.le_iff_toNat_le, isAsciiLetter]

/-! ## Tables apart -/

theorem inRanges_eq_false_of_apart {a b : List (Nat × Nat)}
    (h : ∀ r ∈ a, ∀ s ∈ b, r.2 < s.1 ∨ s.2 < r.1) {code : Nat} (hcode : inRanges a code = true) :
    inRanges b code = false := by
  unfold inRanges at *
  obtain ⟨r, hr, hcode⟩ := List.any_eq_true.mp hcode
  refine List.any_eq_false.mpr fun s hs hin => ?_
  simp only [Bool.and_eq_true, decide_eq_true_eq] at hcode hin
  have := h r hr s hs
  omega

theorem isBlank_of_isDecimalDigit {c : Char} (h : isDecimalDigit c = true) :
    isBlank c = false := by
  unfold isDecimalDigit at h
  split at h
  · have hrange : 48 ≤ c.toNat ∧ c.toNat ≤ 57 := by
      simpa [Char.isDigit, UInt32.le_iff_toNat_le] using h
    simp [isBlank, inRanges, blankRanges]
    omega
  · exact inRanges_eq_false_of_apart (by decide +kernel) h

theorem isBlank_of_isAsciiAlphanumeric {c : Char} (h : isAsciiAlphanumeric c = true) :
    isBlank c = false := by
  rw [isAsciiAlphanumeric_iff, isAsciiLetter_iff] at h
  simp [isBlank, inRanges, blankRanges]
  omega

theorem isBlank_of_isIdentifierChar {c : Char} (h : isIdentifierChar c = true) :
    isBlank c = false := by
  simp only [isIdentifierChar, Bool.or_eq_true, beq_iff_eq] at h
  rcases h with (h | rfl) | rfl
  · unfold isAlphanumeric at h
    split at h
    · exact isBlank_of_isAsciiAlphanumeric h
    · exact inRanges_eq_false_of_apart (by decide +kernel) h
  · decide
  · decide

theorem isSeparator_of_isBlank_eq_false {c : Char} (h : isBlank c = false) :
    isSeparator c = false := by
  rw [← Bool.not_eq_true]
  intro hc
  simp only [isSeparator, Bool.or_eq_true, beq_iff_eq] at hc
  rcases hc with ((rfl | rfl) | rfl) | rfl <;> exact absurd h (by decide)

/-! ## Letter case -/

theorem toNat_toLower (c : Char) :
    c.toLower.toNat = if 65 ≤ c.toNat ∧ c.toNat ≤ 90 then c.toNat + 32 else c.toNat := by
  have hupper : c.val ≥ 'A'.val ∧ c.val ≤ 'Z'.val ↔ 65 ≤ c.toNat ∧ c.toNat ≤ 90 := by
    simp [UInt32.le_iff_toNat_le]
  unfold Char.toLower
  by_cases h : 65 ≤ c.toNat ∧ c.toNat ≤ 90
  · have hshift : (c.val + ('a'.val - 'A'.val)).toNat = (c.toNat + 32) % 2 ^ 32 :=
      UInt32.toNat_add ..
    rw [dif_pos (hupper.mpr h), if_pos h]
    refine hshift.trans (Nat.mod_eq_of_lt ?_)
    omega
  · rw [dif_neg (mt hupper.mp h), if_neg h]

theorem toLower_eq_iff {c d : Char} (hd : isAsciiLetter d = false) : c.toLower = d ↔ c = d := by
  have hletter := mt isAsciiLetter_iff.mpr (Bool.eq_false_iff.mp hd)
  rw [← Char.toNat_inj, ← Char.toNat_inj, toNat_toLower]
  split
  · omega
  · rfl

theorem asciiLower_asciiLower (t : Text) : asciiLower (asciiLower t) = asciiLower t := by
  have htwice : ∀ c : Char, c.toLower.toLower = c.toLower := by
    intro c
    rw [← Char.toNat_inj, toNat_toLower, toNat_toLower]
    split
    · rw [if_neg (by omega)]
    · rfl
  unfold asciiLower
  rw [List.map_map]
  exact List.map_congr_left fun c _ => htwice c

theorem lowercaseFrom_of_isAscii (before : Text) {t : Text} (h : ∀ c ∈ t, isAscii c = true) :
    lowercaseFrom before t = asciiLower t := by
  induction t generalizing before with
  | nil => rfl
  | cons c t ih =>
      have hc : c.toNat < 128 := by simpa [isAscii] using h c List.mem_cons_self
      have hsigma : c ≠ 'Σ' := by
        rintro rfl
        exact absurd hc (by decide)
      rw [lowercaseFrom, ih (c :: before) fun d hd => h d (List.mem_cons_of_mem _ hd)]
      simp [hsigma, lowercaseChar, hc, asciiLower]

/-- The two mappings agree on the ASCII range. -/
theorem lowercase_of_isAscii {t : Text} (h : ∀ c ∈ t, isAscii c = true) :
    lowercase t = asciiLower t := lowercaseFrom_of_isAscii [] h

end SeriesQuery.Text
