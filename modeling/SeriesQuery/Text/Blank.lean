import SeriesQuery.Text.Basic
import SeriesQuery.Text.Property

/-!
# White space around text

Fields, names and parameters are trimmed of white space in the sense of the Unicode property
`White_Space`. Inside an expression, words are separated by ASCII white space only.
-/

namespace SeriesQuery.Text

/-- The property `White_Space`. -/
def blankRanges : List (Nat × Nat) := [
    (0x9, 0xd), (0x20, 0x20), (0x85, 0x85), (0xa0, 0xa0), (0x1680, 0x1680), (0x2000, 0x200a),
    (0x2028, 0x2029), (0x202f, 0x202f), (0x205f, 0x205f), (0x3000, 0x3000)]

/-- White space in the sense of Unicode. -/
def isBlank (c : Char) : Bool := inRanges blankRanges c.toNat

/-- Drops white space from the front. -/
def trimStart (t : Text) : Text := t.dropWhile isBlank

/-- Drops white space from the end. -/
def trimEnd (t : Text) : Text := dropEndWhile isBlank t

/-- Drops white space from both ends. -/
def trim (t : Text) : Text := stripWhile isBlank t

/-- The words of a text: its longest runs without white space. -/
def words (t : Text) : List Text := (splitWhere isBlank t).filter (!·.isEmpty)

/-- White space of the ASCII range is white space. -/
theorem isBlank_of_isAsciiBlank {c : Char} (h : isAsciiBlank c = true) : isBlank c = true := by
  simp only [isAsciiBlank, Bool.or_eq_true, beq_iff_eq] at h
  rcases h with (((rfl | rfl) | rfl) | rfl) | rfl <;> decide

end SeriesQuery.Text
