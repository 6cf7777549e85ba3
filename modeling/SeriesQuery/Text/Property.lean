/-!
# Properties of characters as tables

A property of the Unicode standard is a list of ranges of code points, in increasing order; a
case mapping is a list of ranges that move by a constant. Both are read from the front.
-/

namespace SeriesQuery.Text

/-- Whether a code point lies in one of the closed ranges of a table. -/
def inRanges (table : List (Nat × Nat)) (code : Nat) : Bool :=
  table.any fun (first, last) => first ≤ code && code ≤ last

/-- A range of code points, every `step`-th of which a mapping moves by `delta`. -/
structure Shift where
  /-- First code point that moves. -/
  first : Nat
  /-- Last code point that moves. -/
  last : Nat
  /-- Distance between neighbours that move: one, or two where the cases of a script alternate. -/
  step : Nat
  /-- Added to a code point of the range. -/
  delta : Int

/-- Whether a range moves a code point. -/
def Shift.covers (s : Shift) (code : Nat) : Bool :=
  s.first ≤ code && code ≤ s.last && (code - s.first) % s.step == 0

/-- Where the first range that covers a character sends it; a character no range covers stays. -/
def shiftBy (table : List Shift) (c : Char) : Char :=
  match table.find? (·.covers c.toNat) with
  | some s => Char.ofNat (c.toNat + s.delta).toNat
  | none => c

end SeriesQuery.Text
