/-!
# Ranges of bytes

The characters of a range are spelled in UTF-8 by a few sequences of ranges of bytes: whichever
byte is taken from each range of a sequence, the bytes spell a character of the range, and every
character is spelled by one of the sequences. `byteSequences` cuts a range of code points until
each part is spelled by one sequence.
-/

namespace SeriesQuery.Text

/-- A range of code points or bytes with both its ends. -/
abbrev Span := Nat × Nat

/-- The bytes that spell a code point. -/
def utf8Bytes (code : Nat) : List Nat :=
  if code ≤ 0x7f then [code]
  else if code ≤ 0x7ff then [0xc0 + code / 64, 0x80 + code % 64]
  else if code ≤ 0xffff then [0xe0 + code / 4096, 0x80 + code / 64 % 64, 0x80 + code % 64]
  else
    [0xf0 + code / 262144, 0x80 + code / 4096 % 64, 0x80 + code / 64 % 64, 0x80 + code % 64]

/-- The last code points that one, two and three bytes spell. -/
def lengthLimits : List Nat := [0x7f, 0x7ff, 0xffff]

/-- Where a range is to be cut so that it keeps to whole blocks of a size: at the end of the block
that it begins inside of, or before the block that it ends inside of. -/
def blockCuts (first last size : Nat) : List Nat :=
  if first / size == last / size then []
  else if first % size != 0 then [(first / size + 1) * size - 1]
  else if last % size != size - 1 then [last / size * size - 1]
  else []

/-- The last code point of the first part of a range that must be cut. -/
def cut? (first last : Nat) : Option Nat :=
  let blocks := if last ≤ 0x7f then [] else [64, 4096, 262144].flatMap (blockCuts first last)
  (lengthLimits ++ blocks).find? fun cut => first ≤ cut && cut < last

theorem bounds_of_cut? {first last cut : Nat} (h : cut? first last = some cut) :
    first ≤ cut ∧ cut < last := by
  have h := List.find?_some h
  simpa using h

/-- The sequences of ranges of bytes that spell a range of code points, in increasing order. -/
def byteSequences (first last : Nat) : List (List Span) :=
  match _h : cut? first last with
  | none => [(utf8Bytes first).zip (utf8Bytes last)]
  | some cut => byteSequences first cut ++ byteSequences (cut + 1) last
termination_by last - first
decreasing_by
  · have := bounds_of_cut? _h
    omega
  · have := bounds_of_cut? _h
    omega

end SeriesQuery.Text
