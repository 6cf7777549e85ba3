/-!
# Powers of two and of ten

Bounds of words, places of bits and decimal places.
-/

namespace SeriesQuery

/-- The `n`-th power of two. -/
def twoTo (n : Nat) : Nat := Nat.pow 2 n

/-- The `n`-th power of ten. -/
def tenTo (n : Nat) : Nat := Nat.pow 10 n

end SeriesQuery
