import SeriesQuery.Evaluation.Apply
import SeriesQuery.Proofs.Binary64.Quotients
import SeriesQuery.Proofs.Binary64.Rank
import SeriesQuery.Proofs.Binary64.Units

/-!
# Where a percentile reads

A percentile between the smallest and the largest sample is read between two neighbours, whose
places come from a product of rounded numbers. Of `n + 1` samples the product must stay below
`n + 1` for the upper neighbour to exist.

A share of at most `1 - 3 / 2 ^ 53` leaves room for all three roundings: each adds at most
`2 ^ -53` of what it rounds, and from `2 ^ 53` on, where also `n` is rounded, the squares of these
make up for it. The one share above is `1 - 1 / 2 ^ 53`, which the last percentage before a
hundred gives, and there everything depends on `n`. Mostly the product loses a whole unit, which
nothing brings back. From a power of two it loses half a unit only, and the sum with one lies in
the middle between `n + 1` and the number before it; as long as `n + 1` is the even one, it wins.
Beyond `2 ^ 53`, where units are two wide, the same happens to an `n` that is itself rounded up.
-/

namespace SeriesQuery

open Binary64

namespace Reduction

/-! ## Places as rational numbers -/

/-- The position at a share of `n` steps. -/
def place (n : ℕ) (share : ℚ) : ℚ := nearest (nearest (nearest n * share) + 1)

end Reduction

end SeriesQuery
