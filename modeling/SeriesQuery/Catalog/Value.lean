import SeriesQuery.Number.Decimal
import SeriesQuery.Text.Blank
import SeriesQuery.Text.Lowercase

/-!
# Catalog values

The catalog holds texts. Two of them are compared as numbers when both spell one, and else as
texts in lower case. A value that is missing comes before all others.
-/

namespace SeriesQuery

/-- The order of two numbers; what is not a number is level with everything. -/
def compareFloats (x y : Float) : Ordering :=
  if x < y then .lt else if y < x then .gt else .eq

/-- The order of two texts of the catalog. -/
def compareTexts (a b : Text) : Ordering :=
  match readFloat? (Text.trim a), readFloat? (Text.trim b) with
  | some x, some y => compareFloats x y
  | _, _ => Text.order (Text.lowercase a) (Text.lowercase b)

/-- The order of two values of the catalog. -/
def compareValues : Option Text → Option Text → Ordering
  | none, none => .eq
  | none, some _ => .lt
  | some _, none => .gt
  | some a, some b => compareTexts a b

end SeriesQuery
