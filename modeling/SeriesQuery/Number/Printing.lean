import SeriesQuery.Number.Shortest

/-!
# Numbers as text

Two forms of a number are written. In messages a number is positional at any size and has no
point when it is whole. In JSON a number always has a point or an exponent, and the exponent
form begins at `10 ^ 16` and below `10 ^ -5`.
-/

namespace SeriesQuery

/-- `n` zeros. -/
def zeros (n : Nat) : Text := List.replicate n '0'

/-- A decimal without exponent: its digits, with zeros or a point where they belong. -/
def Decimal.positional (d : Decimal) : Text :=
  let digits := Text.ofNat d.digits
  let whole := (digits.length : Int) + d.exponent
  if 0 ≤ d.exponent then digits ++ zeros d.exponent.toNat
  else if whole ≤ 0 then ['0', '.'] ++ zeros (-whole).toNat ++ digits
  else digits.take whole.toNat ++ '.' :: digits.drop whole.toNat

/-- A decimal with one digit before the point and an exponent, whose plus sign is written. -/
def Decimal.scientific (d : Decimal) : Text :=
  let digits := Text.ofNat d.digits
  let exponent := (digits.length : Int) + d.exponent - 1
  let mantissa :=
    match digits with
    | first :: second :: rest => first :: '.' :: second :: rest
    | short => short
  let sign := if exponent < 0 then '-' else '+'
  mantissa ++ 'e' :: sign :: Text.ofNat exponent.natAbs

/-- A number in a message: the shortest digits that read back, never with an exponent, and no
point when it is whole. -/
def messageNumber (x : Float) : Text :=
  match Binary.ofFloat? x with
  | none =>
    if x.isNaN then Text.of "NaN" else if x < 0 then Text.of "-inf" else Text.of "inf"
  | some b =>
    let magnitude := if b.mantissa == 0 then ['0'] else (b.shortest .up).positional
    if b.negative then '-' :: magnitude else magnitude

/-- A number in JSON: the shortest digits that read back, with `.0` after a whole number and an
exponent from `10 ^ 16` up and below `10 ^ -5`. What is not finite has no number in JSON. -/
def jsonNumber? (x : Float) : Option Text :=
  (Binary.ofFloat? x).map fun b =>
    let magnitude :=
      if b.mantissa == 0 then ['0', '.', '0']
      else
        let d := b.shortest .even
        let whole := (Decimal.digitCount d.digits : Int) + d.exponent
        if 16 < whole || whole ≤ -5 then d.scientific
        else if 0 ≤ d.exponent then d.positional ++ ['.', '0']
        else d.positional
    if b.negative then '-' :: magnitude else magnitude

end SeriesQuery
