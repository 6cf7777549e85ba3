import SeriesQuery.Time.Date
import SeriesQuery.Toml.Basic

/-!
# TOML numbers, dates and times

Numbers may have single underscores between digits. An integer is written in base ten, or
without a sign in base sixteen, eight or two, and fits into 64 bits. A date, a time of day or
both, with or without an offset, stand for themselves.

Each reader takes a text from the front and gives the value with what follows, or nothing when
it does not apply.
-/

namespace SeriesQuery.Toml

/-! ## Numbers -/

/-- The digits that go on a number, an underscore only between two of them, and what follows. -/
def moreDigits (isDigit : Char → Bool) : Text → Text × Text
  | [] => ([], [])
  | [c] => if isDigit c then ([c], []) else ([], [c])
  | c :: d :: rest =>
    if isDigit c then
      let (digits, after) := moreDigits isDigit (d :: rest)
      (c :: digits, after)
    else if c == '_' && isDigit d then moreDigits isDigit (d :: rest)
    else ([], c :: d :: rest)

/-- Digits, at least one, without their underscores, and what follows. -/
def digits? (isDigit : Char → Bool) : Text → Option (Text × Text)
  | [] => none
  | c :: rest => if isDigit c then some (moreDigits isDigit (c :: rest)) else none

/-- A sign, written or not (true for minus), and what follows. -/
def sign (t : Text) : Bool × Text := Decimal.readSign t

/-- The digits of a whole number, a zero in front only alone, and what follows. -/
def whole? : Text → Option (Text × Text)
  | '0' :: rest => some (['0'], rest)
  | t => digits? Char.isDigit t

/-- The value of a digit up to `f`. -/
def digitValue? (c : Char) : Option Nat :=
  if c.isDigit then some (c.toNat - '0'.toNat)
  else if 'a' ≤ c && c ≤ 'f' then some (c.toNat - 'a'.toNat + 10)
  else if 'A' ≤ c && c ≤ 'F' then some (c.toNat - 'A'.toNat + 10)
  else none

/-- Whether a character is a digit of a base. -/
def isDigitOf (base : Nat) (c : Char) : Bool :=
  match digitValue? c with
  | some n => n < base
  | none => false

/-- The number that digits of a base spell. -/
def numberOf (base : Nat) (digits : Text) : Nat :=
  digits.foldl (fun n c => base * n + (digitValue? c).getD 0) 0

/-- An integer that fits into 64 bits. -/
def fitting? (n : Int) : Option Int := if -(twoTo 63 : Int) ≤ n ∧ n < twoTo 63 then some n else none

/-- The digits of an integer in a base, and what follows. -/
def basedInteger? (base : Nat) (t : Text) : Option (Toml × Text) := do
  let (digits, rest) ← digits? (isDigitOf base) t
  return (integer (← fitting? (numberOf base digits)), rest)

/-- An integer. -/
def integer? : Text → Option (Toml × Text)
  | '0' :: 'x' :: rest => basedInteger? 16 rest
  | '0' :: 'o' :: rest => basedInteger? 8 rest
  | '0' :: 'b' :: rest => basedInteger? 2 rest
  | t => do
    let (negative, rest) := sign t
    let (digits, rest) ← whole? rest
    let n : Int := numberOf 10 digits
    return (integer (← fitting? (if negative then -n else n)), rest)

/-- The part of a number after its point, with the point, and what follows. -/
def fraction? : Text → Option (Text × Text)
  | '.' :: rest => (digits? Char.isDigit rest).map fun (digits, rest) => ('.' :: digits, rest)
  | _ => none

/-- The exponent of a number, and what follows. -/
def exponent? : Text → Option (Text × Text)
  | [] => none
  | c :: rest =>
    if c == 'e' || c == 'E' then
      let (negative, rest) := sign rest
      let lead : Text := if negative then ['e', '-'] else ['e']
      (digits? Char.isDigit rest).map fun (digits, rest) => (lead ++ digits, rest)
    else none

/-- The number with a point or an exponent that a text without underscores spells; one too large
is malformed. -/
def finite? (t : Text) : Option Float := do
  let x ← readFloat? t
  if x == positiveInfinity then none else some x

/-- A number with a point or an exponent, `inf` or `nan`. -/
def float? (t : Text) : Option (Toml × Text) := do
  let (negative, body) := sign t
  let signed (x : Float) : Toml := float (if negative then -x else x)
  match body with
  | 'i' :: 'n' :: 'f' :: rest => return (signed positiveInfinity, rest)
  | 'n' :: 'a' :: 'n' :: rest => return (signed notANumber, rest)
  | _ =>
    let (digits, rest) ← whole? body
    let (fraction, rest) := (fraction? rest).getD ([], rest)
    let (exponent, rest) := (exponent? rest).getD ([], rest)
    if fraction.isEmpty && exponent.isEmpty then none
    else
      let lead : Text := if negative then ['-'] else []
      return (float (← finite? (lead ++ digits ++ fraction ++ exponent)), rest)

/-! ## Dates and times -/

/-- What follows a day of the calendar. -/
def afterDay? (t : Text) : Option Text := do
  let (year, rest) ← Date.digits? 4 t
  let (month, rest) ← Date.digits? 2 (← Date.after? '-' rest)
  let (day, rest) ← Date.digits? 2 (← Date.after? '-' rest)
  if (Day.mk year month day).isValid then some rest else none

/-- What follows a number of two digits up to a bound. -/
def afterTwo? (bound : Nat) (t : Text) : Option Text := do
  let (n, rest) ← Date.digits? 2 t
  if n ≤ bound then some rest else none

/-- What follows a time of day. -/
def afterTime? (t : Text) : Option Text := do
  let rest ← afterTwo? 23 t
  let rest ← afterTwo? 59 (← Date.after? ':' rest)
  let rest ← afterTwo? 60 (← Date.after? ':' rest)
  match rest with
  | '.' :: c :: rest => if c.isDigit then some (rest.dropWhile Char.isDigit) else none
  | '.' :: [] => none
  | _ => some rest

/-- What follows an offset from universal time, written or not. -/
def afterOffset? : Text → Option Text
  | [] => some []
  | c :: rest =>
    if c == 'Z' || c == 'z' then some rest
    else if c == '+' || c == '-' then do
      let rest ← afterTwo? 23 rest
      afterTwo? 59 (← Date.after? ':' rest)
    else some (c :: rest)

/-- What follows a time of day with or without an offset that goes on a day, where there is
one. -/
def afterDayTime? (t : Text) : Option Text :=
  match t with
  | c :: rest =>
    if c == 'T' || c == 't' then (afterTime? rest).bind afterOffset?
    else if c == ' ' then
      match rest with
      | d :: _ => if d.isDigit then (afterTime? rest).bind afterOffset? else some t
      | [] => some t
    else some t
  | [] => some t

/-- A day, a time of day, or both. -/
def moment? (t : Text) : Option (Toml × Text) := do
  let rest ←
    match afterDay? t with
    | some rest => afterDayTime? rest
    | none => afterTime? t
  return (moment (t.take (t.length - rest.length)), rest)

/-! ## Words -/

/-- A truth value. -/
def boolean? (t : Text) : Option (Toml × Text) :=
  match Text.afterExact? (Text.of "true") t with
  | some rest => some (boolean true, rest)
  | none => (Text.afterExact? (Text.of "false") t).map fun rest => (boolean false, rest)

/-- A value that is neither a string nor made of other values. -/
def scalar? (t : Text) : Option (Toml × Text) :=
  (((moment? t).or (float? t)).or (integer? t)).or (boolean? t)

end SeriesQuery.Toml
