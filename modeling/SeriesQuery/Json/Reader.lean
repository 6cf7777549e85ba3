import SeriesQuery.Json.Basic

/-!
# Reading JSON

The grammar of JSON, read from the front. White space is space, tab, line feed and carriage
return; arrays and objects nest at most 127 deep; a surrogate in an escape must come in a pair.
-/

namespace SeriesQuery.Json

/-- Drops white space from the front. -/
def skipSpace (t : Text) : Text := t.dropWhile Text.isSeparator

/-- The value of a hexadecimal digit. -/
def hexValue? (c : Char) : Option Nat :=
  if c.isDigit then some (c.toNat - '0'.toNat)
  else if 'a' ≤ c ∧ c ≤ 'f' then some (c.toNat - 'a'.toNat + 10)
  else if 'A' ≤ c ∧ c ≤ 'F' then some (c.toNat - 'A'.toNat + 10)
  else none

/-- Four hexadecimal digits, and what follows them. -/
def readHex4? : Text → Option (Nat × Text)
  | a :: b :: c :: d :: rest => do
    let n := ((← hexValue? a) * 16 + (← hexValue? b)) * 256 + (← hexValue? c) * 16 + (← hexValue? d)
    return (n, rest)
  | _ => none

/-- The character of an escape, after its backslash, and what follows. -/
def readEscape? : Text → Option (Char × Text)
  | '"' :: rest => some ('"', rest)
  | '\\' :: rest => some ('\\', rest)
  | '/' :: rest => some ('/', rest)
  | 'b' :: rest => some ('\x08', rest)
  | 'f' :: rest => some ('\x0c', rest)
  | 'n' :: rest => some ('\n', rest)
  | 'r' :: rest => some ('\r', rest)
  | 't' :: rest => some ('\t', rest)
  | 'u' :: rest => do
    let (first, rest) ← readHex4? rest
    if 0xdc00 ≤ first && first ≤ 0xdfff then none
    else if 0xd800 ≤ first && first ≤ 0xdbff then
      match rest with
      | '\\' :: 'u' :: rest => do
        let (second, rest) ← readHex4? rest
        if 0xdc00 ≤ second && second ≤ 0xdfff then
          some (Char.ofNat (0x10000 + (first - 0xd800) * 0x400 + (second - 0xdc00)), rest)
        else none
      | _ => none
    else some (Char.ofNat first, rest)
  | _ => none

/-- The rest of a string, up to its closing quote, and what follows it. -/
def readStringTail? : Nat → Text → Option (Text × Text)
  | 0, _ => none
  | _ + 1, [] => none
  | fuel + 1, c :: rest =>
    if c == '"' then some ([], rest)
    else if c == '\\' then do
      let (c, rest) ← readEscape? rest
      let (tail, rest) ← readStringTail? fuel rest
      return (c :: tail, rest)
    else if c.toNat < 0x20 then none
    else do
      let (tail, rest) ← readStringTail? fuel rest
      return (c :: tail, rest)

/-- A number as it is written, and what follows it. -/
def readNumber? (t : Text) : Option (Text × Text) := do
  let (sign, body) :=
    match t with
    | '-' :: rest => (['-'], rest)
    | _ => ([], t)
  let (whole, rest) := Decimal.spanDigits body
  if whole.isEmpty || (whole.length > 1 && whole.head? == some '0') then none
  let (fraction, rest) ←
    match rest with
    | '.' :: rest =>
      let (digits, rest) := Decimal.spanDigits rest
      if digits.isEmpty then none else some ('.' :: digits, rest)
    | _ => some ([], rest)
  let (exponent, rest) ←
    match rest with
    | c :: after =>
      if c == 'e' || c == 'E' then
        let (sign, after) :=
          match after with
          | '-' :: after => (['-'], after)
          | '+' :: after => (['+'], after)
          | _ => ([], after)
        let (digits, after) := Decimal.spanDigits after
        if digits.isEmpty then none else some (c :: sign ++ digits, after)
      else some ([], rest)
    | [] => some ([], rest)
  return (sign ++ whole ++ fraction ++ exponent, rest)

mutual

/-- A value, and what follows it; `depth` is how deep values may still nest. -/
def readValue? : Nat → Nat → Text → Option (Json × Text)
  | 0, _, _ => none
  | fuel + 1, depth, t =>
    match skipSpace t with
    | [] => none
    | '"' :: rest => do
      let (value, rest) ← readStringTail? (rest.length + 1) rest
      return (string value, rest)
    | '[' :: rest =>
      if depth ≤ 1 then none
      else
        match skipSpace rest with
        | ']' :: rest => some (array [], rest)
        | rest => do
          let (items, rest) ← readItems? fuel (depth - 1) rest
          return (array items, rest)
    | '{' :: rest =>
      if depth ≤ 1 then none
      else
        match skipSpace rest with
        | '}' :: rest => some (object [], rest)
        | rest => do
          let (members, rest) ← readMembers? fuel (depth - 1) rest
          return (object members, rest)
    | rest =>
      match Text.afterExact? (Text.of "null") rest with
      | some rest => some (null, rest)
      | none =>
        match Text.afterExact? (Text.of "true") rest with
        | some rest => some (bool true, rest)
        | none =>
          match Text.afterExact? (Text.of "false") rest with
          | some rest => some (bool false, rest)
          | none => do
            let (token, rest) ← readNumber? rest
            return (number token, rest)

/-- The items of an array, up to its closing bracket. -/
def readItems? : Nat → Nat → Text → Option (List Json × Text)
  | 0, _, _ => none
  | fuel + 1, depth, t => do
    let (item, rest) ← readValue? fuel depth t
    match skipSpace rest with
    | ']' :: rest => return ([item], rest)
    | ',' :: rest => do
      let (items, rest) ← readItems? fuel depth rest
      return (item :: items, rest)
    | _ => none

/-- The members of an object, up to its closing brace. -/
def readMembers? : Nat → Nat → Text → Option (List (Text × Json) × Text)
  | 0, _, _ => none
  | fuel + 1, depth, t =>
    match skipSpace t with
    | '"' :: rest => do
      let (name, rest) ← readStringTail? (rest.length + 1) rest
      match skipSpace rest with
      | ':' :: rest => do
        let (value, rest) ← readValue? fuel depth rest
        match skipSpace rest with
        | '}' :: rest => return ([(name, value)], rest)
        | ',' :: rest => do
          let (members, rest) ← readMembers? fuel depth rest
          return ((name, value) :: members, rest)
        | _ => none
      | _ => none
    | _ => none

end

/-- The value that makes up a whole text. -/
def read? (t : Text) : Option Json := do
  let (value, rest) ← readValue? (2 * t.length + 2) 128 t
  if (skipSpace rest).isEmpty then some value else none

end SeriesQuery.Json
