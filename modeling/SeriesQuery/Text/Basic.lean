/-!
# Text

Everything the library reads is a list of characters, taken from the front. Strings appear only
where text enters and leaves a program.

Letter case has two meanings here. Keywords, names of functions and units, and series keys are
compared on the letters `A` to `Z` alone (`sameLetters`); catalog values and patterns use the
Unicode mappings of `SeriesQuery.Text.Lowercase` and `SeriesQuery.Text.Folding`.
-/

namespace SeriesQuery

/-- A run of characters, read from the front. -/
abbrev Text := List Char

namespace Text

/-- The characters that a string spells. -/
abbrev of (s : String) : Text := s.toList

/-- The string that spells a text. -/
def asString (t : Text) : String := String.ofList t

/-- Number of bytes in the UTF-8 form; positions in answers and messages count these. -/
def utf8Size : Text → Nat
  | [] => 0
  | c :: rest => c.utf8Size + utf8Size rest

@[simp] theorem utf8Size_append (a b : Text) : utf8Size (a ++ b) = utf8Size a + utf8Size b := by
  induction a with
  | nil => simp [utf8Size]
  | cons c a ih => simp [utf8Size, ih, Nat.add_assoc]

/-- The text that remains once the characters starting before byte `n` are dropped. -/
def dropBytes : Nat → Text → Text
  | 0, t => t
  | _, [] => []
  | n + 1, c :: rest => dropBytes (n + 1 - c.utf8Size) rest
termination_by _ t => t.length

/-! ## ASCII classes -/

/-- A letter from `A` to `Z` in either case. -/
def isAsciiLetter (c : Char) : Bool := c.isAlpha

/-- An ASCII letter or digit. -/
def isAsciiAlphanumeric (c : Char) : Bool := c.isAlphanum

/-- A character of the seven-bit range. -/
def isAscii (c : Char) : Bool := c.toNat < 128

/-- Space, tab, line feed, form feed or carriage return. -/
def isAsciiBlank (c : Char) : Bool :=
  c == ' ' || c == '\t' || c == '\n' || c == '\x0c' || c == '\r'

/-- What separates the words of a clause or a predicate: space, tab, line feed or carriage
return. -/
def isSeparator (c : Char) : Bool :=
  c == ' ' || c == '\t' || c == '\n' || c == '\r'

/-! ## Letters without case -/

/-- Letters `A` to `Z` in lower case, all else unchanged. -/
def asciiLower (t : Text) : Text := t.map Char.toLower

/-- Letters `a` to `z` in upper case, all else unchanged. -/
def asciiUpper (t : Text) : Text := t.map Char.toUpper

/-- Equal up to the case of the letters `A` to `Z`. -/
def sameLetters (a b : Text) : Bool := asciiLower a == asciiLower b

/-- What follows `word` at the front of a text, letters compared without case. -/
def afterWord? : Text → Text → Option Text
  | [], t => some t
  | _ :: _, [] => none
  | w :: word, c :: t => if w.toLower == c.toLower then afterWord? word t else none

/-- What follows `lead` at the front of a text, compared exactly. -/
def afterExact? : Text → Text → Option Text
  | [], t => some t
  | _ :: _, [] => none
  | w :: lead, c :: t => if w == c then afterExact? lead t else none

/-! ## Cutting and joining -/

/-- Drops the characters of a class from the end. -/
def dropEndWhile (p : Char → Bool) (t : Text) : Text := (t.reverse.dropWhile p).reverse

/-- Drops the characters of a class from both ends. -/
def stripWhile (p : Char → Bool) (t : Text) : Text := dropEndWhile p (t.dropWhile p)

/-- The texts with `separator` between them. -/
def join (separator : Text) : List Text → Text
  | [] => []
  | [t] => t
  | t :: rest => t ++ separator ++ join separator rest

/-- The pieces between the characters of a class, always at least one. -/
def splitWhere (p : Char → Bool) : Text → List Text
  | [] => [[]]
  | c :: rest =>
    if p c then [] :: splitWhere p rest
    else
      match splitWhere p rest with
      | [] => [[c]]
      | piece :: pieces => (c :: piece) :: pieces

/-- The text before and after the first `mark`. -/
def splitOnce? (mark : Char) : Text → Option (Text × Text)
  | [] => none
  | c :: rest =>
    if c == mark then some ([], rest)
    else (splitOnce? mark rest).map fun (before, after) => (c :: before, after)

/-- Every `old` replaced by `new`. -/
def replaceChar (old : Char) (new : Text) (t : Text) : Text :=
  t.flatMap fun c => if c == old then new else [c]

/-- Order by code points, the shorter of two first when one begins the other. -/
def order : Text → Text → Ordering
  | [], [] => .eq
  | [], _ :: _ => .lt
  | _ :: _, [] => .gt
  | a :: s, b :: t =>
    match compare a.toNat b.toNat with
    | .eq => order s t
    | o => o

/-- The decimal digits of a natural number. -/
def ofNat (n : Nat) : Text := Nat.toDigits 10 n

end Text

end SeriesQuery
