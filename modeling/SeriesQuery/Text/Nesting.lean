import SeriesQuery.Text.Blank

/-!
# Quotes and brackets

Lists of targets are separated by semicolons and parameters by commas, and neither counts inside
single quotes or brackets. `Nesting` is the state of a left-to-right scan that knows whether it
is inside: it opens and closes on quotes and on all three kinds of bracket, which need not match.
Matching the parenthesis of a call counts parentheses alone.
-/

namespace SeriesQuery.Text

/-- Where a scan stands: inside how many brackets, and whether inside quotes. -/
structure Nesting where
  /-- Open brackets. -/
  depth : Nat
  /-- Inside single quotes. -/
  quoted : Bool
  deriving DecidableEq, Repr

namespace Nesting

/-- Outside everything. -/
def outside : Nesting := ⟨0, false⟩

/-- Neither in brackets nor in quotes. -/
def isOutside (n : Nesting) : Bool := n.depth == 0 && !n.quoted

/-- An opening bracket of any kind. -/
def isOpening (c : Char) : Bool := c == '(' || c == '{' || c == '['

/-- A closing bracket of any kind. -/
def isClosing (c : Char) : Bool := c == ')' || c == '}' || c == ']'

/-- The state after one more character. A closing bracket with none open changes nothing. -/
def step (n : Nesting) (c : Char) : Nesting :=
  if c == '\'' then ⟨n.depth, !n.quoted⟩
  else if n.quoted then n
  else if isOpening c then ⟨n.depth + 1, false⟩
  else if isClosing c then ⟨n.depth - 1, false⟩
  else n

/-- The state after a text. -/
def run (n : Nesting) (t : Text) : Nesting := t.foldl step n

/-- Whether a character ends a field here: it is the delimiter, outside everything, and no quote
or bracket itself. -/
def separates (n : Nesting) (delimiter c : Char) : Bool :=
  c == delimiter && n.isOutside && !(c == '\'' || isOpening c || isClosing c)

end Nesting

/-- One more character in front of the first field. -/
def pushFront (c : Char) : List Text → List Text
  | [] => [[c]]
  | field :: fields => (c :: field) :: fields

/-- The fields of a text as they stand, from a state of the scan on. -/
def rawFields (delimiter : Char) (n : Nesting) : Text → List Text
  | [] => [[]]
  | c :: rest =>
    if n.separates delimiter c then [] :: rawFields delimiter n rest
    else pushFront c (rawFields delimiter (n.step c) rest)

/-- The fields between delimiters outside quotes and brackets, trimmed. There is always at least
one, and empty ones are kept. -/
def fields (delimiter : Char) (t : Text) : List Text :=
  (rawFields delimiter Nesting.outside t).map trim

/-- The targets of a list: its fields between semicolons that are not empty. -/
def targets (t : Text) : List Text := (fields ';' t).filter (!·.isEmpty)

/-! ## Parentheses -/

/-- One more character in front of the first part. -/
def consFirst (c : Char) : Option (Text × Text) → Option (Text × Text)
  | some (before, after) => some (c :: before, after)
  | none => none

/-- The text up to the parenthesis that closes the outermost of `depth` open ones, and the text
after it. Parentheses in single quotes do not count. -/
def splitAtClose? : Nat → Bool → Text → Option (Text × Text)
  | _, _, [] => none
  | depth, quoted, c :: rest =>
    if c == '\'' then consFirst c (splitAtClose? depth (!quoted) rest)
    else if quoted then consFirst c (splitAtClose? depth quoted rest)
    else if c == '(' then consFirst c (splitAtClose? (depth + 1) quoted rest)
    else if c == ')' then
      match depth with
      | 0 => none
      | 1 => some ([], rest)
      | depth + 2 => consFirst c (splitAtClose? (depth + 1) quoted rest)
    else consFirst c (splitAtClose? depth quoted rest)

/-- The byte at which the parenthesis closes that opens at byte `start`. -/
def closingByte? (t : Text) (start : Nat) : Option Nat :=
  let tail := dropBytes start t
  (splitAtClose? 0 false tail).map fun (body, _) => utf8Size t - utf8Size tail + utf8Size body

/-! ## Quotes -/

/-- A text without the white space and then the one pair of quotes around it. -/
def unquote (t : Text) : Text :=
  let trimmed := trim t
  match trimmed with
  | first :: rest@(_ :: _) =>
    if (first == '\'' || first == '"') && rest.getLast? == some first then rest.dropLast
    else trimmed
  | _ => trimmed

/-! ## Keywords -/

/-- A character that a keyword may not touch. -/
def joinsWord (c : Char) : Bool := isAsciiAlphanumeric c || c == '_' || !isAscii c

/-- What follows the words of a phrase at the front of a text, with ASCII white space between
them. -/
def afterPhrase? : List Text → Text → Option Text
  | [], t => some t
  | [word], t => afterWord? word t
  | word :: phrase, t =>
    match afterWord? word t with
    | none => none
    | some rest =>
      match rest with
      | c :: _ => if isAsciiBlank c then afterPhrase? phrase (rest.dropWhile isAsciiBlank) else none
      | [] => none

/-- Whether a phrase stands at the front of a text and ends there as a word. -/
def phraseStarts (phrase : List Text) (t : Text) : Bool :=
  match afterPhrase? phrase t with
  | none => false
  | some [] => true
  | some (c :: _) => !joinsWord c

/-- The text before and from the first place where a phrase stands as words of its own, outside
single quotes. `touched` says that the character before joins a word. -/
def splitAtPhrase? (phrase : List Text) (quoted touched : Bool) : Text → Option (Text × Text)
  | [] => none
  | c :: rest =>
    if c == '\'' then consFirst c (splitAtPhrase? phrase (!quoted) false rest)
    else if !quoted && !touched && phraseStarts phrase (c :: rest) then some ([], c :: rest)
    else consFirst c (splitAtPhrase? phrase quoted (joinsWord c) rest)

/-- The text before and from the first place where a keyword or phrase stands. -/
def splitAtKeyword? (phrase : Text) (t : Text) : Option (Text × Text) :=
  splitAtPhrase? (words phrase) false false t

theorem splitAtPhrase?_spelling {phrase : List Text} {quoted touched : Bool}
    {t before found : Text} (h : splitAtPhrase? phrase quoted touched t = some (before, found)) :
    before ++ found = t ∧ found ≠ [] := by
  induction t generalizing quoted touched before found with
  | nil => simp [splitAtPhrase?] at h
  | cons c rest ih =>
    have step : ∀ {q u : Bool},
        consFirst c (splitAtPhrase? phrase q u rest) = some (before, found) →
        before ++ found = c :: rest ∧ found ≠ [] := by
      intro q u hs
      cases hr : splitAtPhrase? phrase q u rest with
      | none => rw [hr] at hs; simp [consFirst] at hs
      | some p =>
        rw [hr] at hs
        simp only [consFirst, Option.some.injEq, Prod.mk.injEq] at hs
        have := ih hr
        rw [← hs.1, ← hs.2]
        exact ⟨by rw [List.cons_append, this.1], this.2⟩
    unfold splitAtPhrase? at h
    split at h
    · exact step h
    split at h
    · simp only [Option.some.injEq, Prod.mk.injEq] at h
      rw [← h.1, ← h.2]
      simp
    · exact step h

/-- A keyword that is found leaves a text that is not empty and not longer. -/
theorem length_splitAtKeyword? {phrase t before found : Text}
    (h : splitAtKeyword? phrase t = some (before, found)) :
    0 < found.length ∧ found.length ≤ t.length := by
  obtain ⟨hs, hne⟩ := splitAtPhrase?_spelling h
  have := congrArg List.length hs
  simp only [List.length_append] at this
  exact ⟨List.length_pos_iff.mpr hne, by omega⟩

end SeriesQuery.Text
