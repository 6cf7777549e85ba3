import SeriesQuery.Catalog.Pattern
import SeriesQuery.Catalog.Value
import SeriesQuery.Fault
import SeriesQuery.Fields
import SeriesQuery.Text.Grammar

/-!
# Predicates on catalog rows

    SignalType = 'FREQ' AND (Device LIKE 'SHELBY%' OR ID IN ('PPA:1', 'PPA:2'))
    NOT Enabled = 0
    Description IS NOT NULL

`OR` binds weaker than `AND`, `AND` weaker than `NOT`, and both chains lean to the left. A field
may stand in square brackets, a value in single quotes with an inner quote written twice.

`Predicate.parse` reads a predicate and `Predicate.holds` evaluates it on a row, both with a library
of regular expressions for the patterns.
-/

namespace SeriesQuery

/-- Comparison signs. -/
inductive Comparison where
  | equal
  | notEqual
  | less
  | lessOrEqual
  | greater
  | greaterOrEqual
  deriving DecidableEq, Repr

/-- Whether an order is one that a comparison sign asks for. -/
def Comparison.accepts : Comparison → Ordering → Bool
  | equal, o => o == .eq
  | notEqual, o => o != .eq
  | less, o => o == .lt
  | lessOrEqual, o => o != .gt
  | greater, o => o == .gt
  | greaterOrEqual, o => o != .lt

/-- Conditions on a row. -/
inductive Predicate where
  /-- Every row. -/
  | always
  /-- The field is there and compares so with a value. -/
  | compare (field : Text) (sign : Comparison) (value : Text)
  /-- The field is there and the pattern stands for it. -/
  | like (field pattern : Text)
  /-- The field is there and equal to one of the values. -/
  | oneOf (field : Text) (values : List Text)
  /-- The field is missing or empty. -/
  | isNull (field : Text)
  | not (p : Predicate)
  | and (p q : Predicate)
  | or (p q : Predicate)
  deriving DecidableEq, Repr

namespace Predicate

/-- Whether a row satisfies a predicate. A pattern that was read has been compiled. -/
def holds (lib : RegexLibrary) (row : Fields) : Predicate → Bool
  | always => true
  | compare field sign value =>
    match row.get? field with
    | some v => sign.accepts (compareTexts v value)
    | none => false
  | like field pattern =>
    match row.get? field, Pattern.compile? lib pattern with
    | some v, some test => test v
    | _, _ => false
  | oneOf field values =>
    match row.get? field with
    | some v => values.any fun value => compareTexts v value == .eq
    | none => false
  | isNull field =>
    match row.get? field with
    | some v => v.isEmpty
    | none => true
  | not p => !p.holds lib row
  | and p q => p.holds lib row && q.holds lib row
  | or p q => p.holds lib row || q.holds lib row

/-! ## Reading -/

/-- Why a text does not begin with a predicate. -/
inductive Refusal where
  /-- It has another form than the one tried. -/
  | otherForm
  /-- It begins with a condition whose pattern is not compiled; the text is that from the pattern
  on. -/
  | refusedPattern (rest : Text)
  deriving DecidableEq, Repr

/-- A predicate at the front of a text and what follows it. -/
abbrev Reading := Except Refusal (Predicate × Text)

/-- A predicate of a form without patterns. -/
def Reading.ofOption : Option (Predicate × Text) → Reading
  | some found => .ok found
  | none => .error .otherForm

/-- One form or else a second one. Nothing else is tried where a pattern is not compiled. -/
def Reading.or (first second : Reading) : Reading :=
  match first with
  | .error .otherForm => second
  | found => found

/-- The keyword `AND`. -/
def andWord : Text := ['A', 'N', 'D']

/-- The keyword `OR`. -/
def orWord : Text := ['O', 'R']

/-- The keyword `NOT`. -/
def notWord : Text := ['N', 'O', 'T']

/-- The keyword `IS`. -/
def isWord : Text := ['I', 'S']

/-- The keyword `NULL`. -/
def nullWord : Text := ['N', 'U', 'L', 'L']

/-- The keyword `IN`. -/
def inWord : Text := ['I', 'N']

/-- The keyword `LIKE`. -/
def likeWord : Text := ['L', 'I', 'K', 'E']

/-- The name of a field, in square brackets or as an identifier. -/
def field? (t : Text) : Option (Text × Text) :=
  let bracketed? :=
    match t with
    | '[' :: rest =>
      match Text.takeSome? (· != ']') rest with
      | some (name, ']' :: rest) => some (name, rest)
      | _ => none
    | _ => none
  bracketed?.or (Text.identifier? t)

/-- A text after its opening quote, up to its closing quote, where two quotes stand for one. -/
def quotedTail? : Text → Option (Text × Text)
  | [] => none
  | '\'' :: '\'' :: rest => (quotedTail? rest).map fun (t, rest) => ('\'' :: t, rest)
  | c :: rest =>
    if c == '\'' then some ([], rest)
    else (quotedTail? rest).map fun (t, rest) => (c :: t, rest)

/-- A character of a value without quotes. -/
def isBareChar (c : Char) : Bool :=
  Text.isAlphanumeric c || c == '.' || c == '_' || c == ':' || c == '-'

/-- A value in single quotes, or a number or word without. -/
def value? (t : Text) : Option (Text × Text) :=
  let quoted? :=
    match t with
    | '\'' :: rest => quotedTail? rest
    | _ => none
  let bare? :=
    match t with
    | '-' :: rest => (Text.takeSome? isBareChar rest).map fun (w, rest) => ('-' :: w, rest)
    | _ => Text.takeSome? isBareChar t
  quoted?.or bare?

/-- A comparison sign. -/
def sign? : Text → Option (Comparison × Text)
  | '<' :: '>' :: rest => some (.notEqual, rest)
  | '!' :: '=' :: rest => some (.notEqual, rest)
  | '<' :: '=' :: rest => some (.lessOrEqual, rest)
  | '>' :: '=' :: rest => some (.greaterOrEqual, rest)
  | '=' :: rest => some (.equal, rest)
  | '<' :: rest => some (.less, rest)
  | '>' :: rest => some (.greater, rest)
  | _ => none

/-- `NOT` after separators, where it is written. -/
def optionalNot (t : Text) : Bool × Text :=
  match Text.afterSpacedWord? notWord t with
  | some rest => (true, rest)
  | none => (false, t)

/-- The predicate, negated if so said. -/
def negatedIf (negated : Bool) (p : Predicate) : Predicate := if negated then not p else p

/-- `field IS [NOT] NULL`. -/
def isNull? (t : Text) : Option (Predicate × Text) := do
  let (field, rest) ← field? t
  let rest ← Text.afterSetOffWord? isWord rest
  let (negated, rest) :=
    match (Text.afterWord? notWord rest).bind Text.afterSeparators? with
    | some rest => (true, rest)
    | none => (false, rest)
  let rest ← Text.afterWord? nullWord rest
  return (negatedIf negated (isNull field), rest)

/-- The values after the first of a list, each after a comma. -/
def moreValues : Nat → Text → List Text × Text
  | 0, t => ([], t)
  | fuel + 1, t =>
    match Text.skipSeparators t with
    | ',' :: rest =>
      match value? (Text.skipSeparators rest) with
      | some (value, rest) =>
        let (values, rest) := moreValues fuel rest
        (value :: values, rest)
      | none => ([], t)
    | _ => ([], t)

/-- `field [NOT] IN (value, …)`. -/
def oneOf? (t : Text) : Option (Predicate × Text) := do
  let (field, rest) ← field? t
  let (negated, rest) := optionalNot rest
  let rest ← Text.afterSpacedWord? inWord rest
  match Text.skipSeparators rest with
  | '(' :: rest =>
    let (first, rest) ← value? (Text.skipSeparators rest)
    let (values, rest) := moreValues rest.length rest
    match Text.skipSeparators rest with
    | ')' :: rest => return (negatedIf negated (oneOf field (first :: values)), rest)
    | _ => none
  | _ => none

/-- `field [NOT] LIKE`: the field, whether the condition is negated, and the text from the pattern
on. -/
def likeHead? (t : Text) : Option (Text × Bool × Text) := do
  let (field, rest) ← field? t
  let (negated, rest) := optionalNot rest
  let rest ← Text.afterSetOffWord? likeWord rest
  return (field, negated, rest)

/-- `field [NOT] LIKE pattern`. -/
def likeReading (lib : RegexLibrary) (t : Text) : Reading :=
  match likeHead? t with
  | none => .error .otherForm
  | some (field, negated, rest) =>
    match value? rest with
    | none => .error .otherForm
    | some (pattern, after) =>
      if (Pattern.compile? lib pattern).isSome then
        .ok (negatedIf negated (like field pattern), after)
      else .error (.refusedPattern rest)

/-- `field sign value`. -/
def compare? (t : Text) : Option (Predicate × Text) := do
  let (field, rest) ← field? t
  let (sign, rest) ← sign? (Text.skipSeparators rest)
  let (value, rest) ← value? (Text.skipSeparators rest)
  return (compare field sign value, rest)

/-- A condition on one field. -/
def condition (lib : RegexLibrary) (t : Text) : Reading :=
  (Reading.ofOption ((isNull? t).or (oneOf? t))).or
    ((likeReading lib t).or (Reading.ofOption (compare? t)))

/-- The operands after the first of a chain, each after a keyword, joined from the left. -/
def chainFrom (word : Text) (join : Predicate → Predicate → Predicate)
    (operand : Text → Reading) : Nat → Predicate → Text → Reading
  | 0, first, t => .ok (first, t)
  | fuel + 1, first, t =>
    match Text.afterSetOffWord? word t with
    | none => .ok (first, t)
    | some rest =>
      match operand rest with
      | .ok (next, rest) => chainFrom word join operand fuel (join first next) rest
      | .error .otherForm => .ok (first, t)
      | .error refusal => .error refusal

/-- A chain of operands with a keyword between them. -/
def chain (word : Text) (join : Predicate → Predicate → Predicate) (operand : Text → Reading)
    (t : Text) : Reading := do
  let (first, rest) ← operand t
  chainFrom word join operand rest.length first rest

/-- Operands joined by `AND`, and these by `OR`. -/
def junction (operand : Text → Reading) : Text → Reading :=
  chain orWord or (chain andWord and operand)

/-- `NOT` and an operand. -/
def negation (operand : Text → Reading) (t : Text) : Reading :=
  match (Text.afterWord? notWord t).bind Text.afterSeparators? with
  | none => .error .otherForm
  | some rest => (operand rest).map fun (p, rest) => (not p, rest)

/-- Operands in parentheses. -/
def group (operand : Text → Reading) : Text → Reading
  | '(' :: rest => do
    let (p, rest) ← junction operand (Text.skipSeparators rest)
    match Text.skipSeparators rest with
    | ')' :: rest => .ok (p, rest)
    | _ => .error .otherForm
  | _ => .error .otherForm

/-- An operand: negated, in parentheses, or a condition on one field. Each negation and each
parenthesis takes at least one character, which bounds how deep they nest. -/
def operand (lib : RegexLibrary) : Nat → Text → Reading
  | 0, _ => .error .otherForm
  | fuel + 1, t =>
    (negation (operand lib fuel) t).or ((group (operand lib fuel) t).or (condition lib t))

/-- Where a text is no comparison. A text that begins with no condition at all is shown as a
comparison that is not one. -/
def mismatch (t : Text) : Text.Mismatch :=
  match field? t with
  | none => ⟨t, .word⟩
  | some (_, rest) =>
    let rest := Text.skipSeparators rest
    match sign? rest with
    | none => ⟨rest, .symbol⟩
    | some (_, rest) =>
      match Text.skipSeparators rest with
      | '-' :: rest => ⟨rest, .word⟩
      | rest => ⟨rest, .word⟩

/-- Whether a trimmed text stands for every row. -/
def isAlways (t : Text) : Bool :=
  t.isEmpty || t == ['1', '=', '1'] || Text.sameLetters t ['t', 'r', 'u', 'e']

/-- The predicate that a text spells. -/
def parse (lib : RegexLibrary) (t : Text) : Except Fault Predicate :=
  let text := Text.trim t
  if isAlways text then .ok always
  else
    let start := Text.skipSeparators text
    match junction (operand lib (text.length + 1)) start with
    | .error .otherForm => .error (.malformedPredicate text (mismatch start))
    | .error (.refusedPattern rest) => .error (.malformedPredicate text ⟨rest, .compiledPattern⟩)
    | .ok (p, rest) =>
      match Text.skipSeparators rest with
      | [] => .ok p
      | rest => .error (.unexpectedText rest text)

/-! ## Writing -/

/-- A value in single quotes, with inner quotes written twice. -/
def quote (value : Text) : Text := '\'' :: Text.replaceChar '\'' ['\'', '\''] value ++ ['\'']

/-- The text of a predicate that a field equals a value. -/
def equalsText (field value : Text) : Text := field ++ [' ', '=', ' '] ++ quote value

end Predicate

end SeriesQuery
