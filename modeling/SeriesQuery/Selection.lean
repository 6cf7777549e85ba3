import SeriesQuery.Fault
import SeriesQuery.Text.Grammar
import SeriesQuery.Text.Nesting

/-!
# Selections

A target may be a clause that selects rows of the catalog:

    FILTER [TOP n] table WHERE predicate [ORDER BY field [ASC|DESC]] [TOP n]
    SELECT [TOP n] fields FROM table WHERE predicate [ORDER BY field [ASC|DESC]] [TOP n]

The fields of a SELECT are not used. The predicate is kept as text; the catalog reads it.
-/

namespace SeriesQuery

/-- A field to sort by. -/
structure SortKey where
  /-- The field. -/
  field : Text
  /-- Largest first. -/
  descending : Bool
  deriving DecidableEq, Repr

/-- Rows of a table. -/
structure Selection where
  /-- The table. -/
  table : Text
  /-- The text of the predicate that the rows satisfy. -/
  predicate : Text
  /-- What the rows are sorted by. -/
  order : Option SortKey
  /-- How many rows are taken at most. -/
  take : Option Nat
  deriving DecidableEq, Repr

namespace Selection

/-- The keyword `FILTER`. -/
def filterWord : Text := ['F', 'I', 'L', 'T', 'E', 'R']

/-- The keyword `SELECT`. -/
def selectWord : Text := ['S', 'E', 'L', 'E', 'C', 'T']

/-- The keyword `TOP`. -/
def topWord : Text := ['T', 'O', 'P']

/-- The keyword `FROM`. -/
def fromWord : Text := ['F', 'R', 'O', 'M']

/-- The keyword `WHERE`. -/
def whereWord : Text := ['W', 'H', 'E', 'R', 'E']

/-- The keyword `ORDER`. -/
def orderWord : Text := ['O', 'R', 'D', 'E', 'R']

/-- The keyword `BY`. -/
def byWord : Text := ['B', 'Y']

/-- The phrase `ORDER BY`. -/
def orderPhrase : Text := orderWord ++ ' ' :: byWord

/-- The keyword `DESC`. -/
def descWord : Text := ['D', 'E', 'S', 'C']

/-- Whether a text begins with a keyword and white space after it. -/
def beginsWith (word t : Text) : Bool :=
  match Text.afterWord? word t with
  | some (c :: _) => Text.isAsciiBlank c
  | _ => false

/-! ## The head of a clause -/

/-- `TOP n` and separators after it. The number must fit into 64 bits. -/
def top? (t : Text) : Option (Nat × Text) := do
  let rest ← (Text.afterWord? topWord t).bind Text.afterSeparators?
  let (digits, rest) ← Text.takeSome? Char.isDigit rest
  let n ← readNatBelow? (twoTo 64) digits
  return (n, Text.skipSeparators rest)

/-- `TOP n` where it is written. -/
def optionalTop (t : Text) : Option Nat × Text :=
  match top? t with
  | some (n, rest) => (some n, rest)
  | none => (none, t)

/-- A table, then `WHERE`. -/
def tableWhere? (t : Text) : Option (Text × Text) := do
  let (table, rest) ← Text.identifier? t
  let rest ← Text.afterSetOffWord? whereWord rest
  return (table, rest)

/-- The number of rows, the table and the tail of a FILTER clause. -/
def filterHead? (t : Text) : Option (Option Nat × Text × Text) := do
  let rest ← (Text.afterWord? filterWord t).bind Text.afterSeparators?
  let (take, rest) := optionalTop rest
  let (table, tail) ← tableWhere? rest
  return (take, table, tail)

/-- Where a text is no table with `WHERE` after it. -/
def tableMismatch (t : Text) : Text.Mismatch :=
  match Text.identifier? t with
  | none => ⟨t, .word⟩
  | some (_, rest) =>
    match Text.afterSeparators? rest with
    | none => ⟨rest, .separator⟩
    | some rest =>
      match Text.afterWord? whereWord rest with
      | none => ⟨rest, .symbol⟩
      | some rest => ⟨rest, .separator⟩

/-- Where a text that begins with `FILTER` is no head of a clause. -/
def filterMismatch (t : Text) : Text.Mismatch :=
  let rest := t.drop filterWord.length
  match Text.afterSeparators? rest with
  | none => ⟨rest, .separator⟩
  | some rest => tableMismatch (optionalTop rest).2

/-- The number of rows, the table and the tail of a SELECT clause. -/
def selectHead? (t : Text) : Option (Option Nat × Text × Text) := do
  let rest ← (Text.afterWord? selectWord t).bind Text.afterSeparators?
  let (take, rest) := optionalTop rest
  let (_, source) ← Text.splitAtKeyword? fromWord rest
  let rest ← (Text.afterWord? fromWord source).bind Text.afterSeparators?
  let (table, tail) ← tableWhere? rest
  return (take, table, tail)

/-! ## The tail of a clause -/

/-- The text before a `TOP n` that ends the clause, and the number. Other places where `TOP`
stands belong to the text. -/
def trailingTop? (t : Text) : Option (Text × Nat) :=
  match _h : Text.splitAtKeyword? topWord t with
  | none => none
  | some (before, found) =>
    match top? found with
    | some (n, []) => some (before, n)
    | _ =>
      (trailingTop? (found.drop 3)).map fun (more, n) => (before ++ found.take 3 ++ more, n)
termination_by t.length
decreasing_by
  have := Text.length_splitAtKeyword? _h
  simp only [List.length_drop]
  omega

/-- The tail without a `TOP n` that ends it, and the number. White space at the end goes. -/
def splitTrailingTop (tail : Text) : Text × Option Nat :=
  let tail := Text.trimEnd tail
  match trailingTop? tail with
  | some (before, n) => (before, some n)
  | none => (tail, none)

/-- The field and direction of an `ORDER BY`. What follows them is not read. -/
def order? (t : Text) : Option SortKey := do
  let rest ← (Text.afterWord? orderWord t).bind (Text.afterSetOffWord? byWord)
  let (field, rest) ← Text.identifier? rest
  return ⟨field, (Text.afterSpacedWord? descWord rest).isSome⟩

/-- Where a text that begins with `ORDER BY` gives no field. -/
def orderMismatch (t : Text) : Text.Mismatch :=
  let rest := t.drop orderWord.length
  match Text.afterSeparators? rest with
  | none => ⟨rest, .separator⟩
  | some rest =>
    let rest := rest.drop byWord.length
    match Text.afterSeparators? rest with
    | none => ⟨rest, .separator⟩
    | some rest => ⟨rest, .word⟩

/-- The selection of a clause from its head and tail. A number of rows at the end overrides one
in the head. -/
def ofParts (text : Text) (take : Option Nat) (table tail : Text) : Except Fault Selection := do
  let (tail, trailing) := splitTrailingTop tail
  let (predicate, order) ←
    match Text.splitAtKeyword? orderPhrase tail with
    | none => pure (tail, none)
    | some (predicate, clause) =>
      match order? clause with
      | some key => pure (predicate, some key)
      | none => throw (.malformedOrder text (orderMismatch clause))
  let predicate := Text.trim predicate
  if predicate.isEmpty then throw (.missingPredicate text)
  return ⟨table, predicate, order, trailing.or take⟩

/-- The selection that a text spells, if it begins as a clause at all. -/
def parse? (t : Text) : Option (Except Fault Selection) :=
  let text := Text.trim t
  if beginsWith filterWord text then
    some <|
      match filterHead? text with
      | some (take, table, tail) => ofParts text take table tail
      | none => .error (.malformedFilter text (filterMismatch text))
  else if beginsWith selectWord text then
    some <|
      match selectHead? text with
      | some (take, table, tail) => ofParts text take table tail
      | none => .error (.malformedSelect text)
  else none

end Selection

end SeriesQuery
