import SeriesQuery.Catalog.Predicate
import SeriesQuery.Libraries
import SeriesQuery.Selection
import SeriesQuery.Sorting

/-!
# The catalog

Tables of rows, each row a set of named texts. The name of a table is in any letter case. Rows
are selected by a predicate, sorted by one field, and cut to a number.
-/

namespace SeriesQuery

/-- Tables of rows, in the order they were first used. -/
structure Catalog where
  /-- The tables with their names. -/
  tables : List (Text × List Fields)
  /-- The libraries that predicates and targets are read with. -/
  libraries : Libraries := .standard

namespace Catalog

/-- No tables. -/
def empty : Catalog where
  tables := []

/-- The rows of a table. -/
def rows? (c : Catalog) (table : Text) : Option (List Fields) :=
  (c.tables.find? fun (name, _) => Text.sameLetters name table).map (·.2)

/-- Whether there is a table of a name. -/
def hasTable (c : Catalog) (table : Text) : Bool := (c.rows? table).isSome

/-- The number of rows of a table. -/
def rowCount (c : Catalog) (table : Text) : Nat := ((c.rows? table).getD []).length

/-- The tables with a row more at the end of the first that has the name, or in a new one. -/
def addTo (table : Text) (row : Fields) : List (Text × List Fields) → List (Text × List Fields)
  | [] => [(table, [row])]
  | (name, rows) :: rest =>
    if Text.sameLetters name table then (name, rows ++ [row]) :: rest
    else (name, rows) :: addTo table row rest

/-- Adds a row at the end of a table. -/
def addRow (c : Catalog) (table : Text) (row : Fields) : Catalog :=
  { c with tables := addTo table row c.tables }

/-- Whether a row comes before another when sorted by a field. -/
def comesBefore (key : SortKey) (a b : Fields) : Bool :=
  let order := compareValues (a.get? key.field) (b.get? key.field)
  order == if key.descending then .gt else .lt

/-- Rows sorted by a field, those of the same rank as they were. -/
def sortRows (key : SortKey) (rows : List Fields) : List Fields := sorted (comesBefore key) rows

/-- The rows of a table that satisfy a predicate, sorted if so asked, and at most so many. -/
def select (c : Catalog) (table predicate : Text) (order : Option SortKey) (take : Option Nat) :
    Except Fault (List Fields) := do
  let some rows := c.rows? table | throw (.unknownTable table)
  let p ← Predicate.parse c.libraries.regex predicate
  let chosen := rows.filter fun row => p.holds c.libraries.regex row
  let sorted :=
    match order with
    | some key => sortRows key chosen
    | none => chosen
  return match take with
    | some n => sorted.take n
    | none => sorted

/-- The first row of a table that satisfies a predicate. -/
def lookup (c : Catalog) (table predicate : Text) : Except Fault (Option Fields) :=
  (c.select table predicate none (some 1)).map (·.head?)

end Catalog

end SeriesQuery
