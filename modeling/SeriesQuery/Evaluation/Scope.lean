import SeriesQuery.Operator
import SeriesQuery.Sample

/-!
# What a call is evaluated in

A numeric parameter may name a series instead of spelling a number. The names it may use are the
display names and aliases of the targets of the whole expression, and the keys of the samples at
hand.
-/

namespace SeriesQuery

/-- Names of series, in lower case, with the key each stands for. -/
structure NameTable where
  /-- The names in the order they were added. -/
  entries : List (Text × Text)
  deriving DecidableEq

namespace NameTable

/-- No names. -/
def empty : NameTable := ⟨[]⟩

/-- The form in which names are compared. -/
def normalize (name : Text) : Text := Text.asciiLower (Text.trim name)

/-- The key of a name, if it is in the table. -/
def keyOf? (table : NameTable) (name : Text) : Option Text :=
  (table.entries.find? (·.1 == normalize name)).map (·.2)

/-- Adds a name; of names that differ only in white space and case the first stays. -/
def add (table : NameTable) (name key : Text) : NameTable :=
  if (table.keyOf? name).isSome then table else ⟨table.entries ++ [(normalize name, key)]⟩

/-- Adds names in order. -/
def addAll (table : NameTable) (names : List (Text × Text)) : NameTable :=
  names.foldl (fun table (name, key) => table.add name key) table

end NameTable

/-- What a call is evaluated in. -/
structure Scope where
  /-- How the function of the call is applied. -/
  grouping : Grouping
  /-- The names that parameters may use. -/
  names : NameTable
  /-- The order in which a random choice visits samples. -/
  shuffle : List Sample → List Sample

namespace Scope

/-- The value of the first sample that belongs to the series called `name`. -/
def valueOf? (scope : Scope) (samples : List Sample) (name : Text) : Option Float :=
  let named := scope.names.keyOf? name
  (samples.find? fun s => keyMatches s.key name || named == some s.key).map (·.value)

end Scope

end SeriesQuery
