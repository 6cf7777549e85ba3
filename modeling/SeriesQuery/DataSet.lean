import SeriesQuery.Catalog.Basic
import SeriesQuery.Json.Record
import SeriesQuery.Sample

/-!
# Data sets

A data set is a catalog together with samples, kept in one JSON document.
-/

namespace SeriesQuery

/-- A catalog and samples. -/
structure DataSet where
  /-- The catalog. -/
  catalog : Catalog
  /-- The samples. -/
  samples : List Sample

/-- A sample is the record `key`, `value`, `time`, `flags`; the last may be left out. -/
def Sample.ofJson? (j : Json) : Option Sample := do
  match ← j.fields? [["key"], ["value"], ["time"], ["flags"]] with
  | [key, value, time, flags] =>
    let flags ← Json.optional? 0 (Json.nat? (twoTo 32)) flags
    return .of (← Json.required? Json.text? key) (← Json.required? Json.float? value)
      (← Json.required? Json.float? time) flags.toUInt32
  | _ => none

/-- A row is an object of strings. -/
def Fields.ofJson? (j : Json) : Option Fields := (j.members? Json.text?).map Fields.ofList

/-- Tables with the rows of one of them set. -/
def Catalog.setTable (tables : List (Text × List Fields)) (table : Text × List Fields) :
    List (Text × List Fields) :=
  if tables.any (·.1 == table.1) then
    tables.map fun t => if t.1 == table.1 then table else t
  else tables ++ [table]

/-- A catalog is an object of lists of rows. Of two tables of one name the later one holds. -/
def Catalog.ofJson? (j : Json) : Option Catalog := do
  let tables ← j.members? (Json.list? Fields.ofJson?)
  return { tables := tables.foldl setTable [] }

/-- A data set is the record `catalog`, `samples`; either may be left out. -/
def DataSet.ofJson? (j : Json) : Option DataSet := do
  match ← j.fields? [["catalog"], ["samples"]] with
  | [catalog, samples] =>
    return ⟨← Json.optional? Catalog.empty Catalog.ofJson? catalog,
      ← Json.optional? [] (Json.list? Sample.ofJson?) samples⟩
  | _ => none

end SeriesQuery
