import SeriesQuery.Text.Basic

/-!
# TOML values

Settings are kept in TOML. A table remembers how it came about, because that decides which later
parts of a document may still add to it.
-/

namespace SeriesQuery

/-- How a table came about. -/
inductive TableOrigin where
  /-- Written between braces: it is complete. -/
  | inline
  /-- Named by a header, or the document itself. -/
  | header
  /-- Passed through by the header of a table inside it: its own header may still come. -/
  | passed
  /-- Passed through by a dotted key: further dotted keys may add to it. -/
  | dotted
  deriving DecidableEq, Repr

/-- A TOML value. -/
inductive Toml where
  | string (value : Text)
  | integer (value : Int)
  | float (value : Float)
  | boolean (value : Bool)
  /-- A date, a time of day, or both, as it is written. -/
  | moment (written : Text)
  | array (items : List Toml)
  | table (origin : TableOrigin) (members : List (Text × Toml))
  /-- The tables that headers in double brackets add one by one. -/
  | tables (items : List (List (Text × Toml)))

namespace Toml

/-- The members of a table. -/
abbrev Members := List (Text × Toml)

/-- The value of a name. -/
def lookup (name : Text) (members : Members) : Option Toml :=
  (members.find? (·.1 == name)).map (·.2)

/-- Sets the value of a name. -/
def assign (name : Text) (value : Toml) : Members → Members
  | [] => [(name, value)]
  | (n, v) :: rest => if n == name then (n, value) :: rest else (n, v) :: assign name value rest

/-- Adds a value under a name that must be new. -/
def addNew? (name : Text) (value : Toml) (members : Members) : Option Members :=
  if (lookup name members).isSome then none else some (members ++ [(name, value)])

end Toml

end SeriesQuery
