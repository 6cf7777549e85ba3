import SeriesQuery.Text.Basic

/-!
# Named text fields

A catalog row, the metadata of an answer and the settings of a command are all small tables from
names to texts, listed in the order of their names.
-/

namespace SeriesQuery

/-- Names with a text each, in increasing order of names. -/
structure Fields where
  /-- The names and their texts. -/
  entries : List (Text × Text)
  deriving DecidableEq, Repr

namespace Fields

/-- No fields. -/
def empty : Fields := ⟨[]⟩

/-- The entries with one more at its place, in the stead of one of the same name. -/
def insertEntry (name value : Text) : List (Text × Text) → List (Text × Text)
  | [] => [(name, value)]
  | (n, v) :: rest =>
    match Text.order name n with
    | .lt => (name, value) :: (n, v) :: rest
    | .eq => (name, value) :: rest
    | .gt => (n, v) :: insertEntry name value rest

/-- Sets a field. -/
def insert (fields : Fields) (name value : Text) : Fields :=
  ⟨insertEntry name value fields.entries⟩

/-- The fields set one after the other, a later one of the same name winning. -/
def ofList (pairs : List (Text × Text)) : Fields :=
  pairs.foldl (fun fields (name, value) => fields.insert name value) empty

/-- The text of a field: of the name as it is spelled, else of the first name that differs only
in the case of the letters `A` to `Z`. -/
def get? (fields : Fields) (name : Text) : Option Text :=
  match fields.entries.find? (·.1 == name) with
  | some (_, value) => some value
  | none => (fields.entries.find? fun (n, _) => Text.sameLetters n name).map (·.2)

end Fields

end SeriesQuery
