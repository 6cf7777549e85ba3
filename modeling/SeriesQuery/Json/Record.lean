import SeriesQuery.Json.Basic

/-!
# Records in JSON

A record is written as an object whose members are its fields, in any order, or as an array of
its fields in their order. A field may go under several names but is given once; members under
other names are passed over. Fields that may be left out have a value for that case; at the end
of an array fields may be left out too.

`fields?` lines the values of a record up with its fields, and the readers after it turn each
into what the field holds.
-/

namespace SeriesQuery.Json

/-- The value of a field among members, inside it none if the field is left out. A field that is
given more than once is malformed. -/
def field? (names : List String) (members : List (Text × Json)) : Option (Option Json) :=
  match members.filter fun (name, _) => names.any (Text.of · == name) with
  | [] => some none
  | [(_, value)] => some (some value)
  | _ => none

/-- The values of the fields of a record, each none if it is left out. Every field is described
by its names. -/
def fields? (fields : List (List String)) : Json → Option (List (Option Json))
  | object members => fields.mapM (field? · members)
  | array items =>
    if items.length ≤ fields.length then
      some (items.map some ++ List.replicate (fields.length - items.length) none)
    else none
  | _ => none

variable {α : Type}

/-- A field that must be there. -/
def required? (read : Json → Option α) (field : Option Json) : Option α := field.bind read

/-- A field that may be left out. -/
def optional? (otherwise : α) (read : Json → Option α) : Option Json → Option α
  | none => some otherwise
  | some value => read value

/-- A value or `null`. -/
def nullable? (read : Json → Option α) : Json → Option (Option α)
  | null => some none
  | value => (read value).map some

/-- A string. -/
def text? : Json → Option Text
  | string t => some t
  | _ => none

/-- A truth value. -/
def bool? : Json → Option Bool
  | bool b => some b
  | _ => none

/-- A number that binary64 can hold. -/
def float? : Json → Option Float
  | number token => numberToFloat? token
  | _ => none

/-- A natural number below a bound. -/
def nat? (bound : Nat) : Json → Option Nat
  | number token => numberToNat? bound token
  | _ => none

/-- A list of values. -/
def list? (read : Json → Option α) : Json → Option (List α)
  | array items => items.mapM read
  | _ => none

/-- An object whose members all hold values of one kind, each with its name. -/
def members? (read : Json → Option α) : Json → Option (List (Text × α))
  | object members => members.mapM fun (name, value) => (read value).map (name, ·)
  | _ => none

end SeriesQuery.Json
