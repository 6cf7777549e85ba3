import SeriesQuery.Catalog.Basic
import SeriesQuery.Targets

/-!
# Resolving targets

A list of targets, separated by semicolons, is resolved to series with the help of the catalog.
Each target is one of

* a clause, for the series of the rows it selects,
* an encoded key such as `PPA:1`, for itself,
* a globally unique identifier, for the series of the row that has it,
* a tag, for the series of the row that has it,

and the first that applies is taken. `alias = target` gives the series of a target an alias. A
target that stands for no series is passed over; a malformed clause is a fault.
-/

namespace SeriesQuery

/-- Where the catalog keeps what resolving needs. -/
structure Layout where
  /-- The table of all series. -/
  table : Text
  /-- The field of the key. -/
  keyField : Text
  /-- The field of the tag. -/
  tagField : Text
  /-- The field of the globally unique identifier. -/
  signalField : Text
  deriving DecidableEq, Repr

/-- The first letter, or an underscore, of an alias. -/
def isAliasStart (c : Char) : Bool := Text.isAsciiLetter c || c == '_'

/-- A further character of an alias. -/
def isAliasChar (c : Char) : Bool := Text.isAsciiAlphanumeric c || c == '_'

/-- The alias and target of `alias = target`, the target on one line. -/
def splitAlias? (token : Text) : Option (Text × Text) :=
  match Text.trimStart token with
  | [] => none
  | c :: rest =>
    if !isAliasStart c then none
    else
      let name := c :: rest.takeWhile isAliasChar
      match Text.trimStart (rest.dropWhile isAliasChar) with
      | '=' :: rest =>
        let target := Text.trim rest
        if target.isEmpty || target.contains '\n' then none else some (name, target)
      | _ => none

/-- The alias of a target, if it has one, and the target. A clause has none. -/
def aliasAndTarget (token : Text) : Option Text × Text :=
  match splitAlias? token with
  | some (name, target) =>
    if (Selection.parse? token).isNone then (some name, target) else (none, token)
  | none => (none, token)

/-- Whether a text is an encoded key: a source that begins with a letter, a colon, a number. -/
def isEncodedKey : Text → Bool
  | [] => false
  | c :: rest =>
    let isSourceChar (c : Char) := isAliasChar c || c == '.' || c == '-'
    Text.isAsciiLetter c &&
      match rest.dropWhile isSourceChar with
      | ':' :: digits => !digits.isEmpty && digits.all Text.isDecimalDigit
      | _ => false

/-- The identifier that a text spells, with any number of braces around it. -/
def guid? (libraries : Libraries) (token : Text) : Option Text :=
  libraries.guid? (Text.dropEndWhile (· == '}') (token.dropWhile (· == '{')))

namespace Resolver

/-- The first row of the default table that has a value in a field. -/
def rowWith? (catalog : Catalog) (layout : Layout) (field value : Text) : Option Fields :=
  match catalog.lookup layout.table (Predicate.equalsText field value) with
  | .ok row => row
  | .error _ => none

/-- The key of a row and the name its series is shown under: its tag, or the key where it has
none. A row without key stands for no series. -/
def seriesOfRow? (layout : Layout) (row : Fields) : Option (Text × Text) :=
  match row.get? layout.keyField with
  | none => none
  | some key =>
    if key.isEmpty then none
    else
      match row.get? layout.tagField with
      | some tag => if tag.isEmpty then some (key, key) else some (key, tag)
      | none => some (key, key)

/-- The series that a target without alias stands for: keys with the names they are shown
under. -/
def resolveToken (catalog : Catalog) (layout : Layout) (token : Text) :
    Except Fault (List (Text × Text)) := do
  match Selection.parse? token with
  | some clause =>
    let s ← clause
    let rows ← catalog.select s.table s.predicate s.order s.take
    return rows.filterMap (seriesOfRow? layout)
  | none =>
    if isEncodedKey token then
      let tag? := (rowWith? catalog layout layout.keyField token).bind (·.get? layout.tagField)
      return [(token, tag?.getD token)]
    else
      let row? :=
        match guid? catalog.libraries token with
        | some guid => rowWith? catalog layout layout.signalField guid
        | none => rowWith? catalog layout layout.tagField token
      return (row?.bind (seriesOfRow? layout)).toList

/-- What an aliased series is shown under. -/
def aliasDisplay (name display : Text) : Text := name ++ [' ', '=', ' '] ++ display

/-- Adds the series of one target. -/
def addSeries (name? : Option Text) (m : Targets) (series : Text × Text) : Targets :=
  match name? with
  | some name => (m.insertAliased series.1 name (aliasDisplay name series.2)).2
  | none => (m.insert series.1 series.2).2

/-- Adds the series of targets in order. -/
def resolveFrom (catalog : Catalog) (layout : Layout) (m : Targets) :
    List Text → Except Fault Targets
  | [] => .ok m
  | token :: rest => do
    let (name?, target) := aliasAndTarget token
    let series ← resolveToken catalog layout target
    resolveFrom catalog layout (series.foldl (addSeries name?) m) rest

/-- The series of a list of targets. -/
def resolve (catalog : Catalog) (layout : Layout) (text : Text) : Except Fault Targets :=
  resolveFrom catalog layout Targets.empty (Text.targets text)

/-- The row that describes a series: the first that has a name as its tag, else the first that
has it as its key, in the table given or the default one. -/
def describe? (catalog : Catalog) (layout : Layout) (table? : Option Text) (name : Text) :
    Option Fields :=
  let layout := { layout with table := table?.getD layout.table }
  let value := Text.trim name
  (rowWith? catalog layout layout.tagField value).or
    (rowWith? catalog layout layout.keyField value)

end Resolver

end SeriesQuery
