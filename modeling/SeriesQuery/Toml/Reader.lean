import SeriesQuery.Toml.Scalars
import SeriesQuery.Toml.Strings

/-!
# Reading TOML

A document is lines. A line names a value by a key, or opens a table by a header; the keys after
a header belong to its table. A key is one or more names with points between them, and values
nest at most 79 deep.

`lines?` reads the lines of a text, `place?` takes one line into the tables read before it, and
`read?` is the table that a whole text makes up.
-/

namespace SeriesQuery.Toml

/-! ## Keys -/

/-- A key: the names of the tables on the way, and the name of the value. -/
structure Key where
  /-- The names of the tables on the way. -/
  path : List Text
  /-- The name of the value. -/
  name : Text
  deriving DecidableEq, Repr

/-- A character of a name without quotes. -/
def isNameChar (c : Char) : Bool := Text.isAsciiAlphanumeric c || c == '_' || c == '-'

/-- What follows spaces and tabs. -/
def skipSpaces (t : Text) : Text := t.dropWhile isSpace

/-- A name, and what follows. -/
def name? : Text → Option (Text × Text)
  | '"' :: rest => basic? rest
  | '\'' :: rest => literal? rest
  | t =>
    let name := t.takeWhile isNameChar
    if name.isEmpty then none else some (name, t.dropWhile isNameChar)

/-- How many names a key may have, and how deep values may nest. -/
def depthLimit : Nat := 79

/-- A key of at most so many names, and what follows it and the spaces after it. -/
def keyFrom : Nat → Text → Option (Key × Text)
  | 0, _ => none
  | fuel + 1, t => do
    let (name, rest) ← name? (skipSpaces t)
    match skipSpaces rest with
    | '.' :: rest =>
      let (key, rest) ← keyFrom fuel rest
      return (⟨name :: key.path, key.name⟩, rest)
    | rest => return (⟨[], name⟩, rest)

/-- A key, and what follows it and the spaces after it. -/
def key? (t : Text) : Option (Key × Text) := keyFrom depthLimit t

/-- A key and the equals sign after it, and what follows these and the spaces after them. -/
def keyOfValue? (t : Text) : Option (Key × Text) := do
  let (key, rest) ← key? t
  match rest with
  | '=' :: rest => return (key, skipSpaces rest)
  | _ => none

/-! ## Tables -/

/-- Changes the members of the table at the end of a path. A table that is not there is made, as
one that is passed through by a header or by a dotted key. A header may pass through every table
but inline ones and into the last of added tables; a dotted key may not pass through a table that
has had its header. -/
def changeAt? (dotted : Bool) (change : TableOrigin → Members → Option Members) :
    List Text → TableOrigin → Members → Option Members
  | [], origin, members => change origin members
  | name :: path, _, members => do
    let origin := if dotted then TableOrigin.dotted else .passed
    match lookup name members with
    | none => return assign name (table origin (← changeAt? dotted change path origin [])) members
    | some (table origin inner) =>
      if origin == .inline || (dotted && origin == .header) then none
      else
        return assign name (table origin (← changeAt? dotted change path origin inner)) members
    | some (tables items) =>
      match items.getLast? with
      | none => none
      | some last =>
        let last ← changeAt? dotted change path .header last
        return assign name (tables (items.dropLast ++ [last])) members
    | some _ => none

/-- Adds a value under a key. The table that a dotted key adds to must be of dotted keys alone. -/
def addValue? (key : Key) (value : Toml) (members : Members) : Option Members :=
  changeAt? true
    (fun origin inner =>
      if key.path.isEmpty || origin == .dotted then addNew? key.name value inner else none)
    key.path .header members

/-- Adds values under their keys to an empty table. -/
def ofPairs? (pairs : List (Key × Toml)) : Option Members :=
  pairs.foldlM (fun members (key, value) => addValue? key value members) []

/-- Opens the table of a header, which has not had one before. -/
def openTable? (name : Text) (members : Members) : Option Members :=
  match lookup name members with
  | none => some (assign name (table .header []) members)
  | some (table .passed inner) => some (assign name (table .header inner) members)
  | some _ => none

/-- Adds a table to those of a header in double brackets. -/
def appendTable? (name : Text) (members : Members) : Option Members :=
  match lookup name members with
  | none => some (assign name (tables [[]]) members)
  | some (tables items) => some (assign name (tables (items ++ [[]])) members)
  | some _ => none

/-! ## Values -/

/-- What follows a comment, its line break not included. -/
def afterComment (t : Text) : Text := t.dropWhile isPlain

/-- What follows spaces, line breaks and comments inside an array. Every step takes a character,
so there are no more than `fuel` when that is the length of the text. -/
def skipFiller : Nat → Text → Text
  | 0, t => t
  | _ + 1, [] => []
  | fuel + 1, c :: rest =>
    if isSpace c then skipFiller fuel rest
    else if c == '#' then skipFiller fuel (afterComment rest)
    else
      match afterBreak? (c :: rest) with
      | some rest => skipFiller fuel rest
      | none => c :: rest

/-- What follows spaces, line breaks and comments inside an array. -/
def skipInArray (t : Text) : Text := skipFiller t.length t

mutual

/-- A value, and what follows; `depth` is how deep values may still nest. -/
def valueFrom : Nat → Nat → Text → Option (Toml × Text)
  | 0, _, _ => none
  | fuel + 1, depth, t =>
    match t with
    | '[' :: rest =>
      match depth with
      | 0 => none
      | depth + 1 => (itemsFrom fuel depth (skipInArray rest)).map fun (items, rest) =>
        (array items, rest)
    | '{' :: rest =>
      match depth with
      | 0 => none
      | depth + 1 => do
        let (pairs, rest) ←
          match skipSpaces rest with
          | '}' :: rest => some ([], rest)
          | rest => pairsFrom fuel depth rest
        return (table .inline (← ofPairs? pairs), rest)
    | t =>
      match string? t with
      | some (s, rest) => some (string s, rest)
      | none => scalar? t

/-- The items of an array up to its closing bracket. A comma may follow the last one. -/
def itemsFrom : Nat → Nat → Text → Option (List Toml × Text)
  | 0, _, _ => none
  | fuel + 1, depth, t =>
    match t with
    | ']' :: rest => some ([], rest)
    | t => do
      let (item, rest) ← valueFrom fuel depth t
      match skipInArray rest with
      | ',' :: rest =>
        let (items, rest) ← itemsFrom fuel depth (skipInArray rest)
        return (item :: items, rest)
      | ']' :: rest => return ([item], rest)
      | _ => none

/-- The keys and values of an inline table up to its closing brace. -/
def pairsFrom : Nat → Nat → Text → Option (List (Key × Toml) × Text)
  | 0, _, _ => none
  | fuel + 1, depth, t => do
    let (key, rest) ← keyOfValue? t
    let (value, rest) ← valueFrom fuel depth rest
    match skipSpaces rest with
    | ',' :: rest =>
      let (pairs, rest) ← pairsFrom fuel depth rest
      return ((key, value) :: pairs, rest)
    | '}' :: rest => return ([(key, value)], rest)
    | _ => none

end

/-- A value, and what follows. -/
def value? (t : Text) : Option (Toml × Text) := valueFrom (2 * t.length + 2) depthLimit t

/-! ## Documents -/

/-- A line of a document. -/
inductive Line where
  /-- A value under a key. -/
  | value (key : Key) (value : Toml)
  /-- The header of a table. -/
  | header (key : Key)
  /-- A header in double brackets. -/
  | added (key : Key)

/-- What follows the end of a line, a comment before it included. -/
def afterLine? (t : Text) : Option Text :=
  let rest :=
    match skipSpaces t with
    | '#' :: rest => afterComment rest
    | rest => rest
  if rest.isEmpty then some [] else afterBreak? rest

/-- A line that is neither empty nor a comment, and what follows it. -/
def line? : Text → Option (Line × Text)
  | '[' :: '[' :: rest => do
    let (key, rest) ← key? rest
    match rest with
    | ']' :: ']' :: rest => return (.added key, ← afterLine? rest)
    | _ => none
  | '[' :: rest => do
    let (key, rest) ← key? rest
    match rest with
    | ']' :: rest => return (.header key, ← afterLine? rest)
    | _ => none
  | t => do
    let (key, rest) ← keyOfValue? t
    let (value, rest) ← value? rest
    return (.value key value, ← afterLine? rest)

/-- The lines of a text, empty ones and comments left out. Every line takes a character, so there
are no more than `fuel` when that is above the length of the text. -/
def linesOf : Nat → Text → Option (List Line)
  | 0, _ => none
  | fuel + 1, t =>
    match skipSpaces t with
    | [] => some []
    | c :: rest =>
      if c == '#' then (afterLine? (c :: rest)).bind (linesOf fuel)
      else
        match afterBreak? (c :: rest) with
        | some rest => linesOf fuel rest
        | none => do
          let (line, rest) ← line? (c :: rest)
          return line :: (← linesOf fuel rest)

/-- A document that has been read in part: its members, and the path of the open table. -/
structure Document where
  /-- The members. -/
  members : Members
  /-- The path of the table that keys belong to. -/
  current : List Text

/-- Takes a line into the tables read before it. -/
def Document.place? (d : Document) : Line → Option Document
  | .value key value => do
    let members ← changeAt? false (fun _ => addValue? key value) d.current .header d.members
    return { d with members }
  | .header key => do
    let members ← changeAt? false (fun _ => openTable? key.name) key.path .header d.members
    return ⟨members, key.path ++ [key.name]⟩
  | .added key => do
    let members ← changeAt? false (fun _ => appendTable? key.name) key.path .header d.members
    return ⟨members, key.path ++ [key.name]⟩

/-- The mark that some editors put in front of a text. -/
def byteOrderMark : Char := '\ufeff'

/-- The members of the table that a whole text makes up. -/
def read? (t : Text) : Option Members := do
  let t := if t.head? == some byteOrderMark then t.drop 1 else t
  let lines ← linesOf (t.length + 1) t
  let document ← lines.foldlM Document.place? ⟨[], []⟩
  return document.members

end SeriesQuery.Toml
