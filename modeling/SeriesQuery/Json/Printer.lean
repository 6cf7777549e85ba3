import SeriesQuery.Json.Basic

/-!
# Writing JSON

Two layouts of one value: without any white space, and with one item or member a line, indented
by two spaces a level. Strings escape quotes, backslashes and control characters and nothing
else.
-/

namespace SeriesQuery.Json

/-- A hexadecimal digit in lower case. -/
def hexDigit (n : Nat) : Char := Nat.digitChar (n % 16)

/-- A character inside a string. -/
def escapeChar (c : Char) : Text :=
  if c == '"' then ['\\', '"']
  else if c == '\\' then ['\\', '\\']
  else if c == '\x08' then ['\\', 'b']
  else if c == '\x0c' then ['\\', 'f']
  else if c == '\n' then ['\\', 'n']
  else if c == '\r' then ['\\', 'r']
  else if c == '\t' then ['\\', 't']
  else if c.toNat < 0x20 then ['\\', 'u', '0', '0', hexDigit (c.toNat / 16), hexDigit c.toNat]
  else [c]

/-- A string between quotes. -/
def printString (t : Text) : Text := '"' :: t.flatMap escapeChar ++ ['"']

mutual

/-- A value without white space. -/
def compact : Json → Text
  | null => Text.of "null"
  | bool true => Text.of "true"
  | bool false => Text.of "false"
  | number token => token
  | string t => printString t
  | array items => '[' :: Text.join [','] (compactItems items) ++ [']']
  | object members => '{' :: Text.join [','] (compactMembers members) ++ ['}']

/-- The items of an array without white space. -/
def compactItems : List Json → List Text
  | [] => []
  | item :: rest => compact item :: compactItems rest

/-- The members of an object without white space. -/
def compactMembers : List (Text × Json) → List Text
  | [] => []
  | (name, value) :: rest => (printString name ++ ':' :: compact value) :: compactMembers rest

end

/-- A new line at a level of indentation. -/
def newLine (level : Nat) : Text := '\n' :: List.replicate (2 * level) ' '

/-- The lines of an array or object between its brackets, whose own line is at `level`. -/
def block (level : Nat) (opening closing : Char) (lines : List Text) : Text :=
  if lines.isEmpty then [opening, closing]
  else
    opening :: Text.join [','] (lines.map (newLine (level + 1) ++ ·)) ++ newLine level ++ [closing]

mutual

/-- A value with one item or member a line, its own line at `level`. -/
def indented (level : Nat) : Json → Text
  | null => Text.of "null"
  | bool true => Text.of "true"
  | bool false => Text.of "false"
  | number token => token
  | string t => printString t
  | array items => block level '[' ']' (indentedItems (level + 1) items)
  | object members => block level '{' '}' (indentedMembers (level + 1) members)

/-- The items of an array, each at `level`. -/
def indentedItems (level : Nat) : List Json → List Text
  | [] => []
  | item :: rest => indented level item :: indentedItems level rest

/-- The members of an object, each at `level`. -/
def indentedMembers (level : Nat) : List (Text × Json) → List Text
  | [] => []
  | (name, value) :: rest =>
    (printString name ++ [':', ' '] ++ indented level value) :: indentedMembers level rest

end

end SeriesQuery.Json
