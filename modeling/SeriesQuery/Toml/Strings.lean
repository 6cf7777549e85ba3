import SeriesQuery.Toml.Basic

/-!
# TOML strings

A string is written in one of four ways: between double quotes with escapes, between single
quotes as it is, and both also between triple quotes over several lines. A line break in a
string is one line feed however it is written. Control characters must be escaped, but for the
tab.

Each reader takes a text after the opening quotes and gives the string with what follows its
closing quotes. `quoted` writes a string in the plainest way that can hold it.
-/

namespace SeriesQuery.Toml

/-- A character that may stand in a string or a comment as it is. -/
def isPlain (c : Char) : Bool := c == '\t' || (0x20 ≤ c.toNat && c.toNat != 0x7f)

/-- What follows a line break: a line feed with or without a carriage return before it. -/
def afterBreak? : Text → Option Text
  | '\n' :: rest => some rest
  | '\r' :: '\n' :: rest => some rest
  | _ => none

/-- A space or a tab. -/
def isSpace (c : Char) : Bool := c == ' ' || c == '\t'

/-- The value of a hexadecimal digit. -/
def hexDigit? (c : Char) : Option Nat :=
  if c.isDigit then some (c.toNat - '0'.toNat)
  else if 'a' ≤ c && c ≤ 'f' then some (c.toNat - 'a'.toNat + 10)
  else if 'A' ≤ c && c ≤ 'F' then some (c.toNat - 'A'.toNat + 10)
  else none

/-- The character whose code point so many hexadecimal digits spell, and what follows. -/
def codePoint? (count : Nat) (t : Text) : Option (Char × Text) := do
  let digits ← (t.take count).mapM hexDigit?
  let code := digits.foldl (fun n d => 16 * n + d) 0
  if digits.length = count ∧ code.isValidChar then some (Char.ofNat code, t.drop count) else none

/-- The character of an escape after its backslash, and what follows. -/
def escape? : Text → Option (Char × Text)
  | 'b' :: rest => some ('\x08', rest)
  | 't' :: rest => some ('\t', rest)
  | 'n' :: rest => some ('\n', rest)
  | 'f' :: rest => some ('\x0c', rest)
  | 'r' :: rest => some ('\r', rest)
  | '"' :: rest => some ('"', rest)
  | '\\' :: rest => some ('\\', rest)
  | 'u' :: rest => codePoint? 4 rest
  | 'U' :: rest => codePoint? 8 rest
  | _ => none

/-- A character put in front of a string that has been read. -/
def prepend (c : Char) (r : Text × Text) : Text × Text := (c :: r.1, r.2)

/-- A string of one line with escapes. Every step takes a character, so there are no more than
`fuel` when that is the length of the text. -/
def basicFrom : Nat → Text → Option (Text × Text)
  | 0, _ => none
  | _ + 1, [] => none
  | fuel + 1, c :: rest =>
    if c == '"' then some ([], rest)
    else if c == '\\' then do
      let (c, rest) ← escape? rest
      (basicFrom fuel rest).map (prepend c)
    else if isPlain c then (basicFrom fuel rest).map (prepend c)
    else none

/-- A string of one line with escapes. -/
def basic? (t : Text) : Option (Text × Text) := basicFrom t.length t

/-- A string of one line as it is. -/
def literal? : Text → Option (Text × Text)
  | [] => none
  | c :: rest =>
    if c == '\'' then some ([], rest)
    else if isPlain c then (literal? rest).map (prepend c)
    else none

/-- What follows spaces, tabs and line breaks. -/
def skipBlank : Text → Text
  | [] => []
  | c :: rest => if isSpace c || c == '\n' then skipBlank rest
    else if c == '\r' && rest.head? == some '\n' then skipBlank rest
    else c :: rest

/-- What follows a backslash that ends a line: the text from the next character on that is no
white space. -/
def afterLineEnd? (t : Text) : Option Text :=
  (afterBreak? (t.dropWhile isSpace)).map skipBlank

/-- A string of several lines up to three of its quotes in a row. One or two more quotes before
these belong to the string, and so do shorter runs anywhere. -/
def linesFrom (quote : Char) (escapes : Bool) : Nat → Text → Option (Text × Text)
  | 0, _ => none
  | _ + 1, [] => none
  | fuel + 1, c :: rest =>
    if c == quote then
      let run := min 5 (1 + (rest.takeWhile (· == quote)).length)
      if 3 ≤ run then some (List.replicate (run - 3) quote, rest.drop (run - 1))
      else (linesFrom quote escapes fuel rest).map (prepend c)
    else if c == '\\' && escapes then
      match afterLineEnd? rest with
      | some rest => linesFrom quote escapes fuel rest
      | none => do
        let (c, rest) ← escape? rest
        (linesFrom quote escapes fuel rest).map (prepend c)
    else
      match afterBreak? (c :: rest) with
      | some rest => (linesFrom quote escapes fuel rest).map (prepend '\n')
      | none =>
        if isPlain c then (linesFrom quote escapes fuel rest).map (prepend c) else none

/-- A string of several lines. A line break right after the opening quotes is left out. -/
def lines? (quote : Char) (escapes : Bool) (t : Text) : Option (Text × Text) :=
  let t := (afterBreak? t).getD t
  linesFrom quote escapes t.length t

/-- A string with its opening quotes. -/
def string? : Text → Option (Text × Text)
  | '"' :: '"' :: '"' :: rest => lines? '"' true rest
  | '"' :: rest => basic? rest
  | '\'' :: '\'' :: '\'' :: rest => lines? '\'' false rest
  | '\'' :: rest => literal? rest
  | _ => none

/-! ## Writing strings -/

/-- The length of the longest run of a character; `run` is the length of the run that ends
here. -/
def longestRun (mark : Char) (run : Nat) : Text → Nat
  | [] => run
  | c :: rest =>
    if c == mark then longestRun mark (run + 1) rest
    else max run (longestRun mark 0 rest)

/-- A control character that no string may hold as it is, also not over several lines. -/
def isControl (c : Char) : Bool := !isPlain c && c != '\n'

/-- Four hexadecimal digits. -/
def fourDigits (n : Nat) : Text :=
  let digit (k : Nat) : Char := (Nat.digitChar (n / k % 16)).toUpper
  [digit 4096, digit 256, digit 16, digit 1]

/-- A character inside double quotes, where quotes are written as they are unless escaped
here. -/
def escaped (lines : Bool) (c : Char) : Text :=
  if c == '\x08' then ['\\', 'b']
  else if c == '\t' then ['\\', 't']
  else if c == '\n' then (if lines then ['\n'] else ['\\', 'n'])
  else if c == '\x0c' then ['\\', 'f']
  else if c == '\r' then ['\\', 'r']
  else if c == '\\' then ['\\', '\\']
  else if isPlain c then [c]
  else '\\' :: 'u' :: fourDigits c.toNat

/-- The inside of double quotes. Of a run of quotes the first `allowed` stay as they are, then
one is escaped and a new run begins. -/
def escapedFrom (lines : Bool) (allowed run : Nat) : Text → Text
  | [] => []
  | c :: rest =>
    if c == '"' then
      if run < allowed then '"' :: escapedFrom lines allowed (run + 1) rest
      else '\\' :: '"' :: escapedFrom lines allowed 0 rest
    else escaped lines c ++ escapedFrom lines allowed 0 rest

/-- A string as it is written: in double quotes unless backslashes or quotes speak for single
ones, over several lines if it has line breaks or runs of both quotes. -/
def quoted (t : Text) : Text :=
  let breaks := t.contains '\n'
  let controls := t.any isControl
  let backslashes := t.contains '\\'
  let singles := longestRun '\'' 0 t
  let doubles := longestRun '"' 0 t
  let opening (quotes : Text) : Text := if breaks then quotes ++ ['\n'] else quotes
  let threeDouble : Text := ['"', '"', '"']
  let threeSingle : Text := ['\'', '\'', '\'']
  let plainly := !controls && !backslashes
  if plainly && doubles == 0 && !breaks then '"' :: escapedFrom false 0 0 t ++ ['"']
  else if !controls && singles == 0 && !breaks then '\'' :: t ++ ['\'']
  else if plainly && doubles ≤ 2 then
    opening threeDouble ++ escapedFrom true 2 0 t ++ threeDouble
  else if !controls && singles ≤ 2 then opening threeSingle ++ t ++ threeSingle
  else if breaks then opening threeDouble ++ escapedFrom true 2 0 t ++ threeDouble
  else '"' :: escapedFrom false 0 0 t ++ ['"']

end SeriesQuery.Toml
