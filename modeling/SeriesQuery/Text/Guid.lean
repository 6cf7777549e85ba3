import SeriesQuery.Text.Basic

/-!
# Globally unique identifiers

An identifier is 32 hexadecimal digits. It may be written without hyphens, with hyphens after
the digits 8, 12, 16 and 20, and in that form also in braces or after `urn:uuid:`. The canonical
form has hyphens and small letters.
-/

namespace SeriesQuery.Guid

/-- A hexadecimal digit in either case. -/
def isHexDigit (c : Char) : Bool :=
  c.isDigit || ('a' ≤ c && c ≤ 'f') || ('A' ≤ c && c ≤ 'F')

/-- The canonical form of 32 digits. -/
def hyphenate (digits : Text) : Text :=
  let lower := Text.asciiLower digits
  lower.take 8 ++ '-' :: (lower.drop 8).take 4 ++ '-' :: (lower.drop 12).take 4
    ++ '-' :: (lower.drop 16).take 4 ++ '-' :: lower.drop 20

/-- The digits of a text of 32 digits. -/
def plain? (t : Text) : Option Text :=
  if t.length == 32 && t.all isHexDigit then some t else none

/-- The digits of a text of 32 digits with hyphens. -/
def hyphenated? (t : Text) : Option Text :=
  if t.length == 36 && [8, 13, 18, 23].all (fun i => t[i]? == some '-') then
    plain? (t.take 8 ++ (t.drop 9).take 4 ++ (t.drop 14).take 4 ++ (t.drop 19).take 4 ++ t.drop 24)
  else none

/-- The digits of a text with hyphens in braces. -/
def braced? : Text → Option Text
  | '{' :: rest => if rest.getLast? == some '}' then hyphenated? rest.dropLast else none
  | _ => none

/-- The digits of a text with hyphens after `urn:uuid:`. -/
def named? (t : Text) : Option Text :=
  (Text.afterExact? (Text.of "urn:uuid:") t).bind hyphenated?

/-- The canonical form of the identifier that a text spells. -/
def canonical? (t : Text) : Option Text :=
  ((((plain? t).or (hyphenated? t)).or (braced? t)).or (named? t)).map hyphenate

end SeriesQuery.Guid
