import SeriesQuery.Text.Alphanumeric
import SeriesQuery.Text.Basic

/-!
# Words of clauses and predicates

Clauses and predicates are read word by word. Words are separated by spaces, tabs, line feeds
and carriage returns; keywords are in any letter case and need not end where they match;
identifiers may be in any script.

Each reader takes a text from the front and gives what follows, or nothing when it does not
apply.
-/

namespace SeriesQuery.Text

/-- What follows any separators. -/
def skipSeparators (t : Text) : Text := t.dropWhile isSeparator

/-- What follows at least one separator. -/
def afterSeparators? : Text → Option Text
  | [] => none
  | c :: rest => if isSeparator c then some (skipSeparators rest) else none

/-- What follows separators, then a keyword. -/
def afterSpacedWord? (word t : Text) : Option Text := (afterSeparators? t).bind (afterWord? word)

/-- What follows separators, a keyword, and separators again. -/
def afterSetOffWord? (word t : Text) : Option Text :=
  (afterSpacedWord? word t).bind afterSeparators?

/-- A letter or number of any script, an underscore or a point. -/
def isIdentifierChar (c : Char) : Bool := isAlphanumeric c || c == '_' || c == '.'

/-- The characters of a class at the front, at least one, and what follows. -/
def takeSome? (p : Char → Bool) (t : Text) : Option (Text × Text) :=
  let taken := t.takeWhile p
  if taken.isEmpty then none else some (taken, t.dropWhile p)

/-- An identifier, and what follows. -/
def identifier? (t : Text) : Option (Text × Text) := takeSome? isIdentifierChar t

end SeriesQuery.Text
