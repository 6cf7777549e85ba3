import SeriesQuery.Catalog.Regex

/-!
# Patterns

A pattern stands for whole values: `%` for any run of characters, `_` for one character, and
every other character for those that fold to the same. It is translated to a regular expression,
anchored at both ends, that takes no notice of case and of line breaks.
-/

namespace SeriesQuery.Pattern

/-- One character of a pattern in the expression. -/
def signExpression (lib : RegexLibrary) (p : Char) : Text :=
  if p == '%' then ['.', '*'] else if p == '_' then ['.'] else lib.escape [p]

/-- The expression that a pattern is translated to. -/
def expression (lib : RegexLibrary) (pattern : Text) : Text :=
  Text.of "(?is)^" ++ pattern.flatMap (signExpression lib) ++ ['$']

/-- The test of a pattern, unless the library refuses its expression. -/
def compile? (lib : RegexLibrary) (pattern : Text) : Option (Text → Bool) :=
  lib.compile? (expression lib pattern)

end SeriesQuery.Pattern
