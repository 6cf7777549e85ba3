import SeriesQuery.Catalog.StandardRegex
import SeriesQuery.Text.Guid

/-!
# Libraries

What the reading of predicates and targets leaves to others: the matching of patterns and the
reading of globally unique identifiers.
-/

namespace SeriesQuery

/-- The libraries that are called. -/
structure Libraries where
  /-- The regular expressions. -/
  regex : RegexLibrary
  /-- The canonical form of the globally unique identifier that a text spells. -/
  guid? : Text → Option Text

/-- The libraries that the program is run with. -/
def Libraries.standard : Libraries := ⟨.standard, Guid.canonical?⟩

/-- An identifier with hyphens, in either letter case, is read as the one that it spells, and the
canonical form has small letters. -/
def Libraries.ReadsGuids (libraries : Libraries) : Prop :=
  ∀ t, (Guid.hyphenated? t).isSome = true → libraries.guid? t = some (Text.asciiLower t)

end SeriesQuery
