import SeriesQuery.Text.Folding

/-!
# Regular expressions

The catalog leaves the matching of patterns to a library of regular expressions. A
`RegexLibrary` is what is called of it: a text can be escaped, and an expression be compiled to a
test of values, unless it is refused.

What the test says is documented for the expressions that are asked for. They are an option group,
`(?is)`, and items one after the other: an escaped character, `.` and the anchors `^` and `$`, and
an atom with a `*` behind it. `Regex.written` writes such an expression, `Regex.Found` says what it
finds, and a library is `Documented` if its tests say the same.
-/

namespace SeriesQuery

/-- A library of regular expressions. -/
structure RegexLibrary where
  /-- A text with its signs escaped, so that it stands for itself. -/
  escape : Text → Text
  /-- The test whether an expression finds something in a value. -/
  compile? : Text → Option (Text → Bool)

namespace Regex

/-- The options of an expression. -/
structure Flags where
  /-- A character stands for all that are equal but for case. -/
  caseless : Bool
  /-- The dot stands for line breaks too. -/
  dotAll : Bool
  deriving DecidableEq, Repr

/-- What stands for one character. -/
inductive Atom where
  /-- A character, for itself. -/
  | char (c : Char)
  /-- The dot, for any. -/
  | dot
  deriving DecidableEq, Repr

/-- The parts of an expression. -/
inductive Item where
  /-- One character. -/
  | one (a : Atom)
  /-- Any number of characters. -/
  | star (a : Atom)
  /-- The beginning of the value. -/
  | start
  /-- The end of the value. -/
  | stop
  deriving DecidableEq, Repr

/-! ## Writing -/

/-- The group of the options that are set. -/
def Flags.written (flags : Flags) : Text :=
  if flags.caseless || flags.dotAll then
    '(' :: '?' :: ((if flags.caseless then ['i'] else []) ++ (if flags.dotAll then ['s'] else [])
      ++ [')'])
  else []

/-- An atom, a character with the library's escape. -/
def Atom.written (lib : RegexLibrary) : Atom → Text
  | char c => lib.escape [c]
  | dot => ['.']

/-- A part of an expression. -/
def Item.written (lib : RegexLibrary) : Item → Text
  | one a => a.written lib
  | star a => a.written lib ++ ['*']
  | start => ['^']
  | stop => ['$']

/-- An expression. -/
def written (lib : RegexLibrary) (flags : Flags) (items : List Item) : Text :=
  flags.written ++ items.flatMap (Item.written lib)

/-! ## Meaning -/

/-- An atom stands for a character. -/
def Atom.Accepts (flags : Flags) : Atom → Char → Prop
  | char p, c => p = c ∨ flags.caseless = true ∧ Text.fold p = Text.fold c
  | dot, c => flags.dotAll = true ∨ c ≠ '\n'

/-- A part of an expression stands for what is between two places of a value. A place is given by
the ending of the value that begins there. -/
def Item.Spans (flags : Flags) (value : Text) : Item → Text → Text → Prop
  | one a, s, t => ∃ c, s = c :: t ∧ a.Accepts flags c
  | star a, s, t => ∃ piece, s = piece ++ t ∧ ∀ c ∈ piece, a.Accepts flags c
  | start, s, t => s = value ∧ t = s
  | stop, s, t => s = [] ∧ t = s

/-- The parts of an expression, one after the other, stand for what is between two places. -/
def Spans (flags : Flags) (value : Text) : List Item → Text → Text → Prop
  | [], s, t => t = s
  | item :: items, s, t => ∃ u, item.Spans flags value s u ∧ Spans flags value items u t

/-- An expression stands for a piece of a value, wherever it begins and ends. -/
def Found (flags : Flags) (items : List Item) (value : Text) : Prop :=
  ∃ s t, s <:+ value ∧ Spans flags value items s t

end Regex

/-- Where the library compiles an expression, its test finds what the expression stands for. -/
def RegexLibrary.Documented (lib : RegexLibrary) : Prop :=
  ∀ flags items test, lib.compile? (Regex.written lib flags items) = some test →
    ∀ value, test value = true ↔ Regex.Found flags items value

end SeriesQuery
