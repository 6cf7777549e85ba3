import SeriesQuery.Catalog.Regex
import SeriesQuery.Text.ByteRanges

/-!
# The standard library of regular expressions

`RegexLibrary.standard` compiles the expressions that `Regex.written` writes and refuses all
others. Its test keeps the places of a value that the items so far lead to and goes through the
items once. At a `*` behind an atom for every character only the longest ending matters, so that
the work stays in proportion to the expression and the value however many of them there are.

An expression must not be too large. Its size is that of two automata over the bytes of values, one
for each direction of reading; `Regex.fits` compares both with the limit.
-/

namespace SeriesQuery

namespace Regex

/-! ## Reading -/

/-- The signs that do not stand for themselves unless they are escaped. -/
def metaChars : Text := Text.of "\\.+*?()|[]\x7b\x7d^$#&-~"

/-- Whether a character must be escaped. -/
def isMeta (c : Char) : Bool := metaChars.contains c

/-- A text with a backslash before each sign. -/
def escape (t : Text) : Text := t.flatMap fun c => if isMeta c then ['\\', c] else [c]

/-- The signs of an expression. -/
inductive Sign where
  | atom (a : Atom)
  | times
  | start
  | stop
  deriving DecidableEq, Repr

/-- The sign that a character is without a backslash. -/
def sign? (c : Char) : Option Sign :=
  if c == '.' then some (.atom .dot)
  else if c == '*' then some .times
  else if c == '^' then some .start
  else if c == '$' then some .stop
  else if isMeta c then none
  else some (.atom (.char c))

/-- The signs of a text. -/
def signs? : Text → Option (List Sign)
  | [] => some []
  | '\\' :: c :: rest =>
    if isMeta c then (signs? rest).map (.atom (.char c) :: ·) else none
  | c :: rest => do return (← sign? c) :: (← signs? rest)

/-- The items that signs make. -/
def items? : List Sign → Option (List Item)
  | [] => some []
  | .atom a :: .times :: rest => (items? rest).map (.star a :: ·)
  | .atom a :: rest => (items? rest).map (.one a :: ·)
  | .start :: rest => (items? rest).map (.start :: ·)
  | .stop :: rest => (items? rest).map (.stop :: ·)
  | .times :: _ => none

/-- The options that an expression may set, with the longest group first. -/
def allFlags : List Flags := [⟨true, true⟩, ⟨true, false⟩, ⟨false, true⟩, ⟨false, false⟩]

/-- The options and items that a text is written for. -/
def read? (t : Text) : Option (Flags × List Item) :=
  allFlags.findSome? fun flags => do
    let rest ← Text.afterExact? flags.written t
    let items ← (signs? rest).bind items?
    return (flags, items)

/-! ## Matching -/

/-- The endings of a text, longest first. -/
def endings : Text → List Text
  | [] => [[]]
  | c :: t => (c :: t) :: endings t

/-- The endings of a text that begin behind accepted characters, longest first. -/
def endingsBehind (accepts : Char → Bool) : Text → List Text
  | [] => [[]]
  | c :: t => (c :: t) :: if accepts c then endingsBehind accepts t else []

/-- What follows the first character, if it is accepted. -/
def afterAccepted? (accepts : Char → Bool) : Text → Option Text
  | [] => none
  | c :: t => if accepts c then some t else none

/-- The longest of some texts. -/
def longest? : List Text → Option Text
  | [] => none
  | t :: rest =>
    match longest? rest with
    | some u => some (if u.length ≤ t.length then t else u)
    | none => some t

/-- Whether an atom accepts a character. -/
def Atom.accepts (flags : Flags) : Atom → Char → Bool
  | char p, c => if flags.caseless then Text.fold p == Text.fold c else p == c
  | dot, c => flags.dotAll || c != '\n'

/-- Whether an atom is known to accept every character. -/
def Atom.acceptsAll (flags : Flags) (a : Atom) : Bool := flags.dotAll && a == dot

/-- The places that an item leads to from some places. -/
def itemStep (flags : Flags) (value : Text) (places : List Text) : Item → List Text
  | .one a => places.filterMap (afterAccepted? (a.accepts flags))
  | .star a =>
    if a.acceptsAll flags then
      match longest? places with
      | some t => endings t
      | none => []
    else (places.flatMap (endingsBehind (a.accepts flags))).eraseDups
  | .start => places.filter (· == value)
  | .stop => places.filter (·.isEmpty)

/-- Whether an expression stands for a piece of a value. -/
def finds (flags : Flags) (items : List Item) (value : Text) : Bool :=
  !(items.foldl (itemStep flags value) (endings value)).isEmpty

/-! ## Size -/

/-- The bytes that two automata take. -/
structure Size where
  /-- Of the automaton that reads values forward. -/
  forward : Nat
  /-- Of the automaton that reads values backward. -/
  backward : Nat
  deriving DecidableEq, Repr

/-- The automata of two parts one after the other. -/
def Size.add (a b : Size) : Size := ⟨a.forward + b.forward, a.backward + b.backward⟩

/-- The same bytes in both automata. -/
def Size.both (bytes : Nat) : Size := ⟨bytes, bytes⟩

/-- The bytes of a state without its transitions. -/
def stateBytes : Nat := 32

/-- The bytes of a transition on a range of bytes. -/
def transitionBytes : Nat := 8

/-- The bytes of a transition on nothing. -/
def jumpBytes : Nat := 4

/-- Sequences by their first ranges, each with what follows it. Sequences that begin with the same
range stand side by side. -/
def branches : List (List Text.Span) → List (Text.Span × List (List Text.Span))
  | [] => []
  | [] :: rest => branches rest
  | (span :: more) :: rest =>
    match branches rest with
    | (next, group) :: others =>
      if span == next then (span, more :: group) :: others
      else (span, [more]) :: (next, group) :: others
    | [] => [(span, [more])]

/-- What may follow some bytes of the sequences, for all of them that can go on; sequences are at
most so long. -/
def continuations : Nat → List (List Text.Span) → List (List (List Text.Span))
  | 0, _ => []
  | length + 1, sequences =>
    match branches sequences with
    | [] => []
    | next => sequences :: next.flatMap fun (_, group) => continuations length group

/-- The forward automaton of sequences has a state for each different continuation and one at the
end. -/
def forwardBytes (sequences : List (List Text.Span)) : Nat :=
  let states := (continuations 4 sequences).eraseDups
  let transitions := states.foldl (fun n state => n + (branches state).length) 0
  (states.length + 1) * stateBytes + transitions * transitionBytes

/-- The backward automaton of sequences has a state for each different beginning of one, one at
the start that jumps to each sequence, and one at the end. -/
def backwardBytes (sequences : List (List Text.Span)) : Nat :=
  let beginnings := sequences.flatMap fun s => (List.range s.length).map fun n => s.take (n + 1)
  (beginnings.eraseDups.length + 2) * stateBytes + sequences.length * jumpBytes

/-- The size of a class of characters. Of ASCII characters both automata have one state with a
transition for each range and one at the end. -/
def classSize (spans : List Text.Span) : Size :=
  if spans.all fun span => span.2 < 128 then
    .both (2 * stateBytes + spans.length * transitionBytes)
  else
    let sequences := spans.flatMap fun (first, last) => Text.byteSequences first last
    ⟨forwardBytes sequences, backwardBytes sequences⟩

/-- The size of a dot: all characters, or all but the line break. -/
def dotSize (flags : Flags) : Size :=
  let below := if flags.dotAll then [(0, 0xd7ff)] else [(0, 9), (11, 0xd7ff)]
  classSize (below ++ [(0xe000, 0x10ffff)])

/-- The size of a character: a state for each of its bytes, or that of all characters that fold to
the same. -/
def charSize (flags : Flags) (c : Char) : Size :=
  match if flags.caseless then Text.foldedAlike c else [] with
  | first :: second :: more => classSize (Text.spansOf (first :: second :: more))
  | _ => .both (c.utf8Size * stateBytes)

/-- The size of an atom. -/
def atomSize (flags : Flags) : Atom → Size
  | .char c => charSize flags c
  | .dot => dotSize flags

/-- The size of an item: a star is a state more that jumps to the atom and past it, and an anchor
is a state. -/
def itemSize (flags : Flags) : Item → Size
  | .one a => atomSize flags a
  | .star a => (atomSize flags a).add (.both (stateBytes + 2 * jumpBytes))
  | .start | .stop => .both stateBytes

/-- The size of an expression. Both automata begin and end with a state; the forward one marks
where it begins and ends as well. -/
def size (flags : Flags) (items : List Item) : Size :=
  items.foldl (fun size item => size.add (itemSize flags item))
    ⟨4 * stateBytes, 2 * stateBytes⟩

/-- The bytes that an automaton may take. -/
def sizeLimit : Nat := 10 * 1024 * 1024

/-- Whether an expression is small enough. -/
def fits (flags : Flags) (items : List Item) : Bool :=
  let size := size flags items
  size.forward ≤ sizeLimit && size.backward ≤ sizeLimit

/-- The test of an expression that is small enough. -/
def compile? (t : Text) : Option (Text → Bool) := do
  let (flags, items) ← read? t
  if fits flags items then some (finds flags items) else none

end Regex

/-- The library that compiles the expressions the catalog asks for, up to the size limit. -/
def RegexLibrary.standard : RegexLibrary := ⟨Regex.escape, Regex.compile?⟩

end SeriesQuery
