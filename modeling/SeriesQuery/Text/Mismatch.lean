import SeriesQuery.Text.Literal

/-!
# Mismatches

Where a text could not be read on, and what would have been needed there.
-/

namespace SeriesQuery.Text

/-- What a text may be read on with. -/
inductive Needed where
  /-- White space between words. -/
  | separator
  /-- A keyword or sign. -/
  | symbol
  /-- An identifier or another word. -/
  | word
  /-- A pattern that can be compiled. -/
  | compiledPattern
  deriving DecidableEq, Repr

/-- The name of what is needed, as messages give it. -/
def Needed.name : Needed → String
  | separator => "MultiSpace"
  | symbol => "Tag"
  | word => "TakeWhile1"
  | compiledPattern => "Verify"

/-- How messages name a mismatch: it counts as a failure where no other form may be tried. -/
def Needed.severity : Needed → String
  | compiledPattern => "Failure"
  | _ => "Error"

/-- A place where a text cannot be read on. -/
structure Mismatch where
  /-- The text from that place. -/
  rest : Text
  /-- What would have been needed. -/
  needed : Needed
  deriving DecidableEq, Repr

/-- A mismatch as messages show it. -/
def Mismatch.shown (m : Mismatch) : Text :=
  Text.of m.needed.severity ++ Text.of "(Error \x7b input: " ++ literal m.rest ++ Text.of ", code: "
    ++ Text.of m.needed.name ++ Text.of " \x7d)"

end SeriesQuery.Text
