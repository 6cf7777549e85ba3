import SeriesQuery.Fields
import SeriesQuery.Text.Blank

/-!
# Samples and series

A sample is one value of a stored series at one time. A series is what a query hands on from
function to function: samples under a name.
-/

namespace SeriesQuery

/-- One value of the series `key` at a time in milliseconds since 1970. -/
structure Sample where
  /-- The stored series that the value belongs to. -/
  key : Text
  /-- The bits of the value. Many patterns of bits stand for what is not a number. -/
  bits : UInt64
  /-- Milliseconds since the start of 1970. -/
  time : Float
  /-- Bits that qualify the value; none set means normal. -/
  flags : UInt32
  deriving DecidableEq

namespace Sample

/-- The value. -/
def value (s : Sample) : Float := Float.ofBits s.bits

/-- The sample of a value. -/
def of (key : Text) (value time : Float) (flags : UInt32) : Sample :=
  ⟨key, value.toBits, time, flags⟩

/-- The sample with the bits of another value. -/
def withBits (s : Sample) (bits : UInt64) : Sample := { s with bits }

/-- The sample with another value. -/
def withValue (s : Sample) (value : Float) : Sample := s.withBits value.toBits

/-- The sample at another time. -/
def withTime (s : Sample) (time : Float) : Sample := { s with time }

/-- The sample with the sign of its value cleared, whatever the value is. -/
def withoutSign (s : Sample) : Sample := s.withBits (s.bits &&& 0x7fffffffffffffff)

end Sample

/-- Samples under a name. -/
structure Series where
  /-- The name shown for the samples. -/
  name : Text
  /-- The targets that the samples come from, without functions around them. -/
  root : Text
  /-- The samples in their order. -/
  samples : List Sample
  deriving DecidableEq

/-- Whether a text spells a key, up to white space around the text and the case of the letters `A`
to `Z`. -/
def keyMatches (key t : Text) : Bool := Text.sameLetters key (Text.trim t)

end SeriesQuery
