import Mathlib
import SeriesQuery.Proofs.Binary64.Arithmetic
import SeriesQuery.Sample

/-!
# The value of a sample

A sample keeps its value as bits. Of a number there is one pattern of bits, so numbers can be told
apart by either. What is not a number has many patterns, all of which are read as the same value,
and where a value is only passed on they are passed on as they are.
-/

open Float.Model Float.Model.UnpackedFloat

namespace SeriesQuery

open Binary64

/-! ## Bits that are read and stored again -/

theorem unpack_of_isNaNBits {bits : BitVec format.numBits} (h : isNaNBits bits = true) :
    UnpackedFloat.unpack format bits = .notANumber := by
  obtain ⟨hexponent, hmantissa⟩ := of_decide_eq_true h
  unfold UnpackedFloat.unpack
  dsimp only
  rw [if_pos hexponent, if_neg hmantissa]

/-- What is read from bits is read again once it has been stored. -/
theorem unpack_pack_unpack (bits : BitVec format.numBits) :
    UnpackedFloat.unpack format (UnpackedFloat.pack format (UnpackedFloat.unpack format bits))
      = UnpackedFloat.unpack format bits := by
  have hpack := pack_unpack bits
  split at hpack
  · next hbits => rw [hpack, unpack_packedNaN, unpack_of_isNaNBits hbits]
  · rw [hpack]

/-- A number is stored as the bits that it was read from. -/
theorem toBits_ofBits {bits : UInt64} (h : ¬ IsNaN (Float.ofBits bits)) :
    (Float.ofBits bits).toBits = bits := by
  have hpack := @pack_unpack format bits.toBitVec (by decide)
  split at hpack
  · next hbits =>
      exact absurd ((unpack_pack_unpack _).trans (unpack_of_isNaNBits hbits)) h
  · exact UInt64.toBitVec_inj.mp hpack

/-! ## Bits without the sign -/

/-- All bits but the sign. -/
def unsigned : BitVec format.numBits := 0x7fffffffffffffff

theorem getLsbD_unsigned (i : ℕ) : unsigned.getLsbD i = decide (i < 63) := by
  have hmask : unsigned = (BitVec.allOnes 63).setWidth 64 := by decide
  have hbit : ((BitVec.allOnes 63).setWidth 64).getLsbD i = decide (i < 63) := by
    rw [BitVec.getLsbD_setWidth, BitVec.getLsbD_allOnes, Bool.and_eq_right_iff_imp]
    exact fun h => decide_eq_true (Nat.lt_succ_of_lt (of_decide_eq_true h))
  exact (congrArg (BitVec.getLsbD · i) hmask).trans hbit

theorem unpackMantissa_unsigned (bits : BitVec format.numBits) :
    unpackMantissa (bits &&& unsigned) = unpackMantissa bits := by
  rw [unpackMantissa_def, unpackMantissa_def]
  refine BitVec.eq_of_getElem_eq fun i hi => ?_
  have hlow : i < 63 := Nat.lt_trans hi (by decide)
  rw [BitVec.getElem_extractLsb', BitVec.getElem_extractLsb', BitVec.getLsbD_and,
    getLsbD_unsigned, Nat.zero_add, decide_eq_true hlow, Bool.and_true]

theorem unpackExponent_unsigned (bits : BitVec format.numBits) :
    unpackExponent (bits &&& unsigned) = unpackExponent bits := by
  rw [unpackExponent_def, unpackExponent_def]
  refine BitVec.eq_of_getElem_eq fun i hi => ?_
  have hlow : format.mantissaBitsWithoutImplicit + i < 63 := Nat.add_lt_add_left hi 52
  rw [BitVec.getElem_extractLsb', BitVec.getElem_extractLsb', BitVec.getLsbD_and,
    getLsbD_unsigned, decide_eq_true hlow, Bool.and_true]

theorem unpackSign_unsigned (bits : BitVec format.numBits) :
    unpackSign (bits &&& unsigned) = 0#1 := by
  have hhigh : ¬ format.mantissaBitsWithoutImplicit + format.exponentBits + 0 < 63 := by decide
  rw [unpackSign_def]
  refine BitVec.eq_of_getElem_eq fun i hi => ?_
  obtain rfl : i = 0 := by omega
  rw [BitVec.getElem_extractLsb', BitVec.getLsbD_and, getLsbD_unsigned, decide_eq_false hhigh,
    Bool.and_false, BitVec.getElem_zero]

theorem unpack_unsigned (bits : BitVec format.numBits) :
    UnpackedFloat.unpack format (bits &&& unsigned)
      = (UnpackedFloat.unpack format bits).abs := by
  unfold UnpackedFloat.unpack
  simp only [unpackMantissa_unsigned, unpackExponent_unsigned, unpackSign_unsigned]
  split
  · split
    · rfl
    · rfl
  · split
    · split
      · rfl
      · rfl
    · rfl

namespace Sample

/-! ## Values -/

@[simp] theorem value_of (key : Text) (value time : Float) (flags : UInt32) :
    (of key value time flags).value = value :=
  Float.ofBits_toBits value

@[simp] theorem value_withValue (s : Sample) (value : Float) : (s.withValue value).value = value :=
  Float.ofBits_toBits value

/-- Numbers are the same exactly if their bits are. -/
theorem value_inj {s t : Sample} (hs : ¬ IsNaN s.value) (ht : ¬ IsNaN t.value) :
    s.value = t.value ↔ s.bits = t.bits := by
  constructor
  · intro h
    rw [← toBits_ofBits hs, ← toBits_ofBits ht]
    exact congrArg Float.toBits h
  · exact congrArg Float.ofBits

/-- To clear the sign is to take the absolute value. -/
theorem value_withoutSign (s : Sample) : s.withoutSign.value = s.value.abs := by
  refine Float.toBits_inj.mp (UInt64.toBitVec_inj.mp ?_)
  show UnpackedFloat.pack format (UnpackedFloat.unpack format (s.bits.toBitVec &&& unsigned))
    = UnpackedFloat.pack format (UnpackedFloat.abs (UnpackedFloat.unpack format
      (UnpackedFloat.pack format (UnpackedFloat.unpack format s.bits.toBitVec))))
  rw [unpack_unsigned, unpack_pack_unpack]

end Sample

end SeriesQuery
