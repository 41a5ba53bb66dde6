import MatchingEngine.Data.CrcPolynomial
import MatchingEngine.Journal.Corruption

/-!
# The checksum as polynomial division

The loop of `crc32c_update` computes the remainder that defines the cyclic redundancy check of
Castagnoli, and the checksum of a frame is the one of its header and payload.

## Main definitions

* `castagnoliCrc`: the cyclic redundancy check, from its definition.

## Main results

* `crc32c_castagnoli`: `crc32c` is the cyclic redundancy check, and a frame has that of its parts.
-/

namespace MatchingEngine

/-- The remainder of a byte string modulo the polynomial `0x1EDC6F41`, every byte being read from
its lowest bit and the register being all ones at the beginning, reflected and complemented. -/
noncomputable def castagnoliCrc (bytes : List UInt8) : BitVec 32 :=
  ~~~Crc.register 32 (Crc.remainder (Crc.generator 0x1EDC6F41#32) (List.replicate 32 true)
    (Crc.message bytes))

/-- The polynomial of the loop is the one of Castagnoli with its bits reversed. -/
theorem lowFirst_reflectedPolynomial :
    Crc.lowFirst reflectedPolynomial.toBitVec = Crc.highFirst 0x1EDC6F41#32 := by
  decide

theorem register_crc32cUpdate (bytes : List UInt8) :
    Crc.register 32 (Crc.remainder (Crc.generator 0x1EDC6F41#32) (List.replicate 32 true)
      (Crc.message bytes)) = (crc32cUpdate 0xFFFFFFFF bytes).toBitVec := by
  have hones : List.replicate 32 true = Crc.lowFirst (0xFFFFFFFF : UInt32).toBitVec := by decide
  rw [hones, Crc.register_remainder (by decide) lowFirst_reflectedPolynomial,
    toBitVec_crc32cUpdate]

/-- The checksum of a byte string is its cyclic redundancy check. It can be computed piece by
piece, so the checksum of a frame is the one of its header after the magic and of its payload. -/
theorem crc32c_castagnoli :
    (∀ bytes, (crc32c bytes).toBitVec = castagnoliCrc bytes) ∧
    (∀ state bytes bytes', crc32cUpdate state (bytes ++ bytes') =
      crc32cUpdate (crc32cUpdate state bytes) bytes') ∧
    ∀ bytes payloadLength, frameCrc bytes payloadLength =
      crc32c (bytes.slice 4 16 ++ bytes.slice 24 payloadLength) := by
  refine ⟨fun bytes => ?_, crc32cUpdate_append, frameCrc_eq⟩
  rw [crc32c, UInt32.toBitVec_not, castagnoliCrc, register_crc32cUpdate]

example : crc32c [0x31, 0x32, 0x33, 0x34, 0x35, 0x36, 0x37, 0x38, 0x39] = 0xE3069283 := by
  decide +kernel

end MatchingEngine
