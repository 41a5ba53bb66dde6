import MatchingEngine.Journal.Corruption

/-!
# Torn frames

The beginnings of frames. What is there of a frame that was cut off has the bytes of its header. Its
checksum can be anything as long as four bytes of the payload are missing, because these can bring
the checksum to any value; with fewer bytes missing it is tied to the bytes that are there.

## Main definitions

* `frameHeader`: the bytes of a frame before its checksum.
* `Torn`: what is there of a frame is in order.

## Main results

* `exists_frame_iff_torn`: the byte strings that a frame with a given sequence begins with.
-/

namespace MatchingEngine

open BigEndian

/-- The bytes of a frame before its checksum. -/
def frameHeader (sequence : UInt64) (type : JournalRecordType) : List UInt8 :=
  journalFrameMagic ++ ([journalRecordVersion] ++ [type.raw] ++ toBytes 2 0 ++
    toBytes 4 (expectedPayloadLength type) ++ toBytes 8 sequence.toNat)

/-- The bytes of a frame of some type that was cut off: those of the header are right, and if fewer
than four bytes are missing, some value of them gives the checksum. -/
structure Torn (sequence : UInt64) (type : JournalRecordType) (bytes : List UInt8) : Prop where
  ne_nil : bytes ≠ []
  length_lt : bytes.length < 24 + expectedPayloadLength type
  header_eq : bytes.take 20 = (frameHeader sequence type).take bytes.length
  checksum_eq : 24 + expectedPayloadLength type < bytes.length + 4 →
    ∃ missing : List UInt8, bytes.length + missing.length = 24 + expectedPayloadLength type ∧
      readU32 (bytes ++ missing) 20 = frameCrc (bytes ++ missing) (expectedPayloadLength type)

section Frame

variable {sequence : UInt64} {type : JournalRecordType}

theorem length_frameHeader : (frameHeader sequence type).length = 20 := by
  simp [frameHeader, journalFrameMagic]

theorem frame_eq_frameHeader (sequence : UInt64) (command : JournalCommand) :
    frame sequence command = frameHeader sequence (recordTypeFor command) ++
      (toBytes 4 (checksum (crcHeader sequence command) (encodePayload command)).toNat ++
        encodePayload command) := by
  rw [frame, List.append_assoc]
  rfl

/-- A header and a rest of the right length with the right checksum are a frame. -/
theorem exists_eq_frame {rest : List UInt8} (hlen : rest.length = 4 + expectedPayloadLength type)
    (hcrc : readU32 (frameHeader sequence type ++ rest) 20 =
      frameCrc (frameHeader sequence type ++ rest) (expectedPayloadLength type)) :
    ∃ command, recordTypeFor command = type ∧
      frameHeader sequence type ++ rest = frame sequence command := by
  have hlength : (frameHeader sequence type ++ rest).length =
      24 + expectedPayloadLength type := by
    rw [List.length_append, length_frameHeader, hlen]
    omega
  have hheader : HeaderOk (frameHeader sequence type ++ rest) type :=
    ⟨by omega, rfl, rfl, rfl, rfl, rfl⟩
  have hsequence : readU64 (frameHeader sequence type ++ rest) 12 = sequence :=
    readU64_of_slice (by omega) rfl
  have htake := hheader.take_eq_frame hlength.ge hcrc
  rw [hsequence, ← hlength, List.take_length] at htake
  exact ⟨_, recordTypeFor_decodeCommand, htake⟩

/-- Four bytes can bring the register to any value. -/
theorem exists_crc32cUpdate_eq (c v : UInt32) :
    ∃ bytes : List UInt8, bytes.length = 4 ∧ crc32cUpdate c bytes = v := by
  obtain ⟨bytes, hlen, hbytes⟩ : ∃ bytes : List UInt8, bytes.length = 4 ∧
      Crc.update reflectedPolynomial.toBitVec c.toBitVec bytes = v.toBitVec :=
    Crc.exists_update_eq (by decide) (by decide) rfl _ _
  refine ⟨bytes, hlen, UInt32.toBitVec_inj.mp ?_⟩
  rw [toBitVec_crc32cUpdate, hbytes]

/-- The last four bytes of the payload can be chosen to fit the checksum. -/
theorem exists_readU32_eq_frameCrc {known : List UInt8} {payloadLength : ℕ}
    (hpayload : 4 ≤ payloadLength) (hlength : known.length = 20 + payloadLength) :
    ∃ last : List UInt8, last.length = 4 ∧
      readU32 (known ++ last) 20 = frameCrc (known ++ last) payloadLength := by
  obtain ⟨last, hlast, hupdate⟩ := exists_crc32cUpdate_eq
    (crc32cUpdate 0xFFFFFFFF (known.slice 4 16 ++ known.drop 24)) (~~~(readU32 known 20))
  refine ⟨last, hlast, ?_⟩
  have hread : readU32 (known ++ last) 20 = readU32 known 20 :=
    (agreeTo_append known last).readU32_eq (by omega)
  have hslice : (known ++ last).slice 24 payloadLength = known.drop 24 ++ last := by
    rw [List.slice, List.drop_append_of_le_length (by omega), List.take_of_length_le]
    rw [List.length_append, List.length_drop]
    omega
  rw [hread, frameCrc_eq, hslice, List.slice_append_of_le (by omega), checksum,
    ← List.append_assoc, crc32cUpdate_append, hupdate, UInt32.not_not]

/-- A header with at most as many bytes behind it as the payload is long begins a frame. -/
theorem exists_frame_append {part : List UInt8} (h : part.length ≤ expectedPayloadLength type) :
    ∃ command, recordTypeFor command = type ∧
      frameHeader sequence type ++ part <+: frame sequence command := by
  have hbounds := expectedPayloadLength_bounds type
  obtain ⟨padded, hpart, hpadded⟩ :
      ∃ padded, part <+: padded ∧ padded.length = expectedPayloadLength type := by
    refine ⟨part ++ List.replicate (expectedPayloadLength type - part.length) 0,
      List.prefix_append _ _, ?_⟩
    rw [List.length_append, List.length_replicate, Nat.add_sub_cancel' h]
  obtain ⟨known, hknown⟩ : ∃ known, frameHeader sequence type ++ padded = known := ⟨_, rfl⟩
  have hlength : known.length = 20 + expectedPayloadLength type := by
    rw [← hknown, List.length_append, length_frameHeader, hpadded]
  obtain ⟨last, hlast, hcrc⟩ := exists_readU32_eq_frameCrc (by omega) hlength
  rw [← hknown, List.append_assoc] at hcrc
  obtain ⟨command, htype, hframe⟩ :=
    exists_eq_frame (by rw [List.length_append, hpadded, hlast, Nat.add_comm]) hcrc
  refine ⟨command, htype, ?_⟩
  rw [← hframe]
  exact (List.prefix_append_right_inj _).mpr (hpart.trans (List.prefix_append _ _))

theorem take_frame_checksumOffset (sequence : UInt64) (command : JournalCommand) :
    (frame sequence command).take 20 = frameHeader sequence (recordTypeFor command) := by
  rw [frame_eq_frameHeader, List.take_left' length_frameHeader]

/-- What is there of a frame is in order. -/
theorem torn_of_prefix_frame (command : JournalCommand) {bytes : List UInt8} (hne : bytes ≠ [])
    (h : bytes <+: frame sequence command) (hlt : bytes ≠ frame sequence command) :
    Torn sequence (recordTypeFor command) bytes where
  ne_nil := hne
  length_lt := by
    have hle := h.length_le
    have hlength : bytes.length ≠ (frame sequence command).length := fun e => hlt (h.eq_of_length e)
    rw [length_frame] at hle hlength
    exact lt_of_le_of_ne hle hlength
  header_eq := by
    rw [← take_frame_checksumOffset, List.prefix_iff_eq_take.mp h, List.take_take, List.take_take,
      List.length_take, min_eq_left h.length_le, min_comm]
  checksum_eq := by
    intro _
    obtain ⟨missing, hmissing⟩ := h
    refine ⟨missing, ?_, ?_⟩
    · rw [← List.length_append, hmissing, length_frame]
    · rw [hmissing, ← List.append_nil (frame sequence command)]
      exact (readU32_checksum_frame ..).trans (frameCrc_frame ..).symm

theorem Torn.exists_frame {bytes : List UInt8} (h : Torn sequence type bytes) :
    ∃ command, recordTypeFor command = type ∧ bytes <+: frame sequence command := by
  obtain hshort | hlong := Nat.lt_or_ge bytes.length 20
  · obtain ⟨command, htype, hframe⟩ : ∃ command, recordTypeFor command = type ∧
        frameHeader sequence type ++ [] <+: frame sequence command :=
      exists_frame_append (Nat.zero_le _)
    refine ⟨command, htype, List.IsPrefix.trans ?_ hframe⟩
    rw [← List.take_of_length_le (l := bytes) hshort.le, h.header_eq, List.append_nil]
    exact List.take_prefix _ _
  have hbytes : bytes = frameHeader sequence type ++ bytes.drop 20 := by
    have hheader := h.header_eq
    rw [List.take_of_length_le (l := frameHeader _ _) (by rwa [length_frameHeader])] at hheader
    rw [← hheader]
    exact (List.take_append_drop 20 bytes).symm
  obtain htied | hfree := Nat.lt_or_ge (24 + expectedPayloadLength type) (bytes.length + 4)
  · obtain ⟨missing, hlength, hcrc⟩ := h.checksum_eq htied
    rw [hbytes, List.append_assoc] at hcrc
    obtain ⟨command, htype, hframe⟩ :=
      exists_eq_frame (by rw [List.length_append, List.length_drop]; omega) hcrc
    refine ⟨command, htype, ?_⟩
    rw [← hframe, ← List.append_assoc, ← hbytes]
    exact List.prefix_append _ _
  · rw [hbytes]
    refine exists_frame_append ?_
    rw [List.length_drop]
    omega

/-- The non-empty proper beginnings of frames. -/
theorem exists_frame_iff_torn {bytes : List UInt8} :
    (∃ command, bytes ≠ [] ∧ bytes <+: frame sequence command ∧ bytes ≠ frame sequence command) ↔
      ∃ type, Torn sequence type bytes := by
  constructor
  · rintro ⟨command, hne, hbegins, hlt⟩
    exact ⟨_, torn_of_prefix_frame command hne hbegins hlt⟩
  · rintro ⟨type, h⟩
    obtain ⟨command, rfl, hbegins⟩ := h.exists_frame
    refine ⟨command, h.ne_nil, hbegins, fun heq => h.length_lt.ne ?_⟩
    rw [heq, length_frame]

end Frame

end MatchingEngine
