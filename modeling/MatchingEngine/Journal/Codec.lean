import MatchingEngine.Journal.Basic
import MatchingEngine.Data.Crc
import MatchingEngine.Data.PrefixDecoder

/-!
# Reading and writing frames

`frame` is the byte string of one record, written as the concatenation of its fields. The encoder
produces it, and the decoder accepts exactly the byte strings that begin with it.

## Main definitions

* `frame`: the bytes of a record.
* `HeaderOk`: the first half of a frame header is well formed and announces a record type.

## Main results

* `encodeRecord_eq`: what the encoder produces.
* `decodeRecordPrefix_frame`, `eq_frame_of_decodeRecordPrefix`: what the decoder accepts.
* `decodeRecordPrefix_take_frame`: a part of a frame is truncated input.
* `decodeRecordPrefix_append`, `prefixDecoder_record`: bytes behind a frame do not matter.
* `encodeRecord_decodeRecordPrefix`: the round trips of encoder and decoder.
-/

namespace MatchingEngine

open BigEndian

/-! ### Numbers in bytes -/

section Words

/-- The byte `k` places up in a word. -/
theorem toUInt8_shiftRight_u32 (value : UInt32) {shift : UInt32} {k : ℕ} (hk : k < 4)
    (hshift : shift.toNat = 8 * k) :
    (value >>> shift).toUInt8 = UInt8.ofNat (value.toNat / 256 ^ k) := by
  have hmod : 8 * k % 32 = 8 * k := Nat.mod_eq_of_lt (by omega)
  refine UInt8.toNat_inj.mp ?_
  rw [UInt32.toNat_toUInt8, UInt32.toNat_shiftRight, hshift, hmod, Nat.shiftRight_eq_div_pow,
    pow_mul, UInt8.toNat_ofNat', show 2 ^ 8 = 256 from rfl]

theorem toUInt8_shiftRight_u64 (value : UInt64) {shift : UInt64} {k : ℕ} (hk : k < 8)
    (hshift : shift.toNat = 8 * k) :
    (value >>> shift).toUInt8 = UInt8.ofNat (value.toNat / 256 ^ k) := by
  have hmod : 8 * k % 64 = 8 * k := Nat.mod_eq_of_lt (by omega)
  refine UInt8.toNat_inj.mp ?_
  rw [UInt64.toNat_toUInt8, UInt64.toNat_shiftRight, hshift, hmod, Nat.shiftRight_eq_div_pow,
    pow_mul, UInt8.toNat_ofNat', show 2 ^ 8 = 256 from rfl]

variable (bytes : List UInt8)

theorem appendU16_eq (value : UInt16) :
    appendU16 bytes value = bytes ++ toBytes 2 value.toNat := by
  have hhigh : (value >>> 8).toUInt8 = UInt8.ofNat (value.toNat / 256 ^ 1) := by
    refine UInt8.toNat_inj.mp ?_
    rw [UInt16.toNat_toUInt8, UInt16.toNat_shiftRight, UInt8.toNat_ofNat']
    exact congrArg (· % 2 ^ 8) (Nat.shiftRight_eq_div_pow _ 8)
  rw [appendU16, appendU8, appendU8, List.append_assoc, hhigh]
  simp only [toBytes, pow_zero, Nat.div_one, UInt8.ofNat_uInt16ToNat, List.cons_append,
    List.nil_append]

theorem appendU32_eq (value : UInt32) :
    appendU32 bytes value = bytes ++ toBytes 4 value.toNat := by
  simp only [appendU32, appendU8, List.foldl_cons, List.foldl_nil, List.append_assoc,
    List.cons_append, List.nil_append, toBytes, pow_zero, Nat.div_one, UInt8.ofNat_uInt32ToNat]
  rw [toUInt8_shiftRight_u32 value (k := 3) (by decide) rfl,
    toUInt8_shiftRight_u32 value (k := 2) (by decide) rfl,
    toUInt8_shiftRight_u32 value (k := 1) (by decide) rfl]

theorem appendU64_eq (value : UInt64) :
    appendU64 bytes value = bytes ++ toBytes 8 value.toNat := by
  simp only [appendU64, appendU8, List.foldl_cons, List.foldl_nil, List.append_assoc,
    List.cons_append, List.nil_append, toBytes, pow_zero, Nat.div_one, UInt8.ofNat_uInt64ToNat]
  rw [toUInt8_shiftRight_u64 value (k := 7) (by decide) rfl,
    toUInt8_shiftRight_u64 value (k := 6) (by decide) rfl,
    toUInt8_shiftRight_u64 value (k := 5) (by decide) rfl,
    toUInt8_shiftRight_u64 value (k := 4) (by decide) rfl,
    toUInt8_shiftRight_u64 value (k := 3) (by decide) rfl,
    toUInt8_shiftRight_u64 value (k := 2) (by decide) rfl,
    toUInt8_shiftRight_u64 value (k := 1) (by decide) rfl]

variable {bytes} {offset : ℕ}

theorem slice_one (h : offset < bytes.length) : bytes.slice offset 1 = [byteAt bytes offset] :=
  List.slice_eq_map_range h 0

/-- One step of a reading loop, as long as nothing is shifted out. -/
theorem shiftLeft_or {n b k : ℕ} (hn : (n + 1) * 256 ≤ 2 ^ k) (hb : b < 256) :
    (n <<< 8) % 2 ^ k ||| b = n * 256 + b := by
  rw [Nat.shiftLeft_eq, Nat.mod_eq_of_lt (by omega)]
  exact (Nat.mul_comm n 256 ▸ Nat.two_pow_add_eq_or_of_lt (i := 8) hb n).symm

theorem toNat_readU16 (h : offset + 2 ≤ bytes.length) :
    (readU16 bytes offset).toNat = ofBytes (bytes.slice offset 2) := by
  have hslice : bytes.slice offset 2 = [byteAt bytes offset, byteAt bytes (offset + 1)] :=
    List.slice_eq_map_range h 0
  have hhigh := (byteAt bytes offset).toNat_lt
  rw [hslice, readU16, UInt16.toNat_or, UInt16.toNat_shiftLeft, UInt8.toNat_toUInt16,
    UInt8.toNat_toUInt16]
  refine (shiftLeft_or (by omega) (byteAt bytes (offset + 1)).toNat_lt).trans ?_
  simp [ofBytes]

theorem toNat_readU32 (h : offset + 4 ≤ bytes.length) :
    (readU32 bytes offset).toNat = ofBytes (bytes.slice offset 4) := by
  have hread : readU32 bytes offset =
      (bytes.slice offset 4).foldl (fun (value : UInt32) b => (value <<< 8) ||| b.toUInt32) 0 := by
    rw [List.slice_eq_map_range h 0, List.foldl_map]
    rfl
  have hbound : ((0 : UInt32).toNat + 1) * 256 ^ (bytes.slice offset 4).length ≤ 2 ^ 32 := by
    rw [List.length_slice h]
    decide
  rw [hread, toNat_foldl UInt32.toNat _ (2 ^ 32) (fun v b hv => ?_) 0 _ hbound,
    UInt32.toNat_zero, Nat.zero_mul, Nat.zero_add]
  rw [UInt32.toNat_or, UInt32.toNat_shiftLeft, UInt8.toNat_toUInt32]
  exact shiftLeft_or hv b.toNat_lt

theorem toNat_readU64 (h : offset + 8 ≤ bytes.length) :
    (readU64 bytes offset).toNat = ofBytes (bytes.slice offset 8) := by
  have hread : readU64 bytes offset =
      (bytes.slice offset 8).foldl (fun (value : UInt64) b => (value <<< 8) ||| b.toUInt64) 0 := by
    rw [List.slice_eq_map_range h 0, List.foldl_map]
    rfl
  have hbound : ((0 : UInt64).toNat + 1) * 256 ^ (bytes.slice offset 8).length ≤ 2 ^ 64 := by
    rw [List.length_slice h]
    decide
  rw [hread, toNat_foldl UInt64.toNat _ (2 ^ 64) (fun v b hv => ?_) 0 _ hbound,
    UInt64.toNat_zero, Nat.zero_mul, Nat.zero_add]
  rw [UInt64.toNat_or, UInt64.toNat_shiftLeft, UInt8.toNat_toUInt64]
  exact shiftLeft_or hv b.toNat_lt

/-- Reading a number tells the bytes. -/
theorem slice_of_ofBytes {count n : ℕ} (h : offset + count ≤ bytes.length)
    (hn : n = ofBytes (bytes.slice offset count)) : bytes.slice offset count = toBytes count n := by
  have hslice := toBytes_ofBytes (bytes.slice offset count)
  rw [List.length_slice h, ← hn] at hslice
  exact hslice.symm

theorem slice_readU16 (h : offset + 2 ≤ bytes.length) :
    bytes.slice offset 2 = toBytes 2 (readU16 bytes offset).toNat :=
  slice_of_ofBytes h (toNat_readU16 h)

theorem slice_readU32 (h : offset + 4 ≤ bytes.length) :
    bytes.slice offset 4 = toBytes 4 (readU32 bytes offset).toNat :=
  slice_of_ofBytes h (toNat_readU32 h)

theorem slice_readU64 (h : offset + 8 ≤ bytes.length) :
    bytes.slice offset 8 = toBytes 8 (readU64 bytes offset).toNat :=
  slice_of_ofBytes h (toNat_readU64 h)

theorem readU16_of_slice {v : UInt16} (h : offset + 2 ≤ bytes.length)
    (hslice : bytes.slice offset 2 = toBytes 2 v.toNat) : readU16 bytes offset = v := by
  refine UInt16.toNat_inj.mp ?_
  rw [toNat_readU16 h, hslice, ofBytes_toBytes]
  exact Nat.mod_eq_of_lt v.toNat_lt

theorem readU32_of_slice {v : UInt32} (h : offset + 4 ≤ bytes.length)
    (hslice : bytes.slice offset 4 = toBytes 4 v.toNat) : readU32 bytes offset = v := by
  refine UInt32.toNat_inj.mp ?_
  rw [toNat_readU32 h, hslice, ofBytes_toBytes]
  exact Nat.mod_eq_of_lt v.toNat_lt

theorem readU64_of_slice {v : UInt64} (h : offset + 8 ≤ bytes.length)
    (hslice : bytes.slice offset 8 = toBytes 8 v.toNat) : readU64 bytes offset = v := by
  refine UInt64.toNat_inj.mp ?_
  rw [toNat_readU64 h, hslice, ofBytes_toBytes]
  exact Nat.mod_eq_of_lt v.toNat_lt

theorem startsWith_iff {magic : List UInt8} :
    startsWith bytes magic = true ↔ bytes.slice 0 magic.length = magic := by
  rw [startsWith, decide_eq_true_iff, List.slice, List.drop_zero]
  refine ⟨fun h => h.2, fun h => ⟨?_, h⟩⟩
  have hlength := congrArg List.length h
  rw [List.length_take] at hlength
  omega

theorem hasBytes_iff {count : ℕ} (h : offset ≤ bytes.length) :
    hasBytes bytes offset count = true ↔ offset + count ≤ bytes.length := by
  rw [hasBytes, decide_eq_true_iff]
  omega

end Words

/-! ### Frames -/

/-- The part of a frame header that its checksum covers. -/
def crcHeader (sequence : UInt64) (command : JournalCommand) : List UInt8 :=
  [journalRecordVersion] ++ [(recordTypeFor command).raw] ++ toBytes 2 0 ++
    toBytes 4 (expectedPayloadLength (recordTypeFor command)) ++ toBytes 8 sequence.toNat

/-- The checksum of a frame. -/
def checksum (header payload : List UInt8) : UInt32 :=
  ~~~(crc32cUpdate 0xFFFFFFFF (header ++ payload))

/-- The bytes of one record. -/
def frame (sequence : UInt64) (command : JournalCommand) : List UInt8 :=
  journalFrameMagic ++ crcHeader sequence command ++
    toBytes 4 (checksum (crcHeader sequence command) (encodePayload command)).toNat ++
    encodePayload command

@[simp] theorem length_crcHeader (sequence : UInt64) (command : JournalCommand) :
    (crcHeader sequence command).length = 16 := by
  simp [crcHeader]

@[simp] theorem length_encodePayload (command : JournalCommand) :
    (encodePayload command).length = expectedPayloadLength (recordTypeFor command) := by
  cases command <;> simp [encodePayload, appendU64_eq, appendU8, recordTypeFor,
    expectedPayloadLength, submitLimitOrderPayloadSize, cancelOrderPayloadSize]

theorem expectedPayloadLength_bounds (type : JournalRecordType) :
    8 ≤ expectedPayloadLength type ∧ expectedPayloadLength type ≤ 25 := by
  cases type <;> decide

theorem length_frame (sequence : UInt64) (command : JournalCommand) :
    (frame sequence command).length = 24 + expectedPayloadLength (recordTypeFor command) := by
  simp only [frame, journalFrameMagic, List.length_append, List.length_cons, List.length_nil,
    length_crcHeader, length_toBytes, length_encodePayload]

theorem length_frame_bounds (sequence : UInt64) (command : JournalCommand) :
    32 ≤ (frame sequence command).length ∧ (frame sequence command).length ≤ 49 := by
  have := expectedPayloadLength_bounds (recordTypeFor command)
  rw [length_frame]
  omega

theorem crc32cUpdate_append (state : UInt32) (bytes bytes' : List UInt8) :
    crc32cUpdate state (bytes ++ bytes') = crc32cUpdate (crc32cUpdate state bytes) bytes' :=
  List.foldl_append

/-- The checksum of a frame covers what `frame_crc` reads. -/
theorem frameCrc_eq (bytes : List UInt8) (payloadLength : ℕ) :
    frameCrc bytes payloadLength = checksum (bytes.slice 4 16) (bytes.slice 24 payloadLength) := by
  rw [checksum, crc32cUpdate_append]
  rfl

section Layout

variable {header crc : List UInt8} (hheader : header.length = 16) (hcrc : crc.length = 4)

include hheader

theorem slice_header (rest : List UInt8) :
    (journalFrameMagic ++ header ++ crc ++ rest).slice 4 16 = header := by
  rw [List.append_assoc]
  exact List.slice_middle rfl hheader

include hcrc

theorem slice_checksum (rest : List UInt8) :
    (journalFrameMagic ++ header ++ crc ++ rest).slice 20 4 = crc :=
  List.slice_middle (by rw [List.length_append, hheader]; rfl) hcrc

theorem slice_payload (payload rest : List UInt8) :
    (journalFrameMagic ++ header ++ crc ++ (payload ++ rest)).slice 24 payload.length =
      payload := by
  rw [← List.append_assoc]
  exact List.slice_middle (by rw [List.length_append, List.length_append, hheader, hcrc]; rfl) rfl

end Layout

/-- Overwriting the four bytes that were left free for the checksum. -/
theorem set_checksum {header : List UInt8} (h : header.length = checksumOffset)
    (payload : List UInt8) (crc : UInt32) :
    ((((header ++ toBytes 4 0 ++ payload).set checksumOffset (crc >>> 24).toUInt8).set
      (checksumOffset + 1) (crc >>> 16).toUInt8).set (checksumOffset + 2) (crc >>> 8).toUInt8).set
      (checksumOffset + 3) crc.toUInt8 = header ++ toBytes 4 crc.toNat ++ payload := by
  have hcrc : toBytes 4 crc.toNat =
      [(crc >>> 24).toUInt8, (crc >>> 16).toUInt8, (crc >>> 8).toUInt8, crc.toUInt8] :=
    (appendU32_eq [] crc).symm
  rw [hcrc, ← h]
  simp [toBytes]

/-- The encoder writes the frame of its record. -/
theorem encodeRecord_eq {sequence : JournalSequence} (h : sequence.value ≠ 0)
    (command : JournalCommand) :
    encodeRecord sequence command = .ok (frame sequence.value command) := by
  have hlength : (UInt32.ofNat (encodePayload command).length).toNat =
      expectedPayloadLength (recordTypeFor command) := by
    have := expectedPayloadLength_bounds (recordTypeFor command)
    rw [length_encodePayload, UInt32.toNat_ofNat', Nat.mod_eq_of_lt (by omega)]
  have hheader : (journalFrameMagic ++ crcHeader sequence.value command).length = 20 := by
    rw [List.length_append, length_crcHeader]
    rfl
  -- the bytes before the checksum is filled in
  have hbytes : appendU32 (appendU64 (appendU32 (appendU16 (appendU8 (appendU8 journalFrameMagic
        journalRecordVersion) (recordTypeFor command).raw) 0)
        (UInt32.ofNat (encodePayload command).length)) sequence.value) 0 =
      journalFrameMagic ++ crcHeader sequence.value command ++ toBytes 4 0 := by
    simp only [appendU8, appendU16_eq, appendU32_eq, appendU64_eq, hlength, crcHeader,
      List.append_assoc]
    rfl
  have hcrc : frameCrc (journalFrameMagic ++ crcHeader sequence.value command ++ toBytes 4 0 ++
        encodePayload command) (encodePayload command).length =
      checksum (crcHeader sequence.value command) (encodePayload command) := by
    have hpayload := slice_payload (length_crcHeader sequence.value command) (length_toBytes 4 0)
      (encodePayload command) []
    rw [List.append_nil] at hpayload
    rw [frameCrc_eq, hpayload, slice_header (length_crcHeader sequence.value command)]
  rw [encodeRecord, if_neg h]
  dsimp only
  rw [hbytes, hcrc, set_checksum hheader]
  rfl

/-! ### Decoding -/

/-- The part of a frame header up to the payload length is well formed. -/
structure HeaderOk (bytes : List UInt8) (type : JournalRecordType) : Prop where
  length_le : 24 ≤ bytes.length
  magic_eq : bytes.slice 0 4 = journalFrameMagic
  version_eq : bytes.slice 4 1 = [journalRecordVersion]
  type_eq : bytes.slice 5 1 = [type.raw]
  flags_eq : bytes.slice 6 2 = toBytes 2 0
  payloadLength_eq : bytes.slice 8 4 = toBytes 4 (expectedPayloadLength type)

theorem decodeRecordType_eq_ok_iff {raw : UInt8} {type : JournalRecordType} :
    decodeRecordType raw = .ok type ↔ raw = type.raw := by
  unfold decodeRecordType
  constructor
  · intro h
    split_ifs at h with h1 h2
    · cases h
      exact h1
    · cases h
      exact h2
  · rintro rfl
    cases type <;> rfl

theorem decodeRecordType_ne_truncated (raw : UInt8) :
    decodeRecordType raw ≠ .error .truncatedInput := by
  unfold decodeRecordType
  split_ifs <;> simp

section HeaderOk

variable {bytes : List UInt8} {type : JournalRecordType}

/-- The decoder behind a well-formed first part of the header. -/
theorem HeaderOk.decodeRecordPrefix_eq (h : HeaderOk bytes type) : decodeRecordPrefix bytes =
    if bytes.length < 24 + expectedPayloadLength type then .error .truncatedInput
    else if readU64 bytes 12 = 0 then .error .invalidJournalSequence
    else if readU32 bytes 20 ≠ frameCrc bytes (expectedPayloadLength type) then
      .error .checksumMismatch
    else .ok ⟨⟨⟨readU64 bytes 12⟩, decodeCommand bytes type⟩, 24 + expectedPayloadLength type⟩ := by
  have hlen := h.length_le
  have hbounds := expectedPayloadLength_bounds type
  have hmagic : startsWith bytes journalFrameMagic = true := startsWith_iff.mpr h.magic_eq
  have hversion : byteAt bytes recordVersionOffset = journalRecordVersion :=
    List.singleton_inj.mp ((slice_one (Nat.lt_of_lt_of_le (by decide) hlen)).symm.trans
      h.version_eq)
  have htype : byteAt bytes recordTypeOffset = type.raw :=
    List.singleton_inj.mp ((slice_one (Nat.lt_of_lt_of_le (by decide) hlen)).symm.trans h.type_eq)
  have hflags : readU16 bytes flagsOffset = 0 :=
    readU16_of_slice (Nat.le_trans (by decide) hlen) h.flags_eq
  have hlength : (readU32 bytes payloadLengthOffset).toNat = expectedPayloadLength type := by
    rw [toNat_readU32 (Nat.le_trans (by decide) hlen), payloadLengthOffset, h.payloadLength_eq,
      ofBytes_toBytes, Nat.mod_eq_of_lt (by omega)]
  have hmaximum : ¬ (expectedPayloadLength type > journalMaximumPayloadLength ∨
      expectedPayloadLength type ≠ expectedPayloadLength type) := by
    rw [not_or, not_not]
    exact ⟨by rw [journalMaximumPayloadLength]; omega, rfl⟩
  rw [decodeRecordPrefix, if_neg (by rw [journalFrameHeaderSize]; omega),
    if_neg (not_not.mpr hmagic), if_neg (not_not.mpr hversion), htype,
    decodeRecordType_eq_ok_iff.mpr rfl]
  dsimp only
  rw [if_neg (not_not.mpr hflags), hlength, if_neg hmaximum]
  refine ite_congr ?_ (fun _ => rfl) fun _ => rfl
  rw [hasBytes_iff (by rw [payloadOffset]; omega), payloadOffset, not_le]

/-- The error that the decoder reports for a malformed first part of a header. -/
def headerError (bytes : List UInt8) : JournalCodecError :=
  if ¬ startsWith bytes journalFrameMagic then .invalidFrameMagic
  else if byteAt bytes recordVersionOffset ≠ journalRecordVersion then .unsupportedRecordVersion
  else
    match decodeRecordType (byteAt bytes recordTypeOffset) with
    | .error e => e
    | .ok _ => if readU16 bytes flagsOffset ≠ 0 then .invalidFlags else .invalidPayloadLength

theorem headerError_ne_truncated (bytes : List UInt8) : headerError bytes ≠ .truncatedInput := by
  rw [headerError]
  split
  · decide
  · split
    · decide
    · split
      · next e he => exact fun h => decodeRecordType_ne_truncated _ (h ▸ he)
      · split <;> decide

theorem decodeRecordPrefix_of_not_headerOk (h : ∀ type, ¬ HeaderOk bytes type)
    (hlen : 24 ≤ bytes.length) : decodeRecordPrefix bytes = .error (headerError bytes) := by
  rw [decodeRecordPrefix, if_neg (by rw [journalFrameHeaderSize]; omega), headerError]
  by_cases hmagic : startsWith bytes journalFrameMagic = true
  case neg => rw [if_pos hmagic, if_pos hmagic]
  rw [if_neg (not_not.mpr hmagic), if_neg (not_not.mpr hmagic)]
  by_cases hversion : byteAt bytes recordVersionOffset = journalRecordVersion
  case neg => rw [if_pos hversion, if_pos hversion]
  rw [if_neg (not_not.mpr hversion), if_neg (not_not.mpr hversion)]
  cases htype : decodeRecordType (byteAt bytes recordTypeOffset) with
  | error e => rfl
  | ok type =>
    dsimp only
    by_cases hflags : readU16 bytes flagsOffset = 0
    case neg => rw [if_pos hflags, if_pos hflags]
    rw [if_neg (not_not.mpr hflags), if_neg (not_not.mpr hflags)]
    refine if_pos (Or.inr fun hlength => h type ⟨hlen, startsWith_iff.mp hmagic, ?_, ?_, ?_, ?_⟩)
    · exact (slice_one (Nat.lt_of_lt_of_le (by decide) hlen)).trans
        (congrArg (fun b => [b]) hversion)
    · exact (slice_one (Nat.lt_of_lt_of_le (by decide) hlen)).trans
        (congrArg (fun b => [b]) (decodeRecordType_eq_ok_iff.mp htype))
    · exact (slice_readU16 (Nat.le_trans (by decide) hlen)).trans
        (congrArg (fun v : UInt16 => toBytes 2 v.toNat) hflags)
    · exact (slice_readU32 (Nat.le_trans (by decide) hlen)).trans (congrArg (toBytes 4) hlength)

end HeaderOk

section Frame

variable (sequence : UInt64) (command : JournalCommand) (rest : List UInt8)

theorem headerOk_frame : HeaderOk (frame sequence command ++ rest) (recordTypeFor command) where
  length_le := by
    have := length_frame_bounds sequence command
    rw [List.length_append]
    omega
  magic_eq := rfl
  version_eq := rfl
  type_eq := rfl
  flags_eq := rfl
  payloadLength_eq := rfl

theorem frame_append : frame sequence command ++ rest =
    journalFrameMagic ++ crcHeader sequence command ++
      toBytes 4 (checksum (crcHeader sequence command) (encodePayload command)).toNat ++
      (encodePayload command ++ rest) := by
  rw [frame, List.append_assoc _ (encodePayload command)]

theorem slice_sequence_frame :
    (frame sequence command ++ rest).slice 12 8 = toBytes 8 sequence.toNat := rfl

theorem slice_payload_frame :
    (frame sequence command ++ rest).slice 24 (expectedPayloadLength (recordTypeFor command)) =
      encodePayload command := by
  rw [frame_append, ← length_encodePayload]
  exact slice_payload (length_crcHeader ..) (length_toBytes ..) _ _

theorem frameCrc_frame :
    frameCrc (frame sequence command ++ rest) (expectedPayloadLength (recordTypeFor command)) =
      checksum (crcHeader sequence command) (encodePayload command) := by
  rw [frameCrc_eq, slice_payload_frame, frame_append, slice_header (length_crcHeader ..)]

theorem readU64_sequence_frame : readU64 (frame sequence command ++ rest) 12 = sequence := by
  have := (headerOk_frame sequence command rest).length_le
  exact readU64_of_slice (by omega) (slice_sequence_frame ..)

theorem readU32_checksum_frame : readU32 (frame sequence command ++ rest) 20 =
    checksum (crcHeader sequence command) (encodePayload command) := by
  have := (headerOk_frame sequence command rest).length_le
  refine readU32_of_slice (by omega) ?_
  rw [frame_append, slice_checksum (length_crcHeader ..) (length_toBytes ..)]

end Frame

/-! ### Payloads -/

theorem toBytes_u64_inj {v v' : UInt64} : toBytes 8 v.toNat = toBytes 8 v'.toNat ↔ v = v' :=
  ⟨fun h => UInt64.toNat_inj.mp (toBytes_injective v.toNat_lt v'.toNat_lt h), fun h => h ▸ rfl⟩

theorem encodePayload_injective {command command' : JournalCommand}
    (htype : recordTypeFor command = recordTypeFor command')
    (h : encodePayload command = encodePayload command') : command = command' := by
  cases command with
  | submitLimitOrder order =>
    cases command' with
    | cancelOrder orderId => cases htype
    | submitLimitOrder order' =>
      simp only [encodePayload, appendU64_eq, appendU8, List.nil_append] at h
      obtain ⟨h, hquantity⟩ := List.append_inj' h (by simp)
      obtain ⟨h, hprice⟩ := List.append_inj' h (by simp)
      obtain ⟨hid, hside⟩ := List.append_inj' h rfl
      rw [toBytes_u64_inj] at hid hprice hquantity
      rw [List.singleton_inj] at hside
      obtain ⟨⟨_⟩, ⟨_⟩, ⟨_⟩, ⟨_⟩⟩ := order
      obtain ⟨⟨_⟩, ⟨_⟩, ⟨_⟩, ⟨_⟩⟩ := order'
      simp_all
  | cancelOrder orderId =>
    cases command' with
    | submitLimitOrder order' => cases htype
    | cancelOrder orderId' =>
      simp only [encodePayload, appendU64_eq, List.nil_append, toBytes_u64_inj] at h
      exact congrArg (fun v => JournalCommand.cancelOrder ⟨v⟩) h

section Payload

variable {bytes : List UInt8} {type : JournalRecordType}

@[simp] theorem recordTypeFor_decodeCommand :
    recordTypeFor (decodeCommand bytes type) = type := by
  cases type <;> rfl

/-- Decoding a payload loses nothing. -/
theorem encodePayload_decodeCommand (h : 24 + expectedPayloadLength type ≤ bytes.length) :
    encodePayload (decodeCommand bytes type) = bytes.slice 24 (expectedPayloadLength type) := by
  cases type with
  | submitLimitOrder =>
    replace h : 49 ≤ bytes.length := h
    have hslice : bytes.slice 24 (8 + 1 + 8 + 8) = bytes.slice 24 8 ++ bytes.slice 32 1 ++
        bytes.slice 33 8 ++ bytes.slice 41 8 := by
      rw [List.slice_add, List.slice_add, List.slice_add]
    rw [expectedPayloadLength, submitLimitOrderPayloadSize, hslice, slice_readU64 (by omega),
      slice_one (by omega), slice_readU64 (by omega), slice_readU64 (by omega)]
    simp only [decodeCommand, encodePayload, appendU64_eq, appendU8, List.nil_append]
    rfl
  | cancelOrder =>
    replace h : 32 ≤ bytes.length := h
    rw [expectedPayloadLength, cancelOrderPayloadSize, slice_readU64 (by omega)]
    simp only [decodeCommand, encodePayload, appendU64_eq, List.nil_append]
    rfl

end Payload

/-! ### What the decoder accepts -/

/-- The decoder reads the frame of a record, whatever follows it. -/
theorem decodeRecordPrefix_frame {sequence : UInt64} (h : sequence ≠ 0) (command : JournalCommand)
    (rest : List UInt8) : decodeRecordPrefix (frame sequence command ++ rest) =
      .ok ⟨⟨⟨sequence⟩, command⟩, (frame sequence command).length⟩ := by
  have hlen : 24 + expectedPayloadLength (recordTypeFor command) ≤
      (frame sequence command ++ rest).length := by
    rw [List.length_append, length_frame]
    omega
  have hcommand : decodeCommand (frame sequence command ++ rest) (recordTypeFor command) =
      command := by
    refine encodePayload_injective recordTypeFor_decodeCommand ?_
    rw [encodePayload_decodeCommand hlen, slice_payload_frame]
  rw [(headerOk_frame sequence command rest).decodeRecordPrefix_eq, if_neg (by omega),
    readU64_sequence_frame, if_neg h, readU32_checksum_frame, frameCrc_frame,
    if_neg (not_not.mpr rfl), hcommand, length_frame]

/-- A header and a payload with the right checksum are a frame. -/
theorem HeaderOk.take_eq_frame {bytes : List UInt8} {type : JournalRecordType}
    (h : HeaderOk bytes type) (hlen : 24 + expectedPayloadLength type ≤ bytes.length)
    (hcrc : readU32 bytes 20 = frameCrc bytes (expectedPayloadLength type)) :
    bytes.take (24 + expectedPayloadLength type) =
      frame (readU64 bytes 12) (decodeCommand bytes type) := by
  have hheader : bytes.slice 4 16 = crcHeader (readU64 bytes 12) (decodeCommand bytes type) := by
    have hslice : bytes.slice 4 (1 + 1 + 2 + 4 + 8) = bytes.slice 4 1 ++ bytes.slice 5 1 ++
        bytes.slice 6 2 ++ bytes.slice 8 4 ++ bytes.slice 12 8 := by
      rw [List.slice_add, List.slice_add, List.slice_add, List.slice_add]
    rw [show 16 = 1 + 1 + 2 + 4 + 8 from rfl, hslice, h.version_eq, h.type_eq, h.flags_eq,
      h.payloadLength_eq, slice_readU64 (by omega), crcHeader, recordTypeFor_decodeCommand]
  have hpayload := encodePayload_decodeCommand hlen
  have hchecksum : bytes.slice 20 4 = toBytes 4
      (checksum (bytes.slice 4 16) (bytes.slice 24 (expectedPayloadLength type))).toNat := by
    rw [slice_readU32 (by omega), hcrc, frameCrc_eq]
  have htake : bytes.take (4 + 16 + 4 + expectedPayloadLength type) = bytes.slice 0 4 ++
      bytes.slice 4 16 ++ bytes.slice 20 4 ++ bytes.slice 24 (expectedPayloadLength type) := by
    rw [List.take_add_slice, List.take_add_slice, List.take_add_slice]
    rfl
  rw [show 24 = 4 + 16 + 4 from rfl, htake, hchecksum, h.magic_eq, hheader, ← hpayload, frame]

/-- Every way in which decoding can end. -/
inductive Decoding (bytes : List UInt8) : Except JournalCodecError DecodedJournalRecord → Prop
  | complete (sequence : UInt64) (command : JournalCommand) (rest : List UInt8)
      (hsequence : sequence ≠ 0) (h : bytes = frame sequence command ++ rest) :
      Decoding bytes (.ok ⟨⟨⟨sequence⟩, command⟩, (frame sequence command).length⟩)
  | short (h : bytes.length < 24) : Decoding bytes (.error .truncatedInput)
  | cut (type : JournalRecordType) (h : HeaderOk bytes type)
      (hlen : bytes.length < 24 + expectedPayloadLength type) :
      Decoding bytes (.error .truncatedInput)
  | invalid (e : JournalCodecError) (he : e ≠ .truncatedInput) : Decoding bytes (.error e)

theorem decodeRecordPrefix_decoding (bytes : List UInt8) :
    Decoding bytes (decodeRecordPrefix bytes) := by
  by_cases hshort : bytes.length < 24
  · have hdecode : decodeRecordPrefix bytes = .error .truncatedInput := if_pos hshort
    exact hdecode ▸ .short hshort
  by_cases hheader : ∃ type, HeaderOk bytes type
  · obtain ⟨type, h⟩ := hheader
    rw [h.decodeRecordPrefix_eq]
    split_ifs with hlen hsequence hcrc
    · exact .cut type h hlen
    · exact .invalid _ (by decide)
    · exact .invalid _ (by decide)
    · have htake := h.take_eq_frame (by omega) (not_not.mp hcrc)
      have hlength : (frame (readU64 bytes 12) (decodeCommand bytes type)).length =
          24 + expectedPayloadLength type := by
        rw [length_frame, recordTypeFor_decodeCommand]
      have hcomplete := Decoding.complete _ _ (bytes.drop (24 + expectedPayloadLength type))
        hsequence (htake ▸ (List.take_append_drop ..).symm)
      rwa [hlength] at hcomplete
  · rw [decodeRecordPrefix_of_not_headerOk (not_exists.mp hheader) (by omega)]
    exact .invalid _ (headerError_ne_truncated bytes)

/-- What the decoder accepts begins with the frame of the record that it returns. -/
theorem eq_frame_of_decodeRecordPrefix {bytes : List UInt8} {d : DecodedJournalRecord}
    (h : decodeRecordPrefix bytes = .ok d) : d.record.sequence.value ≠ 0 ∧
      d.bytesConsumed = (frame d.record.sequence.value d.record.command).length ∧
      bytes = frame d.record.sequence.value d.record.command ++ bytes.drop d.bytesConsumed := by
  have hspec := decodeRecordPrefix_decoding bytes
  rw [h] at hspec
  cases hspec with
  | complete sequence command rest hsequence hbytes =>
    refine ⟨hsequence, rfl, ?_⟩
    dsimp only
    rw [hbytes, List.drop_left]

/-- Truncated input is shorter than the longest frame. -/
theorem length_lt_of_truncated {bytes : List UInt8}
    (h : decodeRecordPrefix bytes = .error .truncatedInput) : bytes.length < 49 := by
  have hspec := decodeRecordPrefix_decoding bytes
  rw [h] at hspec
  cases hspec with
  | short hlen => omega
  | cut type _ hlen =>
    have := expectedPayloadLength_bounds type
    omega
  | invalid _ he => exact absurd rfl he

/-! ### What the decoder reads -/

/-- Two byte strings agree in their first `n` bytes. -/
def AgreeTo (n : ℕ) (bytes bytes' : List UInt8) : Prop :=
  n ≤ bytes.length ∧ n ≤ bytes'.length ∧
    ∀ offset count, offset + count ≤ n → bytes'.slice offset count = bytes.slice offset count

theorem agreeTo_take {bytes : List UInt8} {n m : ℕ} (hm : m ≤ n) (hlen : m ≤ bytes.length) :
    AgreeTo m bytes (bytes.take n) :=
  ⟨hlen, by rw [List.length_take]; omega, fun _ _ h => List.slice_take_of_le (by omega)⟩

theorem agreeTo_append (bytes rest : List UInt8) :
    AgreeTo bytes.length bytes (bytes ++ rest) :=
  ⟨le_rfl, by rw [List.length_append]; omega, fun _ _ h => List.slice_append_of_le h⟩

section AgreeTo

variable {n offset : ℕ} {bytes bytes' : List UInt8}

theorem AgreeTo.mono {m : ℕ} (h : AgreeTo n bytes bytes') (hm : m ≤ n) : AgreeTo m bytes bytes' :=
  ⟨hm.trans h.1, hm.trans h.2.1, fun _ _ ho => h.2.2 _ _ (ho.trans hm)⟩

theorem AgreeTo.byteAt_eq (h : AgreeTo n bytes bytes') (ho : offset + 1 ≤ n) :
    byteAt bytes' offset = byteAt bytes offset := by
  have hslice := h.2.2 offset 1 ho
  rwa [slice_one (ho.trans h.2.1), slice_one (ho.trans h.1), List.singleton_inj] at hslice

theorem AgreeTo.readU16_eq (h : AgreeTo n bytes bytes') (ho : offset + 2 ≤ n) :
    readU16 bytes' offset = readU16 bytes offset :=
  readU16_of_slice (ho.trans h.2.1) ((h.2.2 _ _ ho).trans (slice_readU16 (ho.trans h.1)))

theorem AgreeTo.readU32_eq (h : AgreeTo n bytes bytes') (ho : offset + 4 ≤ n) :
    readU32 bytes' offset = readU32 bytes offset :=
  readU32_of_slice (ho.trans h.2.1) ((h.2.2 _ _ ho).trans (slice_readU32 (ho.trans h.1)))

theorem AgreeTo.readU64_eq (h : AgreeTo n bytes bytes') (ho : offset + 8 ≤ n) :
    readU64 bytes' offset = readU64 bytes offset :=
  readU64_of_slice (ho.trans h.2.1) ((h.2.2 _ _ ho).trans (slice_readU64 (ho.trans h.1)))

theorem AgreeTo.startsWith_eq (h : AgreeTo n bytes bytes') {magic : List UInt8}
    (hm : magic.length ≤ n) : startsWith bytes' magic = startsWith bytes magic := by
  rw [Bool.eq_iff_iff, startsWith_iff, startsWith_iff, h.2.2 0 magic.length (by omega)]

theorem AgreeTo.headerOk (h : AgreeTo 24 bytes bytes') {type : JournalRecordType}
    (hheader : HeaderOk bytes type) : HeaderOk bytes' type where
  length_le := h.2.1
  magic_eq := (h.2.2 0 4 (by decide)).trans hheader.magic_eq
  version_eq := (h.2.2 4 1 (by decide)).trans hheader.version_eq
  type_eq := (h.2.2 5 1 (by decide)).trans hheader.type_eq
  flags_eq := (h.2.2 6 2 (by decide)).trans hheader.flags_eq
  payloadLength_eq := (h.2.2 8 4 (by decide)).trans hheader.payloadLength_eq

theorem AgreeTo.headerError_eq (h : AgreeTo 24 bytes bytes') :
    headerError bytes' = headerError bytes := by
  rw [headerError, headerError, h.startsWith_eq (by decide), h.byteAt_eq (by decide),
    h.byteAt_eq (by decide), h.readU16_eq (by decide)]

/-- A frame with a well-formed first part of the header is decoded by its own bytes alone. -/
theorem AgreeTo.decodeRecordPrefix_of_headerOk {type : JournalRecordType}
    (h : AgreeTo (24 + expectedPayloadLength type) bytes bytes') (hheader : HeaderOk bytes type) :
    decodeRecordPrefix bytes' = decodeRecordPrefix bytes := by
  have hheader' := (h.mono (Nat.le_add_right _ _)).headerOk hheader
  have hcrc : frameCrc bytes' (expectedPayloadLength type) =
      frameCrc bytes (expectedPayloadLength type) := by
    rw [frameCrc_eq, frameCrc_eq, h.2.2 4 16 (by omega), h.2.2 24 _ le_rfl]
  have hcommand : decodeCommand bytes' type = decodeCommand bytes type := by
    refine encodePayload_injective (by simp only [recordTypeFor_decodeCommand]) ?_
    rw [encodePayload_decodeCommand h.1, encodePayload_decodeCommand h.2.1, h.2.2 24 _ le_rfl]
  rw [hheader'.decodeRecordPrefix_eq, hheader.decodeRecordPrefix_eq, hcrc, hcommand,
    h.readU64_eq (by omega), h.readU32_eq (by omega), if_neg (Nat.not_lt.mpr h.2.1),
    if_neg (Nat.not_lt.mpr h.1)]

/-- Bytes behind a complete or an invalid frame do not matter. -/
theorem decodeRecordPrefix_append (rest : List UInt8)
    (h : decodeRecordPrefix bytes ≠ .error .truncatedInput) :
    decodeRecordPrefix (bytes ++ rest) = decodeRecordPrefix bytes := by
  have hlen : 24 ≤ bytes.length := Nat.le_of_not_lt fun hshort => h (if_pos hshort)
  have hagree := agreeTo_append bytes rest
  by_cases hheader : ∃ type, HeaderOk bytes type
  · obtain ⟨type, hheader⟩ := hheader
    refine (hagree.mono ?_).decodeRecordPrefix_of_headerOk hheader
    refine Nat.le_of_not_lt fun hcut => h ?_
    rw [hheader.decodeRecordPrefix_eq, if_pos hcut]
  · have hno := not_exists.mp hheader
    have hagree' : AgreeTo 24 (bytes ++ rest) bytes := by
      have hagree := hagree.mono hlen
      exact ⟨hagree.2.1, hagree.1, fun o c hoc => (hagree.2.2 o c hoc).symm⟩
    rw [decodeRecordPrefix_of_not_headerOk hno hlen, decodeRecordPrefix_of_not_headerOk
      (fun type hheader' => hno type (hagree'.headerOk hheader')) (hagree.mono hlen).2.1,
      (hagree.mono hlen).headerError_eq]

end AgreeTo

/-- The decoder of records may be called with a part of the bytes. -/
theorem prefixDecoder_record :
    PrefixDecoder decodeRecordPrefix .truncatedInput DecodedJournalRecord.bytesConsumed where
  append_eq _ rest h := decodeRecordPrefix_append rest h
  consumed_pos _ d h := by
    rw [(eq_frame_of_decodeRecordPrefix h).2.1]
    exact lt_of_lt_of_le (by decide) (length_frame_bounds _ _).1
  consumed_le _ d h := by
    obtain ⟨-, hconsumed, hbytes⟩ := eq_frame_of_decodeRecordPrefix h
    rw [hbytes, hconsumed, List.length_append]
    exact Nat.le_add_right _ _

/-- A window that holds the longest frame is enough. -/
theorem decodeRecordPrefix_take {m : ℕ} (hm : 49 ≤ m) (bytes : List UInt8) :
    decodeRecordPrefix (bytes.take m) = decodeRecordPrefix bytes :=
  prefixDecoder_record.decode_take (fun _ h => (length_lt_of_truncated h).trans_le hm) bytes

/-- A part of a frame is truncated input. -/
theorem decodeRecordPrefix_take_frame (sequence : UInt64) (command : JournalCommand) {n : ℕ}
    (hn : n < (frame sequence command).length) :
    decodeRecordPrefix ((frame sequence command).take n) = .error .truncatedInput := by
  have hlen : ((frame sequence command).take n).length = n := by
    rw [List.length_take]
    omega
  by_cases hshort : n < 24
  · exact if_pos (hlen.trans_lt hshort)
  · have hheader := headerOk_frame sequence command []
    rw [List.append_nil] at hheader
    have hagree := agreeTo_take (n := n) (by omega : 24 ≤ n) hheader.length_le
    rw [(hagree.headerOk hheader).decodeRecordPrefix_eq, hlen]
    exact if_pos (length_frame sequence command ▸ hn)

/-! ### Round trips -/

/-- The decoder reads back what the encoder has written, whatever follows it, and what it accepts is
what the encoder writes for the record that it returns. So no record has two encodings. -/
theorem encodeRecord_decodeRecordPrefix :
    (∀ (sequence : JournalSequence) (command : JournalCommand) (rest : List UInt8),
      sequence.value ≠ 0 → ∃ bytes, encodeRecord sequence command = .ok bytes ∧
        decodeRecordPrefix (bytes ++ rest) = .ok ⟨⟨sequence, command⟩, bytes.length⟩) ∧
    (∀ (bytes : List UInt8) (d : DecodedJournalRecord), decodeRecordPrefix bytes = .ok d →
      d.record.sequence.value ≠ 0 ∧ d.bytesConsumed ≤ bytes.length ∧
        encodeRecord d.record.sequence d.record.command = .ok (bytes.take d.bytesConsumed)) ∧
    ∀ (bytes bytes' : List UInt8) (d d' : DecodedJournalRecord), decodeRecordPrefix bytes = .ok d →
      decodeRecordPrefix bytes' = .ok d' → d.record = d'.record →
        bytes.take d.bytesConsumed = bytes'.take d'.bytesConsumed := by
  have hencode {bytes : List UInt8} {d : DecodedJournalRecord}
      (h : decodeRecordPrefix bytes = .ok d) : d.record.sequence.value ≠ 0 ∧
        d.bytesConsumed ≤ bytes.length ∧
        encodeRecord d.record.sequence d.record.command = .ok (bytes.take d.bytesConsumed) := by
    obtain ⟨hsequence, hconsumed, hbytes⟩ := eq_frame_of_decodeRecordPrefix h
    refine ⟨hsequence, ?_, ?_⟩
    · rw [hbytes, hconsumed, List.length_append]
      exact Nat.le_add_right _ _
    · rw [encodeRecord_eq hsequence, hbytes, hconsumed, List.take_left]
  refine ⟨fun sequence command rest h => ?_, fun bytes d h => hencode h, ?_⟩
  · exact ⟨_, encodeRecord_eq h command, decodeRecordPrefix_frame h command rest⟩
  · intro bytes bytes' d d' h h' hrecord
    have hsame := (hencode h).2.2
    rw [hrecord, (hencode h').2.2] at hsame
    exact (Except.ok.inj hsame).symm

end MatchingEngine
