import MatchingEngine.Data.Crc
import MatchingEngine.Journal.Image

/-!
# Corrupted frames

A frame in which one byte has another value, or up to four consecutive bytes of the payload, is
reported as invalid. It is never taken for a frame, because the checksum covers the header and the
payload, and it is never taken for the beginning of one, because the type and the length of the
payload are written in different bytes.

## Main definitions

* `Damage`: where a frame is damaged, and by how much.
* `InvalidJournal`: the content of a file that a reader reports as invalid.

## Main results

* `decodeRecordPrefix_overwrite`: a damaged frame is reported.
* `Damaged.invalidJournal`: a damaged journal has a damaged header or a damaged frame.
-/

namespace MatchingEngine

open BigEndian

/-! ### The checksum -/

theorem toBitVec_crc32cBit (c : UInt32) :
    (crc32cBit c).toBitVec = Crc.shift reflectedPolynomial.toBitVec c.toBitVec := by
  have hmask : (0 - (c &&& 1)).toBitVec = -(c.toBitVec &&& 1#32) := by
    rw [UInt32.toBitVec_sub, UInt32.toBitVec_and]
    exact BitVec.zero_sub _
  have hshift : (c >>> 1).toBitVec = c.toBitVec >>> 1 := by
    rw [UInt32.toBitVec_shiftRight]
    rfl
  rw [crc32cBit, UInt32.toBitVec_xor, UInt32.toBitVec_and, hmask, hshift, Crc.shift,
    BitVec.and_one_eq_setWidth_ofBool_getLsbD]
  cases c.toBitVec.getLsbD 0
  · exact BitVec.xor_zero
  · rfl

theorem toBitVec_crc32cUpdate (c : UInt32) (bytes : List UInt8) :
    (crc32cUpdate c bytes).toBitVec =
      Crc.update reflectedPolynomial.toBitVec c.toBitVec bytes := by
  induction bytes generalizing c with
  | nil => rfl
  | cons b bytes ih =>
    have hfeed : (crc32cBit^[8] (c ^^^ b.toUInt32)).toBitVec =
        Crc.feed reflectedPolynomial.toBitVec c.toBitVec b :=
      Function.Semiconj.iterate_right (f := UInt32.toBitVec) toBitVec_crc32cBit 8 _
    rw [crc32cUpdate, List.foldl_cons, ← crc32cUpdate, ih, hfeed, Crc.update_cons]

/-- What is overwritten within what the checksum covers changes the checksum or nothing. -/
theorem overwrite_eq_of_crc32cUpdate {c : UInt32} {bytes burst : List UInt8} {offset : ℕ}
    (hlen : offset + burst.length ≤ bytes.length) (hfit : burst.length ≤ 4)
    (h : crc32cUpdate c (bytes.overwrite offset burst) = crc32cUpdate c bytes) :
    bytes.overwrite offset burst = bytes := by
  have hbits := congrArg UInt32.toBitVec h
  rw [toBitVec_crc32cUpdate, toBitVec_crc32cUpdate] at hbits
  exact Crc.overwrite_eq_of_update (by decide) (by decide) hlen (by omega) hbits

/-! ### Damaged frames -/

/-- A damage that is found: one byte of the frame, or up to four bytes of the payload. -/
def Damage (offset count : ℕ) : Prop := count ≤ 1 ∨ payloadOffset ≤ offset ∧ count ≤ 4

section Frame

variable {sequence sequence' : UInt64} {command command' : JournalCommand} {offset : ℕ}
  {burst rest : List UInt8}

/-- A damaged frame has its type, or no type. -/
theorem type_eq_of_overwrite {type : JournalRecordType} (hdamage : Damage offset burst.length)
    (hlen : offset + burst.length ≤ (frame sequence command).length)
    (h : HeaderOk ((frame sequence command).overwrite offset burst ++ rest) type) :
    type = recordTypeFor command := by
  have hframe := headerOk_frame sequence command []
  have hbounds := length_frame_bounds sequence command
  have hlength := List.length_overwrite hlen
  rw [List.append_nil] at hframe
  have htype := h.type_eq
  have hpayload := h.payloadLength_eq
  rw [List.slice_append_of_le (by omega)] at htype hpayload
  by_cases hoffset : offset < 8
  · -- the length of the payload is as it was
    have hcount : offset + burst.length ≤ 8 := by
      rcases hdamage with h | h
      · omega
      · exact absurd (hoffset.trans_le' h.1) (by decide)
    rw [List.slice_overwrite_after hlen hcount, hframe.payloadLength_eq] at hpayload
    generalize recordTypeFor command = type' at hpayload ⊢
    revert hpayload
    cases type <;> cases type' <;> decide
  · -- the byte of the type is as it was
    rw [List.slice_overwrite_before hlen (by omega), hframe.type_eq] at htype
    generalize recordTypeFor command = type' at htype ⊢
    revert htype
    cases type <;> cases type' <;> decide

/-- The magic and the checksum are right. -/
structure Sealed (bytes : List UInt8) (payloadLength : ℕ) : Prop where
  length_eq : bytes.length = 24 + payloadLength
  magic_eq : bytes.slice 0 4 = journalFrameMagic
  checksum_eq : bytes.slice 20 4 =
    toBytes 4 (checksum (bytes.slice 4 16) (bytes.slice 24 payloadLength)).toNat

theorem sealed_frame (sequence : UInt64) (command : JournalCommand) :
    Sealed (frame sequence command) (expectedPayloadLength (recordTypeFor command)) := by
  have hpayload := slice_payload_frame sequence command []
  have hheader : (frame sequence command).slice 4 16 = crcHeader sequence command :=
    slice_header (length_crcHeader ..) _
  rw [List.append_nil] at hpayload
  refine ⟨length_frame sequence command, ?_, ?_⟩
  · have hmagic := (headerOk_frame sequence command []).magic_eq
    rwa [List.append_nil] at hmagic
  · rw [hpayload, hheader]
    exact slice_checksum (length_crcHeader ..) (length_toBytes ..) _

variable {bytes bytes' : List UInt8} {payloadLength : ℕ}

/-- Equal checksums are checksums of messages with equal remainders. -/
theorem Sealed.crc32cUpdate_eq (h : Sealed bytes payloadLength) (h' : Sealed bytes' payloadLength)
    (heq : bytes'.slice 20 4 = bytes.slice 20 4) :
    crc32cUpdate 0xFFFFFFFF (bytes'.slice 4 16 ++ bytes'.slice 24 payloadLength) =
      crc32cUpdate 0xFFFFFFFF (bytes.slice 4 16 ++ bytes.slice 24 payloadLength) := by
  rw [h.checksum_eq, h'.checksum_eq] at heq
  have hchecksum := toBytes_injective (UInt32.toNat_lt _) (UInt32.toNat_lt _) heq
  exact UInt32.not_inj.mp (UInt32.toNat_inj.mp hchecksum)

/-- A damaged header has another checksum. -/
theorem Sealed.overwrite_header (h : Sealed bytes payloadLength)
    (h' : Sealed (bytes.overwrite offset burst) payloadLength) (hfit : burst.length ≤ 4)
    (hle : 4 ≤ offset) (hlt : offset + burst.length ≤ 20) :
    bytes.overwrite offset burst = bytes := by
  have hlength := h.length_eq
  have hslice : (bytes.slice 4 16).length = 16 := List.length_slice (by omega)
  have hupdate := h.crc32cUpdate_eq h' (List.slice_overwrite_after (by omega) (by omega))
  rw [List.slice_overwrite_within (by omega) hle (by omega),
    List.slice_overwrite_after (o := 24) (by omega) (by omega),
    ← List.overwrite_append_of_le (by omega)] at hupdate
  have hmessage := overwrite_eq_of_crc32cUpdate (by rw [List.length_append]; omega) hfit hupdate
  rw [List.overwrite_append_of_le (by omega)] at hmessage
  refine List.overwrite_eq_of_slice (o := 4) (n := 16) (by omega) hle (by omega) ?_
  rw [List.slice_overwrite_within (by omega) hle (by omega)]
  exact List.append_cancel_right hmessage

/-- A damaged payload has another checksum. -/
theorem Sealed.overwrite_payload (h : Sealed bytes payloadLength)
    (h' : Sealed (bytes.overwrite offset burst) payloadLength) (hfit : burst.length ≤ 4)
    (hle : 24 ≤ offset) (hlen : offset + burst.length ≤ bytes.length) :
    bytes.overwrite offset burst = bytes := by
  have hlength := h.length_eq
  have hheader : (bytes.slice 4 16).length = 16 := List.length_slice (by omega)
  have hpayload : (bytes.slice 24 payloadLength).length = payloadLength :=
    List.length_slice (by omega)
  have hupdate := h.crc32cUpdate_eq h' (List.slice_overwrite_before hlen (by omega))
  rw [List.slice_overwrite_before hlen (by omega),
    List.slice_overwrite_within (by omega) hle (by omega),
    ← List.overwrite_append_right] at hupdate
  have hmessage := overwrite_eq_of_crc32cUpdate (by rw [List.length_append]; omega) hfit hupdate
  rw [List.overwrite_append_right] at hmessage
  refine List.overwrite_eq_of_slice (o := 24) (n := payloadLength) (by omega) hle (by omega) ?_
  rw [List.slice_overwrite_within (by omega) hle (by omega)]
  exact List.append_cancel_left hmessage

/-- A damage leaves a frame with a wrong magic or a wrong checksum. -/
theorem Sealed.overwrite_eq (h : Sealed bytes payloadLength)
    (h' : Sealed (bytes.overwrite offset burst) payloadLength)
    (hdamage : Damage offset burst.length) (hlen : offset + burst.length ≤ bytes.length) :
    bytes.overwrite offset burst = bytes := by
  have hlength := h.length_eq
  have hfit : burst.length ≤ 4 := by
    rcases hdamage with h | h <;> omega
  obtain hmagic | ⟨hle, hheader⟩ | ⟨hle, hcrc⟩ | hle : offset + burst.length ≤ 4 ∨
      4 ≤ offset ∧ offset + burst.length ≤ 20 ∨ 20 ≤ offset ∧ offset + burst.length ≤ 24 ∨
      24 ≤ offset := by
    rcases hdamage with h | ⟨h, -⟩
    · omega
    · exact Or.inr (Or.inr (Or.inr h))
  · exact List.overwrite_eq_of_slice (by omega) (Nat.zero_le _) hmagic
      (h'.magic_eq.trans h.magic_eq.symm)
  · exact h.overwrite_header h' hfit hle hheader
  · -- the checksum is that of the same message
    refine List.overwrite_eq_of_slice (o := 20) (n := 4) (by omega) hle hcrc ?_
    rw [h'.checksum_eq, h.checksum_eq, List.slice_overwrite_before hlen (by omega),
      List.slice_overwrite_after hlen hcrc]
  · exact h.overwrite_payload h' hfit hle hlen

/-- A damaged frame is reported, and not as truncated. -/
theorem decodeRecordPrefix_overwrite (hdamage : Damage offset burst.length)
    (hlen : offset + burst.length ≤ (frame sequence command).length)
    (hne : (frame sequence command).overwrite offset burst ≠ frame sequence command)
    (rest : List UInt8) : ∃ e, e ≠ .truncatedInput ∧
      decodeRecordPrefix ((frame sequence command).overwrite offset burst ++ rest) = .error e := by
  have hlength := List.length_overwrite hlen
  have hbounds := length_frame_bounds sequence command
  have hspec := decodeRecordPrefix_decoding
    ((frame sequence command).overwrite offset burst ++ rest)
  generalize hresult : decodeRecordPrefix _ = result at hspec ⊢
  cases hspec with
  | complete sequence' command' rest' _ hbytes =>
    have htype : recordTypeFor command' = recordTypeFor command :=
      type_eq_of_overwrite hdamage hlen (hbytes ▸ headerOk_frame sequence' command' rest')
    have hframe : (frame sequence command).overwrite offset burst = frame sequence' command' :=
      List.append_inj_left hbytes (by rw [hlength, length_frame, length_frame, htype])
    have hsealed := sealed_frame sequence' command'
    rw [← hframe, htype] at hsealed
    exact absurd ((sealed_frame sequence command).overwrite_eq hsealed hdamage hlen) hne
  | short h =>
    rw [List.length_append] at h
    omega
  | cut type h hcut =>
    rw [type_eq_of_overwrite hdamage hlen h, List.length_append, hlength, length_frame] at hcut
    omega
  | invalid e he => exact ⟨e, he, rfl⟩

end Frame

/-! ### Damaged journals -/

/-- The content of a journal with another value for one byte, or for up to four consecutive bytes of
the payload of one frame. -/
inductive Damaged (commands : List JournalCommand) : List UInt8 → Prop
  | byte (offset : ℕ) (value : UInt8) (hlt : offset < (journal commands).length)
      (hne : (journal commands).set offset value ≠ journal commands) :
      Damaged commands ((journal commands).set offset value)
  | payload (before after : List JournalCommand) (command : JournalCommand) (offset : ℕ)
      (burst : List UInt8) (hcommands : commands = before ++ command :: after)
      (hfit : burst.length ≤ 4) (hlen : offset + burst.length ≤ (encodePayload command).length)
      (hne : (journal commands).overwrite ((journal before).length + (payloadOffset + offset)) burst
        ≠ journal commands) :
      Damaged commands
        ((journal commands).overwrite ((journal before).length + (payloadOffset + offset)) burst)

theorem exists_frame_of_lt {start : ℕ} {commands : List JournalCommand} {offset : ℕ}
    (h : offset < (frames start commands).length) :
    ∃ before command after, commands = before ++ command :: after ∧
      ∃ k < (frame (UInt64.ofNat (start + before.length)) command).length,
        offset = (frames start before).length + k := by
  induction commands generalizing start offset with
  | nil => exact absurd h (Nat.not_lt_zero _)
  | cons command commands ih =>
    by_cases hfirst : offset < (frame (UInt64.ofNat start) command).length
    · exact ⟨[], command, commands, rfl, offset, hfirst, (Nat.zero_add _).symm⟩
    · rw [frames, List.length_append] at h
      obtain ⟨before, command', after, rfl, k, hk, hoffset⟩ :=
        @ih (start + 1) (offset - (frame (UInt64.ofNat start) command).length) (by omega)
      refine ⟨command :: before, command', after, rfl, k, ?_, ?_⟩
      · rwa [List.length_cons, Nat.add_comm before.length, ← Nat.add_assoc]
      · rw [frames, List.length_append]
        omega

/-- A damaged frame in the middle of a journal. -/
theorem journal_overwrite_frame {before after : List JournalCommand} {command : JournalCommand}
    {offset : ℕ} {burst : List UInt8}
    (hlen : offset + burst.length ≤
      (frame (UInt64.ofNat (before.length + 1)) command).length) :
    (journal (before ++ command :: after)).overwrite ((journal before).length + offset) burst =
      journal before ++
        ((frame (UInt64.ofNat (before.length + 1)) command).overwrite offset burst ++
          frames (before.length + 2) after) := by
  rw [journal_append, List.overwrite_append_right, frames, List.overwrite_append_of_le hlen]

/-- The content of a file with a wrong file header, or with bytes behind some frames that are no
tail and no frame. -/
inductive InvalidJournal (bytes : List UInt8) : Prop
  | header (hheader : bytes.take journalFileHeaderSize ≠ encodeFileHeader)
  | record (before : List JournalCommand) (rest : List UInt8) (e : JournalCodecError)
      (hbytes : bytes = journal before ++ rest) (he : e ≠ .truncatedInput)
      (hdecode : decodeRecordPrefix rest = .error e)

/-- Behind the frames before a damaged one there are bytes that are no tail and no frame. -/
theorem invalidJournal_of_overwrite {before after : List JournalCommand} {command : JournalCommand}
    {offset : ℕ} {burst : List UInt8} (hdamage : Damage offset burst.length)
    (hlen : offset + burst.length ≤ (frame (UInt64.ofNat (before.length + 1)) command).length)
    (hne : (journal (before ++ command :: after)).overwrite ((journal before).length + offset) burst
      ≠ journal (before ++ command :: after)) :
    InvalidJournal ((journal (before ++ command :: after)).overwrite
      ((journal before).length + offset) burst) := by
  rw [journal_overwrite_frame hlen] at hne ⊢
  have hframe : (frame (UInt64.ofNat (before.length + 1)) command).overwrite offset burst ≠
      frame (UInt64.ofNat (before.length + 1)) command := by
    intro heq
    rw [heq, journal_append, frames] at hne
    exact hne rfl
  obtain ⟨e, he, hdecode⟩ :=
    decodeRecordPrefix_overwrite hdamage hlen hframe (frames (before.length + 2) after)
  exact .record before _ e rfl he hdecode

theorem set_eq_overwrite {bytes : List UInt8} {offset : ℕ} (h : offset < bytes.length)
    (value : UInt8) : bytes.set offset value = bytes.overwrite offset [value] := by
  rw [List.set_eq_take_append_cons_drop, if_pos h, List.overwrite, List.append_assoc]
  rfl

theorem Damaged.invalidJournal {commands : List JournalCommand} {bytes : List UInt8}
    (h : Damaged commands bytes) : InvalidJournal bytes := by
  have hheader := length_encodeFileHeader
  cases h with
  | payload before after command offset burst hcommands hfit hlen hne =>
    subst hcommands
    rw [length_encodePayload] at hlen
    have hoffset : payloadOffset = 24 := rfl
    have hlen' : payloadOffset + offset + burst.length ≤
        (frame (UInt64.ofNat (before.length + 1)) command).length := by
      rw [length_frame]
      omega
    exact invalidJournal_of_overwrite (Or.inr ⟨Nat.le_add_right _ _, hfit⟩) hlen' hne
  | byte offset value hlt hne =>
    rw [set_eq_overwrite hlt] at hne ⊢
    by_cases hoffset : offset < encodeFileHeader.length
    · rw [journal, List.overwrite_append_of_le hoffset] at hne ⊢
      have hlength : (encodeFileHeader.overwrite offset [value]).length = journalFileHeaderSize :=
        (List.length_overwrite hoffset).trans hheader
      refine .header fun htake => ?_
      rw [List.take_left' hlength] at htake
      rw [htake] at hne
      exact hne rfl
    · rw [journal, List.length_append] at hlt
      obtain ⟨before, command, after, rfl, k, hk, hfound⟩ :=
        @exists_frame_of_lt 1 commands (offset - encodeFileHeader.length) (by omega)
      rw [Nat.add_comm 1] at hk
      obtain rfl : offset = (journal before).length + k := by
        rw [journal, List.length_append]
        omega
      exact invalidJournal_of_overwrite (Or.inl le_rfl) hk hne

end MatchingEngine
