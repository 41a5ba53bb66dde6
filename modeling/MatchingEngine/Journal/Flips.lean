import MatchingEngine.Data.CrcDistance
import MatchingEngine.Journal.Checksum
import MatchingEngine.Journal.Torn
import Mathlib.Data.List.Iterate

/-!
# Flipped bits

A journal in which one, two or three bits are flipped, wherever they are, is reported as invalid.
The checksum finds three flipped bits in what it covers and in itself, because the polynomial of
Castagnoli has an even number of terms and a large order. And three flipped bits do not turn a frame
of one type into one of the other type, because the types differ in two bits and so do the lengths
of their payloads. With four flipped bits that can happen: a cancellation then is the beginning of
a submission, and at the end of a journal it is taken for an interrupted append.

## Main definitions

* `Flipped`: a few bits of a journal are flipped.

## Main results

* `Sealed.eq_of_distance_le`: frames with right checksums do not differ in three bits or fewer.
* `decodeRecordPrefix_flipped`: a frame with flipped bits is reported.
* `Flipped.invalidJournal`: a journal with flipped bits has a wrong header or a wrong frame.
* `modify_cancel`: with four flipped bits a cancellation is the beginning of a submission.
-/

namespace MatchingEngine

open BigEndian Crc

/-! ### The checksum -/

/-- The powers of `X` below the number of bits that a checksum covers are not one. -/
theorem iterate_shift_reflectedPolynomial_ne (k : ℕ) (hpos : 0 < k) (hlt : k < 360) :
    (shift reflectedPolynomial.toBitVec)^[k] one ≠ one := by
  have horbit : one ∉ List.iterate (shift reflectedPolynomial.toBitVec)
      (shift reflectedPolynomial.toBitVec one) 359 := by
    decide +kernel
  intro heq
  refine horbit (List.mem_iterate.mpr ⟨k - 1, by omega, ?_⟩)
  rw [← Function.iterate_succ_apply, Nat.succ_eq_add_one, Nat.sub_add_cancel hpos, heq]

/-- Messages that a checksum covers are equal if they and their checksums differ in at most three
bits. -/
theorem eq_of_crc32cUpdate_distance {c : UInt32} {bytes bytes' : List UInt8}
    (hlen : bytes.length = bytes'.length) (hfit : bytes.length ≤ 41)
    (h : distance bytes bytes' +
      weight (crc32cUpdate c bytes ^^^ crc32cUpdate c bytes').toBitVec ≤ 3) : bytes = bytes' := by
  rw [UInt32.toBitVec_xor, toBitVec_crc32cUpdate, toBitVec_crc32cUpdate] at h
  exact eq_of_distance_le (by decide) lowFirst_reflectedPolynomial (by decide) (by decide)
    iterate_shift_reflectedPolynomial_ne c.toBitVec hlen (by omega) h

theorem distance_checksum (header payload header' payload' : List UInt8) :
    distance (toBytes 4 (checksum header payload).toNat)
        (toBytes 4 (checksum header' payload').toNat) =
      weight (crc32cUpdate 0xFFFFFFFF (header ++ payload) ^^^
        crc32cUpdate 0xFFFFFFFF (header' ++ payload')).toBitVec := by
  rw [checksum, checksum, ← UInt32.toNat_toBitVec, ← UInt32.toNat_toBitVec]
  refine (distance_toBytes_toNat (n := 4) _ _).trans (congrArg weight ?_)
  rw [UInt32.toBitVec_not, UInt32.toBitVec_not, UInt32.toBitVec_xor, ← BitVec.not_xor_left,
    ← BitVec.not_xor_right, BitVec.not_not]

/-! ### Frames -/

section Frame

variable {bytes bytes' : List UInt8} {payloadLength : ℕ}

theorem Sealed.eq_append (h : Sealed bytes payloadLength) :
    bytes = bytes.slice 0 4 ++ bytes.slice 4 16 ++ bytes.slice 20 4 ++
      bytes.slice 24 payloadLength := by
  calc
    bytes = bytes.take (24 + payloadLength) := (List.take_of_length_le h.length_eq.le).symm
    _ = bytes.take 24 ++ _ := List.take_add_slice bytes 24 _
    _ = bytes.take 20 ++ _ ++ _ := congrArg (· ++ _) (List.take_add_slice bytes 20 4)
    _ = bytes.take 4 ++ _ ++ _ ++ _ := congrArg (· ++ _ ++ _) (List.take_add_slice bytes 4 16)

/-- Frames with right checksums are equal if they differ in at most three bits. -/
theorem Sealed.eq_of_distance_le (h : Sealed bytes payloadLength)
    (h' : Sealed bytes' payloadLength) (hfit : payloadLength ≤ 25)
    (hdistance : distance bytes bytes' ≤ 3) : bytes = bytes' := by
  have hlength := h.length_eq
  have hlength' := h'.length_eq
  have hheader : (bytes.slice 4 16).length = (bytes'.slice 4 16).length := by
    rw [List.length_slice (by omega), List.length_slice (by omega)]
  have hlen : (bytes.slice 4 16 ++ bytes.slice 24 payloadLength).length = 16 + payloadLength := by
    rw [List.length_append, List.length_slice (by omega), List.length_slice (by omega)]
  have hlen' : (bytes'.slice 4 16 ++ bytes'.slice 24 payloadLength).length =
      16 + payloadLength := by
    rw [List.length_append, List.length_slice (by omega), List.length_slice (by omega)]
  -- the parts of the frames differ in as many bits as the frames
  have hparts : distance (bytes.slice 4 16 ++ bytes.slice 24 payloadLength)
      (bytes'.slice 4 16 ++ bytes'.slice 24 payloadLength) +
        distance (bytes.slice 20 4) (bytes'.slice 20 4) ≤ distance bytes bytes' := by
    rw [distance_append hheader]
    have hmagic := distance_take_add_drop bytes bytes' 4
    have hcovered := distance_drop bytes bytes' 4 16 20 rfl
    have hchecksum := distance_drop bytes bytes' 20 4 24 rfl
    have hpayload := distance_drop bytes bytes' 24 payloadLength _ rfl
    omega
  rw [h.checksum_eq, h'.checksum_eq, distance_checksum] at hparts
  have hmessage := eq_of_crc32cUpdate_distance (hlen.trans hlen'.symm) (by omega)
    (hparts.trans hdistance)
  obtain ⟨hcrc, hpayload⟩ := List.append_inj hmessage hheader
  rw [h.eq_append, h'.eq_append, h.magic_eq, h'.magic_eq, h.checksum_eq, h'.checksum_eq, hcrc,
    hpayload]

variable {sequence : UInt64} {command : JournalCommand} {rest : List UInt8}

/-- With at most three flipped bits a frame has its type, or no type. -/
theorem type_eq_of_distance {type : JournalRecordType}
    (hlen : bytes.length = (frame sequence command).length)
    (hdistance : distance (frame sequence command) bytes ≤ 3) (h : HeaderOk (bytes ++ rest) type) :
    type = recordTypeFor command := by
  have hframe := headerOk_frame sequence command []
  have hbounds := length_frame_bounds sequence command
  rw [List.append_nil] at hframe
  have htype := h.type_eq
  have hpayload := h.payloadLength_eq
  rw [List.slice_append_of_le (by omega)] at htype hpayload
  have hbefore := distance_take_add_drop (frame sequence command) bytes 5
  have hraw := distance_drop (frame sequence command) bytes 5 1 6 rfl
  have hflags := distance_drop (frame sequence command) bytes 6 2 8 rfl
  have hcount := distance_drop (frame sequence command) bytes 8 4 12 rfl
  rw [hframe.type_eq, htype] at hraw
  rw [hframe.payloadLength_eq, hpayload] at hcount
  have hboth : distance [(recordTypeFor command).raw] [type.raw] +
      distance (toBytes 4 (expectedPayloadLength (recordTypeFor command)))
        (toBytes 4 (expectedPayloadLength type)) ≤ 3 := by
    omega
  generalize recordTypeFor command = type' at hboth ⊢
  revert hboth
  cases type <;> cases type' <;> decide

/-- A frame with at most three flipped bits is reported, and not as truncated. -/
theorem decodeRecordPrefix_flipped (hlen : bytes.length = (frame sequence command).length)
    (hne : bytes ≠ frame sequence command)
    (hdistance : distance (frame sequence command) bytes ≤ 3) (rest : List UInt8) :
    ∃ e, e ≠ .truncatedInput ∧ decodeRecordPrefix (bytes ++ rest) = .error e := by
  have hbounds := length_frame_bounds sequence command
  have hspec := decodeRecordPrefix_decoding (bytes ++ rest)
  generalize hresult : decodeRecordPrefix _ = result at hspec ⊢
  cases hspec with
  | complete sequence' command' rest' _ hbytes =>
    have htype : recordTypeFor command' = recordTypeFor command :=
      type_eq_of_distance hlen hdistance (hbytes ▸ headerOk_frame sequence' command' rest')
    have hframe : bytes = frame sequence' command' :=
      List.append_inj_left hbytes (by rw [hlen, length_frame, length_frame, htype])
    have hsealed := sealed_frame sequence' command'
    rw [← hframe, htype] at hsealed
    have hfit := (expectedPayloadLength_bounds (recordTypeFor command)).2
    exact absurd ((sealed_frame sequence command).eq_of_distance_le hsealed hfit hdistance) hne.symm
  | short h =>
    rw [List.length_append] at h
    omega
  | cut type h hcut =>
    rw [type_eq_of_distance hlen hdistance h, List.length_append, hlen, length_frame] at hcut
    omega
  | invalid e he => exact ⟨e, he, rfl⟩

/-- The two bits in which the types differ and the two bits in which the lengths of the payloads
differ turn the header of a cancellation into that of a submission. -/
theorem modify_frameHeader (sequence : UInt64) (rest : List UInt8) :
    ((frameHeader sequence .cancelOrder ++ rest).modify 5 (· ^^^ 3)).modify 11 (· ^^^ 17) =
      frameHeader sequence .submitLimitOrder ++ rest := by
  have hcancel : toBytes 4 (expectedPayloadLength .cancelOrder) = [0, 0, 0, 8] := rfl
  have hsubmit : toBytes 4 (expectedPayloadLength .submitLimitOrder) = [0, 0, 0, 25] := rfl
  rw [frameHeader, frameHeader, hcancel, hsubmit]
  rfl

theorem distance_frameHeader (sequence : UInt64) :
    distance (frameHeader sequence .cancelOrder) (frameHeader sequence .submitLimitOrder) = 4 := by
  rw [frameHeader, frameHeader, distance_append rfl, distance_append (by rfl),
    distance_self (toBytes 8 _)]
  decide

/-- With four flipped bits a cancellation is the beginning of a submission. -/
theorem modify_cancel (sequence : UInt64) (id : OrderId) :
    distance (frame sequence (.cancelOrder id))
        (((frame sequence (.cancelOrder id)).modify 5 (· ^^^ 3)).modify 11 (· ^^^ 17)) = 4 ∧
      decodeRecordPrefix
        (((frame sequence (.cancelOrder id)).modify 5 (· ^^^ 3)).modify 11 (· ^^^ 17)) =
          .error .truncatedInput := by
  have hlen := length_frame sequence (.cancelOrder id)
  obtain ⟨rest, hframe⟩ : ∃ rest, frame sequence (.cancelOrder id) =
      frameHeader sequence .cancelOrder ++ rest := ⟨_, frame_eq_frameHeader ..⟩
  rw [hframe, List.length_append, length_frameHeader] at hlen
  rw [hframe, modify_frameHeader]
  have hlength : (frameHeader sequence .submitLimitOrder ++ rest).length =
      24 + expectedPayloadLength .cancelOrder := by
    rw [List.length_append, length_frameHeader, hlen, recordTypeFor]
  have hheader : HeaderOk (frameHeader sequence .submitLimitOrder ++ rest) .submitLimitOrder :=
    ⟨hlength.ge.trans' (Nat.le_add_right _ _), rfl, rfl, rfl, rfl, rfl⟩
  constructor
  · rw [distance_append (by rw [length_frameHeader, length_frameHeader]), distance_self,
      distance_frameHeader]
  · rw [hheader.decodeRecordPrefix_eq, if_pos]
    rw [hlength]
    exact Nat.add_lt_add_left (by decide : cancelOrderPayloadSize < submitLimitOrderPayloadSize) _

end Frame

/-! ### Journals -/

/-- The content of a journal in which one, two or three bits are flipped. -/
structure Flipped (commands : List JournalCommand) (bytes : List UInt8) : Prop where
  length_eq : bytes.length = (journal commands).length
  ne : bytes ≠ journal commands
  distance_le : distance (journal commands) bytes ≤ 3

/-- Bytes that are as long as a concatenation are one. -/
theorem exists_append_of_length {bytes a b : List UInt8} (h : bytes.length = (a ++ b).length) :
    ∃ a' b', bytes = a' ++ b' ∧ a'.length = a.length ∧ b'.length = b.length := by
  rw [List.length_append] at h
  refine ⟨bytes.take a.length, bytes.drop a.length, (List.take_append_drop ..).symm,
    List.length_take_of_le (by omega), ?_⟩
  rw [List.length_drop]
  omega

/-- Behind the frames before the first one with flipped bits there are bytes that are no tail and no
frame. -/
theorem exists_invalid_of_distance {start : ℕ} {commands : List JournalCommand}
    {bytes : List UInt8} (hlen : bytes.length = (frames start commands).length)
    (hne : bytes ≠ frames start commands) (hdistance : distance (frames start commands) bytes ≤ 3) :
    ∃ before rest e, bytes = frames start before ++ rest ∧ e ≠ .truncatedInput ∧
      decodeRecordPrefix rest = .error e := by
  induction commands generalizing start bytes with
  | nil => exact absurd (List.length_eq_zero_iff.mp hlen) hne
  | cons command commands ih =>
    obtain ⟨first, later, rfl, hfirst, hlater⟩ := exists_append_of_length hlen
    rw [frames, distance_append hfirst.symm] at hdistance
    by_cases heq : first = frame (UInt64.ofNat start) command
    · subst heq
      obtain ⟨before, rest, e, hbytes, he, hdecode⟩ :=
        ih hlater (fun heq => hne (congrArg _ heq)) ((Nat.le_add_left _ _).trans hdistance)
      refine ⟨command :: before, rest, e, ?_, he, hdecode⟩
      rw [frames, List.append_assoc, hbytes]
    · obtain ⟨e, he, hdecode⟩ := decodeRecordPrefix_flipped hfirst heq
        ((Nat.le_add_right _ _).trans hdistance) later
      exact ⟨[], _, e, rfl, he, hdecode⟩

theorem Flipped.invalidJournal {commands : List JournalCommand} {bytes : List UInt8}
    (h : Flipped commands bytes) : InvalidJournal bytes := by
  obtain ⟨hlen, hne, hdistance⟩ := h
  obtain ⟨header, later, rfl, hheader, hlater⟩ := exists_append_of_length hlen
  have hsize : header.length = journalFileHeaderSize := hheader.trans length_encodeFileHeader
  by_cases heq : header = encodeFileHeader
  case neg =>
    refine .header fun htake => heq ?_
    rwa [List.take_left' hsize] at htake
  subst heq
  rw [journal, distance_append rfl] at hdistance
  obtain ⟨before, rest, e, hbytes, he, hdecode⟩ := exists_invalid_of_distance hlater
    (fun heq => hne (congrArg _ heq)) ((Nat.le_add_left _ _).trans hdistance)
  refine .record before rest e ?_ he hdecode
  rw [journal, List.append_assoc, hbytes]

end MatchingEngine
