import MatchingEngine.Journal.Codec

/-!
# What a journal file looks like

A journal that records some commands is the file header followed by their frames, numbered from
`1`. What an interrupted append leaves behind is a `Tail`: nothing, or input that the decoder
reports as truncated. A byte string is a journal with a tail in at most one way, because no frame is
the beginning of another.

## Main definitions

* `frames`, `records`: the frames and the records of commands with consecutive sequences.
* `journal`: the content of a journal file.
* `Tail`.
* `Decomposes`: header, encoded records and tail.

## Main results

* `eq_encodeFileHeader_of_decodeFileHeader`: the decoder accepts one file header.
* `frames_append_tail_unique`: commands and tail are determined by the bytes.
* `exists_tail_of_take_frames`: a part of some frames is a number of frames and a tail.
-/

namespace MatchingEngine

open BigEndian

/-! ### The file header -/

theorem length_encodeFileHeader : encodeFileHeader.length = 16 := by
  decide

theorem encodeFileHeader_eq : encodeFileHeader =
    journalFileMagic ++ toBytes 2 journalFormatVersion.toNat ++
      toBytes 2 matchingRulesVersion.toNat ++ toBytes 4 0 := by
  decide

theorem decodeFileHeader_encodeFileHeader : decodeFileHeader encodeFileHeader =
    .ok ⟨journalFormatVersion, matchingRulesVersion⟩ := by
  decide

/-- The only file header that is accepted is the one that is written. -/
theorem eq_encodeFileHeader_of_decodeFileHeader {bytes : List UInt8} {header : JournalFileHeader}
    (h : decodeFileHeader bytes = .ok header) : bytes = encodeFileHeader := by
  rw [decodeFileHeader] at h
  split_ifs at h with hshort hlong hmagic hformat hrules hreserved
  have hlen : bytes.length = 16 := by
    rw [journalFileHeaderSize] at hshort hlong
    omega
  have hbytes : bytes = bytes.slice 0 8 ++ bytes.slice 8 2 ++ bytes.slice 10 2 ++
      bytes.slice 12 4 := by
    have htake : bytes.take (8 + 2 + 2 + 4) = bytes.slice 0 8 ++ bytes.slice 8 2 ++
        bytes.slice 10 2 ++ bytes.slice 12 4 := by
      rw [List.take_add_slice, List.take_add_slice, List.take_add_slice]
      rfl
    rwa [List.take_of_length_le (by omega)] at htake
  rw [hbytes, encodeFileHeader_eq, slice_readU16 (by omega), slice_readU16 (by omega),
    slice_readU32 (by omega), ← not_not.mp hformat, ← not_not.mp hrules]
  have hmagic' : bytes.slice 0 8 = journalFileMagic := startsWith_iff.mp hmagic
  have hreserved' : readU32 bytes 12 = 0 := not_not.mp hreserved
  rw [hmagic', hreserved']
  rfl

/-! ### Frames -/

/-- The frames of some commands with consecutive sequences. -/
def frames (start : ℕ) : List JournalCommand → List UInt8
  | [] => []
  | command :: commands => frame (UInt64.ofNat start) command ++ frames (start + 1) commands

/-- The records of some commands with consecutive sequences. -/
def records (start : ℕ) : List JournalCommand → List JournalRecord
  | [] => []
  | command :: commands => ⟨⟨UInt64.ofNat start⟩, command⟩ :: records (start + 1) commands

/-- The content of a journal file. -/
def journal (commands : List JournalCommand) : List UInt8 := encodeFileHeader ++ frames 1 commands

/-- What an interrupted append may leave behind the last frame. -/
def Tail (tail : List UInt8) : Prop :=
  tail = [] ∨ decodeRecordPrefix tail = .error .truncatedInput

theorem Tail.length_lt {tail : List UInt8} (h : Tail tail) : tail.length < 49 := by
  rcases h with rfl | h
  · decide
  · exact length_lt_of_truncated h

section Frames

variable {start : ℕ}

theorem frames_append (start : ℕ) (commands commands' : List JournalCommand) :
    frames start (commands ++ commands') =
      frames start commands ++ frames (start + commands.length) commands' := by
  induction commands generalizing start with
  | nil => rfl
  | cons command commands ih =>
    rw [List.cons_append, frames, frames, ih, List.append_assoc, List.length_cons, Nat.add_assoc,
      Nat.add_comm 1]

theorem journal_append (commands commands' : List JournalCommand) :
    journal (commands ++ commands') =
      journal commands ++ frames (commands.length + 1) commands' := by
  rw [journal, journal, frames_append, List.append_assoc, Nat.add_comm 1]

theorem length_le_length_frames (start : ℕ) (commands : List JournalCommand) :
    32 * commands.length ≤ (frames start commands).length := by
  induction commands generalizing start with
  | nil => exact Nat.zero_le _
  | cons command commands ih =>
    have := length_frame_bounds (UInt64.ofNat start) command
    have := ih (start + 1)
    rw [frames, List.length_append, List.length_cons]
    omega

theorem ofNat_ne_zero (hpos : 0 < start) (hlt : start < 2 ^ 64) : UInt64.ofNat start ≠ 0 := by
  intro h
  have htoNat := congrArg UInt64.toNat h
  rw [UInt64.toNat_ofNat', UInt64.toNat_zero, Nat.mod_eq_of_lt hlt] at htoNat
  omega

theorem decodeRecordPrefix_frames_cons (hpos : 0 < start) (hlt : start < 2 ^ 64)
    (command : JournalCommand) (commands : List JournalCommand) (tail : List UInt8) :
    decodeRecordPrefix (frames start (command :: commands) ++ tail) =
      .ok ⟨⟨⟨UInt64.ofNat start⟩, command⟩, (frame (UInt64.ofNat start) command).length⟩ := by
  rw [frames, List.append_assoc]
  exact decodeRecordPrefix_frame (ofNat_ne_zero hpos hlt) command _

/-- Frames are not a tail. -/
theorem not_tail_frames_cons (hpos : 0 < start) (hlt : start < 2 ^ 64) (command : JournalCommand)
    (commands : List JournalCommand) (tail : List UInt8) :
    ¬ Tail (frames start (command :: commands) ++ tail) := by
  rintro (h | h)
  · have hlength := length_frame_bounds (UInt64.ofNat start) command
    have hnil := congrArg List.length h
    simp only [frames, List.length_append, List.length_nil] at hnil
    omega
  · rw [decodeRecordPrefix_frames_cons hpos hlt] at h
    cases h

/-- Commands and tail are determined by the bytes. -/
theorem frames_append_tail_unique {commands commands' : List JournalCommand}
    {tail tail' : List UInt8} (hpos : 0 < start) (hlt : start + commands.length < 2 ^ 64)
    (hlt' : start + commands'.length < 2 ^ 64) (ht : Tail tail) (ht' : Tail tail')
    (h : frames start commands ++ tail = frames start commands' ++ tail') :
    commands = commands' ∧ tail = tail' := by
  induction commands generalizing start commands' with
  | nil =>
    obtain _ | ⟨command', commands'⟩ := commands'
    · exact ⟨rfl, h⟩
    · rw [frames, List.nil_append] at h
      exact absurd (h ▸ ht) (not_tail_frames_cons hpos (by omega) _ _ _)
  | cons command commands ih =>
    obtain _ | ⟨command', commands'⟩ := commands'
    · have h : frames start (command :: commands) ++ tail = tail' := h
      exact absurd (h ▸ ht') (not_tail_frames_cons hpos (by omega) _ _ _)
    · have hdecode := congrArg decodeRecordPrefix h
      rw [decodeRecordPrefix_frames_cons hpos (by omega),
        decodeRecordPrefix_frames_cons hpos (by omega)] at hdecode
      obtain rfl : command = command' := by
        injection hdecode with hdecode
        exact congrArg (fun d => d.record.command) hdecode
      rw [frames, frames, List.append_assoc, List.append_assoc] at h
      rw [List.length_cons] at hlt hlt'
      obtain ⟨rfl, htail⟩ := ih (Nat.succ_pos start) (by omega) (by omega)
        (List.append_cancel_left h)
      exact ⟨rfl, htail⟩

/-- A part of some frames is a number of frames and a tail. -/
theorem exists_tail_of_take_frames (start : ℕ) (commands : List JournalCommand) (n : ℕ) :
    ∃ k ≤ commands.length, ∃ tail, Tail tail ∧
      (frames start commands).take n = frames start (commands.take k) ++ tail := by
  induction commands generalizing start n with
  | nil => exact ⟨0, le_rfl, [], Or.inl rfl, List.take_nil⟩
  | cons command commands ih =>
    by_cases hn : n < (frame (UInt64.ofNat start) command).length
    · -- the cut is in the first frame
      refine ⟨0, Nat.zero_le _, (frame (UInt64.ofNat start) command).take n,
        Or.inr (decodeRecordPrefix_take_frame _ _ hn), ?_⟩
      rw [frames, List.take_append_of_le_length (by omega), List.take_zero, frames, List.nil_append]
    · obtain ⟨k, hk, tail, htail, htake⟩ :=
        ih (start + 1) (n - (frame (UInt64.ofNat start) command).length)
      refine ⟨k + 1, Nat.succ_le_succ hk, tail, htail, ?_⟩
      rw [frames, List.take_append, List.take_of_length_le (by omega), htake, List.take_succ_cons,
        frames, List.append_assoc]

end Frames

/-! ### Journals as the encoder writes them -/

/-- The records of some commands with consecutive sequences, encoded one after the other. -/
def encodeRecords (start : ℕ) :
    List JournalCommand → Except JournalCodecError (List UInt8)
  | [] => .ok []
  | command :: commands => do
    let bytes ← encodeRecord ⟨UInt64.ofNat start⟩ command
    let rest ← encodeRecords (start + 1) commands
    return bytes ++ rest

/-- The bytes are the file header, the records of the commands and the tail. -/
def Decomposes (bytes : List UInt8) (commands : List JournalCommand) (tail : List UInt8) : Prop :=
  Tail tail ∧ ∃ encoded, encodeRecords 1 commands = .ok encoded ∧
    bytes = encodeFileHeader ++ encoded ++ tail

theorem encodeRecords_eq {start : ℕ} {commands : List JournalCommand} (hpos : 0 < start)
    (hle : start + commands.length ≤ 2 ^ 64) :
    encodeRecords start commands = .ok (frames start commands) := by
  induction commands generalizing start with
  | nil => rfl
  | cons command commands ih =>
    rw [List.length_cons] at hle
    have hencode : encodeRecord ⟨UInt64.ofNat start⟩ command =
        .ok (frame (UInt64.ofNat start) command) :=
      encodeRecord_eq (ofNat_ne_zero hpos (by omega)) command
    rw [encodeRecords, hencode, ih (Nat.add_one_pos start) (by omega)]
    rfl

theorem eq_frames_of_encodeRecords {start : ℕ} {commands : List JournalCommand}
    {encoded : List UInt8} (h : encodeRecords start commands = .ok encoded) :
    encoded = frames start commands := by
  induction commands generalizing start encoded with
  | nil => exact (Except.ok.inj h).symm
  | cons command commands ih =>
    by_cases hzero : UInt64.ofNat start = 0
    · have hencode : encodeRecord ⟨UInt64.ofNat start⟩ command = .error .invalidJournalSequence :=
        if_pos hzero
      rw [encodeRecords, hencode] at h
      cases h
    · have hencode : encodeRecord ⟨UInt64.ofNat start⟩ command =
          .ok (frame (UInt64.ofNat start) command) := encodeRecord_eq hzero command
      rw [encodeRecords, hencode] at h
      cases hrest : encodeRecords (start + 1) commands with
      | error e =>
        rw [hrest] at h
        cases h
      | ok rest =>
        rw [hrest] at h
        obtain rfl := Except.ok.inj h
        rw [frames, ih hrest]

theorem Decomposes.eq_journal {bytes tail : List UInt8} {commands : List JournalCommand}
    (h : Decomposes bytes commands tail) : bytes = journal commands ++ tail := by
  obtain ⟨-, encoded, hencoded, hbytes⟩ := h
  rw [hbytes, journal, eq_frames_of_encodeRecords hencoded]

theorem decomposes_journal {tail : List UInt8} {commands : List JournalCommand} (ht : Tail tail)
    (hle : 1 + commands.length ≤ 2 ^ 64) : Decomposes (journal commands ++ tail) commands tail :=
  ⟨ht, _, encodeRecords_eq Nat.one_pos hle, rfl⟩

end MatchingEngine
