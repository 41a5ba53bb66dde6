import MatchingEngine.Journal.Image
import MatchingEngine.Storage.Basic

/-!
# Scanning a journal

The scanner looks at a file through windows of at most 88 bytes, and its reads can be cut short and
interrupted. It succeeds exactly on journals with a tail, and it returns the commands and the size
of the journal without the tail.

A scan that succeeds is right whatever the system does. That a scan succeeds needs calls that do
not fail for good; reads may still be short or interrupted.

## Main definitions

* `Disk.Readable`: no call on the way to the content of the file fails for good.
* `Disk.Looked`: what changes when the file is only looked at.
* `journalScan`: the scan of a journal with a tail.

## Main results

* `JournalReader.scan_sound`: a successful scan has seen a journal with a tail.
* `JournalReader.scan_journal`: a journal with a tail is scanned.
* `JournalReader.scan_invalid`, `JournalReader.scan_invalid_header`: everything else is reported.
-/

namespace MatchingEngine

open Posix

/-! ### Reading -/

/-- What has been read and what is still to be read. -/
theorem slice_split {l bytes : List UInt8} {offset count : ℕ} (hle : bytes.length ≤ count)
    (hbytes : bytes = l.slice offset bytes.length) :
    l.slice offset count = bytes ++ l.slice (offset + bytes.length) (count - bytes.length) := by
  have hadd := l.slice_add offset bytes.length (count - bytes.length)
  rwa [← hbytes, Nat.add_sub_cancel' hle] at hadd

theorem slice_eq_slice_length {l chunk : List UInt8} {offset count : ℕ}
    (h : l.slice offset count = chunk) : chunk = l.slice offset chunk.length := by
  rw [← h, List.slice, List.slice, List.length_take, List.take_eq_take_iff]
  omega

/-- Reading ends with the wanted part of the file, as far as there is one, or with an error that a
reliable system does not report. -/
theorem preadLoop_spec (f : File) (offset byteCount : ℕ) (outcomes : List ReadOutcome)
    (bytes : List UInt8) (hle : bytes.length ≤ byteCount)
    (hbytes : bytes = f.bytes.slice offset bytes.length) :
    (preadLoop f offset byteCount outcomes bytes).2 <:+ outcomes ∧
      ((preadLoop f offset byteCount outcomes bytes).1 = .ok (f.bytes.slice offset byteCount) ∨
        ¬ Reliable outcomes ∧
          ∃ e, (preadLoop f offset byteCount outcomes bytes).1 = .error e) := by
  induction outcomes generalizing bytes with
  | nil => exact ⟨List.suffix_rfl, Or.inl (congrArg _ (slice_split hle hbytes).symm)⟩
  | cons outcome outcomes ih =>
    have hsplit := slice_split hle hbytes
    rw [preadLoop]
    by_cases hlt : bytes.length < byteCount
    case neg =>
      rw [if_neg hlt, hsplit, Nat.sub_eq_zero_of_le (by omega)]
      exact ⟨List.suffix_rfl, Or.inl (congrArg _ (List.append_nil bytes).symm)⟩
    rw [if_pos hlt]
    have htail : ¬ Reliable outcomes → ¬ Reliable (outcome :: outcomes) :=
      mt fun h => h.of_suffix (List.suffix_cons _ _)
    rcases outcome with n | e
    · -- a part of what is wanted, empty only at the end of the file
      rw [pread]
      cases hchunk : (f.bytes.drop (offset + bytes.length)).take
          (min (n + 1) (byteCount - bytes.length)) with
      | nil =>
        have hend : f.bytes.drop (offset + bytes.length) = [] := by
          rcases List.take_eq_nil_iff.mp hchunk with h | h
          · omega
          · exact h
        have hrest : f.bytes.slice (offset + bytes.length) (byteCount - bytes.length) = [] := by
          rw [List.slice, hend, List.take_nil]
        rw [hrest, List.append_nil] at hsplit
        exact ⟨List.suffix_cons _ _, Or.inl (congrArg _ hsplit.symm)⟩
      | cons b chunk =>
        have hlen := congrArg List.length hchunk
        rw [List.length_take] at hlen
        have hnext : bytes ++ b :: chunk =
            f.bytes.slice offset (bytes ++ b :: chunk).length := by
          rw [List.length_append, List.slice_add, ← hbytes]
          exact congrArg (bytes ++ ·) (slice_eq_slice_length hchunk)
        obtain ⟨hsuffix, hresult⟩ := ih (bytes ++ b :: chunk)
          (by rw [List.length_append]; omega) hnext
        exact ⟨hsuffix.trans (List.suffix_cons _ _), hresult.imp_right (And.imp_left htail)⟩
    · rw [pread]
      dsimp only
      by_cases he : e = eintr
      · obtain ⟨hsuffix, hresult⟩ := ih bytes hle hbytes
        rw [if_pos he]
        exact ⟨hsuffix.trans (List.suffix_cons _ _), hresult.imp_right (And.imp_left htail)⟩
      · rw [if_neg he]
        exact ⟨List.suffix_cons _ _,
          Or.inr ⟨fun h => he (h e List.mem_cons_self), _, rfl⟩⟩

/-- `pread_at_most` within the file reads the wanted part. -/
theorem preadAtMost_spec (f : File) (offset byteCount : ℕ) (outcomes : List ReadOutcome)
    (h : offset ≤ f.bytes.length) :
    (preadAtMost f offset byteCount outcomes).2 <:+ outcomes ∧
      ((preadAtMost f offset byteCount outcomes).1 = .ok (f.bytes.slice offset byteCount) ∨
        ¬ Reliable outcomes ∧ ∃ e, (preadAtMost f offset byteCount outcomes).1 = .error e) := by
  have := f.length_lt
  rw [preadAtMost, if_neg (by omega)]
  exact preadLoop_spec f offset byteCount outcomes [] (Nat.zero_le _) rfl

/-! ### The loop -/

/-- The window of an iteration shows the decoder what it needs of the rest of the file. -/
theorem decodeRecordPrefix_window (bytes : List UInt8) (offset : ℕ) :
    decodeRecordPrefix (bytes.slice offset (min (bytes.length - offset)
      (journalFrameHeaderSize + journalMaximumPayloadLength))) =
      decodeRecordPrefix (bytes.drop offset) := by
  rw [List.slice, ← List.length_drop]
  rcases Nat.le_total (bytes.drop offset).length
    (journalFrameHeaderSize + journalMaximumPayloadLength) with h | h
  · rw [Nat.min_eq_left h, List.take_length]
  · rw [Nat.min_eq_right h, decodeRecordPrefix_take (by decide)]

/-- Where the loop goes on from the result of the decoder. -/
def scanResume (f : File) (fuel : ℕ) (outcomes : List ReadOutcome) :
    ScanStep → Except JournalStorageError JournalScan × List ReadOutcome
  | .done result => (result, outcomes)
  | .next expected scan => scanLoop f f.bytes.length fuel outcomes expected scan

/-- One iteration: it decodes the rest of the file, or it ends with an error that a reliable system
does not report. -/
theorem scanLoop_succ {f : File} (fuel : ℕ) (outcomes : List ReadOutcome) (expected : UInt64)
    (scan : JournalScan) (h : scan.validSize < f.bytes.length) :
    (∃ outcomes', outcomes' <:+ outcomes ∧
      scanLoop f f.bytes.length (fuel + 1) outcomes expected scan =
        scanResume f fuel outcomes' (scanStep f.bytes.length expected scan
          (decodeRecordPrefix (f.bytes.drop scan.validSize)))) ∨
      ¬ Reliable outcomes ∧
        ∃ e, (scanLoop f f.bytes.length (fuel + 1) outcomes expected scan).1 = .error e := by
  obtain ⟨hsuffix, hread⟩ := preadAtMost_spec f scan.validSize
    (min (f.bytes.length - scan.validSize) (journalFrameHeaderSize + journalMaximumPayloadLength))
    outcomes h.le
  rw [scanLoop, if_pos h]
  dsimp only
  generalize hresult : preadAtMost f scan.validSize _ outcomes = result at hsuffix hread ⊢
  obtain ⟨result, outcomes'⟩ := result
  rcases hread with hread | ⟨hreliable, e, hread⟩
  · left
    dsimp only at hread hsuffix
    refine ⟨outcomes', hsuffix, ?_⟩
    rw [hread, ← decodeRecordPrefix_window]
    dsimp only
    rw [if_neg (not_not_intro (List.length_slice (by omega)))]
    exact (scanResume.eq_def _ _ _ _).symm
  · right
    dsimp only at hread
    exact ⟨hreliable, e, by rw [hread]⟩

/-- The scan at the head of the loop, before the frame with sequence `start`. -/
def scanAt (start validSize : ℕ) (records : List JournalRecord) : JournalScan :=
  ⟨records, validSize, false, some ⟨UInt64.ofNat start⟩⟩

theorem ofNat_ne_max {start : ℕ} (h : start + 1 < 2 ^ 64) :
    UInt64.ofNat start ≠ 0xFFFFFFFFFFFFFFFF := by
  intro heq
  have htoNat := congrArg UInt64.toNat heq
  rw [UInt64.toNat_ofNat', Nat.mod_eq_of_lt (by omega)] at htoNat
  have : (0xFFFFFFFFFFFFFFFF : UInt64).toNat = 2 ^ 64 - 1 := by decide
  omega

theorem ofNat_add_one (start : ℕ) : UInt64.ofNat start + 1 = UInt64.ofNat (start + 1) := by
  rw [UInt64.ofNat_add]
  rfl

/-- The loop body on the next frame. -/
theorem scanStep_ok {start : ℕ} (size validSize : ℕ) (scanned : List JournalRecord)
    (command : JournalCommand) (hlt : start + 1 < 2 ^ 64) :
    scanStep size (UInt64.ofNat start) (scanAt start validSize scanned)
        (.ok ⟨⟨⟨UInt64.ofNat start⟩, command⟩, (frame (UInt64.ofNat start) command).length⟩) =
      .next (UInt64.ofNat (start + 1))
        (scanAt (start + 1) (validSize + (frame (UInt64.ofNat start) command).length)
          (scanned ++ [⟨⟨UInt64.ofNat start⟩, command⟩])) := by
  rw [scanStep, if_neg (not_not_intro rfl), if_neg (ofNat_ne_max hlt), ofNat_add_one]
  rfl

/-- Under reliable reads the loop goes through the frames that follow. -/
theorem scanLoop_frames {f : File} {start validSize fuel : ℕ} {commands : List JournalCommand}
    {outcomes : List ReadOutcome} {rest : List UInt8} (scanned : List JournalRecord)
    (hpos : 0 < start) (hlt : start + commands.length < 2 ^ 64) (hreliable : Reliable outcomes)
    (hdrop : f.bytes.drop validSize = frames start commands ++ rest) :
    ∃ outcomes', Reliable outcomes' ∧
      scanLoop f f.bytes.length (fuel + commands.length) outcomes (UInt64.ofNat start)
          (scanAt start validSize scanned) =
        scanLoop f f.bytes.length fuel outcomes' (UInt64.ofNat (start + commands.length))
          (scanAt (start + commands.length) (validSize + (frames start commands).length)
            (scanned ++ records start commands)) := by
  induction commands generalizing start validSize outcomes scanned with
  | nil => exact ⟨outcomes, hreliable, by rw [records, List.append_nil]; rfl⟩
  | cons command commands ih =>
    rw [List.length_cons] at hlt
    have hsize : validSize < f.bytes.length := by
      have hlen := congrArg List.length hdrop
      have hframe := length_frame_bounds (UInt64.ofNat start) command
      simp only [List.length_drop, frames, List.length_append] at hlen
      omega
    have hnext : f.bytes.drop (validSize + (frame (UInt64.ofNat start) command).length) =
        frames (start + 1) commands ++ rest := by
      rw [← List.drop_drop, hdrop, frames, List.append_assoc, List.drop_left]
    obtain ⟨outcomes', hsuffix, hstep⟩ | ⟨hunreliable, -⟩ :=
      scanLoop_succ (fuel + commands.length) outcomes (UInt64.ofNat start)
        (scanAt start validSize scanned) hsize
    · obtain ⟨outcomes'', hreliable'', hloop⟩ := ih
        (scanned ++ [⟨⟨UInt64.ofNat start⟩, command⟩]) (Nat.add_one_pos start) (by omega)
        (hreliable.of_suffix hsuffix) hnext
      refine ⟨outcomes'', hreliable'', ?_⟩
      rw [List.length_cons, ← Nat.add_assoc, hstep, scanAt, hdrop,
        decodeRecordPrefix_frames_cons hpos (by omega), ← scanAt, scanStep_ok _ _ _ _ (by omega),
        scanResume, hloop, frames, records, List.length_append, List.append_assoc,
        List.singleton_append, Nat.add_assoc validSize, Nat.add_right_comm start,
        Nat.add_assoc start]
    · exact absurd hreliable hunreliable

/-- The scan of some frames and a tail. -/
def scanOf (start validSize : ℕ) (scanned : List JournalRecord) (commands : List JournalCommand)
    (tail : List UInt8) : JournalScan :=
  ⟨scanned ++ records start commands, validSize + (frames start commands).length,
    decide (tail ≠ []), some ⟨UInt64.ofNat (start + commands.length)⟩⟩

theorem scanOf_nil (start validSize : ℕ) (scanned : List JournalRecord) (tail : List UInt8) :
    scanOf start validSize scanned [] tail =
      { scanAt start validSize scanned with hasTruncatedTail := decide (tail ≠ []) } := by
  rw [scanOf, records, List.append_nil]
  rfl

theorem scanOf_cons (start validSize : ℕ) (scanned : List JournalRecord) (command : JournalCommand)
    (commands : List JournalCommand) (tail : List UInt8) :
    scanOf (start + 1) (validSize + (frame (UInt64.ofNat start) command).length)
        (scanned ++ [⟨⟨UInt64.ofNat start⟩, command⟩]) commands tail =
      scanOf start validSize scanned (command :: commands) tail := by
  rw [scanOf, scanOf, records, frames, List.length_append, List.length_cons, List.append_assoc,
    List.singleton_append, Nat.add_assoc validSize, Nat.add_right_comm start, Nat.add_assoc start]

/-- A loop that ends with a scan has seen frames and a tail. -/
theorem scanLoop_sound {f : File} {start validSize fuel : ℕ} {outcomes : List ReadOutcome}
    {scanned : List JournalRecord} {scan : JournalScan} (hpos : 0 < start)
    (hle : validSize ≤ f.bytes.length) (hfuel : f.bytes.length ≤ validSize + fuel)
    (hlt : start + (f.bytes.length - validSize) < 2 ^ 64)
    (hscan : (scanLoop f f.bytes.length fuel outcomes (UInt64.ofNat start)
      (scanAt start validSize scanned)).1 = .ok scan) :
    ∃ commands tail, Tail tail ∧ f.bytes.drop validSize = frames start commands ++ tail ∧
      scan = scanOf start validSize scanned commands tail := by
  induction fuel generalizing start validSize outcomes scanned with
  | zero =>
    refine ⟨[], [], Or.inl rfl, List.drop_eq_nil_of_le (by omega), ?_⟩
    rw [scanOf_nil]
    exact (Except.ok.inj hscan).symm
  | succ fuel ih =>
    by_cases hsize : validSize < f.bytes.length
    case neg =>
      refine ⟨[], [], Or.inl rfl, List.drop_eq_nil_of_le (by omega), ?_⟩
      rw [scanLoop,
        if_neg (show ¬ (scanAt start validSize scanned).validSize < _ from hsize)] at hscan
      rw [scanOf_nil]
      exact (Except.ok.inj hscan).symm
    obtain ⟨outcomes', -, hstep⟩ | ⟨-, e, herror⟩ := scanLoop_succ fuel outcomes
      (UInt64.ofNat start) (scanAt start validSize scanned) hsize
    case inr => cases herror.symm.trans hscan
    rw [hstep, scanAt] at hscan
    dsimp only at hscan
    cases hdecode : decodeRecordPrefix (f.bytes.drop validSize) with
    | error e =>
      rw [hdecode, scanStep] at hscan
      by_cases he : e = .truncatedInput
      · have hne : f.bytes.drop validSize ≠ [] := fun h => by
          have := congrArg List.length h
          rw [List.length_drop, List.length_nil] at this
          omega
        rw [if_pos he] at hscan
        refine ⟨[], f.bytes.drop validSize, Or.inr (he ▸ hdecode), rfl, ?_⟩
        rw [scanOf_nil, decide_eq_true hne]
        exact (Except.ok.inj hscan).symm
      · rw [if_neg he] at hscan
        cases hscan
    | ok decoded =>
      obtain ⟨-, hconsumed, hbytes⟩ := eq_frame_of_decodeRecordPrefix hdecode
      obtain ⟨⟨⟨sequence⟩, command⟩, consumed⟩ := decoded
      dsimp only at hconsumed hbytes
      by_cases hsequence : sequence = UInt64.ofNat start
      case neg =>
        rw [hdecode, scanStep, if_pos hsequence] at hscan
        cases hscan
      have hlen := congrArg List.length hbytes
      have hframe := length_frame_bounds sequence command
      rw [List.length_append, List.length_drop] at hlen
      subst hsequence hconsumed
      rw [hdecode, ← scanAt, scanStep_ok _ _ _ _ (by omega), scanResume] at hscan
      obtain ⟨commands, tail, htail, hdrop, rfl⟩ := ih (Nat.add_one_pos start) (by omega) (by omega)
        (by omega) hscan
      refine ⟨command :: commands, tail, htail, ?_, scanOf_cons ..⟩
      rw [frames, List.append_assoc, ← hdrop, ← List.drop_drop]
      exact hbytes

/-- Under reliable reads the loop ends at a tail. -/
theorem scanLoop_tail {f : File} {start validSize fuel : ℕ} {outcomes : List ReadOutcome}
    {tail : List UInt8} (scanned : List JournalRecord) (hreliable : Reliable outcomes)
    (htail : Tail tail) (hdrop : f.bytes.drop validSize = tail) :
    (scanLoop f f.bytes.length (fuel + 1) outcomes (UInt64.ofNat start)
      (scanAt start validSize scanned)).1 = .ok (scanOf start validSize scanned [] tail) := by
  rw [scanOf_nil]
  by_cases hsize : validSize < f.bytes.length
  case neg =>
    rw [List.drop_eq_nil_of_le (Nat.le_of_not_lt hsize)] at hdrop
    rw [scanLoop, if_neg (show ¬ (scanAt start validSize scanned).validSize < _ from hsize),
      decide_eq_false (not_not_intro hdrop.symm)]
    rfl
  have hne : tail ≠ [] := by
    rintro rfl
    rw [List.drop_eq_nil_iff] at hdrop
    omega
  obtain ⟨outcomes', -, hstep⟩ | ⟨hunreliable, -⟩ := scanLoop_succ fuel outcomes
    (UInt64.ofNat start) (scanAt start validSize scanned) hsize
  · have hdecode : decodeRecordPrefix (f.bytes.drop (scanAt start validSize scanned).validSize) =
        .error .truncatedInput := (congrArg _ hdrop).trans (htail.resolve_left hne)
    rw [hstep, hdecode, scanStep, if_pos rfl, decide_eq_true hne]
    rfl
  · exact absurd hreliable hunreliable

/-- Under reliable reads the loop reports bytes that are no tail and begin with no frame. -/
theorem scanLoop_invalid {f : File} {start validSize fuel : ℕ} {outcomes : List ReadOutcome}
    {e : JournalCodecError} (scanned : List JournalRecord) (hreliable : Reliable outcomes)
    (he : e ≠ .truncatedInput) (hdecode : decodeRecordPrefix (f.bytes.drop validSize) = .error e) :
    (scanLoop f f.bytes.length (fuel + 1) outcomes (UInt64.ofNat start)
      (scanAt start validSize scanned)).1 =
        .error { code := .invalidJournal, codecError := some e } := by
  have hsize : validSize < f.bytes.length := by
    by_contra hsize
    rw [List.drop_eq_nil_of_le (Nat.le_of_not_lt hsize)] at hdecode
    exact he (Except.error.inj hdecode).symm
  obtain ⟨outcomes', -, hstep⟩ | ⟨hunreliable, -⟩ := scanLoop_succ fuel outcomes
    (UInt64.ofNat start) (scanAt start validSize scanned) hsize
  · rw [hstep, scanAt, hdecode, scanStep, if_neg he]
    rfl
  · exact absurd hreliable hunreliable

theorem scanLoop_suffix (f : File) (fuel : ℕ) (outcomes : List ReadOutcome) (expected : UInt64)
    (scan : JournalScan) :
    (scanLoop f f.bytes.length fuel outcomes expected scan).2 <:+ outcomes := by
  induction fuel generalizing outcomes expected scan with
  | zero => exact List.suffix_rfl
  | succ fuel ih =>
    rw [scanLoop]
    split
    case isFalse => exact List.suffix_rfl
    case isTrue hsize =>
      have hsuffix := (preadAtMost_spec f scan.validSize (min (f.bytes.length - scan.validSize)
        (journalFrameHeaderSize + journalMaximumPayloadLength)) outcomes hsize.le).1
      dsimp only
      generalize preadAtMost f scan.validSize _ outcomes = result at hsuffix ⊢
      obtain ⟨_ | bytes, outcomes'⟩ := result
      · exact hsuffix
      · dsimp only at hsuffix ⊢
        split
        · exact hsuffix
        · split
          · exact hsuffix
          · exact (ih _ _ _).trans hsuffix

/-! ### The scan of a disk -/

/-- Calls that only look at the file have been made. -/
structure Disk.Looked (d d' : Disk) : Prop where
  file : d'.file = d.file
  opens : d'.opens <:+ d.opens
  stats : d'.stats <:+ d.stats
  reads : d'.reads <:+ d.reads
  writes : d'.writes = d.writes
  syncs : d'.syncs = d.syncs
  truncates : d'.truncates = d.truncates

theorem Disk.Looked.trans {d d' d'' : Disk} (h : d.Looked d') (h' : d'.Looked d'') :
    d.Looked d'' where
  file := h'.file.trans h.file
  opens := h'.opens.trans h.opens
  stats := h'.stats.trans h.stats
  reads := h'.reads.trans h.reads
  writes := h'.writes.trans h.writes
  syncs := h'.syncs.trans h.syncs
  truncates := h'.truncates.trans h.truncates

/-- The file can be opened and read. -/
structure Disk.Readable (d : Disk) : Prop where
  opens : NoFailure d.opens
  stats : NoFailure d.stats
  reads : Reliable d.reads

theorem Disk.Readable.looked {d d' : Disk} (h : d.Readable) (hd : d.Looked d') : d'.Readable where
  opens := h.opens.of_suffix hd.opens
  stats := h.stats.of_suffix hd.stats
  reads := h.reads.of_suffix hd.reads

/-- What the scan makes of the file header. -/
def scanContent (f : File) (outcomes : List ReadOutcome) : Except JournalStorageError JournalScan :=
  match decodeFileHeader (f.bytes.slice 0 journalFileHeaderSize) with
  | .error e => .error { code := .invalidJournal, codecError := some e }
  | .ok _ => (scanLoop f f.bytes.length f.bytes.length outcomes (UInt64.ofNat 1)
      (scanAt 1 journalFileHeaderSize [])).1

theorem scanDescriptor_cases (d : Disk) : d.Looked (scanDescriptor d).2 ∧
    ((d.file.bytes.length < journalFileHeaderSize ∧ (scanDescriptor d).1 =
        .error { code := .invalidJournal, codecError := some .truncatedInput }) ∨
      (journalFileHeaderSize ≤ d.file.bytes.length ∧ ∃ outcomes, outcomes <:+ d.reads ∧
        (scanDescriptor d).1 = scanContent d.file outcomes) ∨
      ¬ d.Readable ∧ ∃ e, (scanDescriptor d).1 = .error e) := by
  have hstats : d.stats.tail <:+ d.stats := List.tail_suffix _
  rw [scanDescriptor, fileSize]
  cases hstat : failure d.stats with
  | some e =>
    refine ⟨⟨rfl, List.suffix_rfl, hstats, List.suffix_rfl, rfl, rfl, rfl⟩,
      Or.inr (Or.inr ⟨fun h => ?_, _, rfl⟩)⟩
    rw [h.stats.failure_eq] at hstat
    cases hstat
  | none =>
    dsimp only
    by_cases hshort : d.file.bytes.length < journalFileHeaderSize
    · rw [if_pos hshort]
      exact ⟨⟨rfl, List.suffix_rfl, hstats, List.suffix_rfl, rfl, rfl, rfl⟩,
        Or.inl ⟨hshort, rfl⟩⟩
    rw [if_neg hshort]
    obtain ⟨hsuffix, hread⟩ :=
      preadAtMost_spec d.file 0 journalFileHeaderSize d.reads (Nat.zero_le _)
    generalize preadAtMost d.file 0 journalFileHeaderSize d.reads = result at hsuffix hread ⊢
    obtain ⟨result, outcomes⟩ := result
    dsimp only at hsuffix hread
    rcases hread with rfl | ⟨hunreliable, e, rfl⟩
    · dsimp only
      rw [if_neg (not_not_intro (List.length_slice (by omega)))]
      cases hheader : decodeFileHeader (d.file.bytes.slice 0 journalFileHeaderSize) with
      | error e =>
        refine ⟨⟨rfl, List.suffix_rfl, hstats, hsuffix, rfl, rfl, rfl⟩,
          Or.inr (Or.inl ⟨Nat.le_of_not_lt hshort, outcomes, hsuffix, ?_⟩)⟩
        rw [scanContent, hheader]
      | ok header =>
        refine ⟨⟨rfl, List.suffix_rfl, hstats, (scanLoop_suffix ..).trans hsuffix, rfl, rfl, rfl⟩,
          Or.inr (Or.inl ⟨Nat.le_of_not_lt hshort, outcomes, hsuffix, ?_⟩)⟩
        rw [scanContent, hheader]
        rfl
    · exact ⟨⟨rfl, List.suffix_rfl, hstats, hsuffix, rfl, rfl, rfl⟩,
        Or.inr (Or.inr ⟨fun h => hunreliable h.reads, e, rfl⟩)⟩

/-- The scan of a journal with a tail. -/
def journalScan (commands : List JournalCommand) (tail : List UInt8) : JournalScan :=
  scanOf 1 journalFileHeaderSize [] commands tail

theorem length_add_lt_of_journal {f : File} {commands : List JournalCommand} {tail : List UInt8}
    (h : f.bytes = journal commands ++ tail) : 1 + commands.length < 2 ^ 64 := by
  have hlt := f.length_lt
  have hframes := length_le_length_frames 1 commands
  rw [h, journal, List.length_append, List.length_append, sizeLimit] at hlt
  omega

theorem length_journal (commands : List JournalCommand) :
    (journal commands).length = journalFileHeaderSize + (frames 1 commands).length := by
  rw [journal, List.length_append, length_encodeFileHeader]
  rfl

section JournalScan

variable (commands : List JournalCommand) (tail : List UInt8)

@[simp] theorem records_journalScan : (journalScan commands tail).records = records 1 commands :=
  List.nil_append _

@[simp] theorem validSize_journalScan :
    (journalScan commands tail).validSize = (journal commands).length :=
  (length_journal commands).symm

@[simp] theorem hasTruncatedTail_journalScan :
    (journalScan commands tail).hasTruncatedTail = decide (tail ≠ []) :=
  rfl

@[simp] theorem nextSequence_journalScan : (journalScan commands tail).nextSequence =
    some ⟨UInt64.ofNat (commands.length + 1)⟩ := by
  rw [Nat.add_comm]
  rfl

end JournalScan

/-- Commands and tail are determined by the content of a file. -/
theorem journal_append_tail_unique {f : File} {commands commands' : List JournalCommand}
    {tail tail' : List UInt8} (h : f.bytes = journal commands ++ tail)
    (h' : f.bytes = journal commands' ++ tail') (ht : Tail tail) (ht' : Tail tail') :
    commands = commands' ∧ tail = tail' := by
  refine frames_append_tail_unique Nat.one_pos (length_add_lt_of_journal h)
    (length_add_lt_of_journal h') ht ht' ?_
  rw [h, journal, journal, List.append_assoc, List.append_assoc] at h'
  exact List.append_cancel_left h'

/-- A successful scan has seen a journal with a tail, whatever the system does. -/
theorem scanDescriptor_sound {d : Disk} {scan : JournalScan}
    (h : (scanDescriptor d).1 = .ok scan) : ∃ commands tail, Tail tail ∧
      d.file.bytes = journal commands ++ tail ∧ scan = journalScan commands tail := by
  obtain ⟨-, ⟨-, hshort⟩ | ⟨hlen, outcomes, -, hcontent⟩ | ⟨-, e, herror⟩⟩ :=
    scanDescriptor_cases d
  · cases hshort.symm.trans h
  · rw [hcontent, scanContent] at h
    cases hheader : decodeFileHeader (d.file.bytes.slice 0 journalFileHeaderSize) with
    | error e =>
      rw [hheader] at h
      cases h
    | ok header =>
      rw [hheader] at h
      have hlt := d.file.length_lt
      rw [sizeLimit] at hlt
      obtain ⟨commands, tail, htail, hdrop, rfl⟩ := scanLoop_sound Nat.one_pos hlen
        (Nat.le_add_left _ _) (by omega) h
      refine ⟨commands, tail, htail, ?_, rfl⟩
      rw [journal, List.append_assoc, ← hdrop, ← eq_encodeFileHeader_of_decodeFileHeader hheader]
      exact (List.take_append_drop ..).symm
  · cases herror.symm.trans h

/-- On a readable disk the scan of a journal comes to what follows the journal. -/
theorem scanDescriptor_journal_append {d : Disk} {commands : List JournalCommand}
    {rest : List UInt8} (hd : d.Readable) (h : d.file.bytes = journal commands ++ rest) :
    ∃ fuel outcomes, Reliable outcomes ∧ (scanDescriptor d).1 =
      (scanLoop d.file d.file.bytes.length (fuel + 1) outcomes
        (UInt64.ofNat (1 + commands.length)) (scanAt (1 + commands.length)
          (journalFileHeaderSize + (frames 1 commands).length) (records 1 commands))).1 := by
  have hlen : (journal commands).length + rest.length = d.file.bytes.length := by
    rw [h, List.length_append]
  have hframes := length_le_length_frames 1 commands
  have hheaderSize : journalFileHeaderSize = 16 := rfl
  rw [length_journal] at hlen
  obtain ⟨-, ⟨hshort, -⟩ | ⟨-, outcomes, hsuffix, hcontent⟩ | ⟨hunreadable, -⟩⟩ :=
    scanDescriptor_cases d
  · omega
  · have hheader : d.file.bytes.slice 0 journalFileHeaderSize = encodeFileHeader := by
      rw [h, journal, List.append_assoc]
      exact List.take_left' length_encodeFileHeader
    have hdrop : d.file.bytes.drop journalFileHeaderSize = frames 1 commands ++ rest := by
      rw [h, journal, List.append_assoc]
      exact List.drop_left' length_encodeFileHeader
    obtain ⟨outcomes', hreliable, hloop⟩ := scanLoop_frames []
      Nat.one_pos (length_add_lt_of_journal h) (hd.reads.of_suffix hsuffix) hdrop
    refine ⟨d.file.bytes.length - commands.length - 1, outcomes', hreliable, ?_⟩
    have hfuel : d.file.bytes.length - commands.length - 1 + 1 + commands.length =
        d.file.bytes.length := by omega
    rw [hcontent, scanContent, hheader, decodeFileHeader_encodeFileHeader,
      ← List.nil_append (records 1 commands), ← hloop, hfuel]
  · exact absurd hd hunreadable

/-- A journal with a tail on a readable disk is scanned. -/
theorem scanDescriptor_journal {d : Disk} {commands : List JournalCommand} {tail : List UInt8}
    (hd : d.Readable) (htail : Tail tail) (h : d.file.bytes = journal commands ++ tail) :
    (scanDescriptor d).1 = .ok (journalScan commands tail) := by
  obtain ⟨fuel, outcomes, hreliable, hscan⟩ := scanDescriptor_journal_append hd h
  rw [hscan, ← length_journal, scanLoop_tail _ hreliable htail (by rw [h, List.drop_left]),
    length_journal, scanOf_nil]
  rfl

/-- Behind some frames, bytes that are no tail and begin with no frame are reported. -/
theorem scanDescriptor_invalid {d : Disk} {commands : List JournalCommand} {rest : List UInt8}
    {e : JournalCodecError} (hd : d.Readable) (h : d.file.bytes = journal commands ++ rest)
    (he : e ≠ .truncatedInput) (hdecode : decodeRecordPrefix rest = .error e) :
    (scanDescriptor d).1 = .error { code := .invalidJournal, codecError := some e } := by
  obtain ⟨fuel, outcomes, hreliable, hscan⟩ := scanDescriptor_journal_append hd h
  rw [hscan, ← length_journal, scanLoop_invalid _ hreliable he (by rw [h, List.drop_left, hdecode])]

/-- Bytes that do not begin with the file header are reported. -/
theorem scanDescriptor_invalid_header {d : Disk} (hd : d.Readable)
    (h : d.file.bytes.take journalFileHeaderSize ≠ encodeFileHeader) :
    ∃ e, (scanDescriptor d).1 = .error { code := .invalidJournal, codecError := some e } := by
  obtain ⟨-, ⟨-, hshort⟩ | ⟨-, outcomes, -, hcontent⟩ | ⟨hunreadable, -⟩⟩ :=
    scanDescriptor_cases d
  · exact ⟨_, hshort⟩
  · cases hheader : decodeFileHeader (d.file.bytes.slice 0 journalFileHeaderSize) with
    | error e => exact ⟨e, by rw [hcontent, scanContent, hheader]⟩
    | ok header => exact absurd (eq_encodeFileHeader_of_decodeFileHeader hheader) h
  · exact absurd hd hunreadable

/-! ### Opening and scanning -/

theorem openFile_looked (d : Disk) : d.Looked (openFile d).2 :=
  ⟨rfl, List.tail_suffix _, List.suffix_rfl, List.suffix_rfl, rfl, rfl, rfl⟩

namespace JournalReader

variable {d : Disk} {commands : List JournalCommand}

theorem scan_looked (d : Disk) : d.Looked (scan d).2 := by
  rw [scan]
  have hopen := openFile_looked d
  generalize openFile d = opened at hopen ⊢
  obtain ⟨_ | e, d'⟩ := opened
  · exact hopen.trans (scanDescriptor_cases d').1
  · exact hopen

theorem scan_eq (h : NoFailure d.opens) :
    scan d = scanDescriptor { d with opens := d.opens.tail } := by
  rw [scan, openFile, h.failure_eq]
  rfl

theorem scan_sound {result : JournalScan} (h : (scan d).1 = .ok result) :
    ∃ commands tail, Tail tail ∧ d.file.bytes = journal commands ++ tail ∧
      result = journalScan commands tail := by
  rw [scan] at h
  have hopen := openFile_looked d
  generalize openFile d = opened at hopen h
  obtain ⟨_ | e, d'⟩ := opened
  · have hsound := scanDescriptor_sound h
    rwa [hopen.file] at hsound
  · cases h

theorem scan_journal {tail : List UInt8} (hd : d.Readable) (htail : Tail tail)
    (h : d.file.bytes = journal commands ++ tail) :
    (scan d).1 = .ok (journalScan commands tail) := by
  rw [scan_eq hd.opens]
  exact scanDescriptor_journal (hd.looked (openFile_looked d)) htail h

theorem scan_invalid {rest : List UInt8} {e : JournalCodecError} (hd : d.Readable)
    (h : d.file.bytes = journal commands ++ rest) (he : e ≠ .truncatedInput)
    (hdecode : decodeRecordPrefix rest = .error e) :
    (scan d).1 = .error { code := .invalidJournal, codecError := some e } := by
  rw [scan_eq hd.opens]
  exact scanDescriptor_invalid (hd.looked (openFile_looked d)) h he hdecode

theorem scan_invalid_header (hd : d.Readable)
    (h : d.file.bytes.take journalFileHeaderSize ≠ encodeFileHeader) :
    ∃ e, (scan d).1 = .error { code := .invalidJournal, codecError := some e } := by
  rw [scan_eq hd.opens]
  exact scanDescriptor_invalid_header (hd.looked (openFile_looked d)) h

end JournalReader

end MatchingEngine
