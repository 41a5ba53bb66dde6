import MatchingEngine.Data.Posix
import MatchingEngine.Journal.Basic

/-!
# The journal file

The reader and the writer of `src/journal_storage.cpp`, over the files and system calls of
`MatchingEngine.Data.Posix`. A descriptor is the file it is open on. The loops around `write` and
`pread` take one outcome in each iteration.

The injection points for tests of the source act like outcomes of the calls and are not modelled
apart from them. An exception while a batch is prepared is an argument of `appendBatchAndSync`.

## Main definitions

* `writeAll`, `preadAtMost`, `scanDescriptor`.
* `JournalReader.scan`.
* `JournalWriter.create`, `JournalWriter.openRecovered`,
  `JournalWriter.repairTruncatedTailAndOpen`, `JournalWriter.appendBatchAndSync`.
-/

namespace MatchingEngine

open Posix

/-! ### Data -/

inductive JournalStorageErrorCode where
  | fileAlreadyExists
  | fileNotFound
  | openFailed
  | readFailed
  | writeFailed
  | syncFailed
  | directorySyncFailed
  | truncateFailed
  | invalidJournal
  | sequenceViolation
  | sequenceExhausted
  | truncatedTailRequiresRepair
  | noTruncatedTail
  | writerFailed
  | codecFailure
  | emptyBatch
  deriving DecidableEq, Repr

structure JournalStorageError where
  code : JournalStorageErrorCode
  /-- `0` is the default `std::error_code`. -/
  systemError : Errno := 0
  codecError : Option JournalCodecError := none
  deriving DecidableEq, Repr

structure JournalScan where
  records : List JournalRecord
  validSize : ℕ
  hasTruncatedTail : Bool
  nextSequence : Option JournalSequence
  deriving DecidableEq, Repr

/-- A file and what will become of the calls on it. -/
structure Disk extends Outcomes where
  file : File

/-- A file that is accessed with some outcomes to come. -/
def onFile (outcomes : Outcomes) (f : File) : Disk := { outcomes with file := f }

/-- The error of a failed `open`. -/
def openError (errorNumber : Errno) : JournalStorageError :=
  if errorNumber = enoent then { code := .fileNotFound, systemError := errorNumber }
  else { code := .openFailed, systemError := errorNumber }

/-! ### Writing and reading -/

/-- `write_all`: the error, the outcomes that are left, and the file. -/
def writeAll : List WriteOutcome → File → List UInt8 →
    Option JournalStorageError × List WriteOutcome × File
  | [], f, bytes =>
    if bytes.length ≤ f.room then (none, [], f.append bytes)
    else (some { code := .writeFailed, systemError := efbig }, [], f.append bytes)
  | outcome :: outcomes, f, bytes =>
    if bytes = [] then (none, outcome :: outcomes, f)
    else
      match write outcome f bytes with
      | (.ok 0, f) => (some { code := .writeFailed, systemError := eio }, outcomes, f)
      | (.ok count, f) => writeAll outcomes f (bytes.drop count)
      | (.error e, f) =>
        if e = eintr then writeAll outcomes f bytes
        else (some { code := .writeFailed, systemError := e }, outcomes, f)

/-- The loop of `pread_at_most`, with the bytes read so far. -/
def preadLoop (f : File) (offset byteCount : ℕ) : List ReadOutcome → List UInt8 →
    Except JournalStorageError (List UInt8) × List ReadOutcome
  | [], bytes =>
    (.ok (bytes ++ (f.bytes.drop (offset + bytes.length)).take (byteCount - bytes.length)), [])
  | outcome :: outcomes, bytes =>
    if bytes.length < byteCount then
      match pread outcome f (offset + bytes.length) (byteCount - bytes.length) with
      | .ok [] => (.ok bytes, outcomes)
      | .ok chunk => preadLoop f offset byteCount outcomes (bytes ++ chunk)
      | .error e =>
        if e = eintr then preadLoop f offset byteCount outcomes bytes
        else (.error { code := .readFailed, systemError := e }, outcomes)
    else (.ok bytes, outcome :: outcomes)

/-- `pread_at_most`. -/
def preadAtMost (f : File) (offset byteCount : ℕ) (outcomes : List ReadOutcome) :
    Except JournalStorageError (List UInt8) × List ReadOutcome :=
  if offset > sizeLimit - 1 then
    (.error { code := .readFailed, systemError := eoverflow }, outcomes)
  else preadLoop f offset byteCount outcomes []

/-! ### Scanning -/

/-- `file_size`. The size of a file is in the range of the checks that follow `fstat`. -/
def fileSize (d : Disk) : Except JournalStorageError ℕ × Disk :=
  let d' : Disk := { d with stats := d.stats.tail }
  match failure d.stats with
  | some e => (.error { code := .readFailed, systemError := e }, d')
  | none => (.ok d.file.bytes.length, d')

/-- What an iteration of the loop of `scan_descriptor` does with the result of the decoder: the scan
ends, or the loop goes on. -/
inductive ScanStep where
  | done (result : Except JournalStorageError JournalScan)
  | next (expectedSequence : UInt64) (scan : JournalScan)

/-- The part of the loop body of `scan_descriptor` behind the decoder. -/
def scanStep (size : ℕ) (expectedSequence : UInt64) (scan : JournalScan) :
    Except JournalCodecError DecodedJournalRecord → ScanStep
  | .error e =>
    if e = .truncatedInput then .done (.ok { scan with hasTruncatedTail := true })
    else .done (.error { code := .invalidJournal, codecError := some e })
  | .ok decoded =>
    if decoded.record.sequence.value ≠ expectedSequence then
      .done (.error { code := .sequenceViolation })
    else
      let scan : JournalScan :=
        { scan with
          records := scan.records ++ [decoded.record]
          validSize := scan.validSize + decoded.bytesConsumed }
      if expectedSequence = 0xFFFFFFFFFFFFFFFF then
        if scan.validSize ≠ size then .done (.error { code := .sequenceViolation })
        else .done (.ok { scan with nextSequence := none })
      else
        .next (expectedSequence + 1) { scan with nextSequence := some ⟨expectedSequence + 1⟩ }

/-- The loop of `scan_descriptor`. Every iteration that goes on consumes a frame, so the size of the
file is enough fuel. -/
def scanLoop (f : File) (size : ℕ) : ℕ → List ReadOutcome → UInt64 → JournalScan →
    Except JournalStorageError JournalScan × List ReadOutcome
  | 0, outcomes, _, scan => (.ok scan, outcomes)
  | fuel + 1, outcomes, expectedSequence, scan =>
    if scan.validSize < size then
      let remaining := size - scan.validSize
      let readSize := min remaining (journalFrameHeaderSize + journalMaximumPayloadLength)
      match preadAtMost f scan.validSize readSize outcomes with
      | (.error e, outcomes) => (.error e, outcomes)
      | (.ok bytes, outcomes) =>
        if bytes.length ≠ readSize then
          (.error { code := .readFailed, systemError := eio }, outcomes)
        else
          match scanStep size expectedSequence scan (decodeRecordPrefix bytes) with
          | .done result => (result, outcomes)
          | .next expectedSequence scan => scanLoop f size fuel outcomes expectedSequence scan
    else (.ok scan, outcomes)

/-- `scan_descriptor`. -/
def scanDescriptor (d : Disk) : Except JournalStorageError JournalScan × Disk :=
  match fileSize d with
  | (.error e, d) => (.error e, d)
  | (.ok size, d) =>
    if size < journalFileHeaderSize then
      (.error { code := .invalidJournal, codecError := some .truncatedInput }, d)
    else
      match preadAtMost d.file 0 journalFileHeaderSize d.reads with
      | (.error e, reads) => (.error e, { d with reads := reads })
      | (.ok headerBytes, reads) =>
        if headerBytes.length ≠ journalFileHeaderSize then
          (.error { code := .readFailed, systemError := eio }, { d with reads := reads })
        else
          match decodeFileHeader headerBytes with
          | .error e => (.error { code := .invalidJournal, codecError := some e },
              { d with reads := reads })
          | .ok _ =>
            let scan : JournalScan :=
              { records := []
                validSize := journalFileHeaderSize
                hasTruncatedTail := false
                nextSequence := some ⟨1⟩ }
            let r := scanLoop d.file size size reads 1 scan
            (r.1, { d with reads := r.2 })

/-- Open a file that exists. -/
def openFile (d : Disk) : Option JournalStorageError × Disk :=
  ((failure d.opens).map openError, { d with opens := d.opens.tail })

/-- `JournalReader::scan`. -/
def JournalReader.scan (d : Disk) : Except JournalStorageError JournalScan × Disk :=
  match openFile d with
  | (some e, d) => (.error e, d)
  | (none, d) => scanDescriptor d

/-! ### Writers -/

/-- `fsync`, with the code of the error to report. -/
def syncFile (code : JournalStorageErrorCode) (d : Disk) : Option JournalStorageError × Disk :=
  let d' : Disk := { d with syncs := d.syncs.tail }
  match failure d.syncs with
  | some e => (some { code := code, systemError := e }, d')
  | none => (none, { d' with file := d.file.sync })

/-- `write_all` on a disk. -/
def writeBytes (d : Disk) (bytes : List UInt8) : Option JournalStorageError × Disk :=
  let r := writeAll d.writes d.file bytes
  (r.1, { d with writes := r.2.1, file := r.2.2 })

/-- A writer that is open on a file. -/
structure JournalWriter where
  nextSequence : Option JournalSequence
  failed : Bool
  deriving DecidableEq, Repr

namespace JournalWriter

/-- `sync_directory`. -/
def syncDirectory (d : Disk) : Option JournalStorageError × Disk :=
  match failure d.opens with
  | some e =>
    (some { code := .directorySyncFailed, systemError := e }, { d with opens := d.opens.tail })
  | none =>
    let d' : Disk := { d with opens := d.opens.tail, syncs := d.syncs.tail }
    ((failure d.syncs).map fun e => { code := .directorySyncFailed, systemError := e }, d')

/-- The part of `create` behind `open`: the file is new and empty. -/
def writeHeader (d : Disk) : Except JournalStorageError JournalWriter × Disk :=
  match writeBytes d encodeFileHeader with
  | (some e, d) => (.error e, d)
  | (none, d) =>
    match syncFile .syncFailed d with
    | (some e, d) => (.error e, d)
    | (none, d) =>
      match syncDirectory d with
      | (some e, d) => (.error e, d)
      | (none, d) => (.ok ⟨some ⟨1⟩, false⟩, d)

/-- `JournalWriter::create` on a path where there may be a file. -/
def create (path : Option File) (outcomes : Outcomes) :
    Except JournalStorageError JournalWriter × Option File × Outcomes :=
  let outcomes' : Outcomes := { outcomes with opens := outcomes.opens.tail }
  match failure outcomes.opens, path with
  | some e, path =>
    if e = eexist then (.error { code := .fileAlreadyExists, systemError := e }, path, outcomes')
    else (.error (openError e), path, outcomes')
  | none, some f =>
    (.error { code := .fileAlreadyExists, systemError := eexist }, some f, outcomes')
  | none, none =>
    let r := writeHeader { outcomes' with file := File.empty }
    (r.1, some r.2.file, r.2.toOutcomes)

/-- `JournalWriter::open_recovered`. -/
def openRecovered (d : Disk) : Except JournalStorageError JournalWriter × Disk :=
  match openFile d with
  | (some e, d) => (.error e, d)
  | (none, d) =>
    match scanDescriptor d with
    | (.error e, d) => (.error e, d)
    | (.ok scan, d) =>
      if scan.hasTruncatedTail then (.error { code := .truncatedTailRequiresRepair }, d)
      else (.ok ⟨scan.nextSequence, false⟩, d)

/-- The part of `repair_truncated_tail_and_open` behind the scan. -/
def truncateTail (d : Disk) (scan : JournalScan) :
    Except JournalStorageError JournalWriter × Disk :=
  if ¬ scan.hasTruncatedTail then (.error { code := .noTruncatedTail }, d)
  else if scan.validSize > sizeLimit - 1 then
    (.error { code := .truncateFailed, systemError := eoverflow }, d)
  else
    let d' : Disk := { d with truncates := d.truncates.tail }
    match failure d.truncates with
    | some e => (.error { code := .truncateFailed, systemError := e }, d')
    | none =>
      match syncFile .syncFailed { d' with file := d.file.truncate scan.validSize } with
      | (some e, d) => (.error e, d)
      | (none, d) => (.ok ⟨scan.nextSequence, false⟩, d)

/-- `JournalWriter::repair_truncated_tail_and_open`. -/
def repairTruncatedTailAndOpen (d : Disk) : Except JournalStorageError JournalWriter × Disk :=
  match openFile d with
  | (some e, d) => (.error e, d)
  | (none, d) =>
    match scanDescriptor d with
    | (.error e, d) => (.error e, d)
    | (.ok scan, d) => truncateTail d scan

/-- The loop of `append_batch_and_sync` that encodes the frames, with the sequence of the next
command and the size of the frames so far. -/
def prepare (sequence : UInt64) (totalSize : ℕ) :
    List JournalCommand → Except JournalStorageError (List (List UInt8) × List JournalSequence)
  | [] => .ok ([], [])
  | command :: commands =>
    match encodeRecord ⟨sequence⟩ command with
    | .error e => .error { code := .codecFailure, codecError := some e }
    | .ok frame =>
      if frame.length > 2 ^ 64 - 1 - totalSize then .error { code := .codecFailure }
      else
        (prepare (sequence + 1) (totalSize + frame.length) commands).map fun (frames, sequences) =>
          (frame :: frames, ⟨sequence⟩ :: sequences)

/-- The loop of `append_batch_and_sync` that writes the frames. -/
def writeFrames (d : Disk) : List (List UInt8) → Option JournalStorageError × Disk
  | [] => (none, d)
  | frame :: frames =>
    match writeBytes d frame with
    | (some e, d) => (some e, d)
    | (none, d) => writeFrames d frames

/-- `JournalWriter::append_batch_and_sync`. An exception can be thrown while the batch is
prepared. -/
def appendBatchAndSync (writer : JournalWriter) (d : Disk) (commands : List JournalCommand)
    (throws : Bool) :
    Except JournalStorageError (List JournalSequence) × JournalWriter × Disk :=
  if writer.failed then (.error { code := .writerFailed }, writer, d)
  else if commands = [] then (.error { code := .emptyBatch }, writer, d)
  else
    match writer.nextSequence with
    | none => (.error { code := .sequenceExhausted }, writer, d)
    | some firstSequence =>
      let available : UInt64 := 0xFFFFFFFFFFFFFFFF - firstSequence.value + 1
      if commands.length > available.toNat then
        (.error { code := .sequenceExhausted }, writer, d)
      else if throws then (.error { code := .codecFailure }, writer, d)
      else
        match prepare firstSequence.value 0 commands with
        | .error e => (.error e, writer, d)
        | .ok (frames, sequences) =>
          match writeFrames d frames with
          | (some e, d) => (.error e, { writer with failed := true }, d)
          | (none, d) =>
            match syncFile .syncFailed d with
            | (some e, d) => (.error e, { writer with failed := true }, d)
            | (none, d) =>
              let nextSequence : Option JournalSequence :=
                if commands.length = available.toNat then none
                else some ⟨firstSequence.value + UInt64.ofNat commands.length⟩
              (.ok sequences, { writer with nextSequence := nextSequence }, d)

end JournalWriter

end MatchingEngine
