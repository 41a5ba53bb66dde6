import MatchingEngine.Storage.Scan

/-!
# Writing a journal

What the writer leaves on the file, whatever becomes of its system calls. An append that fails on
the way leaves a part of the frames of its batch and a writer that takes no more batches; an append
that is refused changes nothing.

A writer that has not failed is `On` a journal: the file holds the commands that have been
appended, and the writer has the sequence of the next command.

## Main definitions

* `JournalWriter.On`: what a writer that has not failed knows about its file.
* `JournalWriter.Opened`: a writer that has just been created or opened again.
* `JournalWriter.Appended`: what an append can do.

## Main results

* `JournalWriter.Opened.on`: a writer that has been opened is on a journal.
* `JournalWriter.appendBatchAndSync_appended`: an append does one of these things.
-/

namespace MatchingEngine

open Posix

/-- The file can be opened, read, cut off and synced. -/
structure Disk.Repairable (d : Disk) : Prop extends d.Readable where
  truncates : NoFailure d.truncates
  syncs : NoFailure d.syncs

theorem repairable_calm (f : File) : (onFile Outcomes.calm f).Repairable :=
  ⟨⟨noFailure_nil, noFailure_nil, reliable_nil⟩, noFailure_nil, noFailure_nil⟩

/-! ### Writing -/

/-- Some of the bytes have been appended. -/
def Wrote (f : File) (data : List UInt8) (complete : Prop) (f' : File) : Prop :=
  f'.synced = f.synced ∧
    ∃ n, f'.bytes = f.bytes ++ data.take n ∧ (complete → data.length ≤ n)

theorem Wrote.bytes_eq {f f' : File} {data : List UInt8} {complete : Prop}
    (h : Wrote f data complete f') (hc : complete) : f'.bytes = f.bytes ++ data := by
  obtain ⟨-, n, hbytes, hn⟩ := h
  rw [hbytes, List.take_of_length_le (hn hc)]

theorem wrote_self (f : File) {data : List UInt8} {complete : Prop}
    (h : complete → data.length ≤ 0) : Wrote f data complete f :=
  ⟨rfl, 0, by rw [List.take_zero, List.append_nil], h⟩

/-- A call that appends something, and what is appended after it. -/
theorem Wrote.append {f f₁ f' : File} {data rest : List UInt8} {complete : Prop}
    (h₁ : f₁.bytes = f.bytes ++ data) (hs : f₁.synced = f.synced)
    (h : Wrote f₁ rest complete f') : Wrote f (data ++ rest) complete f' := by
  obtain ⟨hsynced, n, hbytes, hn⟩ := h
  refine ⟨hsynced.trans hs, data.length + n, ?_, fun hc => ?_⟩
  · rw [hbytes, h₁, List.append_assoc, List.take_length_add_append]
  · rw [List.length_append]
    exact Nat.add_le_add_left (hn hc) _

theorem append_take_bytes (f : File) (data : List UInt8) {count : ℕ} (h : count ≤ f.room) :
    (f.append (data.take count)).bytes = f.bytes ++ data.take count := by
  refine congrArg (f.bytes ++ ·) (List.take_of_length_le ?_)
  rw [List.length_take]
  omega

theorem writeAll_wrote (outcomes : List WriteOutcome) (f : File) (data : List UInt8) :
    Wrote f data ((writeAll outcomes f data).1 = none) (writeAll outcomes f data).2.2 := by
  induction outcomes generalizing f data with
  | nil =>
    rw [writeAll]
    split
    case isTrue h => exact ⟨rfl, f.room, rfl, fun _ => h⟩
    case isFalse h => exact ⟨rfl, f.room, rfl, fun h => by cases h⟩
  | cons outcome outcomes ih =>
    rw [writeAll]
    by_cases hdata : data = []
    · rw [if_pos hdata, hdata]
      exact wrote_self f fun _ => le_rfl
    have hpos := List.length_pos_of_ne_nil hdata
    rw [if_neg hdata]
    rcases outcome with n | _ | e
    · rw [write]
      by_cases hroom : f.room = 0
      · rw [if_pos hroom]
        exact wrote_self f fun h => by cases h
      · rw [if_neg hroom]
        obtain ⟨count, hcount⟩ : ∃ count, min (n + 1) (min data.length f.room) = count + 1 :=
          Nat.exists_eq_succ_of_ne_zero (by omega)
        rw [hcount]
        have happend := (ih (f.append (data.take (count + 1)))
          (data.drop (count + 1))).append (append_take_bytes f data (by omega)) rfl
        rwa [List.take_append_drop] at happend
    · exact wrote_self f fun h => by cases h
    · rw [write]
      dsimp only
      split
      · exact ih f _
      · exact wrote_self f fun h => by cases h

/-- What has changed when some bytes have been written. -/
theorem writeBytes_wrote (d : Disk) (data : List UInt8) :
    Wrote d.file data ((writeBytes d data).1 = none) (writeBytes d data).2.file :=
  writeAll_wrote d.writes d.file data

/-- Syncing a file: its content stays, and after a success it is on stable storage. -/
theorem syncFile_spec (code : JournalStorageErrorCode) (d : Disk) :
    (∃ e, (syncFile code d).1 = some e ∧ (syncFile code d).2.file = d.file) ∨
      (syncFile code d).1 = none ∧ (syncFile code d).2.file = d.file.sync := by
  rw [syncFile]
  cases failure d.syncs with
  | some e => exact Or.inl ⟨_, rfl, rfl⟩
  | none => exact Or.inr ⟨rfl, rfl⟩

/-! ### Batches -/

/-- The frames of some commands with consecutive sequences, one by one. -/
def frameList (start : ℕ) : List JournalCommand → List (List UInt8)
  | [] => []
  | command :: commands => frame (UInt64.ofNat start) command :: frameList (start + 1) commands

/-- Some consecutive sequences. -/
def sequences (start : ℕ) (commands : List JournalCommand) : List JournalSequence :=
  (records start commands).map (fun r => r.sequence)

theorem flatten_frameList (start : ℕ) (commands : List JournalCommand) :
    (frameList start commands).flatten = frames start commands := by
  induction commands generalizing start with
  | nil => rfl
  | cons command commands ih => rw [frameList, List.flatten_cons, ih, frames]

namespace JournalWriter

/-- Preparing a batch gives its frames, unless they are too large for the memory. -/
theorem prepare_eq {start total : ℕ} {commands : List JournalCommand} (hpos : 0 < start)
    (hle : start + commands.length ≤ 2 ^ 64) (htotal : total ≤ 2 ^ 64 - 1) :
    prepare (UInt64.ofNat start) total commands =
      if total + (frames start commands).length ≤ 2 ^ 64 - 1 then
        .ok (frameList start commands, sequences start commands)
      else .error { code := .codecFailure } := by
  induction commands generalizing start total with
  | nil => exact (if_pos htotal).symm
  | cons command commands ih =>
    rw [List.length_cons] at hle
    have hencode : encodeRecord ⟨UInt64.ofNat start⟩ command =
        .ok (frame (UInt64.ofNat start) command) :=
      encodeRecord_eq (ofNat_ne_zero hpos (by omega)) command
    rw [prepare, hencode, ofNat_add_one, frames, List.length_append]
    dsimp only
    by_cases hlarge : (frame (UInt64.ofNat start) command).length > 2 ^ 64 - 1 - total
    · rw [if_pos hlarge, if_neg (by omega)]
    · rw [if_neg hlarge, ih (Nat.add_one_pos start) (by omega) (by omega), ← Nat.add_assoc]
      split <;> rfl

/-- What is prepared are the frames of the batch. -/
theorem prepare_sound {start total : ℕ} {commands : List JournalCommand}
    {fs : List (List UInt8)} {assigned : List JournalSequence}
    (h : prepare (UInt64.ofNat start) total commands = .ok (fs, assigned)) :
    fs.flatten = frames start commands := by
  induction commands generalizing start total fs assigned with
  | nil =>
    cases h
    rfl
  | cons command commands ih =>
    rw [prepare, ofNat_add_one] at h
    by_cases hzero : UInt64.ofNat start = 0
    · rw [show encodeRecord ⟨UInt64.ofNat start⟩ command = .error .invalidJournalSequence from
        if_pos hzero] at h
      cases h
    · rw [show encodeRecord ⟨UInt64.ofNat start⟩ command = .ok (frame (UInt64.ofNat start) command)
        from encodeRecord_eq hzero command] at h
      dsimp only at h
      split at h
      · cases h
      · cases hrest : prepare (UInt64.ofNat (start + 1))
            (total + (frame (UInt64.ofNat start) command).length) commands with
        | error e =>
          rw [hrest] at h
          cases h
        | ok rest =>
          rw [hrest] at h
          cases h
          rw [List.flatten_cons, ih hrest, frames]

theorem writeFrames_wrote (d : Disk) (fs : List (List UInt8)) :
    Wrote d.file fs.flatten ((writeFrames d fs).1 = none) (writeFrames d fs).2.file := by
  induction fs generalizing d with
  | nil => exact wrote_self d.file fun _ => le_rfl
  | cons frame fs ih =>
    have hwrote := writeBytes_wrote d frame
    rw [writeFrames, List.flatten_cons]
    generalize writeBytes d frame = written at hwrote ⊢
    obtain ⟨_ | e, d'⟩ := written
    · exact (ih d').append (hwrote.bytes_eq rfl) hwrote.1
    · obtain ⟨hsynced, n, hbytes, -⟩ := hwrote
      refine ⟨hsynced, min n frame.length, ?_, fun h => by cases h⟩
      rw [List.take_append_of_le_length (Nat.min_le_right ..), hbytes, List.take_eq_take_iff.mpr]
      omega

/-- A writer that has not failed on a journal of some commands: the next sequence is the one behind
them. -/
structure On (writer : JournalWriter) (f : File) (commands : List JournalCommand) : Prop where
  not_failed : writer.failed = false
  bytes_eq : f.bytes = journal commands
  nextSequence_eq : writer.nextSequence = some ⟨UInt64.ofNat (commands.length + 1)⟩

/-- What an append can do to the writer and the file. -/
inductive Appended (writer : JournalWriter) (f : File) (commands batch : List JournalCommand) :
    Except JournalStorageError (List JournalSequence) → JournalWriter → File → Prop
  | refused (e : JournalStorageError) : Appended writer f commands batch (.error e) writer f
  | interrupted (e : JournalStorageError) (n : ℕ) (f' : File)
      (hbytes : f'.bytes = journal commands ++ (frames (commands.length + 1) batch).take n)
      (hsynced : f'.synced = f.synced) :
      Appended writer f commands batch (.error e) { writer with failed := true } f'
  | done (writer' : JournalWriter) (f' : File) (hne : batch ≠ [])
      (hon : writer'.On f' (commands ++ batch)) (hsynced : f'.synced = f'.bytes.length) :
      Appended writer f commands batch (.ok (sequences (commands.length + 1) batch)) writer' f'

/-- The number of sequences that are left. -/
theorem toNat_available {n : ℕ} (h : n < 2 ^ 64) (hpos : 0 < n) :
    (0xFFFFFFFFFFFFFFFF - UInt64.ofNat n + 1 : UInt64).toNat = 2 ^ 64 - n := by
  rw [UInt64.toNat_add, UInt64.toNat_sub, UInt64.toNat_ofNat', Nat.mod_eq_of_lt h]
  have hmax : (0xFFFFFFFFFFFFFFFF : UInt64).toNat = 2 ^ 64 - 1 := by decide
  have hone : (1 : UInt64).toNat = 1 := by decide
  omega

theorem appendBatchAndSync_appended {writer : JournalWriter} {d : Disk}
    {commands : List JournalCommand} (h : writer.On d.file commands) (batch : List JournalCommand)
    (throws : Bool) :
    Appended writer d.file commands batch (writer.appendBatchAndSync d batch throws).1
      (writer.appendBatchAndSync d batch throws).2.1
      (writer.appendBatchAndSync d batch throws).2.2.file := by
  obtain ⟨nextSequence, failed⟩ := writer
  obtain rfl : failed = false := h.not_failed
  obtain rfl : nextSequence = some ⟨UInt64.ofNat (commands.length + 1)⟩ := h.nextSequence_eq
  have hbytes := h.bytes_eq
  have hlt := length_add_lt_of_journal (hbytes.trans (List.append_nil _).symm)
  rw [appendBatchAndSync, if_neg Bool.false_ne_true]
  by_cases hne : batch = []
  · rw [if_pos hne]
    exact .refused _
  rw [if_neg hne]
  dsimp only
  rw [toNat_available (by omega) (by omega)]
  by_cases hmany : batch.length > 2 ^ 64 - (commands.length + 1)
  · rw [if_pos hmany]
    exact .refused _
  rw [if_neg hmany]
  by_cases hthrows : throws = true
  · rw [if_pos hthrows]
    exact .refused _
  rw [if_neg hthrows]
  rw [prepare_eq (Nat.add_one_pos commands.length) (by omega) (Nat.zero_le _)]
  by_cases hfits : 0 + (frames (commands.length + 1) batch).length ≤ 2 ^ 64 - 1
  case neg =>
    rw [if_neg hfits]
    exact .refused _
  rw [if_pos hfits]
  dsimp only
  have hwrote := writeFrames_wrote d (frameList (commands.length + 1) batch)
  rw [flatten_frameList] at hwrote
  generalize writeFrames d _ = written at hwrote ⊢
  obtain ⟨_ | e, d'⟩ := written
  case some =>
    obtain ⟨hsynced', n, hbytes', -⟩ := hwrote
    exact .interrupted e n _ (by rw [hbytes', hbytes]) hsynced'
  have hbytes' : d'.file.bytes = journal (commands ++ batch) := by
    rw [hwrote.bytes_eq rfl, hbytes, journal_append]
  have hsync := syncFile_spec .syncFailed d'
  dsimp only
  generalize syncFile .syncFailed d' = synced at hsync ⊢
  obtain ⟨error, d''⟩ := synced
  obtain ⟨e, rfl, hfile⟩ | ⟨rfl, hfile⟩ := hsync
  · refine .interrupted e (frames (commands.length + 1) batch).length _ ?_ ?_
    · rw [List.take_length, ← journal_append, hfile, hbytes']
    · rw [hfile]
      exact hwrote.1
  · have hlt' := length_add_lt_of_journal (hbytes'.trans (List.append_nil _).symm)
    rw [List.length_append] at hlt'
    refine .done _ _ hne ⟨rfl, ?_, ?_⟩ ?_
    · rw [hfile, File.bytes_sync, hbytes']
    · dsimp only
      rw [if_neg (by omega), ← UInt64.ofNat_add, List.length_append, Nat.add_right_comm]
    · rw [hfile, File.synced_sync, File.bytes_sync]

/-! ### Opening -/

/-- A writer that has just been created or opened again, and its file. -/
inductive Opened (writer : JournalWriter) (f : File) : Prop
  | created (path : Option File) (outcomes outcomes' : Outcomes)
      (h : create path outcomes = (.ok writer, some f, outcomes'))
  | recovered (d d' : Disk) (h : openRecovered d = (.ok writer, d')) (hfile : d'.file = f)
  | repaired (d d' : Disk) (h : repairTruncatedTailAndOpen d = (.ok writer, d'))
      (hfile : d'.file = f)

theorem syncDirectory_file (d : Disk) : (syncDirectory d).2.file = d.file := by
  rw [syncDirectory]
  cases failure d.opens <;> rfl

theorem writeHeader_spec {d : Disk} {writer : JournalWriter} (hempty : d.file.bytes = [])
    (h : (writeHeader d).1 = .ok writer) :
    writer.On (writeHeader d).2.file [] ∧
      (writeHeader d).2.file.synced = (writeHeader d).2.file.bytes.length := by
  have hwrote := writeBytes_wrote d encodeFileHeader
  rw [writeHeader] at h ⊢
  generalize writeBytes d encodeFileHeader = written at hwrote h ⊢
  obtain ⟨_ | e, d₁⟩ := written
  case some => cases h
  have hbytes : d₁.file.bytes = journal [] := by
    rw [hwrote.bytes_eq rfl, hempty, List.nil_append, journal, frames, List.append_nil]
  have hsync := syncFile_spec .syncFailed d₁
  dsimp only at h ⊢
  generalize syncFile .syncFailed d₁ = synced at hsync h ⊢
  obtain ⟨error, d₂⟩ := synced
  obtain ⟨e, rfl, -⟩ | ⟨rfl, hfile⟩ := hsync
  · cases h
  have hdirectory := syncDirectory_file d₂
  dsimp only at h hfile ⊢
  generalize syncDirectory d₂ = synced at hdirectory h ⊢
  obtain ⟨_ | e, d₃⟩ := synced
  case some => cases h
  obtain rfl := Except.ok.inj h
  dsimp only at hdirectory ⊢
  rw [hdirectory, hfile]
  exact ⟨⟨rfl, hbytes, rfl⟩, rfl⟩

/-- A journal that has just been created holds no commands. -/
theorem create_spec {path f : Option File} {outcomes outcomes' : Outcomes} {writer : JournalWriter}
    (h : create path outcomes = (.ok writer, f, outcomes')) :
    path = none ∧ ∃ f', f = some f' ∧ writer.On f' [] ∧ f'.synced = f'.bytes.length := by
  rw [create.eq_def] at h
  cases hopen : failure outcomes.opens with
  | some e =>
    rw [hopen] at h
    dsimp only at h
    split at h <;> cases h
  | none =>
    rw [hopen] at h
    obtain _ | f₀ := path
    case some => cases h
    exact ⟨rfl, _, (congrArg (fun r => r.2.1) h).symm, writeHeader_spec rfl (congrArg Prod.fst h)⟩

/-- Opening a journal again is a scan of it. -/
theorem openRecovered_eq (d : Disk) : openRecovered d =
    match JournalReader.scan d with
    | (.error e, d) => (.error e, d)
    | (.ok scan, d) =>
      if scan.hasTruncatedTail then (.error { code := .truncatedTailRequiresRepair }, d)
      else (.ok ⟨scan.nextSequence, false⟩, d) := by
  rw [openRecovered, JournalReader.scan]
  generalize openFile d = opened
  obtain ⟨_ | e, d'⟩ := opened <;> rfl

/-- Repairing a journal is a scan of it and cutting off its tail. -/
theorem repairTruncatedTailAndOpen_eq (d : Disk) : repairTruncatedTailAndOpen d =
    match JournalReader.scan d with
    | (.error e, d) => (.error e, d)
    | (.ok scan, d) => truncateTail d scan := by
  rw [repairTruncatedTailAndOpen, JournalReader.scan]
  generalize openFile d = opened
  obtain ⟨_ | e, d'⟩ := opened <;> rfl

/-- The writer behind the commands of a journal. -/
def behind (commands : List JournalCommand) : JournalWriter :=
  ⟨some ⟨UInt64.ofNat (commands.length + 1)⟩, false⟩

theorem on_behind {f : File} {commands : List JournalCommand} (h : f.bytes = journal commands) :
    (behind commands).On f commands :=
  ⟨rfl, h, rfl⟩

/-- A writer that was opened again is behind the commands of the journal. -/
theorem openRecovered_sound {d : Disk} {writer : JournalWriter}
    (h : (openRecovered d).1 = .ok writer) :
    (openRecovered d).2.file = d.file ∧ ∃ commands, writer.On d.file commands := by
  have hlooked := JournalReader.scan_looked d
  have hsound := @JournalReader.scan_sound d
  rw [openRecovered_eq] at h ⊢
  generalize JournalReader.scan d = scanned at hlooked hsound h ⊢
  obtain ⟨_ | scan, d'⟩ := scanned
  · cases h
  obtain ⟨commands, tail, -, hbytes, rfl⟩ := hsound rfl
  dsimp only at h ⊢
  rw [hasTruncatedTail_journalScan, nextSequence_journalScan] at h ⊢
  by_cases htail : tail = []
  · subst htail
    obtain rfl := Except.ok.inj h
    exact ⟨hlooked.file, commands, on_behind (hbytes.trans (List.append_nil _))⟩
  · rw [if_pos (decide_eq_true htail)] at h
    cases h

/-- The tail of a file is gone, and what is left is on stable storage. -/
structure Repaired (d d' : Disk) (commands : List JournalCommand) : Prop where
  bytes_eq : d'.file.bytes = journal commands
  synced_eq : d'.file.synced = d'.file.bytes.length
  opens : d'.opens <:+ d.opens
  stats : d'.stats <:+ d.stats
  reads : d'.reads <:+ d.reads

theorem truncateTail_spec {d : Disk} {commands : List JournalCommand} {tail : List UInt8}
    (htail : tail ≠ []) (hbytes : d.file.bytes = journal commands ++ tail) :
    ((truncateTail d (journalScan commands tail)).1 = .ok (behind commands) ∧
        Repaired d (truncateTail d (journalScan commands tail)).2 commands) ∨
      ¬ (NoFailure d.truncates ∧ NoFailure d.syncs) ∧
        ∃ e, (truncateTail d (journalScan commands tail)).1 = .error e := by
  have hlt := d.file.length_lt
  rw [hbytes, List.length_append] at hlt
  rw [truncateTail, hasTruncatedTail_journalScan, if_neg (not_not_intro (decide_eq_true htail)),
    validSize_journalScan, if_neg (by omega), nextSequence_journalScan]
  cases htruncate : failure d.truncates with
  | some e =>
    refine Or.inr ⟨fun h => ?_, _, rfl⟩
    rw [h.1.failure_eq] at htruncate
    cases htruncate
  | none =>
    dsimp only [syncFile]
    cases hsync : failure d.syncs with
    | some e =>
      refine Or.inr ⟨fun h => ?_, _, rfl⟩
      rw [h.2.failure_eq] at hsync
      cases hsync
    | none =>
      exact Or.inl ⟨rfl, (congrArg (List.take _) hbytes).trans List.take_left, rfl,
        List.suffix_rfl, List.suffix_rfl, List.suffix_rfl⟩

/-- A writer that was opened by a repair is behind the commands of the journal, and the tail is
gone. -/
theorem repairTruncatedTailAndOpen_sound {d : Disk} {writer : JournalWriter}
    (h : (repairTruncatedTailAndOpen d).1 = .ok writer) :
    ∃ commands, writer.On (repairTruncatedTailAndOpen d).2.file commands := by
  have hlooked := JournalReader.scan_looked d
  have hsound := @JournalReader.scan_sound d
  rw [repairTruncatedTailAndOpen_eq] at h ⊢
  generalize JournalReader.scan d = scanned at hlooked hsound h ⊢
  obtain ⟨_ | scan, d'⟩ := scanned
  · cases h
  obtain ⟨commands, tail, -, hbytes, rfl⟩ := hsound rfl
  dsimp only at h ⊢
  by_cases htail : tail = []
  · subst htail
    cases h
  · rcases truncateTail_spec htail (hlooked.file ▸ hbytes) with ⟨hok, hrepaired⟩ | ⟨-, e, he⟩
    · obtain rfl := Except.ok.inj (hok.symm.trans h)
      exact ⟨commands, on_behind hrepaired.bytes_eq⟩
    · cases he.symm.trans h

/-- A journal on a readable disk can be opened again. -/
theorem openRecovered_journal {d : Disk} {commands : List JournalCommand} (hd : d.Readable)
    (h : d.file.bytes = journal commands) :
    (openRecovered d).1 = .ok (behind commands) ∧ d.Looked (openRecovered d).2 := by
  have hlooked := JournalReader.scan_looked d
  have hscan := JournalReader.scan_journal hd (Or.inl rfl) (h.trans (List.append_nil _).symm)
  rw [openRecovered_eq]
  generalize JournalReader.scan d = scanned at hlooked hscan ⊢
  obtain ⟨_ | scan, d'⟩ := scanned
  · cases hscan
  obtain rfl := Except.ok.inj hscan
  dsimp only
  rw [nextSequence_journalScan]
  exact ⟨rfl, hlooked⟩

/-- A journal with a tail on a repairable disk is repaired. -/
theorem repairTruncatedTailAndOpen_journal {d : Disk} {commands : List JournalCommand}
    {tail : List UInt8} (hd : d.Repairable) (htail : Tail tail) (hne : tail ≠ [])
    (h : d.file.bytes = journal commands ++ tail) :
    (repairTruncatedTailAndOpen d).1 = .ok (behind commands) ∧
      Repaired d (repairTruncatedTailAndOpen d).2 commands := by
  have hlooked := JournalReader.scan_looked d
  have hscan := JournalReader.scan_journal hd.toReadable htail h
  rw [repairTruncatedTailAndOpen_eq]
  generalize JournalReader.scan d = scanned at hlooked hscan ⊢
  obtain ⟨_ | scan, d'⟩ := scanned
  · cases hscan
  obtain rfl := Except.ok.inj hscan
  dsimp only at hlooked ⊢
  rcases truncateTail_spec hne ((congrArg File.bytes hlooked.file).trans h)
    with ⟨hok, hrepaired⟩ | ⟨hfailure, -⟩
  · exact ⟨hok, { hrepaired with
      opens := hrepaired.opens.trans hlooked.opens
      stats := hrepaired.stats.trans hlooked.stats
      reads := hrepaired.reads.trans hlooked.reads }⟩
  · exact absurd ⟨hlooked.truncates ▸ hd.truncates, hlooked.syncs ▸ hd.syncs⟩ hfailure

theorem Opened.on {writer : JournalWriter} {f : File} (h : Opened writer f) :
    ∃ commands, writer.On f commands := by
  cases h with
  | created path outcomes outcomes' h =>
    obtain ⟨-, f', hf, hon, -⟩ := create_spec h
    obtain rfl := Option.some.inj hf
    exact ⟨[], hon⟩
  | recovered d d' h hfile =>
    subst hfile
    have hsound := openRecovered_sound (congrArg Prod.fst h)
    rw [h] at hsound
    obtain ⟨hfile, commands, hon⟩ := hsound
    exact ⟨commands, hfile ▸ hon⟩
  | repaired d d' h hfile =>
    subst hfile
    have hsound := repairTruncatedTailAndOpen_sound (congrArg Prod.fst h)
    rwa [h] at hsound

end JournalWriter

end MatchingEngine
