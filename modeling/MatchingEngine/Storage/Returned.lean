import MatchingEngine.Storage.Session

/-!
# What a writer returns

A writer returns for every command the sequence of its record. Through any calls of
`append_and_sync` and `append_batch_and_sync`, whatever becomes of the system calls, a scan of the
file finds the records that it found at the beginning and then those that were returned, under the
sequences that were returned. Behind them there can be a part of the one batch with which the writer
failed.

## Main definitions

* `JournalWriter.appendAndSync`: an append of one command.
* `JournalWriter.Call`: a call of one of the two functions.

## Main results

* `JournalWriter.scan_returned`: a scan finds what a writer has returned.
-/

namespace MatchingEngine

open Posix

namespace JournalWriter

/-- `JournalWriter::append_and_sync`. There is no sequence if `front` is called on an empty vector,
which has no defined result. -/
def appendAndSync (writer : JournalWriter) (d : Disk) (command : JournalCommand) (throws : Bool) :
    Except JournalStorageError (Option JournalSequence) × JournalWriter × Disk :=
  let r := writer.appendBatchAndSync d [command] throws
  (r.1.map List.head?, r.2)

/-- A call of `append_and_sync` or of `append_batch_and_sync`. -/
inductive Call where
  | one (command : JournalCommand) (throws : Bool) (outcomes : Outcomes)
  | many (append : Append)

/-- What a call returns. -/
inductive Returned where
  | one (result : Except JournalStorageError (Option JournalSequence))
  | many (result : Except JournalStorageError (List JournalSequence))

namespace Call

/-- The call on a writer and its file. -/
def perform (s : JournalWriter × File) : Call → Returned × JournalWriter × File
  | .one command throws outcomes =>
    let r := s.1.appendAndSync (onFile outcomes s.2) command throws
    (.one r.1, r.2.1, r.2.2.file)
  | .many a =>
    let r := append s a
    (.many r.1, r.2)

/-- The batch that is appended, with what becomes of the system calls. -/
def toAppend : Call → Append
  | .one command throws outcomes => ⟨[command], throws, outcomes⟩
  | .many append => append

/-- What a call returns if the append of its batch has returned a result. -/
def answer : Call → Except JournalStorageError (List JournalSequence) → Returned
  | .one _ _ _, result => .one (result.map List.head?)
  | .many _, result => .many result

/-- The records of which the caller has been told. -/
def told : Call × Returned → List JournalRecord
  | (.one command _ _, .one (.ok (some sequence))) => [⟨sequence, command⟩]
  | (.many append, .many (.ok sequences)) => List.zipWith JournalRecord.mk sequences append.batch
  | _ => []

end Call

/-- The call has returned an error. -/
def Returned.failed : Returned → Bool
  | .one (.error _) => true
  | .many (.error _) => true
  | _ => false

/-! ### One call -/

theorem records_append (start : ℕ) (commands commands' : List JournalCommand) :
    records start (commands ++ commands') =
      records start commands ++ records (start + commands.length) commands' := by
  induction commands generalizing start with
  | nil => rfl
  | cons command commands ih =>
    rw [List.cons_append, records, records, ih, List.cons_append, List.length_cons, Nat.add_assoc,
      Nat.add_comm 1]

theorem map_command_records (start : ℕ) (commands : List JournalCommand) :
    (records start commands).map (fun r => r.command) = commands := by
  induction commands generalizing start with
  | nil => rfl
  | cons command commands ih => rw [records, List.map_cons, ih]

theorem zipWith_sequences (start : ℕ) (commands : List JournalCommand) :
    List.zipWith JournalRecord.mk (sequences start commands) commands = records start commands := by
  induction commands generalizing start with
  | nil => rfl
  | cons command commands ih =>
    rw [records, ← ih (start + 1)]
    rfl

namespace Call

theorem perform_eq (s : JournalWriter × File) (call : Call) :
    call.perform s = (call.answer (append s call.toAppend).1, (append s call.toAppend).2) := by
  cases call <;> rfl

theorem told_error (call : Call) (e : JournalStorageError) :
    told (call, call.answer (.error e)) = [] := by
  cases call <;> rfl

theorem failed_error (call : Call) (e : JournalStorageError) :
    (call.answer (.error e)).failed = true := by
  cases call <;> rfl

theorem answer_error_ne (call : Call) (e : JournalStorageError) :
    call.answer (.error e) ≠ .one (.ok none) := by
  cases call <;> exact fun h => by cases h

theorem told_sequences (call : Call) (start : ℕ) :
    told (call, call.answer (.ok (sequences start call.toAppend.batch))) =
      records start call.toAppend.batch := by
  cases call with
  | one command throws outcomes => rfl
  | many append => exact zipWith_sequences start append.batch

theorem answer_sequences_ne (call : Call) (start : ℕ) :
    call.answer (.ok (sequences start call.toAppend.batch)) ≠ .one (.ok none) := by
  cases call <;> exact fun h => by cases h

end Call

/-! ### Any calls -/

/-- The state that some calls leave, on a journal of some commands at first. The sequences that were
returned are those of the commands that were appended. What stands behind them is of a call that
has failed. -/
def Leaves (commands : List JournalCommand) (log : List (Call × Returned))
    (s : JournalWriter × File) : Prop :=
  ∃ appended unfinished tail, Tail tail ∧
    s.2.bytes = journal (commands ++ appended ++ unfinished) ++ tail ∧
    records (commands.length + 1) appended = log.flatMap Call.told ∧
    (s.1.failed = false → unfinished = [] ∧ tail = []) ∧
    (unfinished = [] ∨ ∃ e ∈ log, e.2.failed = true ∧ unfinished <+: e.1.toAppend.batch) ∧
    ∀ e ∈ log, e.2 ≠ .one (.ok none)

variable {s : JournalWriter × File} {commands : List JournalCommand}

theorem append_of_failed (h : s.1.failed = true) (a : Append) :
    append s a = (.error { code := .writerFailed }, s) := by
  rw [append, appendBatchAndSync, if_pos h]
  rfl

/-- A writer that has failed appends nothing any more. -/
theorem runLog_of_failed (h : s.1.failed = true) (calls : List Call) :
    (runAll Call.perform s calls).2 = s ∧ ∀ e ∈ runLog Call.perform s calls,
      Call.told e = [] ∧ e.2 ≠ .one (.ok none) := by
  induction calls with
  | nil => exact ⟨rfl, fun e he => by cases he⟩
  | cons call calls ih =>
    have hperform : call.perform s = (call.answer (.error { code := .writerFailed }), s) := by
      rw [Call.perform_eq, append_of_failed h]
    rw [runAll, runLog_cons, hperform]
    refine ⟨ih.1, fun e he => ?_⟩
    rcases List.mem_cons.mp he with rfl | he
    · exact ⟨call.told_error _, call.answer_error_ne _⟩
    · exact ih.2 e he

/-- The call with which a writer fails leaves a part of its batch. -/
theorem leaves_interrupted {call : Call} {e : JournalStorageError} {n : ℕ} (calls : List Call)
    (hfailed : s.1.failed = true)
    (hbytes : s.2.bytes =
      journal commands ++ (frames (commands.length + 1) call.toAppend.batch).take n) :
    Leaves commands ((call, call.answer (.error e)) :: runLog Call.perform s calls)
      (runAll Call.perform s calls).2 := by
  obtain ⟨hstate, hlog⟩ := runLog_of_failed hfailed calls
  obtain ⟨k, -, tail, htail, htake⟩ :=
    exists_tail_of_take_frames (commands.length + 1) call.toAppend.batch n
  rw [hstate]
  refine ⟨[], call.toAppend.batch.take k, tail, htail, ?_, ?_, ?_, ?_, ?_⟩
  · rw [hbytes, htake, List.append_nil, journal_append, List.append_assoc]
  · rw [List.flatMap_cons, call.told_error, List.nil_append]
    exact (List.flatMap_eq_nil_iff.mpr fun e he => (hlog e he).1).symm
  · exact fun h => absurd (hfailed.symm.trans h) (by decide)
  · exact Or.inr ⟨_, List.mem_cons_self, call.failed_error e, List.take_prefix ..⟩
  · intro e' he'
    rcases List.mem_cons.mp he' with rfl | he'
    · exact call.answer_error_ne e
    · exact (hlog e' he').2

/-- A call in front that leaves the writer on a journal. -/
theorem Leaves.cons {batch : List JournalCommand} {log : List (Call × Returned)}
    {entry : Call × Returned} (h : Leaves (commands ++ batch) log s)
    (htold : Call.told entry = records (commands.length + 1) batch)
    (hne : entry.2 ≠ .one (.ok none)) : Leaves commands (entry :: log) s := by
  obtain ⟨appended, unfinished, tail, htail, hbytes, hrecords, hfailed, hunfinished, hlog⟩ := h
  refine ⟨batch ++ appended, unfinished, tail, htail, ?_, ?_, hfailed, ?_, ?_⟩
  · rw [hbytes, ← List.append_assoc commands]
  · rw [records_append, List.flatMap_cons, htold, ← hrecords, List.length_append,
      Nat.add_right_comm]
  · exact hunfinished.imp_right fun ⟨e, he, h⟩ => ⟨e, List.mem_cons_of_mem _ he, h⟩
  · exact List.forall_mem_cons.mpr ⟨hne, hlog⟩

theorem run_leaves (h : s.1.On s.2 commands) (calls : List Call) :
    Leaves commands (runLog Call.perform s calls) (runAll Call.perform s calls).2 := by
  induction calls generalizing s commands with
  | nil =>
    refine ⟨[], [], [], Or.inl rfl, ?_, rfl, fun _ => ⟨rfl, rfl⟩, Or.inl rfl,
      fun e he => by cases he⟩
    simp only [runAll, List.append_nil, h.bytes_eq]
  | cons call calls ih =>
    have happended := appendBatchAndSync_appended (d := onFile call.toAppend.outcomes s.2) h
      call.toAppend.batch call.toAppend.throws
    rw [runAll, runLog_cons, Call.perform_eq, append]
    generalize s.1.appendBatchAndSync (onFile call.toAppend.outcomes s.2) call.toAppend.batch
      call.toAppend.throws = r at happended ⊢
    obtain ⟨result, writer', d'⟩ := r
    dsimp only at happended ⊢
    generalize d'.file = f' at happended ⊢
    cases happended with
    | refused e =>
      have hrest : Leaves (commands ++ []) _ _ := (List.append_nil commands).symm ▸ ih h
      exact hrest.cons (call.told_error e) (call.answer_error_ne e)
    | interrupted e n _ hbytes => exact leaves_interrupted calls rfl hbytes
    | done _ _ _ hon => exact (ih hon).cons (call.told_sequences _) (call.answer_sequences_ne _)

/-- After any calls on a writer that has been created or opened, a scan finds the records that a
scan found before, then exactly the records of which the callers have been told, in the order of
the calls. Only if the writer has failed there is more: a first part of the batch of a call that
has returned an error, and maybe a truncated tail. `append_and_sync` never calls `front` on an
empty vector. -/
theorem scan_returned {writer : JournalWriter} {f : File} (h : Opened writer f)
    (calls : List Call) (outcomes outcomes' : Outcomes) (hd : (onFile outcomes f).Readable)
    (hd' : (onFile outcomes' (runAll Call.perform (writer, f) calls).2.2).Readable) :
    (∀ e ∈ runLog Call.perform (writer, f) calls, e.2 ≠ .one (.ok none)) ∧
    ∃ before after unfinished, (JournalReader.scan (onFile outcomes f)).1 = .ok before ∧
      (JournalReader.scan (onFile outcomes' (runAll Call.perform (writer, f) calls).2.2)).1 =
        .ok after ∧
      after.records =
        before.records ++ (runLog Call.perform (writer, f) calls).flatMap Call.told ++ unfinished ∧
      ((runAll Call.perform (writer, f) calls).2.1.failed = false →
        unfinished = [] ∧ after.hasTruncatedTail = false) ∧
      (unfinished = [] ∨ ∃ e ∈ runLog Call.perform (writer, f) calls, e.2.failed = true ∧
        unfinished.map (fun r => r.command) <+: e.1.toAppend.batch) := by
  obtain ⟨commands, hon⟩ := h.on
  obtain ⟨appended, unfinished, tail, htail, hbytes, hrecords, hfailed, hunfinished, hlog⟩ :=
    run_leaves (s := (writer, f)) hon calls
  refine ⟨hlog, _, _, records (1 + (commands ++ appended).length) unfinished,
    JournalReader.scan_journal hd (Or.inl rfl) (hon.bytes_eq.trans (List.append_nil _).symm),
    JournalReader.scan_journal hd' htail hbytes, ?_, ?_, ?_⟩
  · rw [records_journalScan, records_journalScan, records_append,
      records_append, ← hrecords, Nat.add_comm 1 commands.length]
  · intro hok
    obtain ⟨rfl, rfl⟩ := hfailed hok
    exact ⟨rfl, rfl⟩
  · rcases hunfinished with rfl | ⟨e, he, hfail, hpart⟩
    · exact Or.inl rfl
    · refine Or.inr ⟨e, he, hfail, ?_⟩
      rwa [map_command_records]

/-- A cancellation is appended, and the sync of the batch behind it fails: the callers have been
told of one record, which a scan finds in front of what the failed batch has left. -/
theorem scan_returned_sync_failed :
    ∃ (calls : List Call) (f : File) (after : JournalScan) (unfinished : List JournalRecord),
      Opened ⟨some ⟨1⟩, false⟩ f ∧
      (runAll Call.perform (⟨some ⟨1⟩, false⟩, f) calls).2.1.failed = true ∧
      (JournalReader.scan (onFile Outcomes.calm
        (runAll Call.perform (⟨some ⟨1⟩, false⟩, f) calls).2.2)).1 = .ok after ∧
      after.records = ⟨⟨1⟩, .cancelOrder ⟨7⟩⟩ :: unfinished := by
  let calls : List Call := [.one (.cancelOrder ⟨7⟩) false Outcomes.calm,
    .many ⟨[.cancelOrder ⟨8⟩, .cancelOrder ⟨9⟩], false, { Outcomes.calm with syncs := [some eio] }⟩]
  have hopened : Opened ⟨some ⟨1⟩, false⟩ (File.empty.append encodeFileHeader).sync :=
    .created none Outcomes.calm Outcomes.calm rfl
  obtain ⟨-, before, after, unfinished, hbefore, hafter, hrecords, -⟩ :=
    scan_returned hopened calls Outcomes.calm Outcomes.calm
      (repairable_calm _).toReadable (repairable_calm _).toReadable
  refine ⟨calls, _, after, unfinished, hopened, by decide +kernel, hafter, ?_⟩
  have hempty : before.records = [] := by
    have hscan : (JournalReader.scan (onFile Outcomes.calm
        (File.empty.append encodeFileHeader).sync)).1 = .ok (journalScan [] []) :=
      JournalReader.scan_journal (repairable_calm _).toReadable (Or.inl rfl) rfl
    rw [← Except.ok.inj (hscan.symm.trans hbefore)]
    rfl
  have htold : (runLog Call.perform (⟨some ⟨1⟩, false⟩, (File.empty.append encodeFileHeader).sync)
      calls).flatMap Call.told = [⟨⟨1⟩, .cancelOrder ⟨7⟩⟩] := by
    decide +kernel
  rw [hrecords, hempty, htold]
  rfl

end JournalWriter

end MatchingEngine
