import MatchingEngine.DurableEngine.Run
import MatchingEngine.Storage.Steady

/-!
# Batches that are refused

The writer of the journal refuses a batch with no commands, or with more commands than there are
sequences left, and can go on after that. The engine does not make this distinction: it fails with
every error of an append. A batch that is refused has written nothing, so only the state of the
engine changes, but it changes for good.

## Main definitions

* `DurableEngine.Reachable`: an engine and its file, after any calls.

## Main results

* `DurableEngine.Reachable.not_failed`: the writer of a healthy engine has not failed.
* `DurableEngine.execute_failed_iff`: when an engine fails, and what a refused batch does.
-/

namespace MatchingEngine

open Posix

namespace JournalWriter

/-- A writer that has appended a batch has not failed. -/
theorem failed_of_append_ok {writer writer' : JournalWriter} {d d' : Disk}
    {batch : List JournalCommand} {throws : Bool} {assigned : List JournalSequence}
    (h : writer.appendBatchAndSync d batch throws = (.ok assigned, writer', d')) :
    writer'.failed = false := by
  unfold appendBatchAndSync at h
  by_cases hfailed : writer.failed = true
  · rw [if_pos hfailed] at h
    cases h
  rw [if_neg hfailed] at h
  dsimp only at h
  repeat' split at h
  all_goals cases h
  all_goals exact Bool.eq_false_of_not_eq_true hfailed

/-- The writer refuses a batch with no commands, or with more than there are sequences left. -/
theorem append_refused {writer : JournalWriter} (hwriter : writer.failed = false) (d : Disk)
    {batch : List JournalCommand} (throws : Bool)
    (h : batch = [] ∨ writer.available < batch.length) :
    writer.appendBatchAndSync d batch throws =
      (.error { code := if batch = [] then .emptyBatch else .sequenceExhausted }, writer, d) := by
  rw [appendBatchAndSync, if_neg (by simp [hwriter])]
  by_cases hempty : batch = []
  · rw [if_pos hempty, if_pos hempty]
  · rw [if_neg hempty, if_neg hempty]
    have hmany := h.resolve_left hempty
    rw [available] at hmany
    split
    · rfl
    · next first hnext =>
      rw [hnext] at hmany
      exact if_pos hmany

end JournalWriter

theorem applyCommands_eq_none_iff (orderBook : Book) (throwsAt : Option ℕ)
    (commands : List JournalCommand) :
    (applyCommands orderBook throwsAt commands).1 = none ↔
      ∃ k < commands.length, throwsAt = some k := by
  induction commands generalizing orderBook throwsAt with
  | nil => simp [applyCommands]
  | cons command commands ih =>
    obtain _ | _ | n := throwsAt
    · simp [applyCommands, ih]
    · simp [applyCommands]
    · simp [applyCommands, ih]

namespace DurableEngine

/-- An engine and its file after any calls, whatever becomes of their system calls and wherever they
throw. The constructor is given a book and a writer that has just been opened. -/
inductive Reachable : DurableEngine → File → Prop
  | constructed (orderBook : Book) (nextSequence : Option JournalSequence) (f : File) :
      Reachable ⟨orderBook, ⟨nextSequence, false⟩, .healthy⟩ f
  | executed {engine : DurableEngine} {f : File} (h : Reachable engine f) (call : Call) :
      Reachable (execute (engine, f) call).2.1 (execute (engine, f) call).2.2

variable {engine : DurableEngine} {f : File}

theorem Started.reachable (h : Started engine f) : Reachable engine f := by
  obtain ⟨commands, hready⟩ := h.ready
  obtain ⟨orderBook, ⟨nextSequence, failed⟩, state⟩ := engine
  obtain rfl : state = .healthy := hready.healthy
  obtain rfl : failed = false := hready.on.not_failed
  exact .constructed orderBook nextSequence f

/-- A call on a healthy engine ends in one of three ways. -/
theorem execute_cases (hstate : engine.state = .healthy) (call : Call) :
    (∃ e writer d, engine.writer.appendBatchAndSync (onFile call.outcomes f) call.batch
          call.prepareThrows = (.error e, writer, d) ∧
        execute (engine, f) call =
          (.error (journalFailure e), { engine with writer := writer, state := .failed }, d.file)) ∨
      ∃ assigned writer d, engine.writer.appendBatchAndSync (onFile call.outcomes f) call.batch
          call.prepareThrows = (.ok assigned, writer, d) ∧
        ((∃ k < call.batch.length, call.throwsAt = some k) ∧
            (execute (engine, f) call).2.1.state = .failed ∨
          (¬ ∃ k < call.batch.length, call.throwsAt = some k) ∧
            (execute (engine, f) call).2.1.state = .healthy ∧
            (execute (engine, f) call).2.1.writer = writer) := by
  rw [execute, executeBatch, if_neg (by rw [hstate]; decide)]
  dsimp only
  generalize engine.writer.appendBatchAndSync _ _ _ = appended
  obtain ⟨e | assigned, writer, d⟩ := appended
  · exact Or.inl ⟨e, writer, d, rfl, rfl⟩
  refine Or.inr ⟨assigned, writer, d, rfl, ?_⟩
  have hnone := applyCommands_eq_none_iff engine.orderBook call.throwsAt call.batch
  dsimp only
  generalize applyCommands engine.orderBook call.throwsAt call.batch = applied at hnone ⊢
  obtain ⟨_ | results, orderBook⟩ := applied
  · exact Or.inl ⟨hnone.mp rfl, rfl⟩
  · exact Or.inr ⟨(fun hthrows => by cases hnone.mpr hthrows), hstate, rfl⟩

/-- The writer of a healthy engine has not failed. -/
theorem Reachable.not_failed (h : Reachable engine f) (hstate : engine.state = .healthy) :
    engine.writer.failed = false := by
  induction h with
  | constructed => rfl
  | @executed engine f h call ih =>
    cases hbefore : engine.state with
    | failed =>
      rw [execute_of_failed hbefore] at hstate
      cases hbefore.symm.trans hstate
    | healthy =>
      rcases execute_cases (f := f) hbefore call with ⟨e, writer, d, -, hexecute⟩ |
        ⟨assigned, writer, d, happend, ⟨-, hfailed⟩ | ⟨-, -, hwriter⟩⟩
      · rw [hexecute] at hstate
        cases hstate
      · cases hfailed.symm.trans hstate
      · rw [hwriter]
        exact JournalWriter.failed_of_append_ok happend

/-- The engine fails when an append returns an error, or when an exception is thrown before one of
the commands is applied, and in no other case. A batch that the writer refuses, since it has no
commands or more than there are sequences left, changes neither the book nor the writer nor the
file; but the engine has failed, and later calls only report that. -/
theorem execute_failed_iff (h : Reachable engine f) (hstate : engine.state = .healthy)
    (call : Call) :
    ((execute (engine, f) call).2.1.state = .failed ↔
      (∃ e, (engine.writer.appendBatchAndSync (onFile call.outcomes f) call.batch
        call.prepareThrows).1 = .error e) ∨ ∃ k < call.batch.length, call.throwsAt = some k) ∧
    (call.batch = [] ∨ engine.writer.available < call.batch.length →
      execute (engine, f) call =
        (.error (journalFailure
          { code := if call.batch = [] then .emptyBatch else .sequenceExhausted }),
          { engine with state := .failed }, f) ∧
      ∀ later, runAll execute (execute (engine, f) call).2 later =
        (later.map fun _ => .error (applicationFailure .engineFailed),
          (execute (engine, f) call).2)) := by
  have hcases := execute_cases (f := f) hstate call
  refine ⟨?_, fun hrefused => ?_⟩
  · rcases hcases with ⟨e, writer, d, happend, hexecute⟩ |
      ⟨assigned, writer, d, happend, ⟨hthrows, hfailed⟩ | ⟨hnot, hhealthy, -⟩⟩
    · rw [hexecute, happend]
      simp
    · simp [hfailed, hthrows]
    · rw [hhealthy, happend]
      simpa using hnot
  · have happend := JournalWriter.append_refused (h.not_failed hstate) (onFile call.outcomes f)
      call.prepareThrows hrefused
    have hexecute : execute (engine, f) call = (.error (journalFailure
        { code := if call.batch = [] then .emptyBatch else .sequenceExhausted }),
        { engine with state := .failed }, f) := by
      rcases hcases with ⟨e, writer, d, happend', hexecute⟩ | ⟨_, _, _, happend', -⟩
      · obtain ⟨rfl, rfl, rfl⟩ := by simpa using happend.symm.trans happend'
        exact hexecute
      · cases happend.symm.trans happend'
    refine ⟨hexecute, fun later => run_failed ?_ later⟩
    rw [hexecute]

/-- An engine that has just been created fails with an empty batch, for which nothing was written,
and then does not execute a valid command. -/
theorem empty_batch_fails :
    ∃ engine f outcomes, create none Outcomes.calm = (.ok engine, some f, outcomes) ∧
      engine.writer.appendBatchAndSync (onFile Outcomes.calm f) [] false =
        (.error { code := .emptyBatch }, engine.writer, onFile Outcomes.calm f) ∧
      engine.writer.failed = false ∧
      (execute (engine, f) ⟨[], false, none, Outcomes.calm⟩).2 =
        ({ engine with state := .failed }, f) ∧
      (execute (execute (engine, f) ⟨[], false, none, Outcomes.calm⟩).2
        ⟨[.cancelOrder ⟨1⟩], false, none, Outcomes.calm⟩).1 =
          .error (applicationFailure .engineFailed) :=
  ⟨_, _, _, rfl, rfl, rfl, rfl, rfl⟩

/-- A batch of two commands when there is one sequence left. -/
theorem execute_failed_last_sequence :
    (execute (⟨Book.fresh, ⟨some ⟨0xFFFFFFFFFFFFFFFF⟩, false⟩, .healthy⟩, File.empty)
      ⟨[.cancelOrder ⟨1⟩, .cancelOrder ⟨2⟩], false, none, Outcomes.calm⟩).2 =
        (⟨Book.fresh, ⟨some ⟨0xFFFFFFFFFFFFFFFF⟩, false⟩, .failed⟩, File.empty) := by
  have hexecute := ((execute_failed_iff (.constructed Book.fresh (some ⟨0xFFFFFFFFFFFFFFFF⟩)
    File.empty) rfl ⟨[.cancelOrder ⟨1⟩, .cancelOrder ⟨2⟩], false, none, Outcomes.calm⟩).2
      (Or.inr (by decide))).1
  rw [hexecute]

end DurableEngine

end MatchingEngine
