import MatchingEngine.DurableEngine.Recovery

/-!
# Runs of the durable engine

Any sequence of `execute_batch` calls on an engine, whatever becomes of their system calls and
wherever an exception is thrown. A batch is written before it is applied: as long as the engine is
healthy, its journal holds the commands it started with and those of the successful batches, and its
book is what these have made of the book it started with. The first failure is the last thing that
changes the file or the book.

## Main definitions

* `DurableEngine.Executed`: the three things that a call on a healthy engine can do.
* `DurableEngine.committed`: the commands of the successful calls of a run.

## Main results

* `DurableEngine.execute_executed`: a call does one of these things.
* `DurableEngine.run_failed`: an engine that has failed stays as it is.
* `DurableEngine.run_ready`: the journal and the book of an engine that is healthy after a run.
* `DurableEngine.run_write_ahead`: the two together, for an engine that was created or recovered.
-/

namespace MatchingEngine

open Posix

/-- All results of a batch, or what is left of the book if it stops before one of the commands. -/
def AppliedUpTo (orderBook : Book) (commands : List JournalCommand)
    (r : Option (List BatchCommandResult) × Book) : Prop :=
  r = (some (orderBook.run commands).1, (orderBook.run commands).2) ∨
    ∃ k < commands.length, r = (none, (orderBook.run (commands.take k)).2)

theorem AppliedUpTo.cons {orderBook : Book} {command : JournalCommand}
    {commands : List JournalCommand} {r : Option (List BatchCommandResult) × Book}
    (h : AppliedUpTo (orderBook.apply command).2 commands r) :
    AppliedUpTo orderBook (command :: commands)
      (r.1.map fun results => (orderBook.apply command).1 :: results, r.2) := by
  rcases h with rfl | ⟨k, hk, rfl⟩
  · exact Or.inl rfl
  · exact Or.inr ⟨k + 1, Nat.succ_lt_succ hk, rfl⟩

theorem applyCommands_spec (orderBook : Book) (throwsAt : Option ℕ)
    (commands : List JournalCommand) :
    AppliedUpTo orderBook commands (applyCommands orderBook throwsAt commands) := by
  induction commands generalizing orderBook throwsAt with
  | nil => exact Or.inl rfl
  | cons command commands ih =>
    obtain _ | _ | n := throwsAt
    · exact (ih (orderBook.apply command).2 none).cons
    · exact Or.inr ⟨0, Nat.succ_pos _, rfl⟩
    · exact (ih (orderBook.apply command).2 (some n)).cons

namespace DurableEngine

/-- What a call on a healthy engine on the journal of some commands can do. -/
inductive Executed (engine : DurableEngine) (f : File) (commands batch : List JournalCommand) :
    BatchResult → DurableEngine → File → Prop
  /-- The append or the sync has failed. -/
  | appendFailed (e : JournalStorageError) (n : ℕ) (engine' : DurableEngine) (f' : File)
      (hstate : engine'.state = .failed) (hbook : engine'.orderBook = engine.orderBook)
      (hbytes : f'.bytes = f.bytes ++ (frames (commands.length + 1) batch).take n)
      (hsynced : f'.synced = f.synced) :
      Executed engine f commands batch (.error (journalFailure e)) engine' f'
  /-- An exception was thrown before one of the commands of the committed batch. -/
  | applyFailed (k : ℕ) (engine' : DurableEngine) (f' : File) (hk : k < batch.length)
      (hstate : engine'.state = .failed)
      (hbook : engine'.orderBook = (engine.orderBook.run (batch.take k)).2)
      (hbytes : f'.bytes = f.bytes ++ frames (commands.length + 1) batch)
      (hsynced : f'.synced = f'.bytes.length) :
      Executed engine f commands batch (.error (applicationFailure .applicationFailure)) engine' f'
  | succeeded (engine' : DurableEngine) (f' : File) (hne : batch ≠ [])
      (hstate : engine'.state = .healthy)
      (hbook : engine'.orderBook = (engine.orderBook.run batch).2)
      (hon : engine'.writer.On f' (commands ++ batch)) (hsynced : f'.synced = f'.bytes.length) :
      Executed engine f commands batch (.ok (engine.orderBook.run batch).1) engine' f'

section Executed

variable {engine : DurableEngine} {f : File} {commands : List JournalCommand}

theorem execute_executed (h : engine.Ready f commands) (call : Call) :
    Executed engine f commands call.batch (execute (engine, f) call).1
      (execute (engine, f) call).2.1 (execute (engine, f) call).2.2 := by
  have happended := JournalWriter.appendBatchAndSync_appended (d := onFile call.outcomes f) h.on
    call.batch call.prepareThrows
  rw [execute, executeBatch, if_neg (by rw [h.healthy]; decide)]
  dsimp only
  generalize engine.writer.appendBatchAndSync _ _ _ = appended at happended ⊢
  obtain ⟨result, writer', d'⟩ := appended
  dsimp only at happended
  generalize hf : d'.file = f' at happended
  cases happended with
  | refused e =>
    exact .appendFailed e 0 _ _ rfl rfl
      (by rw [List.take_zero, List.append_nil]; exact congrArg File.bytes hf)
      (congrArg File.synced hf)
  | interrupted e n _ hbytes hsynced =>
    subst hf
    exact .appendFailed e n _ _ rfl rfl (by rw [h.on.bytes_eq]; exact hbytes) hsynced
  | done _ _ hne hon hsynced =>
    subst hf
    dsimp only
    rcases applyCommands_spec engine.orderBook call.throwsAt call.batch with
      happly | ⟨k, hk, happly⟩
    · rw [happly]
      exact .succeeded _ _ hne h.healthy rfl hon hsynced
    · rw [happly]
      refine .applyFailed k _ _ hk rfl rfl ?_ hsynced
      rw [h.on.bytes_eq, ← journal_append]
      exact hon.bytes_eq

/-- The commands of a call, if it was successful. -/
def committedBy : Call × BatchResult → List JournalCommand
  | (call, .ok _) => call.batch
  | (_, .error _) => []

/-- The commands of the successful calls of a run. -/
def committed (log : List (Call × BatchResult)) : List JournalCommand := log.flatMap committedBy

/-- A successful call has the results of its commands on the book, and leaves the engine ready with
them in the journal. -/
theorem execute_ok (h : engine.Ready f commands) {call : Call} {results : List BatchCommandResult}
    (hok : (execute (engine, f) call).1 = .ok results) :
    results = (engine.orderBook.run call.batch).1 ∧
      (execute (engine, f) call).2.1.Ready (execute (engine, f) call).2.2
        (commands ++ call.batch) ∧
      (execute (engine, f) call).2.2.synced = (execute (engine, f) call).2.2.bytes.length := by
  have hexecuted := execute_executed h call
  generalize execute (engine, f) call = executed at hexecuted hok ⊢
  obtain ⟨result, engine', f'⟩ := executed
  dsimp only at hexecuted hok ⊢
  cases hexecuted with
  | appendFailed => cases hok
  | applyFailed => cases hok
  | succeeded _ _ _ hstate hbook hon hsynced =>
    refine ⟨(Except.ok.inj hok).symm, ⟨hstate, hon, ?_⟩, hsynced⟩
    rw [hbook, h.orderBook_eq, ← Book.run_append]

/-- A call that leaves the engine healthy was successful. -/
theorem exists_ok_of_healthy (h : engine.Ready f commands) {call : Call}
    (hstate : (execute (engine, f) call).2.1.state = .healthy) :
    ∃ results, (execute (engine, f) call).1 = .ok results := by
  have hexecuted := execute_executed h call
  generalize execute (engine, f) call = executed at hexecuted hstate ⊢
  obtain ⟨result, engine', f'⟩ := executed
  dsimp only at hexecuted hstate ⊢
  cases hexecuted with
  | appendFailed e n _ _ hfailed => cases hfailed.symm.trans hstate
  | applyFailed k _ _ _ hfailed => cases hfailed.symm.trans hstate
  | succeeded => exact ⟨_, rfl⟩

/-- A call that leaves the engine healthy leaves it ready, with what it has committed. -/
theorem execute_ready (h : engine.Ready f commands) (call : Call)
    (hstate : (execute (engine, f) call).2.1.state = .healthy) :
    (execute (engine, f) call).2.1.Ready (execute (engine, f) call).2.2
      (commands ++ committedBy (call, (execute (engine, f) call).1)) := by
  obtain ⟨results, hok⟩ := exists_ok_of_healthy h hstate
  rw [hok]
  exact (execute_ok h hok).2.1

/-- The results of a call are those of its commands on the book, whatever the journal is. -/
theorem results_eq {s : DurableEngine × File} {call : Call} {results : List BatchCommandResult}
    (hok : (execute s call).1 = .ok results) : results = (s.1.orderBook.run call.batch).1 := by
  rw [execute, executeBatch] at hok
  split at hok
  · cases hok
  · dsimp only at hok
    split at hok
    · cases hok
    · rcases applyCommands_spec s.1.orderBook call.throwsAt call.batch with
        happly | ⟨k, -, happly⟩
      · rw [happly] at hok
        exact (Except.ok.inj hok).symm
      · rw [happly] at hok
        cases hok

/-- What has been synced stays, whatever becomes of a call. -/
theorem synced_prefix_execute (h : engine.Ready f commands) (call : Call) :
    f.bytes.take f.synced <+: (execute (engine, f) call).2.2.bytes.take
      (execute (engine, f) call).2.2.synced := by
  have hexecuted := execute_executed h call
  generalize execute (engine, f) call = executed at hexecuted ⊢
  obtain ⟨result, engine', f'⟩ := executed
  dsimp only at hexecuted ⊢
  cases hexecuted with
  | appendFailed e n _ _ _ _ hbytes hsynced =>
    rw [hbytes, hsynced, List.take_append]
    exact List.prefix_append _ _
  | applyFailed k _ _ _ _ _ hbytes hsynced =>
    rw [hsynced, List.take_length, hbytes]
    exact (List.take_prefix _ _).trans (List.prefix_append _ _)
  | succeeded _ _ _ _ _ hon hsynced =>
    rw [hsynced, List.take_length, hon.bytes_eq, journal_append, ← h.on.bytes_eq]
    exact (List.take_prefix _ _).trans (List.prefix_append _ _)

theorem execute_of_failed {s : DurableEngine × File} (h : s.1.state = .failed) (call : Call) :
    execute s call = (.error (applicationFailure .engineFailed), s) := by
  rw [execute, executeBatch, if_pos h]
  rfl

/-- An engine that has failed stays as it is, and every call says so. -/
theorem run_failed {s : DurableEngine × File} (h : s.1.state = .failed) (calls : List Call) :
    runAll execute s calls =
      (calls.map fun _ => .error (applicationFailure .engineFailed), s) := by
  induction calls with
  | nil => rfl
  | cons call calls ih => rw [runAll, execute_of_failed h, ih, List.map_cons]

/-- The journal and the book of an engine that is healthy after a run. -/
theorem run_ready (h : engine.Ready f commands) (calls : List Call)
    (hstate : (runAll execute (engine, f) calls).2.1.state = .healthy) :
    (runAll execute (engine, f) calls).2.1.Ready (runAll execute (engine, f) calls).2.2
      (commands ++ committed (runLog execute (engine, f) calls)) := by
  induction calls generalizing engine f commands with
  | nil =>
    rw [runLog_nil, committed, List.flatMap_nil, List.append_nil]
    exact h
  | cons call calls ih =>
    rw [runLog_cons, committed, List.flatMap_cons, ← List.append_assoc]
    refine ih (execute_ready h call ?_) hstate
    cases hnext : (execute (engine, f) call).2.1.state with
    | healthy => rfl
    | failed =>
      have hfailed : (runAll execute (engine, f) (call :: calls)).2 =
          (execute (engine, f) call).2 := congrArg Prod.snd (run_failed hnext calls)
      rw [hfailed, hnext] at hstate
      exact hstate

end Executed

/-! ### Whole runs -/

/-- An engine that has just been created or recovered, and its file. -/
inductive Started (engine : DurableEngine) (f : File) : Prop
  | created (path : Option File) (outcomes outcomes' : Outcomes)
      (h : create path outcomes = (.ok engine, some f, outcomes'))
  | recovered (d d' : Disk) (h : recover d = (.ok engine, d')) (hfile : d'.file = f)

/-- An engine on a new journal. -/
theorem started_fresh : Started ⟨Book.fresh, ⟨some ⟨1⟩, false⟩, .healthy⟩
    (File.empty.append encodeFileHeader).sync :=
  .created none Outcomes.calm Outcomes.calm rfl

theorem Started.ready {engine : DurableEngine} {f : File} (h : Started engine f) :
    ∃ commands, engine.Ready f commands := by
  cases h with
  | created path outcomes outcomes' h =>
    obtain ⟨f', hf, hready, -⟩ := create_ready h
    obtain rfl := Option.some.inj hf
    exact ⟨[], hready⟩
  | recovered d d' h hfile =>
    subst hfile
    have hready := recover_ready (congrArg Prod.fst h)
    rwa [h] at hready

theorem Ready.scan_eq {engine : DurableEngine} {f : File} {commands : List JournalCommand}
    (h : engine.Ready f commands) {outcomes : Outcomes} (hd : (onFile outcomes f).Readable) :
    (JournalReader.scan (onFile outcomes f)).1 = .ok (journalScan commands []) :=
  JournalReader.scan_journal hd (Or.inl rfl) (h.on.bytes_eq.trans (List.append_nil _).symm)

/-- Any run of an engine. While it is healthy, its journal scans to the commands it held at the
start and those of the successful batches, and its book is what these have made of the first book;
what the next call can then do is listed in `Executed`. Once it has failed, later calls change
nothing and report that. -/
theorem run_write_ahead (engine : DurableEngine) (f : File) (h : Started engine f) :
    ∃ commands : List JournalCommand,
      (∀ outcomes, (onFile outcomes f).Readable →
        (JournalReader.scan (onFile outcomes f)).1 = .ok (journalScan commands [])) ∧
      ∀ calls : List Call,
        let s := (runAll execute (engine, f) calls).2
        let successful := committed (runLog execute (engine, f) calls)
        (s.1.state = .healthy →
          (∀ outcomes, (onFile outcomes s.2).Readable →
            (JournalReader.scan (onFile outcomes s.2)).1 =
              .ok (journalScan (commands ++ successful) [])) ∧
          s.1.orderBook = (engine.orderBook.run successful).2 ∧
          ∀ call : Call, Executed s.1 s.2 (commands ++ successful) call.batch
            (execute s call).1 (execute s call).2.1 (execute s call).2.2) ∧
        (s.1.state = .failed → ∀ later : List Call, runAll execute s later =
          (later.map fun _ => .error (applicationFailure .engineFailed), s)) := by
  obtain ⟨commands, hready⟩ := h.ready
  refine ⟨commands, fun outcomes hd => hready.scan_eq hd, fun calls => ⟨fun hstate => ?_, ?_⟩⟩
  · have hrun := run_ready hready calls hstate
    refine ⟨fun outcomes hd => hrun.scan_eq hd, ?_, fun call => execute_executed hrun call⟩
    rw [hrun.orderBook_eq, hready.orderBook_eq, Book.run_append]
  · exact fun hstate later => run_failed hstate later

/-- A new engine executes a batch, and the next one cannot be encoded for lack of memory. -/
theorem run_write_ahead_committed :
    ∃ engine f, Started engine f ∧ ∃ (commands : List JournalCommand) (call refused : Call),
      committed (runLog execute (engine, f) [call]) = [.submitLimitOrder ⟨⟨7⟩, .buy, ⟨10⟩, ⟨5⟩⟩] ∧
      (JournalReader.scan (onFile Outcomes.calm (runAll execute (engine, f) [call]).2.2)).1 =
        .ok (journalScan (commands ++ [.submitLimitOrder ⟨⟨7⟩, .buy, ⟨10⟩, ⟨5⟩⟩]) []) ∧
      (runAll execute (engine, f) [call]).2.1.orderBook =
        (engine.orderBook.run [.submitLimitOrder ⟨⟨7⟩, .buy, ⟨10⟩, ⟨5⟩⟩]).2 ∧
      (runAll execute (engine, f) [call, refused]).2.1.state = .failed ∧
      runAll execute (runAll execute (engine, f) [call, refused]).2 [call] =
        ([.error (applicationFailure .engineFailed)],
          (runAll execute (engine, f) [call, refused]).2) := by
  obtain ⟨commands, -, hcalls⟩ := run_write_ahead _ _ started_fresh
  generalize hcall : (⟨[.submitLimitOrder ⟨⟨7⟩, .buy, ⟨10⟩, ⟨5⟩⟩], false, none,
    Outcomes.calm⟩ : Call) = call
  generalize hrefused : (⟨[.cancelOrder ⟨7⟩], true, none, Outcomes.calm⟩ : Call) = refused
  have hcommitted : committed (runLog execute (⟨Book.fresh, ⟨some ⟨1⟩, false⟩, .healthy⟩,
      (File.empty.append encodeFileHeader).sync) [call]) =
        [.submitLimitOrder ⟨⟨7⟩, .buy, ⟨10⟩, ⟨5⟩⟩] := by
    subst hcall
    rfl
  have hhealthy : (runAll execute (⟨Book.fresh, ⟨some ⟨1⟩, false⟩, .healthy⟩,
      (File.empty.append encodeFileHeader).sync) [call]).2.1.state = .healthy := by
    subst hcall
    rfl
  have hfailed : (runAll execute (⟨Book.fresh, ⟨some ⟨1⟩, false⟩, .healthy⟩,
      (File.empty.append encodeFileHeader).sync) [call, refused]).2.1.state = .failed := by
    subst hcall hrefused
    rfl
  obtain ⟨hscan, hbook, -⟩ := (hcalls [call]).1 hhealthy
  rw [hcommitted] at hscan hbook
  exact ⟨_, _, started_fresh, commands, call, refused, hcommitted,
    hscan Outcomes.calm (repairable_calm _).toReadable, hbook, hfailed,
    (hcalls [call, refused]).2 hfailed [call]⟩

end DurableEngine

end MatchingEngine
