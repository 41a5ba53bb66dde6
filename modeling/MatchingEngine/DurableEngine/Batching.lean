import MatchingEngine.DurableEngine.Refusal

/-!
# Cutting a sequence of commands into batches

A batch is written as a whole before its first command is applied, and a single command is applied
before the next one is written. Without a failure this makes no difference: however a sequence of
commands is cut, and whether a single command is executed as a batch or through `submit` or
`cancel`, the results, the book, the file and the writer are those of one batch.

## Main definitions

* `DurableEngine.submit`, `DurableEngine.cancel`.
* `DurableEngine.Operation`, `DurableEngine.operate`: the calls that execute commands.

## Main results

* `DurableEngine.operate_advanced`, `DurableEngine.run_operate`: what one call and a sequence of
  calls make of an engine.
* `DurableEngine.run_cut`: every cut of a sequence of commands does what one batch does.
-/

namespace MatchingEngine

open Posix

/-- `std::get<SubmitResult>`. -/
def BatchCommandResult.submit? : BatchCommandResult → Option SubmitResult
  | .submit r => some r
  | .cancel _ => none

/-- `std::get<CancelResult>`. -/
def BatchCommandResult.cancel? : BatchCommandResult → Option CancelResult
  | .submit _ => none
  | .cancel r => some r

theorem Book.exists_apply_submit (b : Book) (order : NewLimitOrder) :
    ∃ r, (b.apply (.submitLimitOrder order)).1 = .submit r := by
  rw [(b.apply_refines _).1]
  exact ⟨_, rfl⟩

theorem Book.exists_apply_cancel (b : Book) (id : OrderId) :
    ∃ r, (b.apply (.cancelOrder id)).1 = .cancel r := by
  rw [(b.apply_refines _).1]
  exact ⟨_, rfl⟩

theorem applyCommands_none (orderBook : Book) (commands : List JournalCommand) :
    applyCommands orderBook none commands =
      (some (orderBook.run commands).1, (orderBook.run commands).2) := by
  induction commands generalizing orderBook with
  | nil => rfl
  | cons command commands ih =>
    simp only [applyCommands, Option.map_none, ih]
    rfl

namespace DurableEngine

/-! ### The calls -/

/-- `DurableEngine::submit`. No value stands for `front` of an empty vector, and for a result of the
wrong kind. -/
def submit (engine : DurableEngine) (d : Disk) (order : NewLimitOrder) (prepareThrows : Bool)
    (throwsAt : Option ℕ) :
    Except DurableEngineError (Option SubmitResult) × DurableEngine × Disk :=
  match engine.executeBatch d [.submitLimitOrder order] prepareThrows throwsAt with
  | (.error e, s) => (.error e, s)
  | (.ok results, s) => (.ok (results.head?.bind BatchCommandResult.submit?), s)

/-- `DurableEngine::cancel`. -/
def cancel (engine : DurableEngine) (d : Disk) (id : OrderId) (prepareThrows : Bool)
    (throwsAt : Option ℕ) :
    Except DurableEngineError (Option CancelResult) × DurableEngine × Disk :=
  match engine.executeBatch d [.cancelOrder id] prepareThrows throwsAt with
  | (.error e, s) => (.error e, s)
  | (.ok results, s) => (.ok (results.head?.bind BatchCommandResult.cancel?), s)

/-- A call that executes commands. -/
inductive Operation where
  | executeBatch (commands : List JournalCommand)
  | submit (order : NewLimitOrder)
  | cancel (id : OrderId)
  deriving DecidableEq, Repr

/-- The commands that a call executes. -/
def Operation.commands : Operation → List JournalCommand
  | executeBatch commands => commands
  | submit order => [.submitLimitOrder order]
  | cancel id => [.cancelOrder id]

/-- The call on an engine and its file, when no exception is thrown: the results of its commands. -/
def operate (s : DurableEngine × File) (call : Operation × Outcomes) :
    Except DurableEngineError (Option (List BatchCommandResult)) × DurableEngine × File :=
  let d := onFile call.2 s.2
  match call.1 with
  | .executeBatch commands =>
    let r := s.1.executeBatch d commands false none
    (r.1.map some, r.2.1, r.2.2.file)
  | .submit order =>
    let r := s.1.submit d order false none
    (r.1.map fun result => result.map fun r => [.submit r], r.2.1, r.2.2.file)
  | .cancel id =>
    let r := s.1.cancel d id false none
    (r.1.map fun result => result.map fun r => [.cancel r], r.2.1, r.2.2.file)

/-! ### One call -/

/-- The engine and the file after some commands, whichever calls they came in: the first call syncs
the file. -/
def advanced (orderBook : Book) (start : ℕ) (f : File) (done : List JournalCommand) :
    DurableEngine × File :=
  (⟨(orderBook.run done).2, ⟨JournalWriter.nextAfter (start + done.length), false⟩, .healthy⟩,
    if done = [] then f else (f.append (frames start done)).sync)

section Advance

variable (orderBook : Book) {start : ℕ} {f : File} {done batch : List JournalCommand}

/-- A batch that does not fail. -/
theorem executeBatch_eq {d : Disk} (hpos : 0 < start) (hne : batch ≠ [])
    (hle : start + batch.length ≤ 2 ^ 64) (hd : d.Appendable)
    (hroom : (frames start batch).length ≤ d.file.room) :
    ∃ d', d'.file = (d.file.append (frames start batch)).sync ∧
      executeBatch ⟨orderBook, ⟨JournalWriter.nextAfter start, false⟩, .healthy⟩ d batch false
          none =
        (.ok (orderBook.run batch).1,
          ⟨(orderBook.run batch).2, ⟨JournalWriter.nextAfter (start + batch.length), false⟩,
            .healthy⟩, d') := by
  obtain ⟨d', hfile, happend⟩ := JournalWriter.appendBatchAndSync_eq hpos hne hle hd hroom
  refine ⟨d', hfile, ?_⟩
  rw [executeBatch, if_neg (by simp)]
  dsimp only
  rw [happend]
  dsimp only
  rw [applyCommands_none]

theorem room_advanced (hroom : (frames start (done ++ batch)).length ≤ f.room) :
    (frames (start + done.length) batch).length ≤ (advanced orderBook start f done).2.room := by
  rw [frames_append, List.length_append] at hroom
  unfold advanced
  by_cases hdone : done = []
  · rw [if_pos hdone]
    exact (Nat.le_add_left _ _).trans hroom
  · rw [if_neg hdone, File.room_sync, File.room_append (by omega)]
    omega

/-- The frames of a batch go behind those that have been written. -/
theorem file_advanced (hroom : (frames start (done ++ batch)).length ≤ f.room) (hne : batch ≠ []) :
    ((advanced orderBook start f done).2.append (frames (start + done.length) batch)).sync =
      (advanced orderBook start f (done ++ batch)).2 := by
  unfold advanced
  by_cases hdone : done = []
  · subst hdone
    rw [if_pos rfl, List.nil_append, if_neg hne]
    rfl
  · rw [frames_append] at hroom
    rw [if_neg hdone, if_neg (by simp [hne]), File.sync_append_sync, File.append_append hroom,
      frames_append]

theorem executeBatch_advanced (hpos : 0 < start) (hne : batch ≠ [])
    (hle : start + (done ++ batch).length ≤ 2 ^ 64)
    (hroom : (frames start (done ++ batch)).length ≤ f.room) {outcomes : Outcomes}
    (hd : (onFile outcomes f).Appendable) :
    ∃ d, (advanced orderBook start f done).1.executeBatch
        (onFile outcomes (advanced orderBook start f done).2) batch false none =
      (.ok ((orderBook.run done).2.run batch).1,
        (advanced orderBook start f (done ++ batch)).1, d) ∧
      d.file = (advanced orderBook start f (done ++ batch)).2 := by
  rw [List.length_append, ← Nat.add_assoc] at hle
  have hroom' := room_advanced orderBook hroom
  have hfile' := file_advanced orderBook hroom hne
  generalize (advanced orderBook start f done).2 = f' at hroom' hfile'
  obtain ⟨d, hfile, hexecute⟩ := executeBatch_eq (orderBook.run done).2
    (d := onFile outcomes f') (Nat.add_pos_left hpos _) hne hle ⟨hd.writes, hd.syncs⟩ hroom'
  refine ⟨d, hexecute.trans ?_, hfile.trans hfile'⟩
  rw [advanced, Book.run_append, List.length_append, Nat.add_assoc]

/-- One call that does not fail, with the results of its commands. -/
theorem operate_advanced (hpos : 0 < start) {op : Operation} (hne : op.commands ≠ [])
    (hle : start + (done ++ op.commands).length ≤ 2 ^ 64)
    (hroom : (frames start (done ++ op.commands)).length ≤ f.room) {outcomes : Outcomes}
    (hd : (onFile outcomes f).Appendable) :
    operate (advanced orderBook start f done) (op, outcomes) =
      (.ok (some ((orderBook.run done).2.run op.commands).1),
        advanced orderBook start f (done ++ op.commands)) := by
  obtain ⟨d, hexecute, hfile⟩ := executeBatch_advanced orderBook hpos hne hle hroom hd
  unfold operate
  cases op with
  | executeBatch commands =>
    dsimp only [Operation.commands] at hexecute ⊢
    rw [hexecute]
    dsimp only
    rw [hfile]
    rfl
  | submit order =>
    obtain ⟨r, hr⟩ := (orderBook.run done).2.exists_apply_submit order
    have hresults : ((orderBook.run done).2.run [.submitLimitOrder order]).1 = [.submit r] :=
      congrArg (fun x => [x]) hr
    dsimp only [Operation.commands] at hexecute hfile ⊢
    rw [hresults] at hexecute ⊢
    rw [submit, hexecute]
    dsimp only
    rw [hfile]
    rfl
  | cancel id =>
    obtain ⟨r, hr⟩ := (orderBook.run done).2.exists_apply_cancel id
    have hresults : ((orderBook.run done).2.run [.cancelOrder id]).1 = [.cancel r] :=
      congrArg (fun x => [x]) hr
    dsimp only [Operation.commands] at hexecute hfile ⊢
    rw [hresults] at hexecute ⊢
    rw [cancel, hexecute]
    dsimp only
    rw [hfile]
    rfl

/-- A sequence of calls that do not fail. -/
theorem run_operate (hpos : 0 < start) {calls : List (Operation × Outcomes)}
    (hcalls : ∀ call ∈ calls, call.1.commands ≠ [] ∧ (onFile call.2 f).Appendable)
    (hle : start + (done ++ calls.flatMap fun call => call.1.commands).length ≤ 2 ^ 64)
    (hroom : (frames start (done ++ calls.flatMap fun call => call.1.commands)).length ≤ f.room) :
    ∃ parts : List (List BatchCommandResult),
      runAll operate (advanced orderBook start f done) calls =
        (parts.map fun results => .ok (some results),
          advanced orderBook start f (done ++ calls.flatMap fun call => call.1.commands)) ∧
      parts.flatten =
        ((orderBook.run done).2.run (calls.flatMap fun call => call.1.commands)).1 := by
  induction calls generalizing done with
  | nil =>
    refine ⟨[], ?_, rfl⟩
    rw [List.flatMap_nil, List.append_nil]
    rfl
  | cons call calls ih =>
    obtain ⟨⟨hne, hd⟩, hrest⟩ := List.forall_mem_cons.mp hcalls
    rw [List.flatMap_cons, ← List.append_assoc] at hle hroom ⊢
    -- the first call leaves room and sequences for the others
    have hle' : start + (done ++ call.1.commands).length ≤ 2 ^ 64 := by
      rw [List.length_append] at hle
      omega
    have hroom' : (frames start (done ++ call.1.commands)).length ≤ f.room := by
      rw [frames_append, List.length_append] at hroom
      omega
    obtain ⟨parts, hrun, hparts⟩ := ih hrest hle hroom
    refine ⟨((orderBook.run done).2.run call.1.commands).1 :: parts, ?_, ?_⟩
    · rw [runAll, operate_advanced orderBook hpos hne hle' hroom' hd, hrun, List.map_cons]
    · rw [List.flatten_cons, hparts, Book.results_append, Book.run_append]

end Advance

/-! ### Every cut -/

/-- The size of some frames does not depend on their sequences. -/
theorem length_frames_eq (start start' : ℕ) (commands : List JournalCommand) :
    (frames start commands).length = (frames start' commands).length := by
  induction commands generalizing start start' with
  | nil => rfl
  | cons command commands ih =>
    rw [frames, frames, List.length_append, List.length_append, length_frame, length_frame,
      ih (start + 1) (start' + 1)]

/-- However the commands are cut into non-empty pieces, and whichever calls these are executed by,
the calls have together the results that the commands have as one batch, and they leave the same
engine and the same file. The engine is any healthy one with enough sequences left, the last one
included, and no call fails: writes may be cut short or interrupted, and there is room for the
frames. -/
theorem run_cut {engine : DurableEngine} {f : File} (h : Reachable engine f)
    (hstate : engine.state = .healthy) (commands : List JournalCommand) (hne : commands ≠ [])
    (havailable : commands.length ≤ engine.writer.available)
    (hroom : (frames 1 commands).length ≤ f.room) (outcomes : Outcomes)
    (hd : (onFile outcomes f).Appendable) (calls : List (Operation × Outcomes))
    (hcalls : ∀ call ∈ calls, call.1.commands ≠ [] ∧ (onFile call.2 f).Appendable)
    (hcut : (calls.flatMap fun call => call.1.commands) = commands) :
    ∃ parts : List (List BatchCommandResult),
      runAll operate (engine, f) calls =
        (parts.map fun results => .ok (some results),
          (execute (engine, f) ⟨commands, false, none, outcomes⟩).2) ∧
      (execute (engine, f) ⟨commands, false, none, outcomes⟩).1 = .ok parts.flatten := by
  have hpos := List.length_pos_of_ne_nil hne
  obtain ⟨start, hstart, hleft, hlt, hnext⟩ :=
    JournalWriter.exists_nextAfter (hpos.trans_le havailable)
  have hfailed := h.not_failed hstate
  obtain ⟨orderBook, ⟨nextSequence, failed⟩, state⟩ := engine
  obtain rfl : state = .healthy := hstate
  obtain rfl : failed = false := hfailed
  obtain rfl : nextSequence = JournalWriter.nextAfter start := hnext
  rw [length_frames_eq 1 start] at hroom
  subst hcut
  -- nothing has been done at the start
  have hle : start + (([] : List JournalCommand) ++
      calls.flatMap fun call => call.1.commands).length ≤ 2 ^ 64 := by
    rw [List.nil_append]
    omega
  have hadvanced : advanced orderBook start f [] =
      (⟨orderBook, ⟨JournalWriter.nextAfter start, false⟩, .healthy⟩, f) := rfl
  obtain ⟨parts, hrun, hparts⟩ := run_operate orderBook hstart hcalls hle hroom
  obtain ⟨d, hexecute, hfile⟩ := executeBatch_advanced orderBook hstart hne hle hroom hd
  rw [hadvanced] at hrun hexecute
  rw [execute]
  dsimp only at hexecute ⊢
  rw [hexecute, hrun]
  dsimp only
  rw [hfile]
  exact ⟨parts, rfl, congrArg Except.ok hparts.symm⟩

/-- Two commands that use up the last two sequences, as one batch and as two calls. The second write
of the first call is interrupted, and the first one is cut short. -/
theorem run_cut_last_sequences :
    ∃ parts : List (List BatchCommandResult),
      runAll operate (⟨Book.fresh, ⟨some ⟨0xFFFFFFFFFFFFFFFE⟩, false⟩, .healthy⟩, File.empty)
          [(.submit ⟨⟨1⟩, .buy, ⟨10⟩, ⟨5⟩⟩,
              ⟨[], [], [], [.upTo 6, .failed eintr], [], []⟩), (.cancel ⟨1⟩, Outcomes.calm)] =
        (parts.map fun results => .ok (some results),
          (execute (⟨Book.fresh, ⟨some ⟨0xFFFFFFFFFFFFFFFE⟩, false⟩, .healthy⟩, File.empty)
            ⟨[.submitLimitOrder ⟨⟨1⟩, .buy, ⟨10⟩, ⟨5⟩⟩, .cancelOrder ⟨1⟩], false, none,
              Outcomes.calm⟩).2) := by
  have hsteady : Steady [.upTo 6, .failed eintr] := by
    simp [Steady]
  obtain ⟨parts, hrun, -⟩ := run_cut
    (.constructed Book.fresh (some ⟨0xFFFFFFFFFFFFFFFE⟩) File.empty) rfl
    [.submitLimitOrder ⟨⟨1⟩, .buy, ⟨10⟩, ⟨5⟩⟩, .cancelOrder ⟨1⟩]
    (List.cons_ne_nil _ _) (by decide) (by decide +kernel) Outcomes.calm (appendable_calm _)
    [(.submit ⟨⟨1⟩, .buy, ⟨10⟩, ⟨5⟩⟩, ⟨[], [], [], [.upTo 6, .failed eintr], [], []⟩),
      (.cancel ⟨1⟩, Outcomes.calm)]
    (List.forall_mem_cons.mpr ⟨⟨List.cons_ne_nil _ _, hsteady, noFailure_nil⟩,
      List.forall_mem_singleton.mpr ⟨List.cons_ne_nil _ _, appendable_calm _⟩⟩) rfl
  exact ⟨parts, hrun⟩

end DurableEngine

end MatchingEngine
