import MatchingEngine.ExchangeServer.Shutdown

/-!
# The batches of the worker

The worker cuts the requests that were admitted into batches, each with a request and with at most
`max_durable_batch_size` of them, and counts its batches, their requests, and the batches of each
size. The counters are of 64 bits and wrap around. This is about runs without a C++ exception and
without a write behind the end of the histogram.

## Main definitions

* `Server.batches`: the batches that were executed.
* `Server.Batched`: they begin the admitted requests, and are what the counters have counted.

## Main results

* `Server.Batched.step`, `Server.run_batches`.
-/

namespace MatchingEngine

namespace WorkerPhase

/-- The requests of a batch that has not been executed. -/
def gathered : WorkerPhase → List EngineRequest
  | waiting => []
  | draining batch => batch
  | executing batch => batch
  | publishing _ => []
  | finished => []

end WorkerPhase

namespace Server

/-! ### What is counted -/

def Event.calledBatches : Event → List (List EngineRequest)
  | .admitted _ => []
  | .called batch => [batch]
  | .published _ => []
  | .delivered _ => []
  | .internal => []

/-- The batches that were executed, in order. -/
def batches (events : List Event) : List (List EngineRequest) :=
  events.flatMap Event.calledBatches

/-- The numbers of the batches of each size. -/
def histogram (size : ℕ) (batches : List (List EngineRequest)) : List UInt64 :=
  (List.range size).map fun n => UInt64.ofNat (batches.countP fun batch => batch.length = n)

theorem length_histogram (size : ℕ) (batches : List (List EngineRequest)) :
    (histogram size batches).length = size := by
  rw [histogram, List.length_map, List.length_range]

/-- A batch is counted where its size says. -/
theorem histogram_append {size : ℕ} {batches : List (List EngineRequest)}
    {batch : List EngineRequest} {counts : List UInt64} (hcounts : counts = histogram size batches)
    (h : batch.length < counts.length) :
    histogram size (batches ++ [batch]) =
      counts.set batch.length (counts.get ⟨batch.length, h⟩ + 1) := by
  subst hcounts
  apply List.ext_getElem
  · rw [List.length_set, length_histogram, length_histogram]
  · intro n hn hn'
    rw [List.getElem_set]
    simp only [histogram, List.getElem_map, List.getElem_range, List.countP_append,
      List.countP_singleton, List.get_eq_getElem, decide_eq_true_eq]
    split
    · next heq =>
      rw [← heq, UInt64.ofNat_add]
      rfl
    · rw [Nat.add_zero]

theorem histogram_nil (size : ℕ) : histogram size [] = List.replicate size 0 := by
  refine List.eq_replicate_iff.mpr ⟨length_histogram size [], fun count hcount => ?_⟩
  obtain ⟨_, -, rfl⟩ := List.mem_map.mp hcount
  rfl

/-- The statistics of the batches. -/
structure Counted (config : ExchangeServerConfig) (batches : List (List EngineRequest))
    (s : Server) : Prop where
  batchesProcessed_eq : s.batchesProcessed = UInt64.ofNat batches.length
  commandsProcessed_eq : s.commandsProcessed = UInt64.ofNat batches.flatten.length
  histogram_eq : s.batchSizeHistogram =
    histogram (config.requestQueueCapacity + 1).toNat batches

/-- The admitted requests are those of the batches, of the batch that is being gathered, and of the
queue. -/
structure Batched (config : ExchangeServerConfig) (events : List Event) (s : Server) : Prop where
  requests_eq : admitted events =
    (batches events).flatten ++ s.worker.gathered ++ s.requestQueue.items
  gathering : s.Gathering
  bounded : ∀ batch ∈ batches events,
    batch ≠ [] ∧ batch.length ≤ config.maxDurableBatchSize.toNat
  counted : Counted config (batches events) s

section Batched

variable {maxSize : ℕ} {config : ExchangeServerConfig} {s s' : Server} {event : Event}
  {events : List Event} {batch : List EngineRequest}

theorem Counted.executeAndPublishBatch {called : List (List EngineRequest)}
    (h : Counted config called s) (call : DurableEngine.Call)
    (hhalted : (s.executeAndPublishBatch batch call).halted = none) :
    Counted config (called ++ [batch]) (s.executeAndPublishBatch batch call) := by
  have hflatten : (called ++ [batch]).flatten.length = called.flatten.length + batch.length := by
    rw [List.flatten_append, List.length_append, List.flatten_singleton]
  rw [Server.executeAndPublishBatch] at hhalted ⊢
  dsimp only at hhalted ⊢
  split at hhalted
  · next hrange =>
    rw [dif_pos hrange]
    obtain ⟨-, -, hbatches, hcommands, hhistogram⟩ := executeBatch_frame { s with
      batchesProcessed := s.batchesProcessed + 1
      commandsProcessed := s.commandsProcessed + UInt64.ofNat batch.length
      batchSizeHistogram := s.batchSizeHistogram.set batch.length
        (s.batchSizeHistogram.get ⟨batch.length, hrange⟩ + 1) } batch call
    refine ⟨hbatches.trans ?_, hcommands.trans ?_, hhistogram.trans ?_⟩
    · dsimp only
      rw [h.batchesProcessed_eq, List.length_append, UInt64.ofNat_add]
      rfl
    · dsimp only
      rw [h.commandsProcessed_eq, hflatten, UInt64.ofNat_add]
    · exact (histogram_append h.histogram_eq hrange).symm
  · cases hhalted

theorem gathered_executeAndPublishBatch (call : DurableEngine.Call)
    (hhalted : (s.executeAndPublishBatch batch call).halted = none) :
    (s.executeAndPublishBatch batch call).worker.gathered = [] := by
  have houtcome := executeAndPublishBatch_outcome s batch call
  generalize s.executeAndPublishBatch batch call = s' at houtcome hhalted ⊢
  obtain ⟨_, _, _, _, _, _, _, _, _, _, _, _, _, _, _⟩ := s'
  dsimp only at houtcome hhalted ⊢
  cases houtcome with
  | outOfRange | mismatch => cases hhalted
  | unavailable | answered | failed => rfl

/-- A request goes from the queue to the batch that is gathered, and with it to those that were
executed. -/
theorem Step.gathered_eq (hstep : Step maxSize s event s') (hhalted : s'.halted = none) :
    s.worker.gathered ++ s.requestQueue.items ++ event.admittedRequests =
      event.calledBatches.flatten ++ s'.worker.gathered ++ s'.requestQueue.items := by
  cases hstep with
  | enqueue _ hpush =>
    rw [(BoundedQueue.tryPush_eq_some hpush).1, List.append_assoc]
    rfl
  | pop hwaiting hpop =>
    rw [hwaiting, (BoundedQueue.tryPop_eq_some hpop).1]
    exact List.append_nil _
  | drain hdraining _ hpop =>
    rw [hdraining, (BoundedQueue.tryPop_eq_some hpop).1]
    simp [WorkerPhase.gathered, Event.admittedRequests, Event.calledBatches]
  | stopDraining hworker | await hworker | finish hworker | publish hworker =>
    rw [hworker]
    exact List.append_nil _
  | execute hexecuting call _ =>
    rw [hexecuting, gathered_executeAndPublishBatch call hhalted,
      (executeAndPublishBatch_frame s _ call).requestQueue_eq]
    simp [WorkerPhase.gathered, Event.admittedRequests, Event.calledBatches]
  | _ => exact List.append_nil _

theorem Counted.step {called : List (List EngineRequest)} (h : Counted config called s)
    (hstep : Step maxSize s event s') (hhalted : s'.halted = none) :
    Counted config (called ++ event.calledBatches) s' := by
  cases hstep with
  | execute _ call _ => exact h.executeAndPublishBatch call hhalted
  | _ => exact (List.append_nil called).symm ▸ ⟨h.1, h.2, h.3⟩

theorem Batched.step (h : Batched config events s) (haccounted : Accounted maxSize config s)
    (hstep : Step maxSize s event s') (hhalted : s'.halted = none) :
    Batched config (events ++ [event]) s' := by
  have hbatches : batches (events ++ [event]) = batches events ++ event.calledBatches := by
    rw [batches, List.flatMap_append, List.flatMap_singleton]
    rfl
  refine ⟨?_, h.gathering.step hstep, ?_, hbatches ▸ h.counted.step hstep hhalted⟩
  · rw [hbatches, admitted, List.flatMap_append, List.flatMap_singleton, List.flatten_append,
      List.append_assoc, List.append_assoc, ← List.append_assoc event.calledBatches.flatten,
      ← hstep.gathered_eq hhalted, ← List.append_assoc, ← List.append_assoc]
    exact congrArg (· ++ _) h.requests_eq
  · rw [hbatches]
    refine List.forall_mem_append.mpr ⟨h.bounded, fun batch hbatch => ?_⟩
    cases hstep with
    | execute hexecuting call _ =>
      rw [List.mem_singleton.mp hbatch, ← haccounted.config_eq]
      exact ⟨h.gathering _ (Or.inr hexecuting),
        (haccounted.batchBounded _ (Or.inr hexecuting)).1⟩
    | _ => exact absurd hbatch List.not_mem_nil

theorem batched_ofConfig (config : ExchangeServerConfig) (engine : DurableEngine)
    (f : Posix.File) : Batched config [] (ofConfig config engine f) where
  requests_eq := rfl
  gathering := by rintro batch (h | h) <;> cases h
  bounded := fun _ h => absurd h List.not_mem_nil
  counted := ⟨rfl, rfl, (histogram_nil _).symm⟩

theorem Run.batched {engine : DurableEngine} {f : Posix.File}
    (hpos : 0 < config.maxDurableBatchSize.toNat)
    (hrun : Run maxSize (ofConfig config engine f) events s) (hhalted : s.halted = none) :
    Batched config events s := by
  induction hrun with
  | refl => exact batched_ofConfig config engine f
  | step hrun hhalted' hstep ih =>
    exact (ih hhalted').step ((accounted_ofConfig maxSize config hpos engine f).run hrun) hstep
      hhalted

end Batched

/-- In every interleaving of a server that was created in which no C++ exception is thrown and no
batch is without a place in the histogram: The batches that were executed begin the admitted
requests, and are all of them when the worker has finished. Each has a request and at most
`max_durable_batch_size` of them. The statistics are the number of batches, the number of their
requests, and the number of batches of each size. -/
theorem run_batches (maxSize : ℕ) (config : ExchangeServerConfig)
    (engineResult : Except DurableEngineError (DurableEngine × Posix.File)) (gatewayCreated : Bool)
    (server : Server)
    (hcreate : ExchangeServer.create config engineResult gatewayCreated = .ok server)
    (events : List Event) (s : Server) (hrun : Run maxSize server events s)
    (hhalted : s.halted = none) :
    (batches events).flatten <+: admitted events ∧
      (s.worker = .finished → (batches events).flatten = admitted events) ∧
      (∀ batch ∈ batches events,
        batch ≠ [] ∧ batch.length ≤ config.maxDurableBatchSize.toNat) ∧
      s.batchesProcessed = UInt64.ofNat (batches events).length ∧
      s.commandsProcessed = UInt64.ofNat (batches events).flatten.length ∧
      s.batchSizeHistogram =
        histogram (config.requestQueueCapacity + 1).toNat (batches events) := by
  obtain ⟨-, -, hpos, engine, f, -, rfl⟩ := ExchangeServer.create_eq_ok hcreate
  have h := hrun.batched hpos hhalted
  have hrequests := h.requests_eq
  refine ⟨⟨_, by rw [hrequests, List.append_assoc]⟩, fun hfinished => ?_, h.bounded,
    h.counted.batchesProcessed_eq, h.counted.commandsProcessed_eq, h.counted.histogram_eq⟩
  rw [hrequests, hfinished,
    (((closing_ofConfig config engine f).run hrun).of_finished hfinished).2]
  exact ((List.append_nil _).trans (List.append_nil _)).symm

/-- The first batch of a server with short queues, on a new journal. -/
theorem run_batches_first :
    ∃ server events s, ExchangeServer.create { maximumInFlight := 1, requestQueueCapacity := 1 }
        (.ok (⟨Book.fresh, ⟨some ⟨1⟩, false⟩, .healthy⟩,
          (Posix.File.empty.append encodeFileHeader).sync)) true = .ok server ∧
      Run (2 ^ 56) server events s ∧ s.halted = none ∧
      batches events = [[.cancel ⟨⟨1⟩, ⟨1⟩, ⟨7⟩⟩]] ∧ s.batchesProcessed = 1 := by
  have hcreate : ExchangeServer.create { maximumInFlight := 1, requestQueueCapacity := 1 }
      (.ok (⟨Book.fresh, ⟨some ⟨1⟩, false⟩, .healthy⟩,
        (Posix.File.empty.append encodeFileHeader).sync)) true = .ok (ofConfig _ _ _) := rfl
  have hstart : Run (2 ^ 56) (ofConfig { maximumInFlight := 1, requestQueueCapacity := 1 }
      ⟨Book.fresh, ⟨some ⟨1⟩, false⟩, .healthy⟩
      (Posix.File.empty.append encodeFileHeader).sync) [] _ := .refl
  have hadmitted := (hstart.step rfl (.acquire (.cancel ⟨⟨1⟩, ⟨1⟩, ⟨7⟩⟩) rfl rfl rfl rfl)).step rfl
    (.enqueue rfl rfl)
  have hgathered := (hadmitted.step rfl (.pop rfl rfl (by decide))).step rfl
    (.stopDraining rfl fun _ => rfl)
  have hexecuted := hgathered.step rfl
    (.execute rfl ⟨[.cancelOrder ⟨7⟩], false, none, Posix.Outcomes.calm⟩ rfl)
  have hbatches := run_batches (2 ^ 56) _ _ true _ hcreate _ _ hexecuted rfl
  exact ⟨_, _, _, hcreate, hexecuted, rfl, rfl, hbatches.2.2.2.1⟩

end Server

end MatchingEngine
