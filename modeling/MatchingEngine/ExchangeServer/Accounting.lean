import MatchingEngine.ExchangeServer.Basic

/-!
# Reservations and batches

Every reservation of the limiter is somewhere: with the gateway, in one of the queues, or with the
worker. A step moves it from one place to the next; only the gateway acquires and releases.

## Main definitions

* `Server.BatchOutcome`: what the execution of a batch can come to.
* `Server.reservations`: the requests and completions in the pipeline.
* `Server.Accounted`: they are what the limiter has counted.

## Main results

* `Server.executeAndPublishBatch_frame`, `Server.executeAndPublishBatch_outcome`.
* `Server.Step.inFlight_add`, `Server.Step.batch_cases`: what one step does.
* `Server.Accounted.run`: every interleaving is accounted for.
-/

namespace MatchingEngine

/-- The requests that the worker holds. -/
def WorkerPhase.held : WorkerPhase → List EngineRequest
  | .waiting => []
  | .draining batch => batch
  | .executing batch => batch
  | .publishing remaining => remaining.map Prod.fst
  | .finished => []

theorem WorkerPhase.held_unavailable (batch : List EngineRequest) :
    (WorkerPhase.publishing (batch.map fun r => (r, some (unavailableResponse r)))).held =
      batch := by
  rw [held, List.map_map]
  exact List.map_id batch

/-- The number of reservations that the gateway holds. -/
def GatewayPhase.held : GatewayPhase → ℕ
  | .idle => 0
  | .admitting _ => 1
  | .delivering _ => 1
  | .exited => 0

/-- What `ExchangeServer::create` checks, and the server that it returns. -/
theorem ExchangeServer.create_eq_ok {config : ExchangeServerConfig}
    {engineResult : Except DurableEngineError (DurableEngine × Posix.File)} {gatewayCreated : Bool}
    {server : Server} (h : create config engineResult gatewayCreated = .ok server) :
    0 < config.maximumInFlight.toNat ∧ 0 < config.requestQueueCapacity.toNat ∧
      0 < config.maxDurableBatchSize.toNat ∧
      ∃ engine f, engineResult = .ok (engine, f) ∧ server = Server.ofConfig config engine f := by
  have hpos {n : UInt64} (hn : n ≠ 0) : 0 < n.toNat :=
    Nat.pos_of_ne_zero fun hzero => hn (UInt64.toNat_inj.mp hzero)
  rw [create.eq_def] at h
  split at h
  · cases h
  · next hconfig =>
    rw [not_or, not_or] at hconfig
    obtain ⟨hinFlight, hcapacity, hbatch⟩ := hconfig
    split at h
    · cases h
    · next engine f =>
      split at h
      · cases h
        exact ⟨hpos hinFlight, hpos hcapacity, hpos hbatch, engine, f, rfl, rfl⟩
      · cases h

namespace Server

/-! ### The execution of a batch -/

/-- What the execution of a batch does not change. -/
structure Frame (s s' : Server) : Prop where
  config_eq : s'.config = s.config
  limiter_eq : s'.inFlightLimiter = s.inFlightLimiter
  requestQueue_eq : s'.requestQueue = s.requestQueue
  responseQueue_eq : s'.responseQueue = s.responseQueue
  gateway_eq : s'.gateway = s.gateway
  histogram_length : s'.batchSizeHistogram.length = s.batchSizeHistogram.length

/-- What the execution of a batch leaves of the worker, the engine, the journal, the local flag and
the program. -/
inductive BatchOutcome (s : Server) (batch : List EngineRequest) (call : DurableEngine.Call) :
    WorkerPhase → DurableEngine → Posix.File → Bool → Option Halt → Prop
  | outOfRange (h : s.batchSizeHistogram.length ≤ batch.length) :
      BatchOutcome s batch call s.worker s.engine s.file s.failed (some .outOfRange)
  | unavailable (h : s.failed = true) :
      BatchOutcome s batch call
        (.publishing (batch.map fun r => (r, some (unavailableResponse r))))
        s.engine s.file s.failed s.halted
  | answered (results : List BatchCommandResult) (h : s.failed = false)
      (hok : (DurableEngine.execute (s.engine, s.file) call).1 = .ok results)
      (hlen : results.length = batch.length) :
      BatchOutcome s batch call (.publishing (batch.zip (List.zipWith summarize batch results)))
        (DurableEngine.execute (s.engine, s.file) call).2.1
        (DurableEngine.execute (s.engine, s.file) call).2.2 s.failed s.halted
  | mismatch (results : List BatchCommandResult) (h : s.failed = false)
      (hok : (DurableEngine.execute (s.engine, s.file) call).1 = .ok results)
      (hlen : results.length ≠ batch.length) :
      BatchOutcome s batch call s.worker
        (DurableEngine.execute (s.engine, s.file) call).2.1
        (DurableEngine.execute (s.engine, s.file) call).2.2 s.failed (some .terminated)
  | failed (e : DurableEngineError) (h : s.failed = false)
      (herror : (DurableEngine.execute (s.engine, s.file) call).1 = .error e) :
      BatchOutcome s batch call
        (.publishing (batch.map fun r => (r, some (unavailableResponse r))))
        (DurableEngine.execute (s.engine, s.file) call).2.1
        (DurableEngine.execute (s.engine, s.file) call).2.2 true s.halted

section Execution

variable (s : Server) (batch : List EngineRequest) (call : DurableEngine.Call)

/-- A call of the engine leaves the queues, the shutdown and the statistics alone. -/
theorem executeBatch_frame : Frame s (s.executeBatch batch call) ∧
    (s.executeBatch batch call).shutdownStarted = s.shutdownStarted ∧
    (s.executeBatch batch call).batchesProcessed = s.batchesProcessed ∧
    (s.executeBatch batch call).commandsProcessed = s.commandsProcessed ∧
    (s.executeBatch batch call).batchSizeHistogram = s.batchSizeHistogram := by
  rw [executeBatch]
  split
  · exact ⟨⟨rfl, rfl, rfl, rfl, rfl, rfl⟩, rfl, rfl, rfl, rfl⟩
  · dsimp only
    split
    · split <;> exact ⟨⟨rfl, rfl, rfl, rfl, rfl, rfl⟩, rfl, rfl, rfl, rfl⟩
    · exact ⟨⟨rfl, rfl, rfl, rfl, rfl, rfl⟩, rfl, rfl, rfl, rfl⟩

theorem executeAndPublishBatch_frame : Frame s (s.executeAndPublishBatch batch call) := by
  rw [executeAndPublishBatch]
  dsimp only
  split
  · obtain ⟨⟨hconfig, hlimiter, hrequests, hresponses, hgateway, hhistogram⟩, -⟩ :=
      executeBatch_frame { s with
        batchesProcessed := s.batchesProcessed + 1
        commandsProcessed := s.commandsProcessed + UInt64.ofNat batch.length
        batchSizeHistogram := s.batchSizeHistogram.set batch.length
          (s.batchSizeHistogram.get ⟨batch.length, by assumption⟩ + 1) } batch call
    exact ⟨hconfig, hlimiter, hrequests, hresponses, hgateway,
      hhistogram.trans List.length_set⟩
  · exact ⟨rfl, rfl, rfl, rfl, rfl, rfl⟩

theorem executeBatch_outcome : BatchOutcome s batch call (s.executeBatch batch call).worker
    (s.executeBatch batch call).engine (s.executeBatch batch call).file
    (s.executeBatch batch call).failed (s.executeBatch batch call).halted := by
  rw [executeBatch]
  by_cases hfailed : s.failed = true
  · rw [if_pos hfailed]
    exact .unavailable hfailed
  rw [if_neg hfailed]
  replace hfailed := Bool.eq_false_of_not_eq_true hfailed
  dsimp only
  cases hresult : (DurableEngine.execute (s.engine, s.file) call).1 with
  | error e => exact .failed e hfailed hresult
  | ok results =>
    by_cases hlen : results.length = batch.length
    · dsimp only
      rw [if_neg (not_not_intro hlen)]
      exact .answered results hfailed hresult hlen
    · dsimp only
      rw [if_pos hlen]
      exact .mismatch results hfailed hresult hlen

theorem executeAndPublishBatch_outcome : BatchOutcome s batch call
    (s.executeAndPublishBatch batch call).worker (s.executeAndPublishBatch batch call).engine
    (s.executeAndPublishBatch batch call).file (s.executeAndPublishBatch batch call).failed
    (s.executeAndPublishBatch batch call).halted := by
  rw [executeAndPublishBatch]
  dsimp only
  split
  · next hrange =>
    -- the statistics change nothing that the rest of the function looks at
    have h := executeBatch_outcome { s with
      batchesProcessed := s.batchesProcessed + 1
      commandsProcessed := s.commandsProcessed + UInt64.ofNat batch.length
      batchSizeHistogram := s.batchSizeHistogram.set batch.length
        (s.batchSizeHistogram.get ⟨batch.length, hrange⟩ + 1) } batch call
    generalize executeBatch _ batch call = s' at h ⊢
    obtain ⟨_, _, _, _, _, _, _, _, _, _, _, _, _, _, _⟩ := s'
    cases h with
    | outOfRange hout => exact absurd (hout.trans_lt hrange) (by simp)
    | unavailable hfailed => exact .unavailable hfailed
    | answered results hfailed hok hlen => exact .answered results hfailed hok hlen
    | mismatch results hfailed hok hlen => exact .mismatch results hfailed hok hlen
    | failed e hfailed herror => exact .failed e hfailed herror
  · next hout => exact .outOfRange (Nat.le_of_not_lt hout)

/-- The worker keeps the requests of a batch that it executes. -/
theorem held_executeAndPublishBatch (h : s.worker = .executing batch) :
    (s.executeAndPublishBatch batch call).worker.held = batch := by
  have houtcome := executeAndPublishBatch_outcome s batch call
  generalize s.executeAndPublishBatch batch call = s' at houtcome ⊢
  obtain ⟨_, _, _, _, _, _, _, _, _, _, _, _, _, _, _⟩ := s'
  dsimp only at houtcome ⊢
  cases houtcome with
  | outOfRange => rw [h, WorkerPhase.held]
  | mismatch => rw [h, WorkerPhase.held]
  | unavailable | failed => exact WorkerPhase.held_unavailable batch
  | answered results _ _ hlen =>
    rw [WorkerPhase.held, List.map_fst_zip]
    rw [List.length_zipWith, hlen, Nat.min_self]

end Execution

/-! ### Reservations -/

/-- The number of requests and completions between the admission and the release. -/
def reservations (s : Server) : ℕ :=
  s.gateway.held + s.requestQueue.items.length + s.worker.held.length +
    s.responseQueue.items.length

/-- A batch that is not executed yet is within its bound, and could be reserved. -/
def BatchBounded (maxSize : ℕ) (s : Server) : Prop :=
  ∀ batch, s.worker = .draining batch ∨ s.worker = .executing batch →
    batch.length ≤ s.config.maxDurableBatchSize.toNat ∧
      s.config.maxDurableBatchSize.toNat ≤ maxSize

/-- A batch has a request. -/
def Gathering (s : Server) : Prop :=
  ∀ batch, s.worker = .draining batch ∨ s.worker = .executing batch → batch ≠ []

section Step

variable {maxSize : ℕ} {s s' : Server} {event : Event}

theorem Step.config_eq (hstep : Step maxSize s event s') : s'.config = s.config := by
  cases hstep with
  | execute _ call _ => exact (executeAndPublishBatch_frame _ _ call).config_eq
  | _ => rfl

theorem Step.histogram_length (hstep : Step maxSize s event s') :
    s'.batchSizeHistogram.length = s.batchSizeHistogram.length := by
  cases hstep with
  | execute _ call _ => exact (executeAndPublishBatch_frame _ _ call).histogram_length
  | _ => rfl

theorem Step.capacity_eq (hstep : Step maxSize s event s') :
    s'.inFlightLimiter.capacity = s.inFlightLimiter.capacity := by
  cases hstep with
  | acquire _ _ _ _ hacquire => exact (InFlightLimiter.tryAcquire_eq_some hacquire).2
  | refuse _ _ hrelease => exact (InFlightLimiter.releaseOne_eq_some hrelease).2
  | release _ hrelease => exact (InFlightLimiter.releaseOne_eq_some hrelease).2
  | execute _ call _ =>
    exact congrArg InFlightLimiter.capacity (executeAndPublishBatch_frame _ _ call).limiter_eq
  | _ => rfl

/-- A step acquires and releases what it moves in and out of the pipeline. -/
theorem Step.inFlight_add (hstep : Step maxSize s event s') :
    s'.inFlightLimiter.inFlight + s.reservations =
      s.inFlightLimiter.inFlight + s'.reservations := by
  rw [reservations, reservations]
  cases hstep with
  | acquire request hidle hopen hhealthy hacquire =>
    rw [(InFlightLimiter.tryAcquire_eq_some hacquire).1, hidle, GatewayPhase.held,
      GatewayPhase.held]
    dsimp only
    omega
  | enqueue hadmitting hpush =>
    rw [(BoundedQueue.tryPush_eq_some hpush).1, hadmitting, GatewayPhase.held, GatewayPhase.held,
      List.length_append, List.length_singleton]
    dsimp only
    omega
  | refuse hgateway _ hrelease =>
    rw [(InFlightLimiter.releaseOne_eq_some hrelease).1, hgateway, GatewayPhase.held,
      GatewayPhase.held]
    dsimp only
    omega
  | takeCompletion hidle hpop =>
    rw [(BoundedQueue.tryPop_eq_some hpop).1, hidle, GatewayPhase.held, GatewayPhase.held,
      List.length_cons]
    dsimp only
    omega
  | release hgateway hrelease =>
    rw [(InFlightLimiter.releaseOne_eq_some hrelease).1, hgateway, GatewayPhase.held,
      GatewayPhase.held]
    dsimp only
    omega
  | releaseNothing | shutdown | publishNothing => rfl
  | exit hidle =>
    rw [hidle]
    rfl
  | pop hwaiting hpop =>
    rw [(BoundedQueue.tryPop_eq_some hpop).1, hwaiting, WorkerPhase.held, WorkerPhase.held,
      List.length_cons, List.length_nil, List.length_singleton]
    dsimp only
    omega
  | drain hdraining _ hpop =>
    rw [(BoundedQueue.tryPop_eq_some hpop).1, hdraining, WorkerPhase.held, WorkerPhase.held,
      List.length_cons, List.length_append, List.length_singleton]
    dsimp only
    omega
  | stopDraining hworker | await hworker | finish hworker =>
    rw [hworker]
    rfl
  | @execute batch hexecuting call _ =>
    obtain ⟨-, hlimiter, hrequests, hresponses, hgateway, -⟩ :=
      executeAndPublishBatch_frame s batch call
    rw [hlimiter, hrequests, hresponses, hgateway,
      held_executeAndPublishBatch s batch call hexecuting, hexecuting, WorkerPhase.held]
  | publish hpublishing hpush =>
    rw [(BoundedQueue.tryPush_eq_some hpush).1, hpublishing, WorkerPhase.held, WorkerPhase.held,
      List.map_cons, List.length_cons, List.length_append, List.length_singleton]
    dsimp only
    omega

/-- A batch that is not executed yet is an old one, the first request of a new one, or an old one
with one request more. -/
theorem Step.batch_cases (hstep : Step maxSize s event s') {batch : List EngineRequest}
    (h : s'.worker = .draining batch ∨ s'.worker = .executing batch) :
    (s.worker = .draining batch ∨ s.worker = .executing batch) ∨
      (∃ request, batch = [request] ∧ s.config.maxDurableBatchSize.toNat ≤ maxSize) ∨
      ∃ gathered request, s.worker = .draining gathered ∧
        gathered.length < s.config.maxDurableBatchSize.toNat ∧ batch = gathered ++ [request] := by
  cases hstep with
  | @pop request _ hwaiting hpop hreserve =>
    rcases h with h | h <;> cases h
    exact Or.inr (Or.inl ⟨request, rfl, hreserve⟩)
  | @drain gathered request _ hdraining hlt hpop =>
    rcases h with h | h <;> cases h
    exact Or.inr (Or.inr ⟨gathered, request, hdraining, hlt, rfl⟩)
  | stopDraining hdraining hstop =>
    rcases h with h | h <;> cases h
    exact Or.inl (Or.inl hdraining)
  | @execute executed hexecuting call _ =>
    have houtcome := executeAndPublishBatch_outcome s executed call
    generalize s.executeAndPublishBatch executed call = s' at houtcome h
    obtain ⟨_, _, _, _, _, _, _, _, _, _, _, _, _, _, _⟩ := s'
    dsimp only at houtcome h
    cases houtcome with
    | outOfRange | mismatch => exact Or.inl h
    | unavailable | answered | failed => rcases h with h | h <;> cases h
  | publish | await | finish => rcases h with h | h <;> cases h
  | _ => exact Or.inl h

theorem Step.batchBounded (hstep : Step maxSize s event s') (h : s.BatchBounded maxSize)
    (hpos : 0 < s.config.maxDurableBatchSize.toNat) : s'.BatchBounded maxSize := by
  intro batch hbatch
  rw [hstep.config_eq]
  rcases hstep.batch_cases hbatch with
    hold | ⟨request, rfl, hreserve⟩ | ⟨gathered, request, hdraining, hlt, rfl⟩
  · exact h batch hold
  · exact ⟨hpos, hreserve⟩
  · rw [List.length_append]
    exact ⟨hlt, (h gathered (Or.inl hdraining)).2⟩

theorem Gathering.step (h : s.Gathering) (hstep : Step maxSize s event s') : s'.Gathering := by
  intro batch hbatch
  rcases hstep.batch_cases hbatch with hold | ⟨request, rfl, -⟩ | ⟨gathered, request, -, -, rfl⟩
  · exact h batch hold
  · exact List.cons_ne_nil _ _
  · exact List.append_ne_nil_of_right_ne_nil _ (List.cons_ne_nil _ _)

end Step

/-- Every reservation in use belongs to one request, or to its completion, and the vectors and the
limiter have the sizes that the configuration says. -/
structure Accounted (maxSize : ℕ) (config : ExchangeServerConfig) (s : Server) : Prop where
  config_eq : s.config = config
  batchSize_pos : 0 < config.maxDurableBatchSize.toNat
  capacity_eq : s.inFlightLimiter.capacity = config.maximumInFlight.toNat
  histogram_length : s.batchSizeHistogram.length = (config.requestQueueCapacity + 1).toNat
  inFlight_eq : s.inFlightLimiter.inFlight = s.reservations
  batchBounded : s.BatchBounded maxSize

section Accounted

variable {maxSize : ℕ} {config : ExchangeServerConfig} {s s' : Server} {event : Event}

theorem Accounted.step (h : Accounted maxSize config s) (hstep : Step maxSize s event s') :
    Accounted maxSize config s' where
  config_eq := hstep.config_eq.trans h.config_eq
  batchSize_pos := h.batchSize_pos
  capacity_eq := hstep.capacity_eq.trans h.capacity_eq
  histogram_length := hstep.histogram_length.trans h.histogram_length
  inFlight_eq := by
    have hadd := hstep.inFlight_add
    rw [h.inFlight_eq] at hadd
    omega
  batchBounded := hstep.batchBounded h.batchBounded (h.config_eq.symm ▸ h.batchSize_pos)

theorem accounted_ofConfig (maxSize : ℕ) (config : ExchangeServerConfig)
    (hpos : 0 < config.maxDurableBatchSize.toNat) (engine : DurableEngine) (f : Posix.File) :
    Accounted maxSize config (ofConfig config engine f) where
  config_eq := rfl
  batchSize_pos := hpos
  capacity_eq := rfl
  histogram_length := List.length_replicate
  inFlight_eq := rfl
  batchBounded := by rintro batch (h | h) <;> cases h

theorem Accounted.run {start : Server} {events : List Event} (h : Accounted maxSize config start)
    (hrun : Run maxSize start events s) : Accounted maxSize config s := by
  induction hrun with
  | refl => exact h
  | step _ _ hstep ih => exact ih.step hstep

end Accounted

end Server

end MatchingEngine
