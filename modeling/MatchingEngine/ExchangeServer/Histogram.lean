import MatchingEngine.ExchangeServer.Accounting

/-!
# The histogram of the batch sizes

`execute_and_publish_batch` counts its batches by size in a vector with `request_queue_capacity + 1`
elements, without a check. A batch is bounded by `max_durable_batch_size` and by
`maximum_in_flight`, and not by the capacity of the queue: the gateway can push a request for each
one that the worker has taken.

## Main definitions

* `Server.Filling`: the worker is taking a batch as fast as the gateway admits requests.

## Main results

* `Server.Filling.next`: the batch can grow by one.
* `Server.batch_in_range_iff`: the configurations for which the write to the histogram is in range.
-/

namespace MatchingEngine

namespace Server

/-- The worker has taken `k` requests for a batch, and there are no others. -/
structure Filling (s : Server) (k : ℕ) : Prop where
  halted_eq : s.halted = none
  gateway_eq : s.gateway = .idle
  shutdownStarted_eq : s.shutdownStarted = false
  engineFailed_eq : s.engineFailed = false
  items_eq : s.requestQueue.items = []
  closed_eq : s.requestQueue.closed = false
  capacity_pos : 0 < s.requestQueue.capacity
  inFlight_eq : s.inFlightLimiter.inFlight = k
  worker_eq : (k = 0 ∧ s.worker = .waiting) ∨ ∃ batch, s.worker = .draining batch ∧ batch.length = k

section Reachable

variable {maxSize : ℕ} {config : ExchangeServerConfig} {start s : Server} {events : List Event}

/-- The gateway admits a request and the worker takes it, with no other step in between. -/
theorem Filling.next {k : ℕ} (h : s.Filling k) (hrun : Run maxSize start events s)
    (haccounted : Accounted maxSize config s) (hmax : config.maxDurableBatchSize.toNat ≤ maxSize)
    (hbatch : k < config.maxDurableBatchSize.toNat)
    (hinFlight : k < config.maximumInFlight.toNat) :
    ∃ events' s', Run maxSize start events' s' ∧ s'.Filling (k + 1) := by
  let request : EngineRequest := .cancel ⟨⟨0⟩, ⟨0⟩, ⟨0⟩⟩
  obtain ⟨limiter, hacquire⟩ := InFlightLimiter.exists_tryAcquire_eq_some
    (l := s.inFlightLimiter) (by rw [h.inFlight_eq, haccounted.capacity_eq]; exact hinFlight)
  obtain ⟨queue, hpush⟩ := BoundedQueue.exists_tryPush_eq_some h.closed_eq
    (by rw [h.items_eq]; exact h.capacity_pos) request
  obtain ⟨hitems, hcapacity, -, hclosed⟩ := BoundedQueue.tryPush_eq_some hpush
  rw [h.items_eq, List.nil_append] at hitems
  obtain ⟨queue', hpop⟩ := BoundedQueue.exists_tryPop_eq_some hitems
  obtain ⟨hitems', hcapacity', hclosed'⟩ := BoundedQueue.tryPop_eq_some hpop
  rw [hitems] at hitems'
  have hcount := (InFlightLimiter.tryAcquire_eq_some hacquire).1
  rw [h.inFlight_eq] at hcount
  have hadmitted := (hrun.step h.halted_eq (.acquire request h.gateway_eq h.shutdownStarted_eq
    h.engineFailed_eq hacquire)).step h.halted_eq (.enqueue rfl hpush)
  have hreserve : s.config.maxDurableBatchSize.toNat ≤ maxSize := by
    rw [haccounted.config_eq]
    exact hmax
  have hfilling (worker : WorkerPhase)
      (hworker : ∃ batch, worker = .draining batch ∧ batch.length = k + 1) :
      Filling { s with
        inFlightLimiter := limiter, gateway := .idle, requestQueue := queue', worker := worker }
        (k + 1) :=
    ⟨h.halted_eq, rfl, h.shutdownStarted_eq, h.engineFailed_eq, (List.cons.inj hitems').2.symm,
      hclosed'.trans hclosed, hcapacity' ▸ hcapacity ▸ h.capacity_pos, hcount, Or.inr hworker⟩
  rcases h.worker_eq with ⟨rfl, hwaiting⟩ | ⟨batch, hdraining, hlength⟩
  · exact ⟨_, _, hadmitted.step h.halted_eq (.pop hwaiting hpop hreserve),
      hfilling _ ⟨[request], rfl, rfl⟩⟩
  · have hlt : batch.length < s.config.maxDurableBatchSize.toNat := by
      rw [haccounted.config_eq, hlength]
      exact hbatch
    exact ⟨_, _, hadmitted.step h.halted_eq (.drain hdraining hlt hpop),
      hfilling _ ⟨batch ++ [request], rfl, by rw [List.length_append, hlength]; rfl⟩⟩

theorem filling_ofConfig (hcapacity : 0 < config.requestQueueCapacity.toNat)
    (engine : DurableEngine) (f : Posix.File) : (ofConfig config engine f).Filling 0 :=
  ⟨rfl, rfl, rfl, rfl, rfl, rfl, hcapacity, rfl, Or.inl ⟨rfl, rfl⟩⟩

/-- A batch can reach any size within its two bounds. -/
theorem exists_filling (haccounted : Accounted maxSize config start) (hstart : start.Filling 0)
    (hmax : config.maxDurableBatchSize.toNat ≤ maxSize) (k : ℕ)
    (hbatch : k ≤ config.maxDurableBatchSize.toNat) (hinFlight : k ≤ config.maximumInFlight.toNat) :
    ∃ events s, Run maxSize start events s ∧ s.Filling k := by
  induction k with
  | zero => exact ⟨[], start, .refl, hstart⟩
  | succ k ih =>
    obtain ⟨events, s, hrun, hfilling⟩ :=
      ih (Nat.le_of_succ_le hbatch) (Nat.le_of_succ_le hinFlight)
    exact hfilling.next hrun (haccounted.run hrun) hmax hbatch hinFlight

/-- A batch that can be taken can be executed. -/
theorem Filling.exists_called {k : ℕ} (h : s.Filling (k + 1)) (hrun : Run maxSize start events s) :
    ∃ events s batch s', Run maxSize start events s ∧ s.halted = none ∧
      Step maxSize s (.called batch) s' ∧ batch.length = k + 1 := by
  obtain ⟨hk, -⟩ | ⟨batch, hdraining, hlength⟩ := h.worker_eq
  · cases hk
  · have hstop := hrun.step h.halted_eq
      (.stopDraining hdraining fun _ => BoundedQueue.tryPop_eq_none h.items_eq)
    exact ⟨_, _, batch, _, hstop, h.halted_eq,
      .execute rfl ⟨batch.map toJournalCommand, false, none, Posix.Outcomes.calm⟩ rfl, hlength⟩

/-- A batch has at most as many requests as there are reservations. -/
theorem Accounted.length_le (h : Accounted maxSize config s) {batch : List EngineRequest}
    (hexecuting : s.worker = .executing batch) : batch.length ≤ config.maximumInFlight.toNat := by
  have hle := s.inFlightLimiter.inFlight_le
  rw [h.inFlight_eq, h.capacity_eq, reservations, hexecuting, WorkerPhase.held] at hle
  omega

end Reachable

/-- Every call of `execute_and_publish_batch` writes within the histogram, in every interleaving, if
and only if no batch can be taken at all or the smaller one of the two bounds of a batch is less
than the size of the histogram. -/
theorem batch_in_range_iff (maxSize : ℕ) (config : ExchangeServerConfig)
    (engineResult : Except DurableEngineError (DurableEngine × Posix.File)) (gatewayCreated : Bool)
    (server : Server)
    (hcreate : ExchangeServer.create config engineResult gatewayCreated = .ok server) :
    (∀ events s batch s', Run maxSize server events s → s.halted = none →
        Step maxSize s (.called batch) s' → batch.length < s.batchSizeHistogram.length) ↔
      maxSize < config.maxDurableBatchSize.toNat ∨
        min config.maxDurableBatchSize.toNat config.maximumInFlight.toNat <
          (config.requestQueueCapacity + 1).toNat := by
  obtain ⟨hinFlight, hcapacity, hpos, engine, f, -, rfl⟩ := ExchangeServer.create_eq_ok hcreate
  have haccounted := accounted_ofConfig maxSize config hpos engine f
  constructor
  · intro hrange
    by_contra hbad
    rw [not_or, not_lt, not_lt] at hbad
    obtain ⟨hmax, hbad⟩ := hbad
    -- the largest batch that the two bounds allow
    obtain ⟨k, hk⟩ := Nat.exists_eq_succ_of_ne_zero
      (Nat.ne_of_gt (Nat.lt_min.mpr ⟨hpos, hinFlight⟩))
    have hle := hk.symm.le
    rw [Nat.le_min] at hle
    obtain ⟨events, s, hrun, hfilling⟩ := exists_filling haccounted
      (filling_ofConfig hcapacity engine f) hmax (k + 1) hle.1 hle.2
    obtain ⟨events', s', batch, s'', hrun', hhalted, hstep, hlength⟩ := hfilling.exists_called hrun
    have hlt := hrange events' s' batch s'' hrun' hhalted hstep
    rw [(haccounted.run hrun').histogram_length, hlength] at hlt
    omega
  · intro hgood events s batch s' hrun hhalted hstep
    have hs := haccounted.run hrun
    cases hstep with
    | execute hexecuting call hcall =>
      have hle := hs.batchBounded batch (Or.inr hexecuting)
      rw [hs.config_eq] at hle
      have hle' := hs.length_le hexecuting
      rw [hs.histogram_length]
      omega

/-- With a queue of one request, and two requests in flight, a batch of two is out of range. -/
theorem batch_out_of_range :
    ∃ server events s batch s',
      ExchangeServer.create ⟨2, 1, 2⟩ (.ok (⟨Book.fresh, ⟨some ⟨1⟩, false⟩, .healthy⟩,
        (Posix.File.empty.append encodeFileHeader).sync)) true = .ok server ∧
      Run (2 ^ 56) server events s ∧ s.halted = none ∧ Step (2 ^ 56) s (.called batch) s' ∧
      batch.length = 2 ∧ s.batchSizeHistogram.length = 2 ∧ s'.halted = some .outOfRange := by
  have haccounted := accounted_ofConfig (2 ^ 56) ⟨2, 1, 2⟩ (by decide)
    ⟨Book.fresh, ⟨some ⟨1⟩, false⟩, .healthy⟩ (Posix.File.empty.append encodeFileHeader).sync
  obtain ⟨events, s, hrun, hfilling⟩ := exists_filling haccounted
    (filling_ofConfig (by decide) _ _) (by decide) 2 (by decide) (by decide)
  obtain ⟨events', s', batch, s'', hrun', hhalted, hstep, hlength⟩ := hfilling.exists_called hrun
  have hhistogram := (haccounted.run hrun').histogram_length
  refine ⟨_, events', s', batch, s'', rfl, hrun', hhalted, hstep, hlength, hhistogram, ?_⟩
  cases hstep with
  | execute hexecuting call hcall =>
    rw [executeAndPublishBatch]
    dsimp only
    rw [dif_neg (by rw [hlength, hhistogram]; decide)]

/-- The default configuration. -/
theorem batch_in_range_default :
    ∃ server, ExchangeServer.create {} (.ok (⟨Book.fresh, ⟨some ⟨1⟩, false⟩, .healthy⟩,
        (Posix.File.empty.append encodeFileHeader).sync)) true = .ok server ∧
      ∀ events s batch s', Run (2 ^ 56) server events s → s.halted = none →
        Step (2 ^ 56) s (.called batch) s' → batch.length < s.batchSizeHistogram.length := by
  have hcreate : ExchangeServer.create {} (.ok (⟨Book.fresh, ⟨some ⟨1⟩, false⟩, .healthy⟩,
      (Posix.File.empty.append encodeFileHeader).sync)) true = .ok (ofConfig {} _ _) := rfl
  exact ⟨_, hcreate, (batch_in_range_iff (2 ^ 56) _ _ _ _ hcreate).mpr (Or.inr (by decide))⟩

end Server

end MatchingEngine
