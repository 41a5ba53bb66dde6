import MatchingEngine.ExchangeServer.FailStop

/-!
# Exceptions in the worker

The points of `worker_loop` and `execute_and_publish_batch` that can throw, with the object that
owns a request there.

* `batch.reserve` runs while the request that was popped is still in the local optional. The
  exception leaves the loop, the optional is destroyed and releases the reservation, and the handler
  only sees what is still in the queue. A size above the maximal size of the vector always throws.
* `run_before_batch_drain_hook` copies and calls a function that a test may have set. The request is
  alone in the local vector there, which is destroyed with it in the same way.
* What throws in `execute_and_publish_batch` before the engine answers is caught there, while the
  batch is a parameter of the function: all of its requests are answered. The engine catches its own
  exceptions.
* `publish` is `noexcept`, so an exception of the response queue terminates the program, with the
  rest of the batch unanswered.

The other statements do not allocate: the vector of the batch is within the capacity that was
reserved.

## Main definitions

* `ExceptionalServer`: a server, and where its worker is in `worker_loop`.
* `ExceptionalServer.Step`, `ExceptionalServer.Run`: the steps of the server and the exceptions.
* `Server.Coherent`: the parts of the server fit together, so that it does not terminate by itself.
* `ExceptionalServer.Served`, `ExceptionalServer.Ended`: where the requests are, and why the program
  has halted.

## Main results

* `Server.Coherent.step`, `ExceptionalServer.Served.step`, `ExceptionalServer.Ended.step`.
* `ExceptionalServer.run_completed_iff`: the runs in which no request is lost.
-/

namespace MatchingEngine

open Posix

/-! ### The model -/

/-- Where the worker is in `worker_loop`. -/
inductive LoopPhase where
  | loop
  /-- An exception has left the loop, and the handler has not marked the failure yet. -/
  | unwinding
  | handler
  deriving DecidableEq, Repr

/-- The steps of the server that are left to the worker. The handler does not collect a batch. -/
def LoopPhase.Allows : LoopPhase → WorkerPhase → WorkerPhase → Prop
  | .loop, _, _ => True
  | .unwinding, worker, worker' => worker' = worker
  | .handler, _, worker' => ∀ batch, worker' ≠ .draining batch

/-- `execute_and_publish_batch` with an exception before the engine is called. -/
def Server.abandonBatch (s : Server) (batch : List EngineRequest) : Server :=
  { s with
    batchesProcessed := s.batchesProcessed + 1
    commandsProcessed := s.commandsProcessed + UInt64.ofNat batch.length
    batchSizeHistogram := s.batchSizeHistogram.modify batch.length (· + 1)
    failed := true
    engineFailed := true }.publishUnavailable batch

structure ExceptionalServer where
  server : Server
  loop : LoopPhase := .loop
  /-- `batch_drain_hook_active`. -/
  hookActive : Bool := false

namespace ExceptionalServer

/-- What a step shows of itself. -/
inductive Event where
  | step (event : Server.Event)
  /-- The loop has been left by an exception, and the request that was popped is destroyed. -/
  | lost (request : EngineRequest)
  /-- An exception was caught in `execute_and_publish_batch`. -/
  | caught
  /-- An exception has reached `publish`. -/
  | aborted
  deriving DecidableEq, Repr

inductive Step (maxSize : ℕ) : ExceptionalServer → Event → ExceptionalServer → Prop
  | step {g : ExceptionalServer} {event : Server.Event} {s : Server}
      (hstep : Server.Step maxSize g.server event s)
      (hallows : g.loop.Allows g.server.worker s.worker) :
      Step maxSize g (.step event) { g with server := s }
  | reserveThrows {g : ExceptionalServer} {request : EngineRequest}
      {queue : BoundedQueue EngineRequest} {limiter : InFlightLimiter} (hloop : g.loop = .loop)
      (hwaiting : g.server.worker = .waiting)
      (hpop : g.server.requestQueue.tryPop = some (request, queue))
      (hrelease : g.server.inFlightLimiter.releaseOne = some limiter) :
      Step maxSize g (.lost request)
        { g with
          server := { g.server with requestQueue := queue, inFlightLimiter := limiter }
          loop := .unwinding }
  -- no other request has been popped yet
  | hookThrows {g : ExceptionalServer} {request : EngineRequest} {limiter : InFlightLimiter}
      (hloop : g.loop = .loop) (hactive : g.hookActive = true)
      (hdraining : g.server.worker = .draining [request])
      (hrelease : g.server.inFlightLimiter.releaseOne = some limiter) :
      Step maxSize g (.lost request)
        { g with
          server := { g.server with inFlightLimiter := limiter, worker := .waiting }
          loop := .unwinding }
  | enterHandler {g : ExceptionalServer} (hunwinding : g.loop = .unwinding) :
      Step maxSize g (.step .internal)
        { g with
          server := { g.server with failed := true, engineFailed := true }
          loop := .handler }
  | handlerPop {g : ExceptionalServer} {request : EngineRequest}
      {queue : BoundedQueue EngineRequest} (hhandler : g.loop = .handler)
      (hwaiting : g.server.worker = .waiting)
      (hpop : g.server.requestQueue.tryPop = some (request, queue)) :
      Step maxSize g (.step .internal)
        { g with server := { g.server with
            requestQueue := queue
            worker := .publishing [(request, some (unavailableResponse request))] } }
  | commandsThrow {g : ExceptionalServer} {batch : List EngineRequest}
      (hexecuting : g.server.worker = .executing batch)
      (hrange : batch.length < g.server.batchSizeHistogram.length)
      (havailable : g.server.failed = false) :
      Step maxSize g .caught { g with server := g.server.abandonBatch batch }
  | publishThrows {g : ExceptionalServer} {entry : EngineRequest × Option EngineResponse}
      {remaining : List (EngineRequest × Option EngineResponse)}
      (hpublishing : g.server.worker = .publishing (entry :: remaining)) :
      Step maxSize g .aborted { g with server := { g.server with halted := some .terminated } }
  /-- `set_before_batch_drain_hook` and `clear_before_batch_drain_hook`. -/
  | setHook {g : ExceptionalServer} (active : Bool) :
      Step maxSize g (.step .internal) { g with hookActive := active }

/-- Any interleaving of the two parties, with exceptions anywhere. -/
inductive Run (maxSize : ℕ) (start : ExceptionalServer) :
    List Event → ExceptionalServer → Prop
  | refl : Run maxSize start [] start
  | step {events : List Event} {event : Event} {g g' : ExceptionalServer}
      (h : Run maxSize start events g) (hhalted : g.server.halted = none)
      (hstep : Step maxSize g event g') : Run maxSize start (events ++ [event]) g'

def Event.shown : Event → List Server.Event
  | .step event => [event]
  | .lost _ => []
  | .caught => []
  | .aborted => []

def Event.lostRequests : Event → List EngineRequest
  | .step _ => []
  | .lost request => [request]
  | .caught => []
  | .aborted => []

def Event.thrown : Event → Bool
  | .step _ => false
  | .lost _ => true
  | .caught => true
  | .aborted => true

/-- What a run shows of the server. -/
def shown (events : List Event) : List Server.Event := events.flatMap Event.shown

/-- The requests that were destroyed by an exception. -/
def lostRequests (events : List Event) : List EngineRequest := events.flatMap Event.lostRequests

/-- The events from the first exception on. -/
def afterThrow (events : List Event) : List Event := events.dropWhile fun event => !event.thrown

end ExceptionalServer

/-! ### The answers of a worker -/

namespace Server

/-- Every request has an answer of its own, and a worker that has failed has no other answer than
`EngineUnavailable`. -/
def AnswersMatch (s : Server) : Prop :=
  ∀ entry ∈ s.worker.answered, ∃ response, entry.2 = some response ∧
    response.ids = entry.1.ids ∧ (s.failed = true → response.isUnavailable = true)

theorem answersMatch_unavailable {s : Server} (batch : List EngineRequest)
    (h : s.worker = .publishing (batch.map fun r => (r, some (unavailableResponse r)))) :
    s.AnswersMatch := by
  intro entry hentry
  rw [h] at hentry
  obtain ⟨request, -, rfl⟩ := List.mem_map.mp hentry
  exact ⟨_, rfl, rfl, fun _ => rfl⟩

theorem answersMatch_of_nil {s : Server} (h : s.worker.answered = []) : s.AnswersMatch := by
  intro entry hentry
  rw [h] at hentry
  cases hentry

section Step

variable {maxSize : ℕ} {s s' : Server} {event : Event}

theorem Step.answersMatch (hstep : Step maxSize s event s') (h : s.AnswersMatch) :
    s'.AnswersMatch := by
  cases hstep with
  | pop | drain | stopDraining | await | finish => exact answersMatch_of_nil rfl
  | publish hpublishing hpush =>
    intro entry hentry
    refine h entry ?_
    rw [hpublishing]
    exact List.mem_cons_of_mem _ hentry
  | @execute batch hexecuting call hcall =>
    have houtcome := executeAndPublishBatch_outcome s batch call
    generalize s.executeAndPublishBatch batch call = s' at houtcome ⊢
    obtain ⟨_, _, _, _, _, _, _, _, _, _, _, _, _, _, _⟩ := s'
    dsimp only at houtcome
    cases houtcome with
    | outOfRange | mismatch => exact h
    | unavailable | failed => exact answersMatch_unavailable batch rfl
    | answered results hfailed hok hlen =>
      rintro ⟨request, answer⟩ hentry
      obtain rfl := DurableEngine.results_eq hok
      rw [hcall] at hentry
      obtain ⟨response, rfl⟩ := forall_mem_zipWith_run (fun answer => ∃ r, answer = some r)
        exists_summarize_apply s.engine.orderBook batch answer (List.of_mem_zip hentry).2
      obtain ⟨i, hi⟩ := List.mem_iff_getElem?.mp hentry
      obtain ⟨hrequest, hanswer⟩ := List.getElem?_zip_eq_some.mp hi
      obtain ⟨request', result, hrequest', -, hsummarize⟩ :=
        List.getElem?_zipWith_eq_some.mp hanswer
      cases hrequest.symm.trans hrequest'
      refine ⟨response, rfl, ids_of_summarize hsummarize, fun htrue => ?_⟩
      cases hfailed.symm.trans htrue
  | _ => exact h

/-- A completion is published for the first request that the worker answers. -/
theorem Step.published_cases (hstep : Step maxSize s event s') :
    event.publishedResponses = [] ∨ ∃ request response remaining,
      s.worker = .publishing ((request, some response) :: remaining) ∧
        event.publishedResponses = [response] := by
  cases hstep with
  | publish hpublishing _ => exact Or.inr ⟨_, _, _, hpublishing, rfl⟩
  | _ => exact Or.inl rfl

theorem Step.ids_eq (hstep : Step maxSize s event s') (h : s.AnswersMatch) :
    event.publishedResponses.map EngineResponse.ids =
      ((s.worker.answered.map Prod.fst).take event.publishedResponses.length).map
        EngineRequest.ids := by
  rcases hstep.published_cases with hnil | ⟨request, response, remaining, hworker, hone⟩
  · rw [hnil]
    rfl
  · have hmem : (request, some response) ∈ s.worker.answered := by
      rw [hworker]
      exact List.mem_cons_self
    obtain ⟨response', hsome, hids, -⟩ := h _ hmem
    cases hsome
    rw [hone, hworker]
    exact congrArg (fun ids => [ids]) hids

/-- A batch without a place in the histogram stays with the worker. -/
theorem Step.held_ne_nil (hstep : Step maxSize s event s') (h : s.Gathering)
    (hhalted : s.halted = none) (hout : s'.halted = some .outOfRange) : s'.worker.held ≠ [] := by
  cases hstep with
  | execute hexecuting call _ =>
    rw [held_executeAndPublishBatch s _ call hexecuting]
    exact h _ (Or.inr hexecuting)
  | releaseNothing | publishNothing => cases hout
  | _ => cases hhalted.symm.trans hout

end Step

/-- The reservations, the queues, the batch and the answers fit together. -/
structure Coherent (maxSize : ℕ) (config : ExchangeServerConfig) (s : Server) : Prop where
  accounted : Accounted maxSize config s
  closing : ∃ responses released, Closing config responses released s
  gathering : s.Gathering
  answersMatch : s.AnswersMatch

section Coherent

variable {maxSize : ℕ} {config : ExchangeServerConfig} {s s' : Server} {event : Event}

theorem Coherent.step (h : Coherent maxSize config s) (hstep : Step maxSize s event s') :
    Coherent maxSize config s' where
  accounted := h.accounted.step hstep
  closing :=
    have ⟨_, _, hclosing⟩ := h.closing
    ⟨_, _, hclosing.step hstep⟩
  gathering := h.gathering.step hstep
  answersMatch := hstep.answersMatch h.answersMatch

/-- A server that is coherent does not call `std::terminate` by itself. -/
theorem Coherent.halted_ne (h : Coherent maxSize config s) (hhalted : s.halted = none)
    (hstep : Step maxSize s event s') : s'.halted ≠ some .terminated := by
  obtain ⟨_, _, hclosing⟩ := h.closing
  refine hclosing.halted_ne h.accounted (fun entry hentry => ?_) hhalted hstep
  obtain ⟨response, hresponse, -⟩ := h.answersMatch entry hentry
  exact ⟨response, hresponse⟩

/-- The worker has left its batch, or answers it. -/
theorem Coherent.of_worker (h : Coherent maxSize config s) (hconfig : s'.config = s.config)
    (hcapacity : s'.inFlightLimiter.capacity = s.inFlightLimiter.capacity)
    (hhistogram : s'.batchSizeHistogram.length = s.batchSizeHistogram.length)
    (hresponses : s'.responseQueue = s.responseQueue) (hgateway : s'.gateway = s.gateway)
    (hfinished : s.worker ≠ .finished)
    (hworker : s'.worker = .waiting ∨ ∃ remaining, s'.worker = .publishing remaining)
    (hinFlight : s'.inFlightLimiter.inFlight = s'.reservations) (hanswers : s'.AnswersMatch) :
    Coherent maxSize config s' := by
  obtain ⟨responses, released, hclosing⟩ := h.closing
  have hbatch (batch : List EngineRequest) :
      ¬(s'.worker = .draining batch ∨ s'.worker = .executing batch) := by
    rcases hworker with hworker | ⟨_, hworker⟩ <;> simp [hworker]
  refine ⟨⟨hconfig.trans h.accounted.config_eq, h.accounted.batchSize_pos,
      hcapacity.trans h.accounted.capacity_eq, hhistogram.trans h.accounted.histogram_length,
      hinFlight, fun batch hdraining => absurd hdraining (hbatch batch)⟩,
    ⟨responses, released, ?_, ?_, ?_, ?_, ?_⟩,
    fun batch hdraining => absurd hdraining (hbatch batch), hanswers⟩
  · rw [hresponses]
    exact hclosing.capacity_eq
  · rw [hresponses, hgateway]
    exact hclosing.responses_eq
  · intro hend
    rcases hworker with hworker | ⟨_, hworker⟩ <;> cases hworker.symm.trans hend
  · intro hclosed
    rw [hresponses] at hclosed
    exact absurd (hclosing.of_closed hclosed) hfinished
  · rw [hresponses, hgateway]
    exact hclosing.of_exited

theorem coherent_ofConfig (maxSize : ℕ) (hpos : 0 < config.maxDurableBatchSize.toNat)
    (engine : DurableEngine) (f : File) : Coherent maxSize config (ofConfig config engine f) where
  accounted := accounted_ofConfig maxSize config hpos engine f
  closing := ⟨[], [], closing_ofConfig config engine f⟩
  gathering := by rintro batch (h | h) <;> cases h
  answersMatch := answersMatch_of_nil rfl

end Coherent

end Server

/-! ### Runs -/

namespace ExceptionalServer

open Server (admitted published)

section Events

variable (events : List Event)

theorem shown_append (event : Event) : shown (events ++ [event]) = shown events ++ event.shown := by
  rw [shown, List.flatMap_append, List.flatMap_singleton]
  rfl

theorem lostRequests_append (event : Event) :
    lostRequests (events ++ [event]) = lostRequests events ++ event.lostRequests := by
  rw [lostRequests, List.flatMap_append, List.flatMap_singleton]
  rfl

theorem admitted_shown_append (event : Server.Event) :
    admitted (shown (events ++ [.step event])) =
      admitted (shown events) ++ event.admittedRequests := by
  rw [shown_append, admitted, List.flatMap_append]
  exact congrArg _ (List.flatMap_singleton ..)

theorem published_shown_append (event : Server.Event) :
    published (shown (events ++ [.step event])) =
      published (shown events) ++ event.publishedResponses := by
  rw [shown_append, published, List.flatMap_append]
  exact congrArg _ (List.flatMap_singleton ..)

variable {events}

theorem afterThrow_append_of_nil (h : afterThrow events = []) (event : Event) :
    afterThrow (events ++ [event]) = if event.thrown then [event] else [] := by
  rw [afterThrow] at h
  rw [afterThrow, List.dropWhile_append, h]
  cases hthrown : event.thrown <;> simp [hthrown]

theorem afterThrow_append_of_ne (h : afterThrow events ≠ []) (event : Event) :
    afterThrow (events ++ [event]) = afterThrow events ++ [event] := by
  have hne : ¬(afterThrow events).isEmpty = true := mt List.isEmpty_iff.mp h
  rw [afterThrow] at hne
  rw [afterThrow, List.dropWhile_append, if_neg hne]
  rfl

/-- An event that shows no completion adds none behind the first exception. -/
theorem published_afterThrow_append {event : Event} (h : published event.shown = []) :
    published (shown (afterThrow (events ++ [event]))) =
      published (shown (afterThrow events)) := by
  by_cases hnil : afterThrow events = []
  · rw [afterThrow_append_of_nil hnil, hnil]
    split
    · rw [shown, List.flatMap_singleton, h]
      rfl
    · rfl
  · rw [afterThrow_append_of_ne hnil, shown_append, published, List.flatMap_append]
    exact (congrArg _ h).trans (List.append_nil _)

end Events

/-- The requests that were popped, other than those that are lost, are completed or with the worker,
and only those that were popped before the loop was left by an exception are in front of the one
that is lost. -/
structure Served (maxSize : ℕ) (config : ExchangeServerConfig) (events : List Event)
    (before after : List EngineRequest) (g : ExceptionalServer) : Prop where
  coherent : g.server.Coherent maxSize config
  requests_eq : admitted (shown events) = before ++ lostRequests events ++ after ++
    g.server.worker.held ++ g.server.requestQueue.items
  ids_eq : (published (shown events)).map EngineResponse.ids =
    (before ++ after).map EngineRequest.ids
  of_loop : g.loop = .loop → lostRequests events = []
  of_unwinding : g.loop = .unwinding → g.server.worker = .waiting
  of_handler : g.loop = .handler → g.server.failed = true
  of_thrown : g.server.halted = none → afterThrow events ≠ [] →
    g.loop = .unwinding ∨ g.server.failed = true
  isUnavailable : ∀ response ∈ published (shown (afterThrow events)), response.isUnavailable = true

section Served

variable {maxSize : ℕ} {config : ExchangeServerConfig} {events : List Event} {event : Event}
  {before after : List EngineRequest} {g g' : ExceptionalServer}

theorem Served.of_step (h : Served maxSize config events before after g)
    (hhalted : g.server.halted = none) {event : Server.Event} {s : Server}
    (hstep : Server.Step maxSize g.server event s)
    (hallows : g.loop.Allows g.server.worker s.worker) :
    ∃ after', Served maxSize config (events ++ [.step event]) before after'
      { g with server := s } := by
  have hthrown : afterThrow (events ++ [.step event]) ≠ [] → afterThrow events ≠ [] := by
    intro hne hnil
    exact hne (afterThrow_append_of_nil hnil _)
  refine ⟨after ++ (g.server.worker.answered.map Prod.fst).take event.publishedResponses.length,
    h.coherent.step hstep, ?_, ?_, ?_, ?_, ?_, ?_, ?_⟩
  · rw [admitted_shown_append, hstep.requests_eq h.requests_eq, lostRequests_append,
      Event.lostRequests, List.append_nil, List.append_assoc _ after]
  · rw [published_shown_append, List.map_append, h.ids_eq, hstep.ids_eq h.coherent.answersMatch,
      ← List.map_append, List.append_assoc]
  · intro hloop
    rw [lostRequests_append, h.of_loop hloop]
    rfl
  · intro hunwinding
    rw [LoopPhase.Allows.eq_def, hunwinding] at hallows
    exact hallows.trans (h.of_unwinding hunwinding)
  · intro hhandler
    exact (hstep.of_failed (h.of_handler hhandler)).1
  · intro _ hne
    exact (h.of_thrown hhalted (hthrown hne)).imp_right fun hfailed => (hstep.of_failed hfailed).1
  · intro response hresponse
    by_cases hnil : afterThrow events = []
    · rw [afterThrow_append_of_nil hnil] at hresponse
      cases hresponse
    · rw [afterThrow_append_of_ne hnil, published_shown_append] at hresponse
      rcases List.mem_append.mp hresponse with hresponse | hresponse
      · exact h.isUnavailable response hresponse
      · rcases hstep.published_cases with hnone | ⟨request, response', remaining, hworker, hone⟩
        · rw [hnone] at hresponse
          cases hresponse
        · rw [hone, List.mem_singleton] at hresponse
          subst hresponse
          have hmem : (request, some response) ∈ g.server.worker.answered := by
            rw [hworker]
            exact List.mem_cons_self
          rcases h.of_thrown hhalted hnil with hunwinding | hfailed
          · cases hworker.symm.trans (h.of_unwinding hunwinding)
          · obtain ⟨_, hsome, -, hunavailable⟩ := h.coherent.answersMatch _ hmem
            cases hsome
            exact hunavailable hfailed

/-- A step that shows nothing of the server. -/
theorem Served.of_silent (h : Served maxSize config events before after g)
    (hcoherent : g'.server.Coherent maxSize config) {before' after' : List EngineRequest}
    (hadmitted : admitted event.shown = []) (hpublished : published event.shown = [])
    (hrequests : before ++ lostRequests events ++ after ++ g.server.worker.held ++
      g.server.requestQueue.items =
        before' ++ (lostRequests events ++ event.lostRequests) ++ after' ++
          g'.server.worker.held ++ g'.server.requestQueue.items)
    (hids : before' ++ after' = before ++ after)
    (hloop : g'.loop = .loop → g.loop = .loop ∧ event.lostRequests = [])
    (hunwinding : g'.loop = .unwinding → g'.server.worker = .waiting)
    (hhandler : g'.loop = .handler → g'.server.failed = true)
    (hthrown : g'.server.halted = none → event.thrown = true ∨ afterThrow events ≠ [] →
      g'.loop = .unwinding ∨ g'.server.failed = true) :
    Served maxSize config (events ++ [event]) before' after' g' := by
  refine ⟨hcoherent, ?_, ?_, ?_, hunwinding, hhandler, fun hhalted hne => hthrown hhalted ?_, ?_⟩
  · rw [shown_append, admitted, List.flatMap_append, lostRequests_append, ← hrequests,
      ← h.requests_eq]
    exact (congrArg _ hadmitted).trans (List.append_nil _)
  · rw [shown_append, published, List.flatMap_append, hids, ← h.ids_eq]
    exact congrArg _ ((congrArg _ hpublished).trans (List.append_nil _))
  · intro hg'
    rw [lostRequests_append, h.of_loop (hloop hg').1, (hloop hg').2]
    rfl
  · by_cases hnil : afterThrow events = []
    · rw [afterThrow_append_of_nil hnil] at hne
      exact Or.inl (by_contra fun hnot => hne (if_neg hnot))
    · exact Or.inr hnil
  · rw [published_afterThrow_append hpublished]
    exact h.isUnavailable

/-- A request is lost. It was the first one that was not completed, and the worker has no other. -/
theorem Served.of_lost (h : Served maxSize config events before after g) (hloop : g.loop = .loop)
    {request : EngineRequest} {queue : BoundedQueue EngineRequest} {limiter : InFlightLimiter}
    {s : Server} (hrelease : g.server.inFlightLimiter.releaseOne = some limiter)
    (hfinished : g.server.worker ≠ .finished)
    (hheld : g.server.worker.held ++ g.server.requestQueue.items = request :: queue.items)
    (hs : s = { g.server with
      requestQueue := queue, inFlightLimiter := limiter, worker := .waiting }) :
    Served maxSize config (events ++ [.lost request]) (before ++ after) []
      { g with server := s, loop := .unwinding } := by
  subst hs
  have hinFlight := h.coherent.accounted.inFlight_eq
  obtain ⟨hcount, hcapacity⟩ := InFlightLimiter.releaseOne_eq_some hrelease
  have hlength := congrArg List.length hheld
  rw [List.length_append, List.length_cons] at hlength
  have hcoherent : Server.Coherent maxSize config { g.server with
      requestQueue := queue, inFlightLimiter := limiter, worker := .waiting } := by
    refine h.coherent.of_worker rfl hcapacity rfl rfl rfl hfinished (Or.inl rfl) ?_
      (Server.answersMatch_of_nil rfl)
    rw [Server.reservations] at hinFlight
    rw [Server.reservations, WorkerPhase.held, List.length_nil]
    dsimp only
    omega
  refine h.of_silent hcoherent rfl rfl ?_ (List.append_nil _) (fun hloop => by cases hloop)
    (fun _ => rfl) (fun hloop => by cases hloop) fun _ _ => Or.inl rfl
  rw [h.of_loop hloop, List.append_assoc _ g.server.worker.held, hheld]
  simp [WorkerPhase.held, Event.lostRequests]

theorem Served.step (h : Served maxSize config events before after g)
    (hhalted : g.server.halted = none) (hstep : Step maxSize g event g') :
    ∃ before' after', Served maxSize config (events ++ [event]) before' after' g' := by
  have hinFlight := h.coherent.accounted.inFlight_eq
  cases hstep with
  | step hstep hallows => exact ⟨before, h.of_step hhalted hstep hallows⟩
  | @reserveThrows request queue limiter hloop hwaiting hpop hrelease =>
    refine ⟨_, _, h.of_lost hloop hrelease (by simp [hwaiting]) ?_ (by rw [← hwaiting])⟩
    rw [hwaiting, (BoundedQueue.tryPop_eq_some hpop).1]
    rfl
  | @hookThrows request limiter hloop hactive hdraining hrelease =>
    refine ⟨_, _, h.of_lost hloop hrelease (by simp [hdraining]) ?_ rfl⟩
    rw [hdraining]
    rfl
  | enterHandler hunwinding =>
    have hworker := h.of_unwinding hunwinding
    have hcoherent : Server.Coherent maxSize config
        { g.server with failed := true, engineFailed := true } :=
      h.coherent.of_worker rfl rfl rfl rfl rfl (by simp [hworker]) (Or.inl hworker) hinFlight
        (Server.answersMatch_of_nil (by rw [hworker]; rfl))
    refine ⟨before, after, h.of_silent hcoherent rfl rfl ?_ rfl (fun hloop => by cases hloop)
      (fun hloop => by cases hloop) (fun _ => rfl) fun _ _ => Or.inr rfl⟩
    rw [Event.lostRequests, List.append_nil]
  | @handlerPop request queue hhandler hwaiting hpop =>
    have hfailed := h.of_handler hhandler
    have hitems := (BoundedQueue.tryPop_eq_some hpop).1
    have hcoherent : Server.Coherent maxSize config { g.server with
        requestQueue := queue
        worker := .publishing [(request, some (unavailableResponse request))] } := by
      refine h.coherent.of_worker rfl rfl rfl rfl rfl (by simp [hwaiting]) (Or.inr ⟨_, rfl⟩) ?_
        (Server.answersMatch_unavailable [request] rfl)
      rw [Server.reservations, hwaiting, hitems, WorkerPhase.held, List.length_cons,
        List.length_nil] at hinFlight
      rw [Server.reservations, WorkerPhase.held, List.map_singleton, List.length_singleton]
      dsimp only
      omega
    refine ⟨before, after, h.of_silent hcoherent rfl rfl ?_ rfl (fun hloop => ⟨hloop, rfl⟩) ?_
      (fun _ => hfailed) fun _ _ => Or.inr hfailed⟩
    · rw [hwaiting, hitems, Event.lostRequests, List.append_nil]
      simp [WorkerPhase.held]
    · intro hunwinding
      cases hhandler.symm.trans hunwinding
  | @commandsThrow batch hexecuting hrange havailable =>
    have hcoherent : Server.Coherent maxSize config (g.server.abandonBatch batch) := by
      refine h.coherent.of_worker rfl rfl (List.length_modify ..) rfl rfl
        (by simp [hexecuting]) (Or.inr ⟨_, rfl⟩) ?_ (Server.answersMatch_unavailable batch rfl)
      rw [Server.reservations, hexecuting, WorkerPhase.held] at hinFlight
      rw [Server.reservations, Server.abandonBatch, Server.publishUnavailable,
        WorkerPhase.held_unavailable, hinFlight]
    refine ⟨before, after, h.of_silent hcoherent rfl rfl ?_ rfl (fun hloop => ⟨hloop, rfl⟩) ?_
      (fun _ => rfl) fun _ _ => Or.inr rfl⟩
    · rw [hexecuting, Event.lostRequests, List.append_nil, Server.abandonBatch,
        Server.publishUnavailable, WorkerPhase.held_unavailable, WorkerPhase.held]
    · intro hunwinding
      cases hexecuting.symm.trans (h.of_unwinding hunwinding)
  | publishThrows hpublishing =>
    obtain ⟨haccounted, ⟨_, _, hclosing⟩, hgathering, hanswers⟩ := h.coherent
    have hcoherent : Server.Coherent maxSize config { g.server with halted := some .terminated } :=
      ⟨{ haccounted with }, ⟨_, _, { hclosing with }⟩, hgathering, hanswers⟩
    refine ⟨before, after, h.of_silent hcoherent rfl rfl ?_ rfl (fun hloop => ⟨hloop, rfl⟩)
      h.of_unwinding h.of_handler fun hnone => by cases hnone⟩
    rw [Event.lostRequests, List.append_nil]
  | setHook active =>
    refine ⟨before, after, ?_⟩
    apply h.of_silent
    case hcoherent => exact h.coherent
    case hrequests => rw [Event.lostRequests, List.append_nil]
    case hloop => exact fun hloop => ⟨hloop, rfl⟩
    case hunwinding => exact h.of_unwinding
    case hhandler => exact h.of_handler
    case hthrown =>
      intro _ hthrown
      exact h.of_thrown hhalted (hthrown.resolve_left Bool.false_ne_true)
    all_goals rfl

/-- A program that has halted leaves requests without a completion: after an exception in `publish`,
or with a batch that has no place in the histogram. -/
structure Ended (events : List Event) (g : ExceptionalServer) : Prop where
  aborted_iff : .aborted ∈ events ↔ g.server.halted = some .terminated
  of_halted : g.server.halted ≠ none → g.server.worker.held ≠ []

theorem Ended.step (h : Ended events g) (hcoherent : g.server.Coherent maxSize config)
    (hhalted : g.server.halted = none) (hstep : Step maxSize g event g') :
    Ended (events ++ [event]) g' := by
  have hnot : .aborted ∉ events := fun hmem => by
    cases hhalted.symm.trans (h.aborted_iff.mp hmem)
  cases hstep with
  | @step event s hstep hallows =>
    refine ⟨iff_of_false (by simpa using hnot) (hcoherent.halted_ne hhalted hstep), fun hne => ?_⟩
    cases hs : s.halted with
    | none => exact absurd hs hne
    | some halt =>
      cases halt with
      | terminated => exact absurd hs (hcoherent.halted_ne hhalted hstep)
      | outOfRange => exact hstep.held_ne_nil hcoherent.gathering hhalted hs
  | publishThrows hpublishing =>
    refine ⟨iff_of_true (List.mem_append_right _ List.mem_cons_self) rfl, fun _ => ?_⟩
    rw [hpublishing]
    exact List.cons_ne_nil _ _
  | reserveThrows | hookThrows | enterHandler | handlerPop | commandsThrow | setHook =>
    refine ⟨iff_of_false (by simpa using hnot) fun hterminated => ?_,
      fun hne => absurd hhalted hne⟩
    cases hhalted.symm.trans hterminated

theorem served_ofConfig (maxSize : ℕ) (hpos : 0 < config.maxDurableBatchSize.toNat)
    (engine : DurableEngine) (f : File) (hookActive : Bool) : Served maxSize config [] [] []
      { server := Server.ofConfig config engine f, hookActive := hookActive } where
  coherent := Server.coherent_ofConfig maxSize hpos engine f
  requests_eq := rfl
  ids_eq := rfl
  of_loop _ := rfl
  of_unwinding h := by cases h
  of_handler h := by cases h
  of_thrown _ h := absurd rfl h
  isUnavailable _ h := by cases h

theorem Run.served {start : ExceptionalServer} (h : Served maxSize config [] [] [] start)
    (hended : Ended [] start) (hrun : Run maxSize start events g) :
    (∃ before after, Served maxSize config events before after g) ∧ Ended events g := by
  induction hrun with
  | refl => exact ⟨⟨[], [], h⟩, hended⟩
  | step _ hhalted hstep ih =>
    obtain ⟨⟨_, _, hserved⟩, hended⟩ := ih
    exact ⟨hserved.step hhalted hstep, hended.step hserved.coherent hhalted hstep⟩

end Served

/-- Any interleaving of the gateway and the worker of a server that was created, with an exception
at any point of the worker that can throw, and with a hook that tests may set. Every request that
was popped from the request queue has had its completion published, one for each and in order, or is
still with a worker that goes on and keeps its reservation, and what is published after an exception
is `EngineUnavailable`, if and only if neither `batch.reserve` nor the hook has thrown, no exception
has reached `publish`, and every batch has had a place in the histogram. -/
theorem run_completed_iff (maxSize : ℕ) (config : ExchangeServerConfig)
    (engineResult : Except DurableEngineError (DurableEngine × File)) (gatewayCreated : Bool)
    (server : Server)
    (hcreate : ExchangeServer.create config engineResult gatewayCreated = .ok server)
    (hookActive : Bool) (events : List Event) (g : ExceptionalServer)
    (hrun : Run maxSize { server := server, hookActive := hookActive } events g) :
    (∃ completed,
      admitted (shown events) =
        completed ++ g.server.worker.held ++ g.server.requestQueue.items ∧
      (published (shown events)).map EngineResponse.ids = completed.map EngineRequest.ids ∧
      g.server.inFlightLimiter.inFlight = g.server.reservations ∧
      (∀ response ∈ published (shown (afterThrow events)), response.isUnavailable = true) ∧
      (g.server.halted ≠ none ∨ g.server.worker = .finished → g.server.worker.held = [])) ↔
      lostRequests events = [] ∧ .aborted ∉ events ∧ g.server.halted ≠ some .outOfRange := by
  obtain ⟨-, -, hpos, engine, f, -, rfl⟩ := ExchangeServer.create_eq_ok hcreate
  obtain ⟨⟨before, after, h⟩, hended⟩ := Run.served
    (served_ofConfig maxSize hpos engine f hookActive)
    ⟨iff_of_false List.not_mem_nil nofun, absurd rfl⟩ hrun
  constructor
  · rintro ⟨completed, hrequests, hids, -, -, hheld⟩
    have hhalted : g.server.halted = none :=
      by_contra fun hne => hended.of_halted hne (hheld (Or.inl hne))
    have hlength := congrArg List.length (h.requests_eq.symm.trans hrequests)
    have hcount := congrArg List.length (h.ids_eq.symm.trans hids)
    simp only [List.length_append, List.length_map] at hlength hcount
    refine ⟨List.eq_nil_of_length_eq_zero (by omega), fun haborted => ?_, fun hout => ?_⟩
    · cases hhalted.symm.trans (hended.aborted_iff.mp haborted)
    · cases hhalted.symm.trans hout
  · rintro ⟨hnil, haborted, hout⟩
    refine ⟨before ++ after, ?_, h.ids_eq, h.coherent.accounted.inFlight_eq, h.isUnavailable, ?_⟩
    · rw [h.requests_eq, hnil, List.append_nil]
    · rintro (hne | hfinished)
      · cases hhalted : g.server.halted with
        | none => exact absurd hhalted hne
        | some halt =>
          cases halt with
          | terminated => exact absurd (hended.aborted_iff.mpr hhalted) haborted
          | outOfRange => exact absurd hhalted hout
      · rw [hfinished]
        rfl

/-- A batch size that no vector can reserve is accepted. The first request that is popped is lost:
the worker ends without a completion for it, and its reservation is released. -/
theorem reserve_loses_request :
    ∃ server events g, ExchangeServer.create ⟨256, 256, 0x8000000000000000⟩
        (.ok (⟨Book.fresh, ⟨some ⟨1⟩, false⟩, .healthy⟩,
          (File.empty.append encodeFileHeader).sync)) true = .ok server ∧
      Run (2 ^ 56) { server := server } events g ∧
      admitted (shown events) = [.cancel ⟨⟨1⟩, ⟨1⟩, ⟨7⟩⟩] ∧ published (shown events) = [] ∧
      g.server.worker = .finished ∧ g.server.requestQueue.items = [] ∧
      g.server.inFlightLimiter.inFlight = 0 := by
  have hstart : Run (2 ^ 56) ⟨Server.ofConfig ⟨256, 256, 0x8000000000000000⟩
      ⟨Book.fresh, ⟨some ⟨1⟩, false⟩, .healthy⟩ (File.empty.append encodeFileHeader).sync,
      .loop, false⟩ [] _ := .refl
  have hadmitted := (hstart.step rfl
    (.step (.acquire (.cancel ⟨⟨1⟩, ⟨1⟩, ⟨7⟩⟩) rfl rfl rfl rfl) trivial)).step rfl
    (.step (.enqueue rfl rfl) trivial)
  have hthrown := (hadmitted.step rfl (.reserveThrows rfl rfl rfl rfl)).step rfl (.enterHandler rfl)
  have hfinished := (hthrown.step rfl (.step (.shutdown rfl rfl) fun _ => nofun)).step rfl
    (.step (.finish rfl rfl rfl) fun _ => nofun)
  exact ⟨_, _, _, rfl, hfinished, rfl, rfl, rfl, rfl, rfl⟩

/-- An exception in `execute_and_publish_batch` is answered before the worker finishes. -/
theorem run_completed_iff_caught :
    ∃ server events g, ExchangeServer.create ⟨2, 2, 1⟩
        (.ok (⟨Book.fresh, ⟨some ⟨1⟩, false⟩, .healthy⟩,
          (File.empty.append encodeFileHeader).sync)) true = .ok server ∧
      Run (2 ^ 56) { server := server } events g ∧ .caught ∈ events ∧
      admitted (shown events) = [.cancel ⟨⟨1⟩, ⟨1⟩, ⟨7⟩⟩] ∧
      published (shown events) = [.unavailable ⟨⟨1⟩, ⟨1⟩⟩] ∧ g.server.worker = .finished ∧
      g.server.worker.held = [] ∧ g.server.inFlightLimiter.inFlight = g.server.reservations ∧
      ∀ response ∈ published (shown (afterThrow events)), response.isUnavailable = true := by
  have hcreate : ExchangeServer.create ⟨2, 2, 1⟩ (.ok (⟨Book.fresh, ⟨some ⟨1⟩, false⟩, .healthy⟩,
      (File.empty.append encodeFileHeader).sync)) true = .ok (Server.ofConfig _ _ _) := rfl
  have hstart : Run (2 ^ 56) ⟨Server.ofConfig ⟨2, 2, 1⟩
      ⟨Book.fresh, ⟨some ⟨1⟩, false⟩, .healthy⟩ (File.empty.append encodeFileHeader).sync,
      .loop, false⟩ [] _ := .refl
  have hadmitted := (hstart.step rfl
    (.step (.acquire (.cancel ⟨⟨1⟩, ⟨1⟩, ⟨7⟩⟩) rfl rfl rfl rfl) trivial)).step rfl
    (.step (.enqueue rfl rfl) trivial)
  have hexecuting := (hadmitted.step rfl (.step (.pop rfl rfl (by decide)) trivial)).step rfl
    (.step (.stopDraining rfl fun h => absurd h (by decide)) trivial)
  have hcaught := hexecuting.step rfl (.commandsThrow rfl (by decide) rfl)
  have hanswered := (hcaught.step rfl (.step (.publish rfl rfl) trivial)).step rfl
    (.step (.await rfl) trivial)
  have hfinished := (hanswered.step rfl (.step (.shutdown rfl rfl) trivial)).step rfl
    (.step (.finish rfl rfl rfl) trivial)
  obtain ⟨-, -, -, hinFlight, hunavailable, hheld⟩ :=
    (run_completed_iff (2 ^ 56) ⟨2, 2, 1⟩ _ true _ hcreate false _ _ hfinished).mpr
      ⟨rfl, by decide, nofun⟩
  exact ⟨_, _, _, hcreate, hfinished, by decide, rfl, rfl, rfl, hheld (Or.inr rfl), hinFlight,
    hunavailable⟩

end ExceptionalServer

end MatchingEngine
