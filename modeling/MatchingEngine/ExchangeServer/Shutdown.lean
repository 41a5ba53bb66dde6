import MatchingEngine.ExchangeServer.Pipeline

/-!
# The end of the pipeline

The response queue has room for every reservation, and the two queues are closed one after the
other: the gateway closes the request queue, the worker empties it before it closes the response
queue, and the gateway empties that one before it exits. Hence no completion is ever refused, no
reservation is released twice, and at the exit nothing is left in the pipeline.

## Main definitions

* `Server.delivered`: the completions that the gateway has released.
* `Server.Closing`: the response side of the pipeline, and the order in which it is closed.

## Main results

* `Server.Closing.step`, `Server.Closing.run`.
* `Server.run_reservations`: the reservations of every interleaving.
-/

namespace MatchingEngine

open Posix

/-- The completion that the gateway has taken from its queue. -/
def GatewayPhase.taken : GatewayPhase → List EngineResponse
  | .idle => []
  | .admitting _ => []
  | .delivering response => [response]
  | .exited => []

/-- A request and the result of its command are of one kind, so `summarize` does not terminate the
program. -/
theorem exists_summarize_apply (book : Book) (request : EngineRequest) :
    ∃ response, summarize request (book.apply (toJournalCommand request)).1 = some response := by
  rw [(book.apply_refines _).1]
  cases request <;> exact ⟨_, rfl⟩

namespace Server

/-! ### Answers -/

section Answers

variable (P : Option EngineResponse → Prop)

theorem forall_mem_zipWith_run
    (hresult : ∀ (book : Book) request,
      P (summarize request (book.apply (toJournalCommand request)).1))
    (book : Book) (requests : List EngineRequest) :
    ∀ answer ∈ List.zipWith summarize requests (book.run (requests.map toJournalCommand)).1,
      P answer := by
  induction requests generalizing book with
  | nil => exact nofun
  | cons request requests ih => exact List.forall_mem_cons.mpr ⟨hresult book request, ih _⟩

/-- What holds of the answer to one command, on any book, and of a refusal holds of all answers. -/
theorem forall_mem_answers
    (hresult : ∀ (book : Book) request,
      P (summarize request (book.apply (toJournalCommand request)).1))
    (hrefused : ∀ request, P (some (unavailableResponse request))) (book : Book)
    (executed refused : List EngineRequest) : ∀ answer ∈ answers book executed refused, P answer :=
  List.forall_mem_append.mpr ⟨forall_mem_zipWith_run P hresult book executed,
    List.forall_mem_map.mpr fun request _ => hrefused request⟩

variable {startup : List JournalCommand} {requests : List EngineRequest}
  {responses : List EngineResponse} {s : Server} {completed executed refused : List EngineRequest}

/-- All completions, and those that the worker has still to publish. -/
theorem Pipelined.forall_mem
    (h : Pipelined startup requests responses s completed executed refused)
    (hresult : ∀ (book : Book) request,
      P (summarize request (book.apply (toJournalCommand request)).1))
    (hrefused : ∀ request, P (some (unavailableResponse request))) :
    ∀ answer ∈ responses.map some ++ s.worker.answered.map Prod.snd, P answer := by
  rw [h.responses_eq]
  exact forall_mem_answers P hresult hrefused _ executed refused

theorem Pipelined.exists_response
    (h : Pipelined startup requests responses s completed executed refused)
    {entry : EngineRequest × Option EngineResponse} (hentry : entry ∈ s.worker.answered) :
    ∃ response, entry.2 = some response :=
  h.forall_mem (fun answer => ∃ response, answer = some response) exists_summarize_apply
    (fun _ => ⟨_, rfl⟩) entry.2 (List.mem_append_right _ (List.mem_map_of_mem hentry))

end Answers

/-! ### The response side -/

def Event.deliveredResponses : Event → List EngineResponse
  | .admitted _ => []
  | .called _ => []
  | .published _ => []
  | .delivered response => [response]
  | .internal => []

/-- The completions that the gateway has taken and released, in order. -/
def delivered (events : List Event) : List EngineResponse :=
  events.flatMap Event.deliveredResponses

/-- The completions are released, with the gateway, or in their queue, which has room for all
reservations. The worker is the last to use the request queue, and the gateway the last to use the
response queue. -/
structure Closing (config : ExchangeServerConfig) (responses released : List EngineResponse)
    (s : Server) : Prop where
  capacity_eq : s.responseQueue.capacity = config.maximumInFlight.toNat
  responses_eq : responses = released ++ s.gateway.taken ++ s.responseQueue.items
  of_finished : s.worker = .finished → s.requestQueue.closed = true ∧ s.requestQueue.items = []
  of_closed : s.responseQueue.closed = true → s.worker = .finished
  of_exited : s.gateway = .exited →
    s.responseQueue.closed = true ∧ s.responseQueue.items = []

theorem executeAndPublishBatch_ne_finished {s : Server} {batch : List EngineRequest}
    (hexecuting : s.worker = .executing batch) (call : DurableEngine.Call) :
    (s.executeAndPublishBatch batch call).worker ≠ .finished := by
  have houtcome := executeAndPublishBatch_outcome s batch call
  generalize s.executeAndPublishBatch batch call = s' at houtcome ⊢
  obtain ⟨_, _, _, _, _, _, _, _, _, _, _, _, _, _, _⟩ := s'
  dsimp only at houtcome ⊢
  intro hfinished
  cases houtcome with
  | outOfRange | mismatch => cases hexecuting.symm.trans hfinished
  | unavailable | answered | failed => cases hfinished

section Step

variable {maxSize : ℕ} {s s' : Server} {event : Event}

theorem Step.responseCapacity_eq (hstep : Step maxSize s event s') :
    s'.responseQueue.capacity = s.responseQueue.capacity := by
  cases hstep with
  | takeCompletion _ hpop => exact (BoundedQueue.tryPop_eq_some hpop).2.1
  | publish _ hpush => exact (BoundedQueue.tryPush_eq_some hpush).2.1
  | execute _ call _ =>
    exact congrArg BoundedQueue.capacity (executeAndPublishBatch_frame _ _ call).responseQueue_eq
  | _ => rfl

/-- A step moves a completion from the worker to the queue, to the gateway, and out. -/
theorem Step.responses_eq (hstep : Step maxSize s event s')
    {responses released : List EngineResponse}
    (h : responses = released ++ s.gateway.taken ++ s.responseQueue.items) :
    responses ++ event.publishedResponses =
      released ++ event.deliveredResponses ++ s'.gateway.taken ++ s'.responseQueue.items := by
  cases hstep with
  | takeCompletion hidle hpop =>
    rw [hidle, (BoundedQueue.tryPop_eq_some hpop).1] at h
    rw [h, Event.publishedResponses, Event.deliveredResponses]
    simp [GatewayPhase.taken]
  | release hdelivering hrelease =>
    rw [hdelivering] at h
    rw [h, Event.publishedResponses, Event.deliveredResponses]
    simp [GatewayPhase.taken]
  | publish hpublishing hpush =>
    rw [h, (BoundedQueue.tryPush_eq_some hpush).1, Event.publishedResponses,
      Event.deliveredResponses, List.append_nil, List.append_assoc]
  | acquire _ hgateway | enqueue hgateway | refuse hgateway | exit hgateway =>
    rw [hgateway] at h
    rw [h, Event.publishedResponses, Event.deliveredResponses, List.append_nil, List.append_nil]
    rfl
  | @execute batch _ call _ =>
    obtain ⟨-, -, -, hqueue, hgateway, -⟩ := executeAndPublishBatch_frame s batch call
    rw [h, hqueue, hgateway, Event.publishedResponses, Event.deliveredResponses, List.append_nil,
      List.append_nil]
  | _ =>
    rw [Event.publishedResponses, Event.deliveredResponses, List.append_nil, List.append_nil]
    exact h

theorem Step.of_finished (hstep : Step maxSize s event s')
    (h : s.worker = .finished → s.requestQueue.closed = true ∧ s.requestQueue.items = []) :
    s'.worker = .finished → s'.requestQueue.closed = true ∧ s'.requestQueue.items = [] := by
  intro hfinished
  cases hstep with
  | enqueue _ hpush => cases (h hfinished).1.symm.trans (BoundedQueue.tryPush_eq_some hpush).2.2.1
  | shutdown => exact ⟨rfl, (h hfinished).2⟩
  | pop | drain | stopDraining | publish | await => cases hfinished
  | execute hexecuting call _ =>
    exact absurd hfinished (executeAndPublishBatch_ne_finished hexecuting call)
  | finish _ hclosed hempty => exact ⟨hclosed, hempty⟩
  | _ => exact h hfinished

theorem Step.of_closed (hstep : Step maxSize s event s')
    (h : s.responseQueue.closed = true → s.worker = .finished) :
    s'.responseQueue.closed = true → s'.worker = .finished := by
  intro hclosed
  cases hstep with
  | takeCompletion _ hpop => exact h ((BoundedQueue.tryPop_eq_some hpop).2.2 ▸ hclosed)
  | pop hworker | drain hworker | stopDraining hworker | await hworker =>
    cases hworker.symm.trans (h hclosed)
  | @execute batch hexecuting call _ =>
    rw [(executeAndPublishBatch_frame s batch call).responseQueue_eq] at hclosed
    cases hexecuting.symm.trans (h hclosed)
  | publish _ hpush => cases hclosed.symm.trans (BoundedQueue.tryPush_eq_some hpush).2.2.2
  | finish => rfl
  | _ => exact h hclosed

theorem Step.of_exited (hstep : Step maxSize s event s')
    (h : s.gateway = .exited → s.responseQueue.closed = true ∧ s.responseQueue.items = []) :
    s'.gateway = .exited → s'.responseQueue.closed = true ∧ s'.responseQueue.items = [] := by
  intro hexited
  cases hstep with
  | acquire | enqueue | refuse | takeCompletion | release => cases hexited
  | exit _ _ hclosed hempty => exact ⟨hclosed, hempty⟩
  | @execute batch hexecuting call _ =>
    obtain ⟨-, -, -, hqueue, hgateway, -⟩ := executeAndPublishBatch_frame s batch call
    rw [hqueue]
    exact h (hgateway.symm.trans hexited)
  | publish _ hpush => cases (h hexited).1.symm.trans (BoundedQueue.tryPush_eq_some hpush).2.2.1
  | finish => exact ⟨rfl, (h hexited).2⟩
  | _ => exact h hexited

end Step

section Closing

variable {maxSize : ℕ} {config : ExchangeServerConfig} {responses released : List EngineResponse}
  {s s' : Server} {event : Event}

theorem closing_ofConfig (config : ExchangeServerConfig) (engine : DurableEngine) (f : File) :
    Closing config [] [] (ofConfig config engine f) where
  capacity_eq := rfl
  responses_eq := rfl
  of_finished h := by cases h
  of_closed h := by cases h
  of_exited h := by cases h

theorem Closing.step (h : Closing config responses released s) (hstep : Step maxSize s event s') :
    Closing config (responses ++ event.publishedResponses) (released ++ event.deliveredResponses)
      s' where
  capacity_eq := hstep.responseCapacity_eq.trans h.capacity_eq
  responses_eq := hstep.responses_eq h.responses_eq
  of_finished := hstep.of_finished h.of_finished
  of_closed := hstep.of_closed h.of_closed
  of_exited := hstep.of_exited h.of_exited

theorem Closing.run {start : Server} {events : List Event} (h : Closing config [] [] start)
    (hrun : Run maxSize start events s) :
    Closing config (published events) (delivered events) s := by
  induction hrun with
  | refl => exact h
  | step _ _ hstep ih =>
    rw [published, delivered, List.flatMap_append, List.flatMap_append, List.flatMap_singleton,
      List.flatMap_singleton]
    exact ih.step hstep

/-- There is a reservation for the completion that the worker publishes next, so the response queue
has room for it. -/
theorem Closing.exists_tryPush (h : Closing config responses released s)
    (haccounted : Accounted maxSize config s) {entry : EngineRequest × Option EngineResponse}
    {remaining : List (EngineRequest × Option EngineResponse)}
    (hpublishing : s.worker = .publishing (entry :: remaining)) (response : EngineResponse) :
    ∃ queue, s.responseQueue.tryPush response = some queue := by
  apply BoundedQueue.exists_tryPush_eq_some
  · refine Bool.eq_false_of_not_eq_true fun hclosed => ?_
    cases hpublishing.symm.trans (h.of_closed hclosed)
  · have hle := s.inFlightLimiter.inFlight_le
    rw [haccounted.inFlight_eq, haccounted.capacity_eq, reservations, hpublishing,
      WorkerPhase.held, List.map_cons, List.length_cons] at hle
    rw [h.capacity_eq]
    omega

/-- The gateway only releases a reservation that it holds. -/
theorem Accounted.exists_releaseOne (h : Accounted maxSize config s) (hheld : 0 < s.gateway.held) :
    ∃ limiter, s.inFlightLimiter.releaseOne = some limiter := by
  apply InFlightLimiter.exists_releaseOne_eq_some
  rw [h.inFlight_eq, reservations]
  omega

/-- Neither party calls `std::terminate`. -/
theorem Closing.halted_ne (h : Closing config responses released s)
    (haccounted : Accounted maxSize config s)
    (hanswered : ∀ entry ∈ s.worker.answered, ∃ response, entry.2 = some response)
    (hhalted : s.halted = none) (hstep : Step maxSize s event s') :
    s'.halted ≠ some .terminated := by
  intro hterminated
  cases hstep with
  | releaseNothing hholding hrelease =>
    have hheld : 0 < s.gateway.held := by
      rcases hholding with ⟨request, hgateway, -⟩ | ⟨response, hgateway⟩ <;>
        rw [hgateway] <;> exact Nat.one_pos
    obtain ⟨limiter, hsome⟩ := haccounted.exists_releaseOne hheld
    cases hrelease.symm.trans hsome
  | publishNothing hpublishing hpush =>
    obtain ⟨response, rfl⟩ := hanswered _ (by rw [hpublishing]; exact List.mem_cons_self)
    obtain ⟨queue, hsome⟩ := h.exists_tryPush haccounted hpublishing response
    cases (hpush response rfl).symm.trans hsome
  | @execute batch hexecuting call hcall =>
    have houtcome := executeAndPublishBatch_outcome s batch call
    generalize s.executeAndPublishBatch batch call = s' at houtcome hterminated
    obtain ⟨_, _, _, _, _, _, _, _, _, _, _, _, _, _, _⟩ := s'
    dsimp only at houtcome hterminated
    cases houtcome with
    | outOfRange => cases hterminated
    | mismatch results _ hok hlen => exact hlen (length_results hcall hok)
    | unavailable | answered | failed => cases hhalted.symm.trans hterminated
  | _ => cases hhalted.symm.trans hterminated

end Closing

/-- Any interleaving of the gateway and the worker of a server that was created, on an engine that
was created or recovered. The reservations in use are those of the requests and completions in the
pipeline, and never more than the limit. `publish` never finds its queue full or closed, a release
always finds a reservation, and `std::terminate` is not called. When the gateway has exited, every
admitted request has had its completion taken and released, and no reservation is in use. -/
theorem run_reservations (maxSize : ℕ) (config : ExchangeServerConfig) (engine : DurableEngine)
    (f : File) (gatewayCreated : Bool) (server : Server)
    (hstarted : DurableEngine.Started engine f)
    (hcreate : ExchangeServer.create config (.ok (engine, f)) gatewayCreated = .ok server)
    (events : List Event) (s : Server) (hrun : Run maxSize server events s) :
    s.inFlightLimiter.inFlight = s.gateway.held + s.requestQueue.items.length +
        s.worker.held.length + s.responseQueue.items.length ∧
      s.inFlightLimiter.inFlight ≤ config.maximumInFlight.toNat ∧
      (∀ entry remaining, s.worker = .publishing (entry :: remaining) →
        ∃ response queue, entry.2 = some response ∧
          s.responseQueue.tryPush response = some queue) ∧
      (0 < s.gateway.held → ∃ limiter, s.inFlightLimiter.releaseOne = some limiter) ∧
      s.halted ≠ some .terminated ∧
      (s.gateway = .exited →
        (delivered events).map EngineResponse.ids = (admitted events).map EngineRequest.ids ∧
          delivered events = published events ∧ s.inFlightLimiter.inFlight = 0) := by
  obtain ⟨hpos, rfl, startup, hready⟩ := ExchangeServer.exists_ready_of_create hstarted hcreate
  have haccounted := (accounted_ofConfig maxSize config hpos engine f).run hrun
  have hclosing := (closing_ofConfig config engine f).run hrun
  obtain ⟨completed, executed, refused, hpipelined⟩ := (pipelined_ofConfig config hready).run hrun
  refine ⟨haccounted.inFlight_eq, haccounted.capacity_eq ▸ s.inFlightLimiter.inFlight_le, ?_,
    haccounted.exists_releaseOne, ?_, ?_⟩
  · intro entry remaining hpublishing
    obtain ⟨response, hresponse⟩ := hpipelined.exists_response (by
      rw [hpublishing]; exact List.mem_cons_self)
    obtain ⟨queue, hqueue⟩ := hclosing.exists_tryPush haccounted hpublishing response
    exact ⟨response, queue, hresponse, hqueue⟩
  · cases hrun with
    | refl => exact fun h => nomatch h
    | step hrun hhalted hstep =>
      obtain ⟨_, _, _, hpipelined⟩ := (pipelined_ofConfig config hready).run hrun
      exact ((closing_ofConfig config engine f).run hrun).halted_ne
        ((accounted_ofConfig maxSize config hpos engine f).run hrun)
        (fun _ => hpipelined.exists_response) hhalted hstep
  · intro hexited
    obtain ⟨hclosed, hresponses⟩ := hclosing.of_exited hexited
    have hfinished := hclosing.of_closed hclosed
    obtain ⟨-, hrequests⟩ := hclosing.of_finished hfinished
    have hall := hclosing.responses_eq
    rw [hexited, hresponses, GatewayPhase.taken, List.append_nil, List.append_nil] at hall
    have hadmitted := hpipelined.requests_eq
    rw [hfinished, hrequests, WorkerPhase.held, List.append_nil, List.append_nil] at hadmitted
    refine ⟨?_, hall.symm, ?_⟩
    · rw [← hall, hadmitted]
      exact hpipelined.ids_eq
    · rw [haccounted.inFlight_eq, reservations, hexited, hfinished, hrequests, hresponses]
      rfl

/-- A server on a new journal that is stopped when it has answered a request. -/
theorem run_reservations_answered :
    ∃ server events s, ExchangeServer.create ⟨2, 2, 1⟩
        (.ok (⟨Book.fresh, ⟨some ⟨1⟩, false⟩, .healthy⟩,
          (File.empty.append encodeFileHeader).sync)) true = .ok server ∧
      Run (2 ^ 56) server events s ∧ admitted events = [.cancel ⟨⟨1⟩, ⟨1⟩, ⟨7⟩⟩] ∧
      s.gateway = .exited ∧
      (delivered events).map EngineResponse.ids = [(⟨1⟩, ⟨1⟩)] ∧
      delivered events = published events ∧
      s.inFlightLimiter.inFlight = 0 ∧ s.halted ≠ some .terminated := by
  have hcreate : ExchangeServer.create ⟨2, 2, 1⟩ (.ok (⟨Book.fresh, ⟨some ⟨1⟩, false⟩, .healthy⟩,
      (File.empty.append encodeFileHeader).sync)) true = .ok (ofConfig ⟨2, 2, 1⟩ _ _) := rfl
  have hstart : Run (2 ^ 56) (ofConfig ⟨2, 2, 1⟩ ⟨Book.fresh, ⟨some ⟨1⟩, false⟩, .healthy⟩
      (File.empty.append encodeFileHeader).sync) [] _ := .refl
  have hadmitted := (hstart.step rfl (.acquire (.cancel ⟨⟨1⟩, ⟨1⟩, ⟨7⟩⟩) rfl rfl rfl rfl)).step rfl
    (.enqueue rfl rfl)
  have htaken := (hadmitted.step rfl (.pop rfl rfl (by decide))).step rfl
    (.stopDraining rfl fun h => absurd h (by decide))
  have hpublished := (htaken.step rfl
    (.execute rfl ⟨[.cancelOrder ⟨7⟩], false, none, Outcomes.calm⟩ rfl)).step rfl (.publish rfl rfl)
  have hreleased := (hpublished.step rfl (.takeCompletion rfl rfl)).step rfl (.release rfl rfl)
  have hfinished := ((hreleased.step rfl (.await rfl)).step rfl (.shutdown rfl rfl)).step rfl
    (.finish rfl rfl rfl)
  have hexited := hfinished.step rfl (.exit rfl rfl rfl rfl)
  obtain ⟨-, -, -, -, hhalted, hdrained⟩ :=
    run_reservations (2 ^ 56) ⟨2, 2, 1⟩ _ _ true _ DurableEngine.started_fresh hcreate _ _ hexited
  obtain ⟨hids, hall, hzero⟩ := hdrained rfl
  exact ⟨_, _, _, hcreate, hexited, rfl, rfl, hids, hall, hzero, hhalted⟩

end Server

end MatchingEngine
