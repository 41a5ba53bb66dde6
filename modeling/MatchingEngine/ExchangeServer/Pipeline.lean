import MatchingEngine.DurableEngine.Run
import MatchingEngine.ExchangeServer.Accounting

/-!
# The pipeline of the exchange server

What the interleavings of the gateway and the worker come to. However the requests are cut into
batches, the server answers them in the order of their admission, as if it executed one after the
other on the book it started with, until a batch fails; from then on every answer is that the engine
is unavailable.

## Main definitions

* `Server.admitted`, `Server.published`: what a run shows of the two ends of the pipeline.
* `Server.answers`: the answers of a server that executes some requests one by one and refuses the
  others.
* `Server.Pipelined`: the pipeline between the two ends.

## Main results

* `Server.Pipelined.step`, `Server.Pipelined.run`.
* `Server.run_pipeline`: the completions of every run, and what is in the journal for them.
-/

namespace MatchingEngine

open Posix

/-- A server that was created on a started engine has an engine that is ready. -/
theorem ExchangeServer.exists_ready_of_create {config : ExchangeServerConfig}
    {engine : DurableEngine} {f : File} {gatewayCreated : Bool} {server : Server}
    (hstarted : DurableEngine.Started engine f)
    (hcreate : create config (.ok (engine, f)) gatewayCreated = .ok server) :
    0 < config.maxDurableBatchSize.toNat ∧ server = Server.ofConfig config engine f ∧
      ∃ startup, engine.Ready f startup := by
  obtain ⟨-, -, hpos, _, _, hengine, rfl⟩ := create_eq_ok hcreate
  cases hengine
  exact ⟨hpos, rfl, hstarted.ready⟩

theorem ids_unavailableResponse (request : EngineRequest) :
    (unavailableResponse request).ids = request.ids := rfl

theorem ids_of_summarize {request : EngineRequest} {result : BatchCommandResult}
    {response : EngineResponse} (h : summarize request result = some response) :
    response.ids = request.ids := by
  cases request <;> cases result <;> cases h <;> rfl

/-- The requests of a batch that has been executed, with their answers. -/
def WorkerPhase.answered : WorkerPhase → List (EngineRequest × Option EngineResponse)
  | .waiting => []
  | .draining _ => []
  | .executing _ => []
  | .publishing remaining => remaining
  | .finished => []

theorem WorkerPhase.exists_held_eq (worker : WorkerPhase) :
    ∃ rest, worker.held = worker.answered.map Prod.fst ++ rest := by
  cases worker with
  | publishing remaining => exact ⟨[], (List.append_nil _).symm⟩
  | waiting | draining | executing | finished => exact ⟨_, rfl⟩

namespace Server

/-! ### The two ends -/

def Event.admittedRequests : Event → List EngineRequest
  | .admitted request => [request]
  | .called _ => []
  | .published _ => []
  | .delivered _ => []
  | .internal => []

def Event.publishedResponses : Event → List EngineResponse
  | .admitted _ => []
  | .called _ => []
  | .published response => [response]
  | .delivered _ => []
  | .internal => []

/-- The requests that were pushed on the request queue, in order. -/
def admitted (events : List Event) : List EngineRequest := events.flatMap Event.admittedRequests

/-- The completions that were pushed on the response queue, in order. -/
def published (events : List Event) : List EngineResponse :=
  events.flatMap Event.publishedResponses

/-- The answers of a server that executes the first requests, one after the other, and refuses the
rest. -/
def answers (book : Book) (executed refused : List EngineRequest) : List (Option EngineResponse) :=
  List.zipWith summarize executed (book.run (executed.map toJournalCommand)).1 ++
    refused.map fun request => some (unavailableResponse request)

section Answers

variable {book : Book} {executed refused : List EngineRequest}

theorem length_run (book : Book) (requests : List EngineRequest) :
    (book.run (requests.map toJournalCommand)).1.length = requests.length := by
  rw [Book.run, length_runAll, List.length_map]

/-- An engine that answers a batch answers each of its requests. -/
theorem length_results {s : DurableEngine × File} {batch : List EngineRequest}
    {call : DurableEngine.Call} (hcall : call.batch = batch.map toJournalCommand)
    {results : List BatchCommandResult} (hok : (DurableEngine.execute s call).1 = .ok results) :
    results.length = batch.length := by
  rw [DurableEngine.results_eq hok, hcall, length_run]

theorem length_answers : (answers book executed refused).length =
    executed.length + refused.length := by
  rw [answers, List.length_append, List.length_zipWith, length_run, Nat.min_self, List.length_map]

theorem answers_append_refused (batch : List EngineRequest) :
    answers book executed (refused ++ batch) = answers book executed refused ++
      batch.map fun request => some (unavailableResponse request) := by
  rw [answers, answers, List.map_append, List.append_assoc]

/-- A batch is answered as its requests are, one by one. -/
theorem answers_append_executed (batch : List EngineRequest) :
    answers book (executed ++ batch) [] = answers book executed [] ++
      List.zipWith summarize batch
        ((book.run (executed.map toJournalCommand)).2.run (batch.map toJournalCommand)).1 := by
  rw [answers, answers, List.map_nil, List.append_nil, List.append_nil, List.map_append,
    Book.results_append, List.zipWith_append (length_run book executed).symm]

/-- An answer is the result of a request that was executed, or that of one that was refused. -/
theorem of_answers_eq_some {i : ℕ} {response : EngineResponse}
    (h : (answers book executed refused)[i]? = some (some response)) :
    ∃ request, (executed ++ refused)[i]? = some request ∧
      ((i < executed.length ∧ ∃ result,
          (book.run (executed.map toJournalCommand)).1[i]? = some result ∧
          summarize request result = some response) ∨
        response = unavailableResponse request) := by
  have hlength : (List.zipWith summarize executed
      (book.run (executed.map toJournalCommand)).1).length = executed.length := by
    rw [List.length_zipWith, length_run, Nat.min_self]
  rw [answers] at h
  by_cases hi : i < executed.length
  · rw [List.getElem?_append_left (hlength ▸ hi), List.getElem?_zipWith_eq_some] at h
    obtain ⟨request, result, hrequest, hresult, hresponse⟩ := h
    refine ⟨request, ?_, Or.inl ⟨hi, result, hresult, hresponse⟩⟩
    rw [List.getElem?_append_left hi, hrequest]
  · rw [List.getElem?_append_right (by omega), List.getElem?_map, Option.map_eq_some_iff] at h
    obtain ⟨request, hrequest, hresponse⟩ := h
    refine ⟨request, ?_, Or.inr (Option.some.inj hresponse).symm⟩
    rw [List.getElem?_append_right (by omega), ← hrequest, hlength]

end Answers

/-! ### The pipeline -/

/-- A step moves a request from the queue to the worker, and from there to the completed ones. -/
theorem Step.requests_eq {maxSize : ℕ} {s s' : Server} {event : Event}
    (hstep : Step maxSize s event s') {requests completed : List EngineRequest}
    (h : requests = completed ++ s.worker.held ++ s.requestQueue.items) :
    requests ++ event.admittedRequests =
      completed ++ (s.worker.answered.map Prod.fst).take event.publishedResponses.length ++
        s'.worker.held ++ s'.requestQueue.items := by
  cases hstep with
  | publish hpublishing hpush =>
    rw [hpublishing, WorkerPhase.held, List.map_cons] at h
    rw [h, hpublishing, WorkerPhase.answered, List.map_cons, WorkerPhase.held,
      Event.admittedRequests, Event.publishedResponses, List.append_nil, List.length_singleton,
      List.take_succ_cons, List.take_zero, List.append_assoc completed [_], List.singleton_append]
  | enqueue hadmitting hpush =>
    rw [h, (BoundedQueue.tryPush_eq_some hpush).1, Event.publishedResponses, List.length_nil,
      List.take_zero, List.append_nil, ← List.append_assoc]
    rfl
  | pop hworker hpop =>
    rw [hworker, (BoundedQueue.tryPop_eq_some hpop).1] at h
    rw [h, Event.admittedRequests, Event.publishedResponses, List.length_nil, List.take_zero,
      List.append_nil, List.append_nil, WorkerPhase.held, WorkerPhase.held, List.append_nil,
      List.append_assoc, List.singleton_append]
  | drain hworker _ hpop =>
    rw [hworker, (BoundedQueue.tryPop_eq_some hpop).1] at h
    rw [h, Event.admittedRequests, Event.publishedResponses, List.length_nil, List.take_zero,
      List.append_nil, List.append_nil, WorkerPhase.held, WorkerPhase.held,
      ← List.append_assoc completed, List.append_assoc _ [_], List.singleton_append]
  | stopDraining hworker | await hworker | finish hworker =>
    rw [hworker] at h
    rw [h, Event.admittedRequests, Event.publishedResponses, List.length_nil, List.take_zero,
      List.append_nil, List.append_nil]
    rfl
  | @execute batch hexecuting call _ =>
    rw [h, Event.admittedRequests, Event.publishedResponses, List.length_nil, List.take_zero,
      List.append_nil, List.append_nil, (executeAndPublishBatch_frame s batch call).requestQueue_eq,
      held_executeAndPublishBatch s batch call hexecuting, hexecuting, WorkerPhase.held]
  | _ =>
    rw [Event.admittedRequests, Event.publishedResponses, List.length_nil, List.take_zero,
      List.append_nil, List.append_nil]
    exact h

/-- The admitted requests are completed, with the worker, or in the queue. Those that are completed,
and those of a batch that is being answered, were executed one by one or refused. The journal of the
engine holds the startup records and the executed requests. -/
structure Pipelined (startup : List JournalCommand) (requests : List EngineRequest)
    (responses : List EngineResponse) (s : Server)
    (completed executed refused : List EngineRequest) : Prop where
  requests_eq : requests = completed ++ s.worker.held ++ s.requestQueue.items
  answered_eq : completed ++ s.worker.answered.map Prod.fst = executed ++ refused
  responses_eq : responses.map some ++ s.worker.answered.map Prod.snd =
    answers (Book.fresh.run startup).2 executed refused
  ready : s.failed = false →
    refused = [] ∧ s.engine.Ready s.file (startup ++ executed.map toJournalCommand)
  synced : executed = [] ∨
    journal (startup ++ executed.map toJournalCommand) <+: s.file.bytes.take s.file.synced

section Pipelined

variable {maxSize : ℕ} {startup : List JournalCommand} {requests : List EngineRequest}
  {responses : List EngineResponse} {s s' : Server} {event : Event}
  {completed executed refused : List EngineRequest}

/-- A batch that is answered with `EngineUnavailable` throughout. -/
theorem Pipelined.refuse (h : Pipelined startup requests responses s completed executed refused)
    {batch : List EngineRequest} (hexecuting : s.worker = .executing batch)
    (hqueue : s'.requestQueue = s.requestQueue)
    (hworker : s'.worker =
      .publishing (batch.map fun request => (request, some (unavailableResponse request))))
    (hfailed : s'.failed = true)
    (hsynced : s.file.bytes.take s.file.synced <+: s'.file.bytes.take s'.file.synced) :
    Pipelined startup requests responses s' completed executed (refused ++ batch) := by
  obtain ⟨hrequests, hanswered, hresponses, -, hdurable⟩ := h
  rw [hexecuting, WorkerPhase.answered, List.map_nil, List.append_nil] at hanswered hresponses
  refine ⟨?_, ?_, ?_, fun hhealthy => ?_, hdurable.imp_right fun h => h.trans hsynced⟩
  · rw [hrequests, hexecuting, hqueue, hworker, WorkerPhase.held_unavailable, WorkerPhase.held]
  · rw [hworker, WorkerPhase.answered, List.map_map, hanswered, List.append_assoc]
    exact congrArg (fun l => executed ++ (refused ++ l)) (List.map_id batch)
  · rw [hworker, WorkerPhase.answered, List.map_map, hresponses, answers_append_refused]
    rfl
  · cases hfailed.symm.trans hhealthy

/-- A batch that was executed: its requests are answered as they are one by one. -/
theorem Pipelined.execute (h : Pipelined startup requests responses s completed executed [])
    {batch : List EngineRequest} (hexecuting : s.worker = .executing batch)
    (hready : s.engine.Ready s.file (startup ++ executed.map toJournalCommand))
    (hqueue : s'.requestQueue = s.requestQueue)
    (hworker : s'.worker = .publishing (batch.zip (List.zipWith summarize batch
      (s.engine.orderBook.run (batch.map toJournalCommand)).1)))
    (hready' : s'.engine.Ready s'.file
      (startup ++ executed.map toJournalCommand ++ batch.map toJournalCommand))
    (hsynced : s'.file.synced = s'.file.bytes.length) :
    Pipelined startup requests responses s' completed (executed ++ batch) [] := by
  obtain ⟨hrequests, hanswered, hresponses, -, -⟩ := h
  rw [hexecuting, WorkerPhase.answered, List.map_nil, List.append_nil] at hanswered hresponses
  rw [List.append_assoc, ← List.map_append] at hready'
  have hlength : batch.length = (List.zipWith summarize batch
      (s.engine.orderBook.run (batch.map toJournalCommand)).1).length := by
    rw [List.length_zipWith, length_run, Nat.min_self]
  refine ⟨?_, ?_, ?_, fun _ => ⟨rfl, hready'⟩, Or.inr ?_⟩
  · rw [hrequests, hexecuting, hqueue, hworker, WorkerPhase.held, WorkerPhase.held,
      List.map_fst_zip hlength.le]
  · rw [hworker, WorkerPhase.answered, List.map_fst_zip hlength.le, hanswered, List.append_nil,
      List.append_nil]
  · rw [hworker, WorkerPhase.answered, List.map_snd_zip hlength.ge, hresponses,
      answers_append_executed, hready.orderBook_eq, Book.run_append]
  · rw [hsynced, List.take_length, hready'.on.bytes_eq]

/-- A worker that has failed executes nothing more. -/
theorem Pipelined.executeAndPublishBatch
    (h : Pipelined startup requests responses s completed executed refused)
    {batch : List EngineRequest} (hexecuting : s.worker = .executing batch)
    {call : DurableEngine.Call} (hcall : call.batch = batch.map toJournalCommand) :
    ∃ executed' refused', Pipelined startup requests responses
      (s.executeAndPublishBatch batch call) completed executed' refused' ∧
        (s.failed = true → executed' = executed) := by
  have hqueue := (executeAndPublishBatch_frame s batch call).requestQueue_eq
  have houtcome := executeAndPublishBatch_outcome s batch call
  generalize s.executeAndPublishBatch batch call = s' at hqueue houtcome ⊢
  obtain ⟨_, _, _, _, _, _, _, _, _, _, _, _, _, _, _⟩ := s'
  dsimp only at hqueue houtcome
  cases houtcome with
  | outOfRange =>
    refine ⟨executed, refused, ⟨?_, h.answered_eq, h.responses_eq, h.ready, h.synced⟩, fun _ => rfl⟩
    rw [hqueue]
    exact h.requests_eq
  | unavailable hfailed =>
    exact ⟨executed, refused ++ batch,
      h.refuse hexecuting hqueue rfl hfailed (List.prefix_refl _), fun _ => rfl⟩
  | answered results hfailed hok hlen =>
    obtain ⟨rfl, hready⟩ := h.ready hfailed
    obtain ⟨rfl, hready', hsynced'⟩ := DurableEngine.execute_ok hready hok
    rw [hcall] at hready' ⊢
    refine ⟨executed ++ batch, [], h.execute hexecuting hready hqueue rfl hready' hsynced', ?_⟩
    intro htrue
    cases hfailed.symm.trans htrue
  | mismatch results hfailed hok hlen => exact absurd (length_results hcall hok) hlen
  | failed e hfailed herror =>
    exact ⟨executed, refused ++ batch, h.refuse hexecuting hqueue rfl rfl
      (DurableEngine.synced_prefix_execute (h.ready hfailed).2 call), fun _ => rfl⟩

theorem Pipelined.step (h : Pipelined startup requests responses s completed executed refused)
    (hstep : Step maxSize s event s') :
    ∃ completed' executed' refused', Pipelined startup (requests ++ event.admittedRequests)
      (responses ++ event.publishedResponses) s' completed' executed' refused' ∧
        (s.failed = true → executed' = executed) := by
  have hrequests := hstep.requests_eq h.requests_eq
  have hanswered := h.answered_eq
  have hresponses := h.responses_eq
  cases hstep with
  | acquire | enqueue | refuse | takeCompletion | release | releaseNothing | shutdown | exit
  | publishNothing =>
    rw [Event.publishedResponses, List.length_nil, List.take_zero, List.append_nil] at hrequests
    rw [Event.publishedResponses, List.append_nil]
    exact ⟨completed, executed, refused, ⟨hrequests, hanswered, hresponses, h.ready, h.synced⟩,
      fun _ => rfl⟩
  | pop hworker | drain hworker | stopDraining hworker | await hworker | finish hworker =>
    rw [Event.publishedResponses, List.length_nil, List.take_zero, List.append_nil] at hrequests
    rw [Event.publishedResponses, List.append_nil]
    rw [hworker] at hanswered hresponses
    exact ⟨completed, executed, refused, ⟨hrequests, hanswered, hresponses, h.ready, h.synced⟩,
      fun _ => rfl⟩
  | execute hexecuting call hcall =>
    rw [Event.admittedRequests, Event.publishedResponses, List.append_nil, List.append_nil]
    exact ⟨completed, h.executeAndPublishBatch hexecuting hcall⟩
  | @publish request response remaining _ hpublishing hpush =>
    rw [hpublishing, WorkerPhase.answered, List.map_cons] at hrequests hanswered hresponses
    refine ⟨completed ++ [request], executed, refused, ⟨hrequests, ?_, ?_, h.ready, h.synced⟩,
      fun _ => rfl⟩
    · rw [WorkerPhase.answered, List.append_assoc, List.singleton_append, hanswered]
    · rw [Event.publishedResponses, WorkerPhase.answered, List.map_append, List.map_singleton,
        List.append_assoc, List.singleton_append, hresponses]

theorem pipelined_ofConfig (config : ExchangeServerConfig) {engine : DurableEngine} {f : File}
    (h : engine.Ready f startup) : Pipelined startup [] [] (ofConfig config engine f) [] [] [] where
  requests_eq := rfl
  answered_eq := rfl
  responses_eq := rfl
  ready _ := ⟨rfl, (List.append_nil startup).symm ▸ h⟩
  synced := Or.inl rfl

theorem Pipelined.run {start : Server} {events : List Event}
    (h : Pipelined startup [] [] start [] [] []) (hrun : Run maxSize start events s) :
    ∃ completed executed refused,
      Pipelined startup (admitted events) (published events) s completed executed refused := by
  induction hrun with
  | refl => exact ⟨[], [], [], h⟩
  | step _ _ hstep ih =>
    obtain ⟨_, _, _, hs⟩ := ih
    obtain ⟨completed, executed, refused, hs', -⟩ := hs.step hstep
    rw [admitted, published, List.flatMap_append, List.flatMap_append, List.flatMap_singleton,
      List.flatMap_singleton]
    exact ⟨completed, executed, refused, hs'⟩

/-- Each completion answers one request. -/
theorem Pipelined.length_eq
    (h : Pipelined startup requests responses s completed executed refused) :
    responses.length = completed.length := by
  have hanswered := congrArg List.length h.answered_eq
  have hresponses := congrArg List.length h.responses_eq
  simp only [List.length_append, List.length_map, length_answers] at hanswered hresponses
  omega

theorem Pipelined.exists_requests_eq
    (h : Pipelined startup requests responses s completed executed refused) :
    ∃ rest, requests = executed ++ refused ++ rest := by
  obtain ⟨rest, hheld⟩ := s.worker.exists_held_eq
  refine ⟨rest ++ s.requestQueue.items, ?_⟩
  rw [h.requests_eq, hheld, ← h.answered_eq]
  simp only [List.append_assoc]

theorem Pipelined.of_response
    (h : Pipelined startup requests responses s completed executed refused) {i : ℕ}
    {response : EngineResponse} (hi : responses[i]? = some response) :
    ∃ request, (executed ++ refused)[i]? = some request ∧
      ((i < executed.length ∧ ∃ result,
          ((Book.fresh.run startup).2.run (executed.map toJournalCommand)).1[i]? = some result ∧
          summarize request result = some response) ∨
        response = unavailableResponse request) := by
  apply of_answers_eq_some
  rw [← h.responses_eq, List.getElem?_append_left, List.getElem?_map, hi]
  · rfl
  · rw [List.length_map]
    exact (List.getElem?_eq_some_iff.mp hi).1

/-- The completions name the connections and the numbers of the completed requests, in order. -/
theorem Pipelined.ids_eq (h : Pipelined startup requests responses s completed executed refused) :
    responses.map EngineResponse.ids = completed.map EngineRequest.ids := by
  apply List.ext_getElem?
  intro i
  rw [List.getElem?_map, List.getElem?_map]
  by_cases hi : i < responses.length
  · have hresponse := List.getElem?_eq_getElem hi
    obtain ⟨request, hrequest, hanswer⟩ := h.of_response hresponse
    rw [← h.answered_eq, List.getElem?_append_left (h.length_eq ▸ hi)] at hrequest
    rw [hresponse, hrequest, Option.map_some, Option.map_some, Option.some.injEq]
    rcases hanswer with ⟨-, result, -, hsummarize⟩ | hunavailable
    · exact ids_of_summarize hsummarize
    · rw [hunavailable, ids_unavailableResponse]
  · rw [List.getElem?_eq_none (Nat.le_of_not_lt hi),
      List.getElem?_eq_none (h.length_eq ▸ Nat.le_of_not_lt hi)]
    rfl

/-- A completion that is not `EngineUnavailable` is the result of its request in the sequential
execution of all of them, and the command is durable at its position. -/
theorem Pipelined.of_available
    (h : Pipelined startup requests responses s completed executed refused) {i : ℕ}
    {response : EngineResponse} (hi : responses[i]? = some response)
    (havailable : response.isUnavailable = false) :
    ∃ request result, requests[i]? = some request ∧
      ((Book.fresh.run startup).2.run (requests.map toJournalCommand)).1[i]? = some result ∧
      summarize request result = some response ∧
      journal (startup ++ (requests.take (i + 1)).map toJournalCommand) <+:
        s.file.bytes.take s.file.synced := by
  obtain ⟨request, hrequest, ⟨hlt, result, hresult, hsummarize⟩ | rfl⟩ := h.of_response hi
  · obtain ⟨rest, rfl⟩ := h.exists_requests_eq
    refine ⟨request, result, ?_, ?_, hsummarize, ?_⟩
    · rw [List.getElem?_append_left (List.getElem?_eq_some_iff.mp hrequest).1, hrequest]
    · rw [List.append_assoc, List.map_append, Book.results_append,
        List.getElem?_append_left (by rw [length_run]; exact hlt), hresult]
    · have hsynced := h.synced.resolve_left (List.ne_nil_of_length_pos (Nat.zero_lt_of_lt hlt))
      refine List.IsPrefix.trans ?_ hsynced
      rw [List.append_assoc, List.take_append_of_le_length hlt]
      conv_rhs => rw [← List.take_append_drop (i + 1) executed, List.map_append,
        ← List.append_assoc, journal_append]
      exact List.prefix_append _ _
  · cases havailable

end Pipelined

/-- Any interleaving of the gateway and the worker, on an engine that was created or recovered. The
completions are those of the requests admitted first, in order. A completion that is not
`EngineUnavailable` is the result of its request if all admitted requests are executed one by one on
the book of the engine at the start, and its command is synced in the journal, in its place behind
the records of the start. -/
theorem run_pipeline (maxSize : ℕ) (config : ExchangeServerConfig) (engine : DurableEngine)
    (f : File) (gatewayCreated : Bool) (server : Server)
    (hstarted : DurableEngine.Started engine f)
    (hcreate : ExchangeServer.create config (.ok (engine, f)) gatewayCreated = .ok server) :
    ∃ startup : List JournalCommand, f.bytes = journal startup ∧
      ∀ events s, Run maxSize server events s →
        (∃ completed rest, admitted events = completed ++ rest ∧
          (published events).map EngineResponse.ids = completed.map EngineRequest.ids) ∧
        ∀ i response, (published events)[i]? = some response → response.isUnavailable = false →
          ∃ request result, (admitted events)[i]? = some request ∧
            (engine.orderBook.run ((admitted events).map toJournalCommand)).1[i]? = some result ∧
            summarize request result = some response ∧
            journal (startup ++ ((admitted events).take (i + 1)).map toJournalCommand) <+:
              s.file.bytes.take s.file.synced := by
  obtain ⟨-, rfl, startup, hready⟩ := ExchangeServer.exists_ready_of_create hstarted hcreate
  refine ⟨startup, hready.on.bytes_eq, fun events s hrun => ?_⟩
  obtain ⟨completed, executed, refused, hs⟩ := (pipelined_ofConfig config hready).run hrun
  refine ⟨⟨completed, s.worker.held ++ s.requestQueue.items, ?_, hs.ids_eq⟩, ?_⟩
  · rw [hs.requests_eq, List.append_assoc]
  · intro i response hi havailable
    rw [hready.orderBook_eq]
    exact hs.of_available hi havailable

/-- A server on a new journal that has answered its first request, an order that rests. -/
theorem run_pipeline_answered :
    ∃ server events s, ExchangeServer.create ⟨2, 2, 1⟩
        (.ok (⟨Book.fresh, ⟨some ⟨1⟩, false⟩, .healthy⟩,
          (File.empty.append encodeFileHeader).sync)) true = .ok server ∧
      Run (2 ^ 56) server events s ∧
      published events = [.submit ⟨⟨1⟩, ⟨1⟩, .accepted, .none, ⟨0⟩, ⟨5⟩⟩] ∧
      ∃ startup request result, (File.empty.append encodeFileHeader).sync.bytes = journal startup ∧
        admitted events = [request] ∧
        (Book.fresh.run [toJournalCommand request]).1[0]? = some result ∧
        summarize request result = some (.submit ⟨⟨1⟩, ⟨1⟩, .accepted, .none, ⟨0⟩, ⟨5⟩⟩) ∧
        journal (startup ++ [toJournalCommand request]) <+: s.file.bytes.take s.file.synced := by
  have hcreate : ExchangeServer.create ⟨2, 2, 1⟩ (.ok (⟨Book.fresh, ⟨some ⟨1⟩, false⟩, .healthy⟩,
      (File.empty.append encodeFileHeader).sync)) true = .ok (ofConfig ⟨2, 2, 1⟩ _ _) := rfl
  have hstart : Run (2 ^ 56) (ofConfig ⟨2, 2, 1⟩ ⟨Book.fresh, ⟨some ⟨1⟩, false⟩, .healthy⟩
      (File.empty.append encodeFileHeader).sync) [] _ := .refl
  have hadmitted := (hstart.step rfl
    (.acquire (.submit ⟨⟨1⟩, ⟨1⟩, ⟨7⟩, .buy, ⟨10⟩, ⟨5⟩⟩) rfl rfl rfl rfl)).step rfl
      (.enqueue rfl rfl)
  have htaken := (hadmitted.step rfl (.pop rfl rfl (by decide))).step rfl
    (.stopDraining rfl fun h => absurd h (by decide))
  have hpublished := (htaken.step rfl (.execute rfl
    ⟨[.submitLimitOrder ⟨⟨7⟩, .buy, ⟨10⟩, ⟨5⟩⟩], false, none, Outcomes.calm⟩ rfl)).step rfl
      (.publish rfl rfl)
  obtain ⟨startup, hbytes, hpipeline⟩ :=
    run_pipeline (2 ^ 56) ⟨2, 2, 1⟩ _ _ true _ DurableEngine.started_fresh hcreate
  obtain ⟨request, result, hrequest, hresult, hsummarize, hsynced⟩ :=
    (hpipeline _ _ hpublished).2 0 _ rfl rfl
  cases hrequest
  exact ⟨_, _, _, hcreate, hpublished, rfl, startup, _, result, hbytes, rfl, hresult, hsummarize,
    hsynced⟩

end Server

end MatchingEngine
