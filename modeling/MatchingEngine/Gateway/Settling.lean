import MatchingEngine.Data.Inevitable
import MatchingEngine.ExchangeServer.FailStop
import MatchingEngine.ExchangeServer.Histogram
import MatchingEngine.Gateway.Measure
import MatchingEngine.Gateway.Wakeups

/-!
# Every run settles

Left to themselves, the threads of a server come to rest: there is no endless run without an input,
and no run stops in the middle. Every request that was received is admitted or dropped, every
admitted request is completed, and every completion is delivered. Then the gateway waits in `poll`
for its clients, and reads are not paused. If the server was asked to stop, or its engine has
failed, `run` returns and the worker has finished. This is about runs without a C++ exception, of a
server whose histogram has a place for every batch.

## Main definitions

* `EventLoop.Quiet`, `EventLoop.Returned`: the states in which the threads rest.

## Main results

* `Server.Run.halted_eq_none`: neither party halts, if the histogram is large enough.
* `Server.Closing.exists_work`, `EventLoop.exists_step_of_stage`, `EventLoop.exists_step_of_worker`:
  where a thread can go on.
* `EventLoop.run_settles`.
-/

namespace MatchingEngine

namespace Server

/-! ### The worker -/

section Worker

variable {maxSize : ℕ} {config : ExchangeServerConfig} {startup : List JournalCommand}
  {requests completed executed refused : List EngineRequest}
  {responses released : List EngineResponse} {s s' : Server} {event : Event}

/-- The worker waits for a request, or has finished. Else it can go on. -/
theorem Closing.exists_work (hclosing : Closing config responses released s)
    (haccounted : Accounted maxSize config s)
    (hpipelined : Pipelined startup requests responses s completed executed refused)
    (hreserve : config.maxDurableBatchSize.toNat ≤ maxSize) (hworker : s.worker ≠ .finished)
    (hwaiting : s.worker = .waiting → s.requestQueue.items = [] → s.requestQueue.closed = true) :
    ∃ event s', Step maxSize s event s' ∧ s'.gateway = s.gateway ∧
      s'.shutdownStarted = s.shutdownStarted := by
  cases hphase : s.worker with
  | waiting =>
    cases hitems : s.requestQueue.items with
    | nil => exact ⟨_, _, .finish hphase (hwaiting hphase hitems) hitems, rfl, rfl⟩
    | cons request rest =>
      obtain ⟨queue, hpop⟩ := BoundedQueue.exists_tryPop_eq_some hitems
      exact ⟨_, _, .pop hphase hpop (haccounted.config_eq.symm ▸ hreserve), rfl, rfl⟩
  | draining batch =>
    by_cases hlt : batch.length < s.config.maxDurableBatchSize.toNat
    · cases hpop : s.requestQueue.tryPop with
      | none => exact ⟨_, _, .stopDraining hphase fun _ => hpop, rfl, rfl⟩
      | some popped => exact ⟨_, _, .drain hphase hlt hpop, rfl, rfl⟩
    · exact ⟨_, _, .stopDraining hphase fun hlt' => absurd hlt' hlt, rfl, rfl⟩
  | executing batch =>
    exact ⟨_, _, .execute hphase ⟨batch.map toJournalCommand, false, none, Posix.Outcomes.calm⟩ rfl,
      (executeAndPublishBatch_frame s batch _).gateway_eq,
      executeAndPublishBatch_shutdownStarted ..⟩
  | publishing remaining =>
    cases remaining with
    | nil => exact ⟨_, _, .await hphase, rfl, rfl⟩
    | cons entry remaining =>
      obtain ⟨request, answer⟩ := entry
      obtain ⟨response, rfl⟩ := hpipelined.exists_response (by
        rw [hphase]; exact List.mem_cons_self)
      obtain ⟨queue, hpush⟩ := hclosing.exists_tryPush haccounted hphase response
      exact ⟨_, _, .publish hphase hpush, rfl, rfl⟩
  | finished => exact absurd hphase hworker

end Worker

end Server

namespace EventLoop

/-! ### The end of the loop -/

/-- What `shutdown_complete` has seen. -/
inductive Ending (s : Server) : Stage → Prop
  | running {stage : Stage} (hchecking : stage ≠ .checkEmpty)
      (hflushing : ∀ descriptors, stage ≠ .flushOutputs descriptors) : Ending s stage
  | checking (hdown : s.shutdownStarted = true) (hclosed : s.responseQueue.closed = true) :
      Ending s .checkEmpty
  | flushing (descriptors : List ℕ) (hdown : s.shutdownStarted = true)
      (hclosed : s.responseQueue.closed = true) (hempty : s.responseQueue.items = []) :
      Ending s (.flushOutputs descriptors)

section Ending

variable {maxSize : ℕ} {config : ExchangeServerConfig} {released responses : List EngineResponse}
  {s s' : Server} {stage : Stage} {l l' : EventLoop} {new : List Exchange.Event}

theorem Ending.of_next (next : Continuation) : Ending s next.stage := by
  cases next <;> exact .running Stage.noConfusion fun _ => Stage.noConfusion

theorem Ending.of_admits (hstage : stage.Admits) : Ending s stage := by
  cases stage with
  | drainPending | receive => exact .running Stage.noConfusion fun _ => Stage.noConfusion
  | _ => cases hstage

theorem Ending.of_refused (hstage : stage.Admits) : Ending s stage.refused := by
  cases stage with
  | drainPending next => exact .of_next next
  | receive => exact .of_admits hstage
  | _ => cases hstage

theorem Ending.of_woken (clients : Option (List (ℕ × PollEvents))) :
    Ending s (Stage.woken clients) := by
  cases clients <;> exact .running Stage.noConfusion fun _ => Stage.noConfusion

/-- A worker that has finished does nothing to the response queue. -/
theorem responseQueue_of_finished {event : Server.Event} (hstep : Server.Step maxSize s event s')
    (hgateway : s'.gateway = s.gateway) (hfinished : s.worker = .finished) :
    s'.responseQueue = s.responseQueue := by
  cases hstep with
  | takeCompletion hidle => cases hgateway.trans hidle
  | execute hexecuting => cases hexecuting.symm.trans hfinished
  | publish hworker | finish hworker => cases hworker.symm.trans hfinished
  | _ => rfl

theorem Ending.work {event : Server.Event} (h : Ending s stage)
    (hclosing : Server.Closing config responses released s)
    (hstep : Server.Step maxSize s event s') (hgateway : s'.gateway = s.gateway)
    (hshutdown : s'.shutdownStarted = s.shutdownStarted) : Ending s' stage := by
  cases h with
  | running hchecking hflushing => exact .running hchecking hflushing
  | checking hdown hclosed =>
    have hqueue := responseQueue_of_finished hstep hgateway (hclosing.of_closed hclosed)
    exact .checking (hshutdown.trans hdown) (hqueue ▸ hclosed)
  | flushing descriptors hdown hclosed hempty =>
    have hqueue := responseQueue_of_finished hstep hgateway (hclosing.of_closed hclosed)
    exact .flushing descriptors (hshutdown.trans hdown) (hqueue ▸ hclosed) (hqueue ▸ hempty)

theorem Ending.step (h : Ending l.server l.stage)
    (hclosing : Server.Closing config responses released l.server)
    (hstep : Step maxSize l new l') : Ending l'.server l'.stage := by
  cases hstep with
  | work _ hstep hgateway hshutdown => exact h.work hclosing hstep hgateway hshutdown
  | workerStops | workerWakes | callerWakes | readWakeup => exact h
  | takeCompletion hstage | deliver hstage | startDraining hstage | skip hstage
  | finishReceiving hstage =>
    dsimp only
    rw [hstage]
    exact .running Stage.noConfusion fun _ => Stage.noConfusion
  | leavePending | pendingDrained => exact .of_next _
  | acquire hstage | enqueue hstage => exact .of_admits hstage
  | refuse hstage | reject hstage => exact .of_refused hstage
  | wakeItself => exact .of_woken _
  | closed _ hdown hclosed => exact .checking hdown hclosed
  | complete hstage hempty =>
    rw [hstage] at h
    cases h with
    | running hchecking => exact absurd rfl hchecking
    | checking hdown hclosed => exact .flushing _ hdown hclosed hempty
  | flushLast _ hstage | nothingLeft hstage =>
    rw [hstage] at h
    cases h with
    | running _ hflushing => exact absurd rfl (hflushing _)
    | flushing _ hdown hclosed hempty => exact .flushing _ hdown hclosed hempty
  | _ => exact .running Stage.noConfusion fun _ => Stage.noConfusion

theorem Ending.input (h : Ending l.server l.stage) (hinput : Input l new l') :
    Ending l'.server l'.stage := by
  cases hinput with
  | requestStop | accept | receive => exact h
  | report =>
    dsimp only
    split <;> exact .running Stage.noConfusion fun _ => Stage.noConfusion
  | interrupted | pollFailed => exact .running Stage.noConfusion fun _ => Stage.noConfusion

end Ending

/-! ### The threads -/

section Progress

variable {maxSize : ℕ} {config : ExchangeServerConfig} {l : EventLoop}

/-- One of the threads goes on. -/
def Proceeds (maxSize : ℕ) (l l' : EventLoop) : Prop := ∃ new, Step maxSize l new l'

/-- `admit` goes on. -/
theorem exists_step_of_admits (hstage : l.stage.Admits) (hidle : l.server.gateway = .idle)
    {request : EngineRequest} (hcandidate : l.gateway.candidate = some request) :
    ∃ l', Proceeds maxSize l l' := by
  by_cases hrejects : l.server.shutdownStarted = true ∨ l.server.engineFailed = true ∨
      l.server.inFlightLimiter.tryAcquire = none
  · exact ⟨_, _, .reject hstage hidle hcandidate hrejects⟩
  · rw [not_or, not_or, Bool.not_eq_true, Bool.not_eq_true, ← ne_eq,
      Option.ne_none_iff_exists'] at hrejects
    obtain ⟨hopen, hhealthy, limiter, hacquire⟩ := hrejects
    exact ⟨_, _, .acquire hstage hidle hcandidate hopen hhealthy hacquire⟩

theorem exists_step_of_admitting (haccounted : Server.Accounted maxSize config l.server)
    (hstage : l.stage.Admits) {request : EngineRequest}
    (hadmitting : l.server.gateway = .admitting request) : ∃ l', Proceeds maxSize l l' := by
  cases hpush : l.server.requestQueue.tryPush request with
  | none =>
    obtain ⟨limiter, hrelease⟩ := haccounted.exists_releaseOne (by
      rw [hadmitting]; exact Nat.one_pos)
    exact ⟨_, _, .refuse hstage hadmitting hpush hrelease⟩
  | some queue => exact ⟨_, _, .enqueue hstage hadmitting hpush⟩

/-- `drain_pending_requests` goes on with the first pending request, or ends. -/
theorem exists_step_of_draining {next : Continuation} (hstage : l.stage = .drainPending next)
    (hidle : l.server.gateway = .idle) (htask : l.gateway.task = .draining) :
    ∃ l', Proceeds maxSize l l' := by
  cases hpending : l.gateway.pendingRequests with
  | nil => exact ⟨_, _, .pendingDrained hstage hidle htask hpending⟩
  | cons pending rest =>
    cases hcandidate : l.gateway.candidate with
    | none =>
      refine ⟨_, _, .skip hstage hidle htask hpending fun c hfind => ?_⟩
      rw [Gateway.candidate, htask, hpending] at hcandidate
      dsimp only at hcandidate
      rw [hfind] at hcandidate
      by_contra hopen
      dsimp only at hcandidate
      rw [if_neg hopen] at hcandidate
      cases hcandidate
    | some request => exact exists_step_of_admits (hstage ▸ trivial) hidle hcandidate

/-- `receive_from` goes on with the next message, or ends. -/
theorem exists_step_of_receiving {descriptor : ℕ} {events : PollEvents}
    {clients : List (ℕ × PollEvents)} {id : ConnectionId}
    {messages : List (WireEnvelope ClientMessage)} {failed : Bool}
    (hstage : l.stage = .receive descriptor events clients) (hidle : l.server.gateway = .idle)
    (htask : l.gateway.task = .receiving descriptor id messages failed) :
    ∃ l', Proceeds maxSize l l' := by
  cases messages with
  | nil => exact ⟨_, _, .finishReceiving hstage hidle htask⟩
  | cons message messages =>
    have hcandidate : l.gateway.candidate = some (toEngineRequest id message) := by
      rw [Gateway.candidate, htask]
    exact exists_step_of_admits (hstage ▸ trivial) hidle hcandidate

theorem exists_step_of_idle (hidle : l.Idle) (hending : Ending l.server l.stage)
    (hpoll : l.stage ≠ .poll) (hreturned : l.stage ≠ .returned) :
    ∃ l', Proceeds maxSize l l' := by
  cases hstage : l.stage with
  | poll => exact absurd hstage hpoll
  | returned => exact absurd hstage hreturned
  | beginShutdown next =>
    by_cases hkeep : l.stopRequested = false ∨ l.server.shutdownStarted = true
    · exact ⟨_, _, .keepRunning hstage hkeep⟩
    · rw [not_or, Bool.not_eq_false, Bool.not_eq_true] at hkeep
      exact ⟨_, _, .beginShutdown hstage hidle hkeep.1 hkeep.2⟩
  | drainCompletions next =>
    cases hitems : l.server.responseQueue.items with
    | nil => exact ⟨_, _, .completionsDrained hstage hidle hitems⟩
    | cons response rest =>
      obtain ⟨queue, hpop⟩ := BoundedQueue.exists_tryPop_eq_some hitems
      exact ⟨_, _, .takeCompletion hstage hidle hpop⟩
  | drainPending next =>
    by_cases hleave : l.server.shutdownStarted = true ∨ l.server.engineFailed = true
    · exact ⟨_, _, .leavePending hstage hidle hleave⟩
    · rw [not_or, Bool.not_eq_true, Bool.not_eq_true] at hleave
      exact ⟨_, _, .startDraining hstage hidle hleave.1 hleave.2⟩
  | checkClosed =>
    by_cases hclosed : l.server.shutdownStarted = true ∧ l.server.responseQueue.closed = true
    · exact ⟨_, _, .closed hstage hclosed.1 hclosed.2⟩
    · rw [not_and_or, Bool.not_eq_true, Bool.not_eq_true] at hclosed
      exact ⟨_, _, .notClosed hstage hclosed⟩
  | checkEmpty =>
    by_cases hempty : l.server.responseQueue.items = []
    · exact ⟨_, _, .complete hstage hempty (List.Perm.refl _)⟩
    · exact ⟨_, _, .notEmpty hstage hempty⟩
  | drainWakeup report =>
    rcases Nat.eq_zero_or_pos l.wakeups with hzero | hpos
    · exact ⟨_, _, .wakeupDrained hstage hzero⟩
    · exact ⟨_, _, .readWakeup hstage hpos⟩
  | acceptConnections report => exact ⟨_, _, .leaveAccept hstage⟩
  | checkListener report =>
    by_cases hfine : l.gateway.listening = false ∨ report.listener.error = false
    · exact ⟨_, _, .listenerFine hstage hfine⟩
    · rw [not_or, Bool.not_eq_false, Bool.not_eq_false] at hfine
      exact ⟨_, _, .listenerFailed hstage hfine.1 hfine.2⟩
  | stopping clients => exact ⟨_, _, .wakeItself hstage⟩
  | client clients =>
    cases clients with
    | nil => exact ⟨_, _, .clientsDone hstage⟩
    | cons client clients =>
      obtain ⟨descriptor, events⟩ := client
      by_cases hfound : ∃ c ∈ l.gateway.connections, c.descriptor = descriptor
      · obtain ⟨c, hc, rfl⟩ := hfound
        exact ⟨_, _, .found hstage hc⟩
      · exact ⟨_, _, .missing hstage fun c hc heq => hfound ⟨c, hc, heq⟩⟩
  | receive descriptor events clients => exact ⟨_, _, .leaveReceive hstage hidle⟩
  | flush descriptor events clients =>
    by_cases hleave : events.output = false ∨ ∀ c ∈ l.gateway.connections, c.descriptor ≠ descriptor
    · exact ⟨_, _, .leaveFlush hstage hleave⟩
    · simp only [not_or, Bool.not_eq_false, not_forall, not_not, exists_prop] at hleave
      obtain ⟨houtput, c, hc, rfl⟩ := hleave
      exact ⟨_, _, .flush [] hstage hidle hc houtput⟩
  | hangUp descriptor events clients =>
    cases herror : events.error with
    | false => exact ⟨_, _, .stayConnected hstage herror⟩
    | true => exact ⟨_, _, .hangUp hstage hidle herror⟩
  | close descriptor clients => exact ⟨_, _, .closeIfFinished hstage hidle⟩
  | flushOutputs descriptors =>
    cases descriptors with
    | nil =>
      rw [hstage] at hending
      cases hending with
      | running _ hflushing => exact absurd rfl (hflushing [])
      | flushing _ hdown hclosed hempty => exact ⟨_, _, .exit hstage hidle hdown hclosed hempty⟩
    | cons descriptor descriptors =>
      by_cases hempty : ∀ c ∈ l.gateway.connections, c.descriptor = descriptor →
          c.output.isEmpty = true
      · exact ⟨_, _, .nothingLeft hstage hempty⟩
      · simp only [not_forall, exists_prop, Bool.not_eq_true] at hempty
        obtain ⟨c, hc, rfl, houtput⟩ := hempty
        exact ⟨_, _, .flushLast [] hstage hidle hc houtput⟩

/-- The gateway waits only in `poll`. -/
theorem exists_step_of_stage (haccounted : Server.Accounted maxSize config l.server)
    (hfitting : l.Fitting) (hending : Ending l.server l.stage)
    (hpoll : l.stage ≠ .poll) (hreturned : l.stage ≠ .returned) :
    ∃ l', Proceeds maxSize l l' := by
  rw [Fitting] at hfitting
  generalize hstage : l.stage = stage, hphase : l.server.gateway = phase,
    htask : l.gateway.task = task at hfitting
  cases hfitting with
  | idle => exact exists_step_of_idle ⟨hphase, htask⟩ hending hpoll hreturned
  | delivering next response =>
    obtain ⟨limiter, hrelease⟩ := haccounted.exists_releaseOne (by
      rw [hphase]; exact Nat.one_pos)
    exact ⟨_, _, .deliver hstage hphase hrelease⟩
  | draining next => exact exists_step_of_draining hstage hphase htask
  | receiving => exact exists_step_of_receiving hstage hphase htask
  | admitting | admittingReceived =>
    exact exists_step_of_admitting haccounted (hstage ▸ trivial) hphase
  | exited => exact absurd hstage hreturned

/-- The worker is not at rest. -/
theorem exists_step_of_worker {startup : List JournalCommand}
    {requests completed executed refused : List EngineRequest}
    {responses released : List EngineResponse}
    (hclosing : Server.Closing config responses released l.server)
    (haccounted : Server.Accounted maxSize config l.server)
    (hpipelined : Server.Pipelined startup requests responses l.server completed executed refused)
    (hreserve : config.maxDurableBatchSize.toNat ≤ maxSize) (hcalls : l.workerCalls = [])
    (hworker : l.server.worker ≠ .finished)
    (hwaiting : l.server.worker = .waiting → l.server.requestQueue.items = [] →
      l.server.requestQueue.closed = true) : ∃ l', Proceeds maxSize l l' := by
  obtain ⟨event, s, hstep, hgateway, hshutdown⟩ :=
    hclosing.exists_work haccounted hpipelined hreserve hworker hwaiting
  exact ⟨_, _, .work hcalls hstep hgateway hshutdown⟩

/-- A thread that is about to call the gateway does so. -/
theorem exists_step_of_calls (h : l.workerCalls ≠ [] ∨ 0 < l.stopCallers) :
    ∃ l', Proceeds maxSize l l' := by
  rcases h with hcalls | hcallers
  · cases hl : l.workerCalls with
    | nil => exact absurd hl hcalls
    | cons call calls => cases call with
      | stop => exact ⟨_, _, .workerStops hl⟩
      | wake => exact ⟨_, _, .workerWakes hl⟩
  · obtain ⟨n, hn⟩ := Nat.exists_eq_succ_of_ne_zero hcallers.ne'
    exact ⟨_, _, .callerWakes hn⟩

end Progress

/-! ### Rest -/

/-- The server waits for its clients. Nothing that was received is under way any more. -/
structure Quiet (l : EventLoop) : Prop where
  stage_eq : l.stage = .poll
  worker_eq : l.server.worker = .waiting
  wakeups_eq : l.wakeups = 0
  stopRequested_eq : l.stopRequested = false
  engineFailed_eq : l.server.engineFailed = false
  waiting_eq : l.gateway.waiting = []
  readsPaused_eq : l.gateway.readsPaused = false
  inFlight_eq : l.server.inFlightLimiter.inFlight = 0

/-- `run` has returned, and the worker has finished. -/
structure Returned (l : EventLoop) : Prop where
  stage_eq : l.stage = .returned
  worker_eq : l.server.worker = .finished
  calls_eq : l.workerCalls = []
  callers_eq : l.stopCallers = 0
  waiting_eq : l.gateway.waiting = []
  inFlight_eq : l.server.inFlightLimiter.inFlight = 0

section Rest

variable {maxSize : ℕ} {config : ExchangeServerConfig} {engine : DurableEngine} {f : Posix.File}
  {gatewayConfig : ServerConfig} {startup : List JournalCommand} {events : List Exchange.Event}
  {l l' : EventLoop}

theorem Run.closing
    (hrun : Run maxSize (ofServer (Server.ofConfig config engine f) gatewayConfig) events l) :
    ∃ responses released, Server.Closing config responses released l.server :=
  ⟨_, _, (Server.closing_ofConfig config engine f).run hrun.exchange.server⟩

theorem Run.ending
    (hrun : Run maxSize (ofServer (Server.ofConfig config engine f) gatewayConfig) events l) :
    Ending l.server l.stage := by
  induction hrun with
  | refl => exact .running Stage.noConfusion fun _ => Stage.noConfusion
  | step hrun _ hstep ih =>
    obtain ⟨_, _, hclosing⟩ := hrun.closing
    exact ih.step hclosing hstep
  | input _ _ hinput ih => exact ih.input hinput

theorem waiting_eq_nil (hpending : l.gateway.pendingRequests = [])
    (htask : l.gateway.task = .idle) : l.gateway.waiting = [] := by
  rw [Gateway.waiting, hpending, Gateway.remaining, htask]
  rfl

/-- A gateway that waits in `poll` beside a worker that rests waits for its clients. -/
theorem Run.quiet_of_poll (hsignalled : l.Signalled)
    (haccounted : Server.Accounted maxSize config l.server)
    (hrun : Run maxSize (ofServer (Server.ofConfig config engine f) gatewayConfig) events l)
    (hawaited : ¬ l.Awaited) (hpoll : l.stage = .poll)
    (hworker : l.server.worker = .finished ∨ l.server.worker = .waiting ∧
      l.server.requestQueue.items = [] ∧ l.server.requestQueue.closed = false) : l.Quiet := by
  obtain ⟨_, _, hclosing⟩ := hrun.closing
  have hlevel : l.stage.level = 5 := by rw [hpoll]; rfl
  have hidle : l.Idle := hrun.fitting.idle (hpoll ▸ trivial)
  have hresponses : l.server.responseQueue.items = [] := by
    by_contra hitems
    exact hawaited (hsignalled.responses (by omega) hitems)
  rcases hworker with hfinished | ⟨hwaiting, hitems, hopen⟩
  · -- the worker has closed the response queue, so the gateway would be woken
    have hdown := hrun.serving.closed_eq.symm.trans (hclosing.of_finished hfinished).1
    exact absurd (hsignalled.closed (by omega) hdown (hrun.serving.of_finished hfinished)) hawaited
  have hup := hrun.serving.closed_eq.symm.trans hopen
  have hstop : l.stopRequested = false := by
    refine Bool.eq_false_of_not_eq_true fun hrequested => hawaited ?_
    exact hsignalled.stop (by omega) hrequested hup
  have hpending : l.gateway.pendingRequests = [] := by
    by_contra hpending
    rcases (hsignalled.pending (by omega) hpending).resolve_left hawaited with hne | hne
    · exact hne hitems
    · rw [hwaiting] at hne
      exact hne rfl
  refine ⟨hpoll, hwaiting, ?_, hstop, ?_, waiting_eq_nil hpending hidle.2, ?_, ?_⟩
  · exact Nat.eq_zero_of_not_pos fun hpos => hawaited (Or.inl hpos)
  · refine Bool.eq_false_of_not_eq_true fun hfailed => ?_
    rcases hsignalled.failed hfailed with hrequested | hmem
    · cases hstop.symm.trans hrequested
    · exact hawaited (Or.inr (Or.inl (List.ne_nil_of_mem hmem)))
  · refine Bool.eq_false_of_not_eq_true fun hpaused => ?_
    rcases hrun.exchange.pressed rfl hpaused with hne | hdraining | hdown
    · exact hne hpending
    · cases hidle.2.symm.trans hdraining
    · cases hup.symm.trans hdown
  · rw [haccounted.inFlight_eq, Server.reservations, hidle.1, hwaiting, hitems, hresponses]
    rfl

theorem Run.returned_of_stage (haccounted : Server.Accounted maxSize config l.server)
    (hrun : Run maxSize (ofServer (Server.ofConfig config engine f) gatewayConfig) events l)
    (hreturned : l.stage = .returned) (hcalls : l.workerCalls = []) (hcallers : l.stopCallers = 0) :
    l.Returned := by
  obtain ⟨_, _, hclosing⟩ := hrun.closing
  have hexited : l.server.gateway = .exited ∧ l.gateway.task = .idle := by
    have hfitting := hrun.fitting
    rw [Fitting, hreturned] at hfitting
    generalize l.server.gateway = phase, l.gateway.task = task at hfitting
    cases hfitting with
    | idle hne => exact absurd rfl hne
    | exited => exact ⟨rfl, rfl⟩
  obtain ⟨hclosed, hresponses⟩ := hclosing.of_exited hexited.1
  have hfinished := hclosing.of_closed hclosed
  obtain ⟨hdown, hitems⟩ := hclosing.of_finished hfinished
  have hpending := hrun.exchange.cleared rfl (hrun.serving.closed_eq.symm.trans hdown)
  refine ⟨hreturned, hfinished, hcalls, hcallers, waiting_eq_nil hpending hexited.2, ?_⟩
  rw [haccounted.inFlight_eq, Server.reservations, hexited.1, hfinished, hitems, hresponses]
  rfl

/-- Where no thread can go on, they rest. -/
theorem Run.exists_proceeds (hready : engine.Ready f startup)
    (hinFlight : 0 < config.maximumInFlight.toNat)
    (hcapacity : 0 < config.requestQueueCapacity.toNat)
    (hbatch : 0 < config.maxDurableBatchSize.toNat)
    (hreserve : config.maxDurableBatchSize.toNat ≤ maxSize)
    (hrun : Run maxSize (ofServer (Server.ofConfig config engine f) gatewayConfig) events l)
    (hrest : ¬ (l.Quiet ∨ l.Returned)) : ∃ l', Proceeds maxSize l l' := by
  by_contra hstuck
  have haccounted := hrun.accounted hbatch
  obtain ⟨_, _, _, hpipelined⟩ :=
    (Server.pipelined_ofConfig config hready).run hrun.exchange.server
  have hclosing := (Server.closing_ofConfig config engine f).run hrun.exchange.server
  have hcalls : l.workerCalls = [] := by
    by_contra hne
    exact hstuck (exists_step_of_calls (Or.inl hne))
  have hcallers : l.stopCallers = 0 := by
    by_contra hne
    exact hstuck (exists_step_of_calls (Or.inr (Nat.pos_of_ne_zero hne)))
  by_cases hreturned : l.stage = .returned
  · exact hrest (Or.inr (hrun.returned_of_stage haccounted hreturned hcalls hcallers))
  have hpoll : l.stage = .poll := by
    by_contra hne
    exact hstuck (exists_step_of_stage haccounted hrun.fitting hrun.ending hne hreturned)
  refine hrest (Or.inl (hrun.quiet_of_poll (hrun.signalled hinFlight hcapacity hbatch) haccounted
    ?_ hpoll ?_))
  · rintro (hwakeups | hne | hpos)
    · have hquiet : l.QuietReport ⟨{}, _⟩ := ⟨rfl, List.Perm.refl _⟩
      exact hstuck ⟨_, _, .wake hpoll hwakeups hquiet⟩
    · exact hne hcalls
    · exact hpos.ne' hcallers
  · by_contra hworker
    rw [not_or, not_and, not_and] at hworker
    refine hstuck (exists_step_of_worker hclosing haccounted hpipelined hreserve hcalls hworker.1
      fun hwaiting hitems => Bool.eq_true_of_not_eq_false (hworker.2 hwaiting hitems))

end Rest

end EventLoop

end MatchingEngine
