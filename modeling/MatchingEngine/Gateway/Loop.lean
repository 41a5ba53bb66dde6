import MatchingEngine.Gateway.Basic

/-!
# The loop of the gateway

`GatewayServer::Impl::run` of `src/gateway_server.cpp`, with the order in which the loop calls the
functions of the gateway, what it asks `poll` for and how it is woken. The other threads reach it
only through the counter of an `eventfd`: the worker after every completion, when it has failed and
when it has finished, and every caller of `request_stop`. Each of them first changes what the two
sides share and writes to the counter afterwards, and the loop can be anywhere in between.

What a thread does on its own is a step. What comes from outside is an input: a call of
`request_stop`, a connection, bytes, and a `poll` that returns for another reason than the counter.
A call that is interrupted is made again and shows nothing. A connection that
`accept_connections` rejects is closed at once and shows nothing either. The connections are in an
unordered map, so where the loop goes through all of them it does so in any order.

## Main definitions

* `EventLoop`, `EventLoop.Stage`: the pipeline with the loop of its gateway.
* `EventLoop.Step`, `EventLoop.Input`, `EventLoop.Run`.

## Main results

* `EventLoop.Run.exchange`: a run of the loop is an interleaving of the pipeline.
-/

namespace MatchingEngine

namespace EventLoop

/-! ### Stages -/

/-- The events of a descriptor: `POLLIN`, `POLLOUT`, and any of `POLLERR`, `POLLHUP`, `POLLNVAL`. -/
structure PollEvents where
  input : Bool := false
  output : Bool := false
  error : Bool := false
  deriving DecidableEq, Repr

/-- What `poll` has reported of the listener and of the clients, in the order of its vector. -/
structure PollReport where
  listener : PollEvents := {}
  clients : List (ℕ × PollEvents)
  deriving DecidableEq, Repr

/-- What comes behind `drain_pending_requests`, which `run` calls in two places. -/
inductive Continuation where
  /-- `shutdown_complete`. -/
  | check
  /-- The descriptors that are ready. -/
  | dispatch (report : PollReport)
  deriving DecidableEq, Repr

/-- Where the gateway thread is in `run`. -/
inductive Stage where
  | beginShutdown (next : Continuation)
  | drainCompletions (next : Continuation)
  | drainPending (next : Continuation)
  /-- `shutdown_complete` looks whether the response queue is closed, and then at its size. -/
  | checkClosed
  | checkEmpty
  | poll
  | drainWakeup (report : PollReport)
  | acceptConnections (report : PollReport)
  | checkListener (report : PollReport)
  /-- The gateway has stored its own request to stop, because `poll` has failed or because of the
  listener, and is about to wake itself. -/
  | stopping (clients : Option (List (ℕ × PollEvents)))
  /-- The loop over the clients, and its body. -/
  | client (clients : List (ℕ × PollEvents))
  | receive (descriptor : ℕ) (events : PollEvents) (clients : List (ℕ × PollEvents))
  | flush (descriptor : ℕ) (events : PollEvents) (clients : List (ℕ × PollEvents))
  | hangUp (descriptor : ℕ) (events : PollEvents) (clients : List (ℕ × PollEvents))
  | close (descriptor : ℕ) (clients : List (ℕ × PollEvents))
  /-- `flush_outputs_once`. -/
  | flushOutputs (descriptors : List ℕ)
  | returned
  deriving DecidableEq, Repr

def Continuation.stage : Continuation → Stage
  | .check => .checkClosed
  | .dispatch report => .acceptConnections report

namespace Stage

/-- The functions that call `admit`. -/
def Admits : Stage → Prop
  | drainPending _ => True
  | receive _ _ _ => True
  | _ => False

/-- The stage after `admit` has returned `false`. The loop of `receive_from` ends by its own
condition then. -/
def refused : Stage → Stage
  | drainPending next => next.stage
  | stage => stage

/-- The stage after the gateway has woken itself. -/
def woken : Option (List (ℕ × PollEvents)) → Stage
  | none => beginShutdown .check
  | some clients => client clients

end Stage

/-- What the worker calls on the gateway: the second part of `enter_fail_stop`, which is
`request_stop`, and `notify`. -/
inductive GatewayCall where
  | stop
  | wake
  deriving DecidableEq, Repr

end EventLoop

/-- The pipeline, and the loop of its gateway. -/
structure EventLoop extends Exchange where
  stage : EventLoop.Stage := .beginShutdown .check
  stopRequested : Bool := false
  /-- The counter of the `eventfd`. -/
  wakeups : ℕ := 0
  /-- What the worker calls before it goes on. -/
  workerCalls : List EventLoop.GatewayCall := []
  /-- The number of threads in `request_stop` that have stored the request and not woken the
  gateway yet. -/
  stopCallers : ℕ := 0

namespace EventLoop

/-- The loop of a server that was created. -/
def ofServer (server : Server) (config : ServerConfig) : EventLoop :=
  { Exchange.ofServer server config with }

/-- `write` of one to the `eventfd`, which is refused where the counter is at its maximum. -/
def signal (wakeups : ℕ) : ℕ := if wakeups < 2 ^ 64 - 2 then wakeups + 1 else wakeups

/-- What the worker calls on the gateway after a step. It wakes it for every completion and when it
has finished. When the engine fails, it stores that first, and then stops the gateway and wakes it.
-/
def callsAfter (s : Server) (event : Server.Event) (s' : Server) : List GatewayCall :=
  match event with
  | .published _ => [.wake]
  | _ =>
    if s.engineFailed = false ∧ s'.engineFailed = true then [.stop, .wake]
    else if s.worker ≠ .finished ∧ s'.worker = .finished then [.wake]
    else []

/-- What the loop asks `poll` for on a connection. -/
def interest (l : EventLoop) (c : Connection) : PollEvents where
  input := !l.server.shutdownStarted && !l.gateway.readsPaused && !c.closing
  output := !c.output.isEmpty

/-- A report on every connection, with no event that was not asked for. Errors are always reported.
-/
structure Answers (l : EventLoop) (report : PollReport) : Prop where
  clients_perm :
    (report.clients.map Prod.fst).Perm (l.gateway.connections.map Connection.descriptor)
  of_closed : l.gateway.listening = false → report.listener = {}
  asked : ∀ entry ∈ report.clients, ∀ c ∈ l.gateway.connections, c.descriptor = entry.1 →
    (entry.2.input = true → (l.interest c).input = true) ∧
      (entry.2.output = true → (l.interest c).output = true)

/-- A report of a `poll` that returns because of the counter alone. -/
structure QuietReport (l : EventLoop) (report : PollReport) : Prop where
  listener_eq : report.listener = {}
  clients_perm : report.clients.Perm (l.gateway.connections.map fun c => (c.descriptor, {}))

/-! ### Steps -/

/-- A step of one of the threads. -/
inductive Step (maxSize : ℕ) : EventLoop → List Exchange.Event → EventLoop → Prop
  -- the worker
  | work {l : EventLoop} {event : Server.Event} {s : Server} (hcalls : l.workerCalls = [])
      (hstep : Server.Step maxSize l.server event s) (hgateway : s.gateway = l.server.gateway)
      (hshutdown : s.shutdownStarted = l.server.shutdownStarted) :
      Step maxSize l [.server event]
        { l with server := s, workerCalls := callsAfter l.server event s }
  | workerStops {l : EventLoop} {calls : List GatewayCall}
      (hcalls : l.workerCalls = .stop :: calls) :
      Step maxSize l [] { l with stopRequested := true, workerCalls := calls }
  | workerWakes {l : EventLoop} {calls : List GatewayCall}
      (hcalls : l.workerCalls = .wake :: calls) :
      Step maxSize l [] { l with wakeups := signal l.wakeups, workerCalls := calls }
  -- a caller of `request_stop`
  | callerWakes {l : EventLoop} {n : ℕ} (hcallers : l.stopCallers = n + 1) :
      Step maxSize l [] { l with wakeups := signal l.wakeups, stopCallers := n }
  -- `begin_shutdown_if_requested`
  | beginShutdown {l : EventLoop} {next : Continuation} (hstage : l.stage = .beginShutdown next)
      (hidle : l.Idle) (hrequested : l.stopRequested = true)
      (hopen : l.server.shutdownStarted = false) :
      Step maxSize l [.shutdown l.gateway.pendingRequests]
        { l with
          server := { l.server with
            shutdownStarted := true, requestQueue := l.server.requestQueue.close }
          gateway := { l.gateway with listening := false, pendingRequests := [] }
          stage := .drainCompletions next }
  | keepRunning {l : EventLoop} {next : Continuation} (hstage : l.stage = .beginShutdown next)
      (hkeep : l.stopRequested = false ∨ l.server.shutdownStarted = true) :
      Step maxSize l [] { l with stage := .drainCompletions next }
  -- `drain_engine_completions`
  | takeCompletion {l : EventLoop} {next : Continuation} {response : EngineResponse}
      {queue : BoundedQueue EngineResponse} (hstage : l.stage = .drainCompletions next)
      (hidle : l.Idle) (hpop : l.server.responseQueue.tryPop = some (response, queue)) :
      Step maxSize l [.server .internal]
        { l with server := { l.server with
            responseQueue := queue, gateway := .delivering response } }
  | deliver {l : EventLoop} {next : Continuation} {response : EngineResponse}
      {limiter : InFlightLimiter} (hstage : l.stage = .drainCompletions next)
      (hdelivering : l.server.gateway = .delivering response)
      (hrelease : l.server.inFlightLimiter.releaseOne = some limiter) :
      Step maxSize l [.server (.delivered response)]
        { l with
          server := { l.server with inFlightLimiter := limiter, gateway := .idle }
          gateway := l.gateway.deliver response }
  | completionsDrained {l : EventLoop} {next : Continuation}
      (hstage : l.stage = .drainCompletions next) (hidle : l.Idle)
      (hempty : l.server.responseQueue.items = []) :
      Step maxSize l [] { l with stage := .drainPending next }
  -- `drain_pending_requests`
  | leavePending {l : EventLoop} {next : Continuation} (hstage : l.stage = .drainPending next)
      (hidle : l.Idle)
      (hleave : l.server.shutdownStarted = true ∨ l.server.engineFailed = true) :
      Step maxSize l [] { l with stage := next.stage }
  | startDraining {l : EventLoop} {next : Continuation} (hstage : l.stage = .drainPending next)
      (hidle : l.Idle) (hopen : l.server.shutdownStarted = false)
      (hhealthy : l.server.engineFailed = false) :
      Step maxSize l [.internal] { l with gateway := { l.gateway with task := .draining } }
  | skip {l : EventLoop} {next : Continuation} {pending : PendingRequest}
      {rest : List PendingRequest} (hstage : l.stage = .drainPending next)
      (hidle : l.server.gateway = .idle) (htask : l.gateway.task = .draining)
      (hpending : l.gateway.pendingRequests = pending :: rest)
      (hclosed : ∀ c, l.gateway.findConnection pending.connectionId = some c → c.closing = true) :
      Step maxSize l [.skipped pending]
        { l with gateway := { l.gateway with pendingRequests := rest } }
  | pendingDrained {l : EventLoop} {next : Continuation} (hstage : l.stage = .drainPending next)
      (hidle : l.server.gateway = .idle) (htask : l.gateway.task = .draining)
      (hpending : l.gateway.pendingRequests = []) :
      Step maxSize l [.internal]
        { l with
          gateway := { l.gateway with readsPaused := false, task := .idle }
          stage := next.stage }
  -- `admit`
  | acquire {l : EventLoop} {request : EngineRequest} {limiter : InFlightLimiter}
      (hstage : l.stage.Admits) (hidle : l.server.gateway = .idle)
      (hcandidate : l.gateway.candidate = some request) (hopen : l.server.shutdownStarted = false)
      (hhealthy : l.server.engineFailed = false)
      (hacquire : l.server.inFlightLimiter.tryAcquire = some limiter) :
      Step maxSize l [.server .internal]
        { l with server := { l.server with
            inFlightLimiter := limiter, gateway := .admitting request } }
  | enqueue {l : EventLoop} {request : EngineRequest} {queue : BoundedQueue EngineRequest}
      (hstage : l.stage.Admits) (hadmitting : l.server.gateway = .admitting request)
      (hpush : l.server.requestQueue.tryPush request = some queue) :
      Step maxSize l [.server (.admitted request)]
        { l with
          server := { l.server with requestQueue := queue, gateway := .idle }
          gateway := l.gateway.advance }
  | refuse {l : EventLoop} {request : EngineRequest} {limiter : InFlightLimiter}
      (hstage : l.stage.Admits) (hadmitting : l.server.gateway = .admitting request)
      (hpush : l.server.requestQueue.tryPush request = none)
      (hrelease : l.server.inFlightLimiter.releaseOne = some limiter) :
      Step maxSize l [.server .internal]
        { l with
          server := { l.server with inFlightLimiter := limiter, gateway := .idle }
          gateway := l.gateway.backOff
          stage := l.stage.refused }
  | reject {l : EventLoop} {request : EngineRequest} (hstage : l.stage.Admits)
      (hidle : l.server.gateway = .idle) (hcandidate : l.gateway.candidate = some request)
      (hrejects : l.server.shutdownStarted = true ∨ l.server.engineFailed = true ∨
        l.server.inFlightLimiter.tryAcquire = none) :
      Step maxSize l [.internal]
        { l with gateway := l.gateway.backOff, stage := l.stage.refused }
  -- `shutdown_complete`
  | closed {l : EventLoop} (hstage : l.stage = .checkClosed)
      (hshutdown : l.server.shutdownStarted = true)
      (hclosed : l.server.responseQueue.closed = true) :
      Step maxSize l [] { l with stage := .checkEmpty }
  | notClosed {l : EventLoop} (hstage : l.stage = .checkClosed)
      (hopen : l.server.shutdownStarted = false ∨ l.server.responseQueue.closed = false) :
      Step maxSize l [] { l with stage := .poll }
  | complete {l : EventLoop} {descriptors : List ℕ} (hstage : l.stage = .checkEmpty)
      (hempty : l.server.responseQueue.items = [])
      (horder : descriptors.Perm (l.gateway.connections.map Connection.descriptor)) :
      Step maxSize l [] { l with stage := .flushOutputs descriptors }
  | notEmpty {l : EventLoop} (hstage : l.stage = .checkEmpty)
      (hne : l.server.responseQueue.items ≠ []) : Step maxSize l [] { l with stage := .poll }
  -- `poll` returns because of the counter, and `drain_wakeup` reads it until it is zero
  | wake {l : EventLoop} {report : PollReport} (hstage : l.stage = .poll)
      (hwakeups : 0 < l.wakeups) (hquiet : l.QuietReport report) :
      Step maxSize l [] { l with stage := .drainWakeup report }
  | readWakeup {l : EventLoop} {report : PollReport} (hstage : l.stage = .drainWakeup report)
      (hwakeups : 0 < l.wakeups) : Step maxSize l [] { l with wakeups := 0 }
  | wakeupDrained {l : EventLoop} {report : PollReport} (hstage : l.stage = .drainWakeup report)
      (hwakeups : l.wakeups = 0) :
      Step maxSize l [] { l with stage := .beginShutdown (.dispatch report) }
  -- the listener
  | leaveAccept {l : EventLoop} {report : PollReport}
      (hstage : l.stage = .acceptConnections report) :
      Step maxSize l [] { l with stage := .checkListener report }
  | listenerFailed {l : EventLoop} {report : PollReport} (hstage : l.stage = .checkListener report)
      (hlistening : l.gateway.listening = true) (herror : report.listener.error = true) :
      Step maxSize l [] { l with stopRequested := true, stage := .stopping (some report.clients) }
  | listenerFine {l : EventLoop} {report : PollReport} (hstage : l.stage = .checkListener report)
      (hfine : l.gateway.listening = false ∨ report.listener.error = false) :
      Step maxSize l [] { l with stage := .client report.clients }
  | wakeItself {l : EventLoop} {clients : Option (List (ℕ × PollEvents))}
      (hstage : l.stage = .stopping clients) :
      Step maxSize l [] { l with wakeups := signal l.wakeups, stage := .woken clients }
  -- the clients
  | missing {l : EventLoop} {descriptor : ℕ} {events : PollEvents}
      {clients : List (ℕ × PollEvents)}
      (hstage : l.stage = .client ((descriptor, events) :: clients))
      (hmissing : ∀ c ∈ l.gateway.connections, c.descriptor ≠ descriptor) :
      Step maxSize l [] { l with stage := .client clients }
  | found {l : EventLoop} {c : Connection} {events : PollEvents} {clients : List (ℕ × PollEvents)}
      (hstage : l.stage = .client ((c.descriptor, events) :: clients))
      (hc : c ∈ l.gateway.connections) :
      Step maxSize l [] { l with stage := .receive c.descriptor events clients }
  | clientsDone {l : EventLoop} (hstage : l.stage = .client []) :
      Step maxSize l [] { l with stage := .beginShutdown .check }
  -- `receive_from` has the messages of one `feed` behind it, or is not called, or `recv` has no
  -- more bytes
  | finishReceiving {l : EventLoop} {descriptor : ℕ} {events : PollEvents}
      {clients : List (ℕ × PollEvents)} {connectionId : ConnectionId} {failed : Bool}
      (hstage : l.stage = .receive descriptor events clients)
      (hidle : l.server.gateway = .idle)
      (htask : l.gateway.task = .receiving descriptor connectionId [] failed) :
      Step maxSize l [.internal]
        { l with gateway := l.gateway.finishReceiving descriptor failed }
  | leaveReceive {l : EventLoop} {descriptor : ℕ} {events : PollEvents}
      {clients : List (ℕ × PollEvents)} (hstage : l.stage = .receive descriptor events clients)
      (hidle : l.Idle) : Step maxSize l [] { l with stage := .flush descriptor events clients }
  | receiveEnd {l : EventLoop} {descriptor : ℕ} {events : PollEvents}
      {clients : List (ℕ × PollEvents)} (hstage : l.stage = .receive descriptor events clients)
      (hidle : l.Idle) (hinput : events.input = true) (hreads : l.gateway.readsPaused = false)
      (hopen : l.server.shutdownStarted = false) :
      Step maxSize l [.internal]
        { l with
          gateway := l.gateway.markClosing descriptor
          stage := .flush descriptor events clients }
  | flush {l : EventLoop} {c : Connection} {events : PollEvents} {clients : List (ℕ × PollEvents)}
      (results : List SendResult) (hstage : l.stage = .flush c.descriptor events clients)
      (hidle : l.Idle) (hc : c ∈ l.gateway.connections) (houtput : events.output = true) :
      Step maxSize l [.sent c.id (c.flushOutput results).1]
        { l with
          gateway := l.gateway.update c.descriptor fun c => (c.flushOutput results).2
          stage := .hangUp c.descriptor events clients }
  | leaveFlush {l : EventLoop} {descriptor : ℕ} {events : PollEvents}
      {clients : List (ℕ × PollEvents)} (hstage : l.stage = .flush descriptor events clients)
      (hleave : events.output = false ∨ ∀ c ∈ l.gateway.connections, c.descriptor ≠ descriptor) :
      Step maxSize l [] { l with stage := .hangUp descriptor events clients }
  | hangUp {l : EventLoop} {descriptor : ℕ} {events : PollEvents} {clients : List (ℕ × PollEvents)}
      (hstage : l.stage = .hangUp descriptor events clients) (hidle : l.Idle)
      (herror : events.error = true) :
      Step maxSize l [.internal]
        { l with gateway := l.gateway.markClosing descriptor, stage := .close descriptor clients }
  | stayConnected {l : EventLoop} {descriptor : ℕ} {events : PollEvents}
      {clients : List (ℕ × PollEvents)} (hstage : l.stage = .hangUp descriptor events clients)
      (herror : events.error = false) :
      Step maxSize l [] { l with stage := .close descriptor clients }
  | closeIfFinished {l : EventLoop} {descriptor : ℕ} {clients : List (ℕ × PollEvents)}
      (hstage : l.stage = .close descriptor clients) (hidle : l.Idle) :
      Step maxSize l [.internal]
        { l with gateway := l.gateway.closeIfFinished descriptor, stage := .client clients }
  -- `flush_outputs_once`, and the end of `run`
  | flushLast {l : EventLoop} {c : Connection} {descriptors : List ℕ} (results : List SendResult)
      (hstage : l.stage = .flushOutputs (c.descriptor :: descriptors)) (hidle : l.Idle)
      (hc : c ∈ l.gateway.connections) (houtput : c.output.isEmpty = false) :
      Step maxSize l [.sent c.id (c.flushOutput results).1]
        { l with
          gateway := l.gateway.update c.descriptor fun c => (c.flushOutput results).2
          stage := .flushOutputs descriptors }
  | nothingLeft {l : EventLoop} {descriptor : ℕ} {descriptors : List ℕ}
      (hstage : l.stage = .flushOutputs (descriptor :: descriptors))
      (hempty : ∀ c ∈ l.gateway.connections, c.descriptor = descriptor →
        c.output.isEmpty = true) :
      Step maxSize l [] { l with stage := .flushOutputs descriptors }
  | exit {l : EventLoop} (hstage : l.stage = .flushOutputs []) (hidle : l.Idle)
      (hshutdown : l.server.shutdownStarted = true)
      (hclosed : l.server.responseQueue.closed = true)
      (hempty : l.server.responseQueue.items = []) :
      Step maxSize l [.server .internal]
        { l with
          server := { l.server with gateway := .exited }
          gateway := { l.gateway with listening := false, connections := [] }
          stage := .returned }

/-- What comes from outside. -/
inductive Input : EventLoop → List Exchange.Event → EventLoop → Prop
  | requestStop {l : EventLoop} :
      Input l [] { l with stopRequested := true, stopCallers := l.stopCallers + 1 }
  | report {l : EventLoop} {report : PollReport} (hstage : l.stage = .poll)
      (hanswers : l.Answers report) :
      Input l [] { l with
        stage := if 0 < l.wakeups then .drainWakeup report else .acceptConnections report }
  | interrupted {l : EventLoop} (hstage : l.stage = .poll) :
      Input l [] { l with stage := .beginShutdown .check }
  | pollFailed {l : EventLoop} (hstage : l.stage = .poll) :
      Input l [] { l with stopRequested := true, stage := .stopping none }
  | accept {l : EventLoop} {report : PollReport} {descriptor : ℕ}
      (hstage : l.stage = .acceptConnections report) (hinput : report.listener.input = true)
      (hidle : l.Idle) (hlistening : l.gateway.listening = true)
      (hopen : l.server.shutdownStarted = false)
      (hsize : l.gateway.connections.length < l.gateway.config.maximumConnections.toNat)
      (hid : l.gateway.nextConnectionId ≠ 0)
      (hfresh : ∀ c ∈ l.gateway.connections, c.descriptor ≠ descriptor) :
      Input l [.internal] { l with gateway := l.gateway.accept descriptor }
  | receive {l : EventLoop} {c : Connection} {events : PollEvents}
      {clients : List (ℕ × PollEvents)} (bytes : List UInt8)
      (hstage : l.stage = .receive c.descriptor events clients) (hinput : events.input = true)
      (hidle : l.Idle) (hc : c ∈ l.gateway.connections) (hclosing : c.closing = false)
      (hreads : l.gateway.readsPaused = false) (hopen : l.server.shutdownStarted = false)
      (hne : bytes ≠ []) (hlength : bytes.length ≤ receiveBufferSize) :
      Input l [.received c.id (c.parser.feed bytes).1.messages]
        { l with gateway := { l.gateway.update c.descriptor
              (fun c => { c with parser := (c.parser.feed bytes).2 }) with
            task := .receiving c.descriptor c.id (c.parser.feed bytes).1.messages
              (c.parser.feed bytes).1.error.isSome } }

/-- Any run of the threads under any inputs, with the events of the pipeline. -/
inductive Run (maxSize : ℕ) (start : EventLoop) : List Exchange.Event → EventLoop → Prop
  | refl : Run maxSize start [] start
  | step {events new : List Exchange.Event} {l l' : EventLoop} (h : Run maxSize start events l)
      (hhalted : l.server.halted = none) (hstep : Step maxSize l new l') :
      Run maxSize start (events ++ new) l'
  | input {events new : List Exchange.Event} {l l' : EventLoop} (h : Run maxSize start events l)
      (hhalted : l.server.halted = none) (hinput : Input l new l') :
      Run maxSize start (events ++ new) l'

/-! ### The loop as an interleaving -/

section Exchange

variable {maxSize : ℕ} {start l l' : EventLoop} {events new : List Exchange.Event}

/-- A step of the pipeline, or none. -/
inductive Moves (maxSize : ℕ) (x : Exchange) : List Exchange.Event → Exchange → Prop
  | stay : Moves maxSize x [] x
  | move {event : Exchange.Event} {x' : Exchange} (h : Exchange.Step maxSize x event x') :
      Moves maxSize x [event] x'

theorem Step.moves (hstep : Step maxSize l new l') :
    Moves maxSize l.toExchange new l'.toExchange := by
  cases hstep with
  | work _ hstep hgateway hshutdown => exact .move (.worker hstep hgateway hshutdown)
  | beginShutdown _ hidle _ hopen =>
    exact .move (.shutdown hidle hopen (.shutdown hidle.1 hopen) rfl)
  | takeCompletion _ hidle hpop => exact .move (.take hidle (.takeCompletion hidle.1 hpop) rfl)
  | deliver _ hdelivering hrelease => exact .move (.deliver (.release hdelivering hrelease))
  | startDraining _ hidle hopen hhealthy => exact .move (.startDraining hidle hopen hhealthy)
  | skip _ hidle htask hpending hclosed => exact .move (.skip hidle htask hpending hclosed)
  | pendingDrained _ hidle htask hpending => exact .move (.finishDraining hidle htask hpending)
  | acquire _ hidle hcandidate hopen hhealthy hacquire =>
    exact .move (.acquire hidle hcandidate (.acquire _ hidle hopen hhealthy hacquire) rfl)
  | enqueue _ hadmitting hpush => exact .move (.enqueue (.enqueue hadmitting hpush))
  | refuse _ hadmitting hpush hrelease =>
    exact .move (.refuse hadmitting hpush (.refuse hadmitting hpush hrelease) rfl)
  | reject _ hidle hcandidate hrejects => exact .move (.reject hidle hcandidate hrejects)
  | finishReceiving _ hidle htask => exact .move (.finishReceiving hidle htask)
  | receiveEnd _ hidle | hangUp _ hidle => exact .move (.hangUp _ hidle)
  | flush results _ hidle hc | flushLast results _ hidle hc => exact .move (.flush results hidle hc)
  | closeIfFinished _ hidle => exact .move (.closeFinished _ hidle)
  | exit _ hidle hshutdown hclosed hempty =>
    exact .move (.exit hidle (.exit hidle.1 hshutdown hclosed hempty) rfl)
  | _ => exact .stay

theorem Input.moves (hinput : Input l new l') : Moves maxSize l.toExchange new l'.toExchange := by
  cases hinput with
  | accept _ _ hidle hlistening hopen hsize hid hfresh =>
    exact .move (.accept hidle hlistening hopen hsize hid hfresh)
  | receive bytes _ _ hidle hc hclosing hreads hopen hne hlength =>
    exact .move (.receive bytes hidle hc hclosing hreads hopen hne hlength)
  | _ => exact .stay

theorem Moves.run {start x x' : Exchange} (h : Moves maxSize x new x')
    (hrun : Exchange.Run maxSize start events x) (hhalted : x.server.halted = none) :
    Exchange.Run maxSize start (events ++ new) x' := by
  cases h with
  | stay =>
    rw [List.append_nil]
    exact hrun
  | move hstep => exact hrun.step hhalted hstep

/-- A run of the loop is an interleaving of the pipeline. -/
theorem Run.exchange (hrun : Run maxSize start events l) :
    Exchange.Run maxSize start.toExchange events l.toExchange := by
  induction hrun with
  | refl => exact .refl
  | step _ hhalted hstep ih => exact hstep.moves.run ih hhalted
  | input _ hhalted hinput ih => exact hinput.moves.run ih hhalted

end Exchange

end EventLoop

end MatchingEngine
