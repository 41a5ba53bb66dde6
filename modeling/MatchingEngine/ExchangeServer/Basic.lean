import MatchingEngine.DurableEngine.Basic
import MatchingEngine.Gateway.Types

/-!
# The exchange server

The two parties of `src/exchange_server.cpp`: the gateway, which admits requests and takes
completions, and the worker, which owns the engine. They share the two queues, the flag that the
engine has failed and nothing else, so a step is one access to what they share together with the
work of one party around it. The gateway is modelled as far as it uses the queues and the limiter;
which request comes next, and when the server is asked to stop, is arbitrary.

A reservation moves with its request and then with its completion; it is not written down. An
exception in the worker is not modelled here, but a vector that would exceed its maximal size is: a
worker that would reserve it takes no step. The program ends at a call of `std::terminate`, and the
model ends at an access out of range.

## Main definitions

* `Server`, `ExchangeServer.create`.
* `Server.executeAndPublishBatch`.
* `Server.Step`, `Server.Run`: one step, and any interleaving.
-/

namespace MatchingEngine

open Posix

/-! ### Configuration and state -/

structure ExchangeServerConfig where
  maximumInFlight : UInt64 := 256
  requestQueueCapacity : UInt64 := 256
  maxDurableBatchSize : UInt64 := 1
  deriving DecidableEq, Repr

inductive ExchangeServerErrorCode where
  | invalidConfiguration
  | durableEngineStartupFailed
  | gatewayStartupFailed
  deriving DecidableEq, Repr

structure ExchangeServerError where
  code : ExchangeServerErrorCode
  durableEngineError : Option DurableEngineError := none
  deriving DecidableEq, Repr

/-- What the gateway thread is doing. -/
inductive GatewayPhase where
  | idle
  /-- `admit` has a reservation for the request and has not pushed it yet. -/
  | admitting (request : EngineRequest)
  /-- `drain_engine_completions` has taken the completion and not released its reservation yet. -/
  | delivering (response : EngineResponse)
  | exited
  deriving DecidableEq, Repr

/-- What the worker thread is doing. -/
inductive WorkerPhase where
  /-- It is at `wait_pop`. -/
  | waiting
  /-- It takes more requests for the batch. -/
  | draining (batch : List EngineRequest)
  /-- It calls `execute_and_publish_batch`. -/
  | executing (batch : List EngineRequest)
  /-- It publishes the completions of the rest of a batch, one by one. Where there is no response,
  `summarize` terminates the program. -/
  | publishing (remaining : List (EngineRequest × Option EngineResponse))
  | finished
  deriving DecidableEq, Repr

/-- Why the program does not go on. -/
inductive Halt where
  | terminated
  /-- An element of a vector was accessed that is not there. -/
  | outOfRange
  deriving DecidableEq, Repr

structure Server where
  config : ExchangeServerConfig
  inFlightLimiter : InFlightLimiter
  requestQueue : BoundedQueue EngineRequest
  responseQueue : BoundedQueue EngineResponse
  engine : DurableEngine
  /-- The journal of the engine. -/
  file : File
  commandsProcessed : UInt64 := 0
  batchesProcessed : UInt64 := 0
  batchSizeHistogram : List UInt64
  /-- The local variable of the worker. -/
  failed : Bool := false
  engineFailed : Bool := false
  shutdownStarted : Bool := false
  gateway : GatewayPhase := .idle
  worker : WorkerPhase := .waiting
  halted : Option Halt := none

/-- The constructor of `ExchangeServer::Impl`. The size of the histogram is computed in
`std::size_t`. -/
def Server.ofConfig (config : ExchangeServerConfig) (engine : DurableEngine) (f : File) :
    Server where
  config := config
  inFlightLimiter := InFlightLimiter.ofCapacity config.maximumInFlight.toNat
  requestQueue := BoundedQueue.ofCapacity config.requestQueueCapacity.toNat
  responseQueue := BoundedQueue.ofCapacity config.maximumInFlight.toNat
  engine := engine
  file := f
  batchSizeHistogram := List.replicate (config.requestQueueCapacity + 1).toNat 0

/-- `ExchangeServer::create`, with the results of the startup of the engine and of the gateway. -/
def ExchangeServer.create (config : ExchangeServerConfig)
    (engineResult : Except DurableEngineError (DurableEngine × File)) (gatewayCreated : Bool) :
    Except ExchangeServerError Server :=
  if config.maximumInFlight = 0 ∨ config.requestQueueCapacity = 0 ∨
      config.maxDurableBatchSize = 0 then
    .error { code := .invalidConfiguration }
  else
    match engineResult with
    | .error e => .error { code := .durableEngineStartupFailed, durableEngineError := some e }
    | .ok (engine, f) =>
      if gatewayCreated then .ok (Server.ofConfig config engine f)
      else .error { code := .gatewayStartupFailed }

/-! ### The worker -/

def unavailableResponse (request : EngineRequest) : EngineResponse :=
  .unavailable ⟨request.ids.1, request.ids.2⟩

def toJournalCommand : EngineRequest → JournalCommand
  | .submit request => .submitLimitOrder request.order
  | .cancel request => .cancelOrder request.orderId

/-- `summarize`, which terminates the program if request and result are of different kinds. -/
def summarize : EngineRequest → BatchCommandResult → Option EngineResponse
  | .submit request, .submit result =>
    some (.submit (summarizeSubmitResult request.connectionId request.requestId result))
  | .cancel request, .cancel result =>
    some (.cancel (summarizeCancelResult request.connectionId request.requestId result))
  | _, _ => none

namespace Server

/-- The loop that answers every request of a batch with `EngineUnavailable`. -/
def publishUnavailable (s : Server) (batch : List EngineRequest) : Server :=
  { s with worker := .publishing (batch.map fun r => (r, some (unavailableResponse r))) }

/-- The part of `execute_and_publish_batch` behind the statistics, with what becomes of the call of
the engine. -/
def executeBatch (s : Server) (batch : List EngineRequest) (call : DurableEngine.Call) : Server :=
  if s.failed then s.publishUnavailable batch
  else
    let r := DurableEngine.execute (s.engine, s.file) call
    let s := { s with engine := r.2.1, file := r.2.2 }
    match r.1 with
    | .ok results =>
      if results.length ≠ batch.length then { s with halted := some .terminated }
      else { s with worker := .publishing (batch.zip (List.zipWith summarize batch results)) }
    | .error _ => { s with failed := true, engineFailed := true }.publishUnavailable batch

/-- `execute_and_publish_batch` up to its last loop. -/
def executeAndPublishBatch (s : Server) (batch : List EngineRequest) (call : DurableEngine.Call) :
    Server :=
  let s := { s with
    batchesProcessed := s.batchesProcessed + 1
    commandsProcessed := s.commandsProcessed + UInt64.ofNat batch.length }
  if h : batch.length < s.batchSizeHistogram.length then
    let histogram := s.batchSizeHistogram.set batch.length (s.batchSizeHistogram.get ⟨_, h⟩ + 1)
    { s with batchSizeHistogram := histogram }.executeBatch batch call
  else { s with halted := some .outOfRange }

/-! ### Steps -/

/-- What a step shows of itself. -/
inductive Event where
  /-- A request was pushed on the request queue. -/
  | admitted (request : EngineRequest)
  /-- `execute_and_publish_batch` was called. -/
  | called (batch : List EngineRequest)
  /-- A completion was pushed on the response queue. -/
  | published (response : EngineResponse)
  /-- The gateway has released the reservation of a completion. -/
  | delivered (response : EngineResponse)
  | internal
  deriving DecidableEq, Repr

/-- One step of one party. A batch vector has at most `maxSize` elements. -/
inductive Step (maxSize : ℕ) : Server → Event → Server → Prop
  -- the gateway
  | acquire {s : Server} {limiter : InFlightLimiter} (request : EngineRequest)
      (hidle : s.gateway = .idle) (hopen : s.shutdownStarted = false)
      (hhealthy : s.engineFailed = false)
      (hacquire : s.inFlightLimiter.tryAcquire = some limiter) :
      Step maxSize s .internal
        { s with inFlightLimiter := limiter, gateway := .admitting request }
  | enqueue {s : Server} {request : EngineRequest} {queue : BoundedQueue EngineRequest}
      (hadmitting : s.gateway = .admitting request)
      (hpush : s.requestQueue.tryPush request = some queue) :
      Step maxSize s (.admitted request) { s with requestQueue := queue, gateway := .idle }
  | refuse {s : Server} {request : EngineRequest} {limiter : InFlightLimiter}
      (hadmitting : s.gateway = .admitting request)
      (hpush : s.requestQueue.tryPush request = none)
      (hrelease : s.inFlightLimiter.releaseOne = some limiter) :
      Step maxSize s .internal { s with inFlightLimiter := limiter, gateway := .idle }
  | takeCompletion {s : Server} {response : EngineResponse} {queue : BoundedQueue EngineResponse}
      (hidle : s.gateway = .idle) (hpop : s.responseQueue.tryPop = some (response, queue)) :
      Step maxSize s .internal
        { s with responseQueue := queue, gateway := .delivering response }
  | release {s : Server} {response : EngineResponse} {limiter : InFlightLimiter}
      (hdelivering : s.gateway = .delivering response)
      (hrelease : s.inFlightLimiter.releaseOne = some limiter) :
      Step maxSize s (.delivered response) { s with inFlightLimiter := limiter, gateway := .idle }
  | releaseNothing {s : Server}
      (hholding : (∃ request, s.gateway = .admitting request ∧
          s.requestQueue.tryPush request = none) ∨ ∃ response, s.gateway = .delivering response)
      (hrelease : s.inFlightLimiter.releaseOne = none) :
      Step maxSize s .internal { s with halted := some .terminated }
  | shutdown {s : Server} (hidle : s.gateway = .idle) (hopen : s.shutdownStarted = false) :
      Step maxSize s .internal
        { s with shutdownStarted := true, requestQueue := s.requestQueue.close }
  | exit {s : Server} (hidle : s.gateway = .idle) (hshutdown : s.shutdownStarted = true)
      (hclosed : s.responseQueue.closed = true) (hempty : s.responseQueue.items = []) :
      Step maxSize s .internal { s with gateway := .exited }
  -- the worker
  | pop {s : Server} {request : EngineRequest} {queue : BoundedQueue EngineRequest}
      (hwaiting : s.worker = .waiting) (hpop : s.requestQueue.tryPop = some (request, queue))
      (hreserve : s.config.maxDurableBatchSize.toNat ≤ maxSize) :
      Step maxSize s .internal { s with requestQueue := queue, worker := .draining [request] }
  | drain {s : Server} {batch : List EngineRequest} {request : EngineRequest}
      {queue : BoundedQueue EngineRequest} (hdraining : s.worker = .draining batch)
      (hlt : batch.length < s.config.maxDurableBatchSize.toNat)
      (hpop : s.requestQueue.tryPop = some (request, queue)) :
      Step maxSize s .internal
        { s with requestQueue := queue, worker := .draining (batch ++ [request]) }
  | stopDraining {s : Server} {batch : List EngineRequest} (hdraining : s.worker = .draining batch)
      (hstop : batch.length < s.config.maxDurableBatchSize.toNat → s.requestQueue.tryPop = none) :
      Step maxSize s .internal { s with worker := .executing batch }
  | execute {s : Server} {batch : List EngineRequest} (hexecuting : s.worker = .executing batch)
      (call : DurableEngine.Call) (hcall : call.batch = batch.map toJournalCommand) :
      Step maxSize s (.called batch) (s.executeAndPublishBatch batch call)
  | publish {s : Server} {request : EngineRequest} {response : EngineResponse}
      {remaining : List (EngineRequest × Option EngineResponse)}
      {queue : BoundedQueue EngineResponse}
      (hpublishing : s.worker = .publishing ((request, some response) :: remaining))
      (hpush : s.responseQueue.tryPush response = some queue) :
      Step maxSize s (.published response)
        { s with responseQueue := queue, worker := .publishing remaining }
  | publishNothing {s : Server} {request : EngineRequest} {response : Option EngineResponse}
      {remaining : List (EngineRequest × Option EngineResponse)}
      (hpublishing : s.worker = .publishing ((request, response) :: remaining))
      (hpush : ∀ r, response = some r → s.responseQueue.tryPush r = none) :
      Step maxSize s .internal { s with halted := some .terminated }
  | await {s : Server} (hpublishing : s.worker = .publishing []) :
      Step maxSize s .internal { s with worker := .waiting }
  | finish {s : Server} (hwaiting : s.worker = .waiting) (hclosed : s.requestQueue.closed = true)
      (hempty : s.requestQueue.items = []) :
      Step maxSize s .internal
        { s with responseQueue := s.responseQueue.close, worker := .finished }

/-- Any interleaving of the steps of the two parties, with the events it has shown. -/
inductive Run (maxSize : ℕ) (start : Server) : List Event → Server → Prop
  | refl : Run maxSize start [] start
  | step {events : List Event} {event : Event} {s s' : Server} (h : Run maxSize start events s)
      (hhalted : s.halted = none) (hstep : Step maxSize s event s') :
      Run maxSize start (events ++ [event]) s'

end Server

end MatchingEngine
