import MatchingEngine.ExchangeServer.Basic
import MatchingEngine.Gateway.Output
import MatchingEngine.WireProtocol.Parser

/-!
# The gateway

The connections of `src/gateway_server.cpp`: what becomes of the bytes of a client until its
requests are on the request queue, and of the completions until their bytes are with the socket.
Together with the exchange server, whose step relation knows the gateway as far as it uses the
queues and the limiter, this is the whole pipeline. Each step here is a step of the worker, one of
the gateway alone, or a step of the gateway in the exchange server with what it does to the
connections.

The functions of the loop in `run` are called in any order, and on any connection, whatever `poll`
reports; a stop can be requested at any time. `accept` returns a descriptor that is not open,
`recv` any bytes and `send` any result. There is no response hook, as in a server that is created by
`ExchangeServer::create`.

## Main definitions

* `toWireResponse`, `Connection`, `Gateway`.
* `Gateway.deliver`, `Connection.flushOutput`, `Gateway.retainPending`, `Gateway.backOff`.
* `Exchange.Step`, `Exchange.Run`: one step of the pipeline, and any interleaving.
-/

namespace MatchingEngine

/-- The fields of `ServerConfig` that the gateway reads once it listens. -/
structure ServerConfig where
  maximumConnections : UInt64 := 256
  maximumInputBufferBytes : UInt64 := 64 * 1024
  maximumOutputBufferBytes : UInt64 := 64 * 1024
  deriving DecidableEq, Repr

def receiveBufferSize : ℕ := 4096

def maximumPendingRequests : ℕ := 4096

/-- `to_wire_response`. -/
def toWireResponse : EngineResponse → Option (WireEnvelope ServerMessage)
  | .submit response =>
    let status : WireSubmitStatus :=
      if response.status = .accepted then .accepted else .rejected
    match response.rejectionReason with
    | none => some ⟨response.requestId, .submitResult
        ⟨status, .none, response.executedQuantity, response.restingQuantity⟩⟩
    | some reason =>
      match toWireRejectionCode reason with
      | none => none
      | some rejection => some ⟨response.requestId, .submitResult
          ⟨status, rejection, response.executedQuantity, response.restingQuantity⟩⟩
  | .cancel response =>
    match toWireCancelStatus response.status with
    | none => none
    | some status =>
      some ⟨response.requestId, .cancelResult ⟨status, response.cancelledQuantity⟩⟩
  | .unavailable response => some ⟨response.requestId, .engineUnavailable {}⟩

/-! ### Connections -/

structure Connection where
  id : ConnectionId
  descriptor : ℕ
  parser : ClientStreamParser
  output : ConnectionOutputBuffer
  closing : Bool

namespace Connection

/-- The end of a connection whose output is given up. -/
def abandon (c : Connection) : Connection := { c with output := c.output.clear, closing := true }

/-- `queue_response`. -/
def queueResponse (c : Connection) (response : WireEnvelope ServerMessage)
    (maximumOutputBufferBytes : ℕ) : Connection :=
  match encodeServerFrame response with
  | .error _ => c.abandon
  | .ok bytes =>
    match c.output.append bytes maximumOutputBufferBytes with
    | none => c.abandon
    | some output => { c with output := output }

/-- The part of `drain_engine_completions` for a connection that was found. -/
def deliver (c : Connection) (response : EngineResponse) (maximumOutputBufferBytes : ℕ) :
    Connection :=
  if c.closing then c
  else
    match toWireResponse response with
    | none => c.abandon
    | some envelope => c.queueResponse envelope maximumOutputBufferBytes

/-- `flush_output`, with the bytes that the socket has accepted. -/
def flushOutput (c : Connection) (results : List SendResult) : List UInt8 × Connection :=
  match c.output.flush results with
  | (.fatal, bytes, _) => (bytes, c.abandon)
  | (_, bytes, output) => (bytes, { c with output := output })

end Connection

structure PendingRequest where
  connectionId : ConnectionId
  request : WireEnvelope ClientMessage
  deriving DecidableEq, Repr

/-- The request that a pending message stands for. -/
def PendingRequest.engineRequest (p : PendingRequest) : EngineRequest :=
  toEngineRequest p.connectionId p.request

/-- What the gateway thread is in the middle of. -/
inductive GatewayTask where
  | idle
  /-- `receive_from` admits the messages of one `feed`, of which these are left. Whether the parser
  has reported an error is looked at behind the last one. -/
  | receiving (descriptor : ℕ) (connectionId : ConnectionId)
      (messages : List (WireEnvelope ClientMessage)) (failed : Bool)
  /-- `drain_pending_requests` is in its loop. -/
  | draining
  deriving DecidableEq, Repr

structure Gateway where
  config : ServerConfig
  connections : List Connection := []
  pendingRequests : List PendingRequest := []
  nextConnectionId : UInt64 := 1
  readsPaused : Bool := false
  listening : Bool := true
  task : GatewayTask := .idle

namespace Gateway

/-- `find_connection`. -/
def findConnection (g : Gateway) (id : ConnectionId) : Option Connection :=
  g.connections.find? fun c => c.id = id

/-- The gateway with a change of the connection with this descriptor. -/
def update (g : Gateway) (descriptor : ℕ) (change : Connection → Connection) : Gateway :=
  { g with connections := g.connections.map fun c =>
      if c.descriptor = descriptor then change c else c }

def markClosing (g : Gateway) (descriptor : ℕ) : Gateway :=
  g.update descriptor fun c => { c with closing := true }

/-- The part of `accept_connections` for a connection that is not rejected. -/
def accept (g : Gateway) (descriptor : ℕ) : Gateway :=
  { g with
    nextConnectionId := g.nextConnectionId + 1
    connections := g.connections ++
      [{ id := ⟨g.nextConnectionId⟩
         descriptor := descriptor
         parser := ClientStreamParser.ofLimit g.config.maximumInputBufferBytes.toNat
         output := ConnectionOutputBuffer.empty
         closing := false }] }

/-- `close_if_finished`. -/
def closeIfFinished (g : Gateway) (descriptor : ℕ) : Gateway :=
  match g.connections.find? fun c => c.descriptor = descriptor with
  | none => g
  | some c =>
    if c.closing ∧ c.output.isEmpty then
      { g with connections := g.connections.eraseP fun c' => c'.descriptor = descriptor }
    else g

/-- What `drain_engine_completions` does with a completion before it releases the reservation. -/
def deliver (g : Gateway) (response : EngineResponse) : Gateway :=
  match g.findConnection response.ids.1 with
  | none => g
  | some c => g.update c.descriptor fun c =>
      c.deliver response g.config.maximumOutputBufferBytes.toNat

/-! ### Requests -/

/-- `retain_pending`. -/
def retainPending (g : Gateway) (connectionId : ConnectionId)
    (request : WireEnvelope ClientMessage) : Gateway :=
  if g.pendingRequests.length = maximumPendingRequests then
    match g.findConnection connectionId with
    | none => g
    | some c => g.markClosing c.descriptor
  else { g with pendingRequests := g.pendingRequests ++ [⟨connectionId, request⟩] }

/-- `receive_from` behind its loop over the messages. -/
def finishReceiving (g : Gateway) (descriptor : ℕ) (failed : Bool) : Gateway :=
  let g := { g with task := .idle }
  if failed then g.markClosing descriptor else g

/-- The request for which `admit` is called next. -/
def candidate (g : Gateway) : Option EngineRequest :=
  match g.task, g.pendingRequests with
  | .receiving _ connectionId (message :: _) _, _ => some (toEngineRequest connectionId message)
  | .draining, pending :: _ =>
    match g.findConnection pending.connectionId with
    | none => none
    | some c => if c.closing then none else some (toEngineRequest c.id pending.request)
  | _, _ => none

/-- The gateway after `admit` has returned `true`. -/
def advance (g : Gateway) : Gateway :=
  match g.task with
  | .idle => g
  | .receiving descriptor connectionId messages failed =>
    { g with task := .receiving descriptor connectionId messages.tail failed }
  | .draining => { g with pendingRequests := g.pendingRequests.tail }

/-- The gateway after `admit` has returned `false`. -/
def backOff (g : Gateway) : Gateway :=
  match g.task with
  | .idle => g
  | .receiving descriptor connectionId messages failed =>
    let g := messages.foldl (fun g message => g.retainPending connectionId message) g
    { g with readsPaused := true }.finishReceiving descriptor failed
  | .draining => { g with readsPaused := true, task := .idle }

end Gateway

/-! ### The pipeline -/

structure Exchange where
  server : Server
  gateway : Gateway

namespace Exchange

/-- The exchange server that was created, with a gateway that listens. -/
def ofServer (server : Server) (config : ServerConfig) : Exchange :=
  { server := server, gateway := { config := config } }

/-- The gateway thread is between two functions of its loop. -/
def Idle (x : Exchange) : Prop := x.server.gateway = .idle ∧ x.gateway.task = .idle

/-- What a step shows of itself. -/
inductive Event where
  | server (event : Server.Event)
  /-- The shutdown has begun, and these requests are not pending any more. -/
  | shutdown (cleared : List PendingRequest)
  /-- A connection was fed, and its parser has produced these messages. -/
  | received (connectionId : ConnectionId) (messages : List (WireEnvelope ClientMessage))
  /-- A request is not pending any more because its connection is closed, or closing. -/
  | skipped (pending : PendingRequest)
  /-- The socket of a connection has accepted these bytes. -/
  | sent (connectionId : ConnectionId) (bytes : List UInt8)
  | internal

/-- One step of one party. -/
inductive Step (maxSize : ℕ) : Exchange → Event → Exchange → Prop
  -- the worker
  | worker {x : Exchange} {event : Server.Event} {s : Server}
      (hstep : Server.Step maxSize x.server event s) (hgateway : s.gateway = x.server.gateway)
      (hshutdown : s.shutdownStarted = x.server.shutdownStarted) :
      Step maxSize x (.server event) { x with server := s }
  -- connections
  | accept {x : Exchange} {descriptor : ℕ} (hidle : x.Idle)
      (hlistening : x.gateway.listening = true) (hopen : x.server.shutdownStarted = false)
      (hsize : x.gateway.connections.length < x.gateway.config.maximumConnections.toNat)
      (hid : x.gateway.nextConnectionId ≠ 0)
      (hfresh : ∀ c ∈ x.gateway.connections, c.descriptor ≠ descriptor) :
      Step maxSize x .internal { x with gateway := x.gateway.accept descriptor }
  | hangUp {x : Exchange} (descriptor : ℕ) (hidle : x.Idle) :
      Step maxSize x .internal { x with gateway := x.gateway.markClosing descriptor }
  | flush {x : Exchange} {c : Connection} (results : List SendResult) (hidle : x.Idle)
      (hc : c ∈ x.gateway.connections) :
      Step maxSize x (.sent c.id (c.flushOutput results).1)
        { x with gateway := x.gateway.update c.descriptor fun c => (c.flushOutput results).2 }
  | closeFinished {x : Exchange} (descriptor : ℕ) (hidle : x.Idle) :
      Step maxSize x .internal { x with gateway := x.gateway.closeIfFinished descriptor }
  -- `receive_from`
  | receive {x : Exchange} {c : Connection} (bytes : List UInt8) (hidle : x.Idle)
      (hc : c ∈ x.gateway.connections) (hclosing : c.closing = false)
      (hreads : x.gateway.readsPaused = false) (hopen : x.server.shutdownStarted = false)
      (hne : bytes ≠ []) (hlength : bytes.length ≤ receiveBufferSize) :
      Step maxSize x (.received c.id (c.parser.feed bytes).1.messages)
        { x with gateway := { x.gateway.update c.descriptor
              (fun c => { c with parser := (c.parser.feed bytes).2 }) with
            task := .receiving c.descriptor c.id (c.parser.feed bytes).1.messages
              (c.parser.feed bytes).1.error.isSome } }
  | finishReceiving {x : Exchange} {descriptor : ℕ} {connectionId : ConnectionId} {failed : Bool}
      (hidle : x.server.gateway = .idle)
      (htask : x.gateway.task = .receiving descriptor connectionId [] failed) :
      Step maxSize x .internal { x with gateway := x.gateway.finishReceiving descriptor failed }
  -- `drain_pending_requests`
  | startDraining {x : Exchange} (hidle : x.Idle) (hopen : x.server.shutdownStarted = false)
      (hhealthy : x.server.engineFailed = false) :
      Step maxSize x .internal { x with gateway := { x.gateway with task := .draining } }
  | skip {x : Exchange} {pending : PendingRequest} {rest : List PendingRequest}
      (hidle : x.server.gateway = .idle) (htask : x.gateway.task = .draining)
      (hpending : x.gateway.pendingRequests = pending :: rest)
      (hclosed : ∀ c, x.gateway.findConnection pending.connectionId = some c → c.closing = true) :
      Step maxSize x (.skipped pending)
        { x with gateway := { x.gateway with pendingRequests := rest } }
  | finishDraining {x : Exchange} (hidle : x.server.gateway = .idle)
      (htask : x.gateway.task = .draining) (hpending : x.gateway.pendingRequests = []) :
      Step maxSize x .internal
        { x with gateway := { x.gateway with readsPaused := false, task := .idle } }
  -- `admit`, which either of the two calls
  | acquire {x : Exchange} {request : EngineRequest} {event : Server.Event} {s : Server}
      (hidle : x.server.gateway = .idle) (hcandidate : x.gateway.candidate = some request)
      (hstep : Server.Step maxSize x.server event s) (hadmitting : s.gateway = .admitting request) :
      Step maxSize x (.server event) { x with server := s }
  | enqueue {x : Exchange} {request : EngineRequest} {s : Server}
      (hstep : Server.Step maxSize x.server (.admitted request) s) :
      Step maxSize x (.server (.admitted request)) { server := s, gateway := x.gateway.advance }
  | refuse {x : Exchange} {request : EngineRequest} {event : Server.Event} {s : Server}
      (hadmitting : x.server.gateway = .admitting request)
      (hpush : x.server.requestQueue.tryPush request = none)
      (hstep : Server.Step maxSize x.server event s) (hidle : s.gateway = .idle) :
      Step maxSize x (.server event) { server := s, gateway := x.gateway.backOff }
  | reject {x : Exchange} {request : EngineRequest} (hidle : x.server.gateway = .idle)
      (hcandidate : x.gateway.candidate = some request)
      (hrejects : x.server.shutdownStarted = true ∨ x.server.engineFailed = true ∨
        x.server.inFlightLimiter.tryAcquire = none) :
      Step maxSize x .internal { x with gateway := x.gateway.backOff }
  -- `drain_engine_completions`
  | take {x : Exchange} {response : EngineResponse} {event : Server.Event} {s : Server}
      (hidle : x.Idle) (hstep : Server.Step maxSize x.server event s)
      (hdelivering : s.gateway = .delivering response) :
      Step maxSize x (.server event) { x with server := s }
  | deliver {x : Exchange} {response : EngineResponse} {s : Server}
      (hstep : Server.Step maxSize x.server (.delivered response) s) :
      Step maxSize x (.server (.delivered response))
        { server := s, gateway := x.gateway.deliver response }
  -- the end
  | shutdown {x : Exchange} {event : Server.Event} {s : Server} (hidle : x.Idle)
      (hopen : x.server.shutdownStarted = false) (hstep : Server.Step maxSize x.server event s)
      (hshutdown : s.shutdownStarted = true) :
      Step maxSize x (.shutdown x.gateway.pendingRequests)
        { server := s
          gateway := { x.gateway with listening := false, pendingRequests := [] } }
  | exit {x : Exchange} {event : Server.Event} {s : Server} (hidle : x.Idle)
      (hstep : Server.Step maxSize x.server event s) (hexited : s.gateway = .exited) :
      Step maxSize x (.server event)
        { server := s, gateway := { x.gateway with listening := false, connections := [] } }

/-- Any interleaving of the gateway and the worker, with the events it has shown. -/
inductive Run (maxSize : ℕ) (start : Exchange) : List Event → Exchange → Prop
  | refl : Run maxSize start [] start
  | step {events : List Event} {event : Event} {x x' : Exchange} (h : Run maxSize start events x)
      (hhalted : x.server.halted = none) (hstep : Step maxSize x event x') :
      Run maxSize start (events ++ [event]) x'

end Exchange

end MatchingEngine
