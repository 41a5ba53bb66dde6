import MatchingEngine.Gateway.Basic

/-!
# Creating a gateway

`GatewayServer::create` of `src/gateway_server.cpp` checks the configuration and opens the listener
and the descriptor that wakes the gateway. What the system calls return is an input. A server that
is created holds two descriptors more than before, and an error leaves none behind.

The configuration is checked against the size of the frame of a cancel request. The frame of a
submit request is longer, and a connection whose input buffer has no room for one fails in the
middle of the first that it receives.

## Main definitions

* `GatewayServer.create`.
* `ClientStreamParser.Accepts`: a parser finds these messages in some chunks, without an error.

## Main results

* `GatewayServer.create_created`: what `create` leaves.
* `GatewayServer.create_accepts_iff`: the streams that a connection accepts.
-/

namespace MatchingEngine

inductive GatewayServerErrorCode where
  | invalidConfiguration
  | invalidBindAddress
  | socketCreationFailed
  | socketOptionFailed
  | nonblockingFailed
  | bindFailed
  | listenFailed
  | socketNameFailed
  | wakeupCreationFailed
  deriving DecidableEq, Repr

/-- An error, with the number of the system error or zero. -/
structure GatewayServerError where
  code : GatewayServerErrorCode
  systemError : ℕ
  deriving DecidableEq, Repr

/-- `ServerConfig`, with the fields that only `create` reads. -/
structure GatewayServerConfig extends ServerConfig where
  bindAddress : String := "127.0.0.1"
  port : UInt16 := 0
  deriving DecidableEq, Repr

/-- What the system calls of `create` return: `errno`, or the part of the result that is used. -/
structure ListenerCalls where
  inetPton : String → Option UInt32
  socket : Except ℕ ℕ
  setsockopt : Option ℕ
  getStatusFlags : Option ℕ
  setStatusFlags : Option ℕ
  getDescriptorFlags : Option ℕ
  setDescriptorFlags : Option ℕ
  bind : UInt32 → UInt16 → Option ℕ
  listen : ℕ → Option ℕ
  getsockname : Except ℕ UInt16
  eventfd : Except ℕ ℕ

namespace ListenerCalls

def setNonblocking (calls : ListenerCalls) : Option ℕ :=
  match calls.getStatusFlags with
  | some e => some e
  | none => calls.setStatusFlags

def setCloseOnExec (calls : ListenerCalls) : Option ℕ :=
  match calls.getDescriptorFlags with
  | some e => some e
  | none => calls.setDescriptorFlags

/-- Calls that succeed, and return these descriptors and this port. -/
def succeed (listener wakeup : ℕ) (port : UInt16) : ListenerCalls where
  inetPton _ := some 0
  socket := .ok listener
  setsockopt := none
  getStatusFlags := none
  setStatusFlags := none
  getDescriptorFlags := none
  setDescriptorFlags := none
  bind _ _ := none
  listen _ := none
  getsockname := .ok port
  eventfd := .ok wakeup

end ListenerCalls

/-- A server with its descriptors and the port it listens on. The limiter and the queues belong to
the exchange server. -/
structure GatewayServer where
  gateway : Gateway
  listener : ℕ
  wakeup : ℕ
  port : UInt16

namespace GatewayServer

/-- The result of `create`, with the descriptors that are open then. -/
abbrev CreateResult := Except GatewayServerError GatewayServer × List ℕ

/-- The error of a call on the listener, which is closed, or what comes next. -/
def check (listener : ℕ) (fds : List ℕ) (code : GatewayServerErrorCode) (errno : Option ℕ)
    (next : CreateResult) : CreateResult :=
  match errno with
  | some e => (.error ⟨code, e⟩, fds.erase listener)
  | none => next

/-- The argument of `listen`. -/
def backlog (config : GatewayServerConfig) : ℕ :=
  if config.maximumConnections.toNat > 2 ^ 31 - 1 then 2 ^ 31 - 1
  else config.maximumConnections.toNat

/-- `GatewayServer::create`, in a process with these open descriptors. -/
def create (config : GatewayServerConfig) (calls : ListenerCalls) (fds : List ℕ) : CreateResult :=
  if config.bindAddress.isEmpty ∨ config.maximumConnections = 0 ∨
      config.maximumInputBufferBytes.toNat < wireFrameHeaderSize + cancelOrderRequestPayloadSize ∨
      config.maximumOutputBufferBytes = 0 then
    (.error ⟨.invalidConfiguration, 0⟩, fds)
  else
    match calls.inetPton config.bindAddress with
    | none => (.error ⟨.invalidBindAddress, 0⟩, fds)
    | some address =>
      match calls.socket with
      | .error e => (.error ⟨.socketCreationFailed, e⟩, fds)
      | .ok listener =>
        let fds := listener :: fds
        check listener fds .socketOptionFailed calls.setsockopt <|
        check listener fds .nonblockingFailed calls.setNonblocking <|
        check listener fds .nonblockingFailed calls.setCloseOnExec <|
        check listener fds .bindFailed (calls.bind address config.port) <|
        check listener fds .listenFailed (calls.listen (backlog config)) <|
        match calls.getsockname with
        | .error e => (.error ⟨.socketNameFailed, e⟩, fds.erase listener)
        | .ok port =>
          match calls.eventfd with
          | .error e => (.error ⟨.wakeupCreationFailed, e⟩, fds.erase listener)
          | .ok wakeup =>
            (.ok ⟨{ config := config.toServerConfig }, listener, wakeup, port⟩, wakeup :: fds)

/-! ### What `create` leaves -/

/-- A failed `create` leaves the descriptors that there were. A server has a configuration that was
checked, and its two descriptors are open. -/
inductive Created (config : GatewayServerConfig) (fds : List ℕ) : CreateResult → Prop
  | failed (e : GatewayServerError) : Created config fds (.error e, fds)
  | created (listener wakeup : ℕ) (port : UInt16) (haddress : config.bindAddress.isEmpty = false)
      (hconnections : config.maximumConnections ≠ 0)
      (hinput : 28 ≤ config.maximumInputBufferBytes.toNat)
      (houtput : config.maximumOutputBufferBytes ≠ 0) :
      Created config fds (.ok ⟨{ config := config.toServerConfig }, listener, wakeup, port⟩,
        wakeup :: listener :: fds)

variable {config : GatewayServerConfig} {fds : List ℕ}

theorem created_failed_erase (e : GatewayServerError) (listener : ℕ) :
    Created config fds (.error e, (listener :: fds).erase listener) := by
  rw [List.erase_cons_head]
  exact .failed e

theorem Created.check {next : CreateResult} (h : Created config fds next) (listener : ℕ)
    (code : GatewayServerErrorCode) (errno : Option ℕ) :
    Created config fds (check listener (listener :: fds) code errno next) := by
  cases errno with
  | none => exact h
  | some e => exact created_failed_erase _ listener

theorem create_created (config : GatewayServerConfig) (calls : ListenerCalls) (fds : List ℕ) :
    Created config fds (create config calls fds) := by
  rw [create]
  split_ifs with hinvalid
  · exact .failed _
  push Not at hinvalid
  obtain ⟨haddress, hconnections, hinput, houtput⟩ := hinvalid
  split
  · exact .failed _
  split
  · exact .failed _
  · next listener _ =>
    refine .check (.check (.check (.check (.check ?_ ..) ..) ..) ..) ..
    split
    · exact created_failed_erase _ listener
    split
    · exact created_failed_erase _ listener
    · exact .created listener _ _ (Bool.eq_false_iff.mpr haddress) hconnections hinput houtput

/-- The limit of a server is enough for a cancel request. -/
theorem le_maximumInputBufferBytes {calls : ListenerCalls} {server : GatewayServer}
    (h : (create config calls fds).1 = .ok server) :
    28 ≤ server.gateway.config.maximumInputBufferBytes.toNat := by
  have hcreated := create_created config calls fds
  generalize create config calls fds = result at h hcreated
  cases hcreated with
  | failed => cases h
  | created listener wakeup port _ _ hinput =>
    obtain rfl := Except.ok.inj h
    exact hinput

end GatewayServer

/-! ### The streams of a connection -/

/-- A parser finds these messages in some chunks, and it neither reports an error nor fails. -/
def ClientStreamParser.Accepts (p : ClientStreamParser) (chunks : List (List UInt8))
    (envelopes : List (WireEnvelope ClientMessage)) : Prop :=
  (runAll feed p chunks).1.flatMap (·.messages) = envelopes ∧
    (∀ result ∈ (runAll feed p chunks).1, result.error = none) ∧
    (runAll feed p chunks).2.failure = none

namespace GatewayServer

variable {config : GatewayServerConfig} {fds : List ℕ}

/-- The frames of cancel requests have 28 bytes, and the others 45. -/
theorem length_frame_le_iff {envelope : WireEnvelope ClientMessage} {bytes : List UInt8}
    (hencode : encodeClientFrame envelope = .ok bytes) {maximum : ℕ} (hmaximum : 28 ≤ maximum) :
    bytes.length ≤ maximum ↔
      45 ≤ maximum ∨ ∃ request, envelope.message = .cancelOrder request := by
  rw [WireProtocol.length_of_encodeClientFrame hencode]
  obtain ⟨requestId, request | request⟩ := envelope
  · refine ⟨Or.inl, fun h => h.resolve_right ?_⟩
    rintro ⟨_, hcancel⟩
    cases hcancel
  · exact ⟨fun _ => Or.inr ⟨request, rfl⟩, fun _ => hmaximum⟩

/-- The frames that have room in a buffer. -/
theorem length_frames_le_iff {envelopes : List (WireEnvelope ClientMessage)}
    {frames : List (List UInt8)}
    (hframes : List.Forall₂ (fun envelope bytes => encodeClientFrame envelope = .ok bytes)
      envelopes frames) {maximum : ℕ} (hmaximum : 28 ≤ maximum) :
    (∀ bytes ∈ frames, bytes.length ≤ maximum) ↔ 45 ≤ maximum ∨
      ∀ envelope ∈ envelopes, ∃ request, envelope.message = .cancelOrder request := by
  induction hframes with
  | nil => simp
  | cons hencode _ ih =>
    rw [List.forall_mem_cons, List.forall_mem_cons, ih, length_frame_le_iff hencode hmaximum,
      or_and_left]

/-- A connection of a server accepts a stream of frames, in any chunks, if and only if its input
buffer has room for the frame of a submit request or there is no submit request in the stream. A
connection that does not accept a stream fails because of the limit of its buffer. -/
theorem create_accepts_iff {calls : ListenerCalls} {server : GatewayServer}
    (hcreate : (create config calls fds).1 = .ok server)
    {envelopes : List (WireEnvelope ClientMessage)} {frames chunks : List (List UInt8)}
    (hframes : List.Forall₂ (fun envelope bytes => encodeClientFrame envelope = .ok bytes)
      envelopes frames) (hchunks : chunks.flatten = frames.flatten) :
    let parser := ClientStreamParser.ofLimit server.gateway.config.maximumInputBufferBytes.toNat
    let fits := 45 ≤ server.gateway.config.maximumInputBufferBytes.toNat ∨
      ∀ envelope ∈ envelopes, ∃ request, envelope.message = .cancelOrder request
    (parser.Accepts chunks envelopes ↔ fits) ∧
      (¬ fits → (runAll ClientStreamParser.feed parser chunks).2.failure =
        some .bufferLimitExceeded) := by
  have hlimit := le_maximumInputBufferBytes hcreate
  generalize server.gateway.config.maximumInputBufferBytes.toNat = maximum at hlimit ⊢
  intro parser fits
  have hsettled := ClientStreamParser.settled_ofLimit maximum
  obtain ⟨-, hmessages, hstate⟩ := ClientStreamParser.feedAll_receiveAll hsettled chunks
  rw [hchunks] at hmessages hstate
  have hfits : (∀ bytes ∈ frames, bytes.length ≤ maximum) ↔ fits :=
    length_frames_le_iff hframes hlimit
  by_cases h : fits
  · have hreader := receiveAll_frames hframes (hfits.mpr h)
    have hfailure := ClientStreamParser.failure_of_state_eq_ok
      (hstate.trans (congrArg Prod.snd hreader))
    refine ⟨iff_of_true ⟨?_, ?_, hfailure⟩ h, absurd h⟩
    · exact hmessages.trans (congrArg Prod.fst hreader)
    · exact ClientStreamParser.error_eq_none_of_feedAll hsettled hfailure
  · obtain ⟨bytes, hmem, hlong⟩ : ∃ bytes ∈ frames, maximum < bytes.length := by
      by_contra hnone
      push Not at hnone
      exact h (hfits.mp hnone)
    have hfailure := ClientStreamParser.failure_of_state_eq_error
      (hstate.trans (receiveAll_frames_of_lt hframes hmem hlong))
    refine ⟨iff_of_false (fun haccepts => ?_) h, fun _ => hfailure⟩
    cases haccepts.2.2.symm.trans hfailure

/-- The least limit that is accepted. -/
def leastConfig : GatewayServerConfig := { maximumInputBufferBytes := 28 }

def submitEnvelope : WireEnvelope ClientMessage :=
  ⟨⟨1⟩, .submitLimitOrder ⟨⟨7⟩, 1, ⟨100⟩, ⟨5⟩⟩⟩

def cancelEnvelope : WireEnvelope ClientMessage := ⟨⟨1⟩, .cancelOrder ⟨⟨7⟩⟩⟩

def cancelBytes : List UInt8 :=
  [77, 69, 88, 71, 0, 1, 0, 2, 0, 0, 0, 8, 0, 0, 0, 0, 0, 0, 0, 1, 0, 0, 0, 0, 0, 0, 0, 7]

/-- A server with the least limit fails a connection in the middle of a valid submit request. -/
theorem create_rejects_submit :
    ∃ server bytes, (create leastConfig (.succeed 3 4 9000) []).1 = .ok server ∧
      encodeClientFrame submitEnvelope = .ok bytes ∧
      let parser := ClientStreamParser.ofLimit server.gateway.config.maximumInputBufferBytes.toNat
      (parser.feed bytes).1 = ⟨[], some .bufferLimitExceeded⟩ ∧
        ¬ parser.Accepts [bytes] [submitEnvelope] := by
  refine ⟨_, _, rfl, rfl, rfl, fun h => ?_⟩
  cases h.1

/-- It accepts cancel requests, here two of them in chunks of 5 and 51 bytes. -/
theorem create_accepts_cancels :
    (ClientStreamParser.ofLimit leastConfig.maximumInputBufferBytes.toNat).Accepts
      [cancelBytes.take 5, cancelBytes.drop 5 ++ cancelBytes] [cancelEnvelope, cancelEnvelope] := by
  have hcreate : (create leastConfig (.succeed 3 4 9000) []).1 =
      .ok ⟨{ config := leastConfig.toServerConfig }, 3, 4, 9000⟩ := rfl
  have hencode : encodeClientFrame cancelEnvelope = .ok cancelBytes := rfl
  have hchunks : [cancelBytes.take 5, cancelBytes.drop 5 ++ cancelBytes].flatten =
      [cancelBytes, cancelBytes].flatten := rfl
  have haccepts := create_accepts_iff hcreate (.cons hencode (.cons hencode .nil)) hchunks
  exact haccepts.1.mpr (Or.inr (by simp [cancelEnvelope]))

end GatewayServer

end MatchingEngine
