import MatchingEngine.Gateway.Pending
import MatchingEngine.Gateway.Responses

/-!
# Responses find their connection

A completion names the connection of its request, and an identity is never given to another
connection, so a response can only reach the output of the connection that has asked, whatever
descriptors are used again. The output keeps the order in which completions are delivered; it ends
when the connection gives up its output or does not take a response any more, and a connection that
is closing takes none. Therefore what the socket has accepted begins the frames of the responses.

## Main definitions

* `Exchange.Routed`: every connection carries the frames of its responses.

## Main results

* `Exchange.Routed.step`, `Exchange.Run.routed`: in any interleaving.
* `Exchange.run_routes`: the bytes that are sent to a connection.
* `Exchange.responses_encode`: every response is encoded, and read back as what the book has done.
-/

namespace MatchingEngine

theorem Connection.flushOutput_fst (c : Connection) (results : List SendResult) :
    (c.flushOutput results).1 = (c.output.flush results).2.1 := by
  rw [flushOutput]
  split <;> next h => rw [h]

/-! ### What was delivered -/

namespace Exchange

section Delivered

variable {maxSize : ℕ} {config : ExchangeServerConfig} {engine : DurableEngine} {f : Posix.File}
  {startup : List JournalCommand} {gatewayConfig : ServerConfig} {events : List Event}
  {x : Exchange}

/-- The completions that were delivered are the first ones. -/
theorem Run.delivered_isPrefix
    (hrun : Run maxSize (ofServer (Server.ofConfig config engine f) gatewayConfig) events x) :
    Server.delivered (shown events) <+: Server.published (shown events) := by
  rw [((Server.closing_ofConfig config engine f).run hrun.server).responses_eq, List.append_assoc]
  exact List.prefix_append _ _

/-- The completions answer the requests admitted first. -/
theorem Run.ids_isPrefix (hready : engine.Ready f startup)
    (hrun : Run maxSize (ofServer (Server.ofConfig config engine f) gatewayConfig) events x) :
    (Server.published (shown events)).map EngineResponse.ids <+:
      (Server.admitted (shown events)).map EngineRequest.ids := by
  obtain ⟨completed, executed, refused, h⟩ :=
    (Server.pipelined_ofConfig config hready).run hrun.server
  rw [h.ids_eq, h.requests_eq, List.append_assoc]
  exact (List.prefix_append _ _).map _

theorem Run.encodes (hready : engine.Ready f startup)
    (hrun : Run maxSize (ofServer (Server.ofConfig config engine f) gatewayConfig) events x) :
    ∀ response ∈ Server.published (shown events), response.Encodes := by
  obtain ⟨completed, executed, refused, h⟩ :=
    (Server.pipelined_ofConfig config hready).run hrun.server
  intro response hresponse
  obtain ⟨_, heq, hencodes⟩ := h.forall_mem
    (fun answer => ∃ response, answer = some response ∧ response.Encodes) exists_summarize_encodes
    (fun request => ⟨_, rfl, encodes_unavailableResponse request⟩) (some response)
    (List.mem_append_left _ (List.mem_map_of_mem hresponse))
  rwa [Option.some.inj heq]

/-- Requests are admitted of connections that were accepted. -/
theorem Orderly.admitted_ids_lt (h : Orderly events x) :
    ∀ request ∈ Server.admitted (shown events),
      request.ids.1.value.toNat < x.gateway.issued := by
  intro request hrequest
  rw [admitted_shown] at hrequest
  obtain ⟨o, ho, rfl⟩ := List.mem_map.mp hrequest
  exact h.ids_lt _ (h.mem_received (List.mem_of_mem_filter ho))

/-- There is no frame for an identity that has not been given yet. -/
theorem Run.framesTo_eq_nil (hready : engine.Ready f startup)
    (hrun : Run maxSize (ofServer (Server.ofConfig config engine f) gatewayConfig) events x)
    {id : ConnectionId} (hid : x.gateway.issued ≤ id.value.toNat) : framesTo events id = [] := by
  have horderly : Orderly events x := (orderly_ofServer rfl gatewayConfig).run hrun
  rw [framesTo, List.filter_eq_nil_iff.mpr, List.flatMap_nil]
  intro response hresponse heq
  have hids := (hrun.ids_isPrefix hready).subset
    (List.mem_map_of_mem (hrun.delivered_isPrefix.subset hresponse))
  obtain ⟨request, hrequest, hsame⟩ := List.mem_map.mp hids
  have hlt := horderly.admitted_ids_lt request hrequest
  rw [hsame, of_decide_eq_true heq] at hlt
  omega

end Delivered

/-! ### Routing -/

/-- What was sent begins the frames, for every connection there has been. Those that are there carry
their frames. -/
structure Routed (events : List Event) (x : Exchange) : Prop where
  carries : ∀ c ∈ x.gateway.connections, c.Carries (sentTo events c.id) (framesTo events c.id)
  sent_isPrefix : ∀ id, sentTo events id <+: framesTo events id

section Routed

variable {maxSize : ℕ} {events : List Event} {event : Event} {x x' : Exchange}

theorem Event.Quiet.append_eq (h : event.Quiet) (events : List Event) (id : ConnectionId) :
    sentTo (events ++ [event]) id = sentTo events id ∧
      framesTo (events ++ [event]) id = framesTo events id := by
  rw [sentTo_append, framesTo_append, (h id).1, (h id).2, List.append_nil, List.append_nil]
  exact ⟨rfl, rfl⟩

theorem Routed.step (h : Routed events x)
    (hchanged : Gateway.Changed event x.gateway x'.gateway)
    (hfresh : ∀ id, x.gateway.issued ≤ id.value.toNat → framesTo events id = []) :
    Routed (events ++ [event]) x' := by
  cases hchanged with
  | kept change hconnections _ hevolves hsent =>
    have hcarries : ∀ c ∈ x.gateway.connections, (change c).Carries
        (sentTo (events ++ [event]) c.id) (framesTo (events ++ [event]) c.id) := by
      intro c hc
      rw [sentTo_append, framesTo_append]
      exact (hevolves c hc).carries_of _ _ (h.carries c hc)
    refine ⟨?_, fun id => ?_⟩
    · rw [hconnections]
      refine List.forall_mem_map.mpr fun c hc => ?_
      rw [(hevolves c hc).id_eq]
      exact hcarries c hc
    · by_cases hmissing : ∀ c ∈ x.gateway.connections, c.id ≠ id
      · rw [sentTo_append, framesTo_append, hsent id hmissing, List.append_nil]
        exact (h.sent_isPrefix id).trans (List.prefix_append _ _)
      · push Not at hmissing
        obtain ⟨c, hc, rfl⟩ := hmissing
        exact (hcarries c hc).sent_isPrefix
  | accepted hg' hnext _ hquiet =>
    have hnew : framesTo events ⟨x.gateway.nextConnectionId⟩ = [] :=
      hfresh _ (by rw [Gateway.issued, if_neg hnext])
    have hsent : sentTo events ⟨x.gateway.nextConnectionId⟩ = [] :=
      List.prefix_nil.mp (hnew ▸ h.sent_isPrefix _)
    refine ⟨fun c hc => ?_, fun id => ?_⟩
    · rw [(hquiet.append_eq events c.id).1, (hquiet.append_eq events c.id).2]
      rw [hg'] at hc
      rcases List.mem_append.mp hc with hold | hone
      · exact h.carries c hold
      · rw [List.mem_singleton.mp hone]
        dsimp only
        rw [hsent, hnew]
        exact ⟨List.prefix_refl _, fun _ => rfl⟩
    · rw [(hquiet.append_eq events id).1, (hquiet.append_eq events id).2]
      exact h.sent_isPrefix id
  | removed hsublist _ hquiet =>
    refine ⟨fun c hc => ?_, fun id => ?_⟩
    · rw [(hquiet.append_eq events c.id).1, (hquiet.append_eq events c.id).2]
      exact h.carries c (hsublist.subset hc)
    · rw [(hquiet.append_eq events id).1, (hquiet.append_eq events id).2]
      exact h.sent_isPrefix id

theorem Run.routed {config : ExchangeServerConfig} {engine : DurableEngine} {f : Posix.File}
    {startup : List JournalCommand} {gatewayConfig : ServerConfig} (hready : engine.Ready f startup)
    (hrun : Run maxSize (ofServer (Server.ofConfig config engine f) gatewayConfig) events x) :
    Routed events x := by
  induction hrun with
  | refl => exact ⟨nofun, fun _ => List.prefix_refl _⟩
  | step hrun _ hstep ih =>
    have horderly := (orderly_ofServer rfl gatewayConfig).run hrun
    exact ih.step (hstep.changed horderly.keyed horderly.controlled.roomy) fun _ =>
      hrun.framesTo_eq_nil hready

end Routed

/-- In every interleaving of a server on an engine that was created or recovered, and for every
connection: The completions for it have the numbers of the requests that were first admitted from
it, in order, and each has a frame. What the socket has accepted begins the concatenation of their
frames. Connections have distinct identities, and the next one is none of which a request was
admitted. -/
theorem run_routes (maxSize : ℕ) (config : ExchangeServerConfig) (engine : DurableEngine)
    (f : Posix.File) (gatewayCreated : Bool) (server : Server) (gatewayConfig : ServerConfig)
    (hstarted : DurableEngine.Started engine f)
    (hcreate : ExchangeServer.create config (.ok (engine, f)) gatewayCreated = .ok server)
    (events : List Event) (x : Exchange)
    (hrun : Run maxSize (ofServer server gatewayConfig) events x) :
    (∀ id, let responses := (Server.published (shown events)).filter fun r => r.ids.1 = id
      responses.map EngineResponse.ids <+:
        ((Server.admitted (shown events)).filter fun r => r.ids.1 = id).map EngineRequest.ids ∧
      (∀ response ∈ responses, response.Encodes) ∧
      sentTo events id <+: responses.flatMap responseFrame) ∧
    (x.gateway.connections.map (·.id)).Nodup ∧
    (x.gateway.nextConnectionId ≠ 0 → ∀ request ∈ Server.admitted (shown events),
      request.ids.1 ≠ ⟨x.gateway.nextConnectionId⟩) := by
  obtain ⟨-, rfl, startup, hready⟩ := ExchangeServer.exists_ready_of_create hstarted hcreate
  have horderly : Orderly events x := (orderly_ofServer rfl gatewayConfig).run hrun
  refine ⟨fun id => ⟨?_, ?_, ?_⟩, horderly.keyed.ids_nodup, ?_⟩
  · have hids := (hrun.ids_isPrefix hready).filter fun ids => ids.1 = id
    rwa [List.filter_map, List.filter_map] at hids
  · exact fun response hresponse => hrun.encodes hready response (List.mem_of_mem_filter hresponse)
  · obtain ⟨rest, heq⟩ := hrun.delivered_isPrefix
    rw [← heq, List.filter_append, List.flatMap_append]
    exact ((hrun.routed hready).sent_isPrefix id).trans (List.prefix_append _ _)
  · intro hnext request hrequest heq
    have hlt := horderly.admitted_ids_lt request hrequest
    rw [heq, Gateway.issued, if_neg hnext] at hlt
    exact lt_irrefl _ hlt

/-- After any history of a book, the command of any message of a client has a result that is
summarized, converted and encoded. What is decoded is the number of the message with the status, the
reason and the quantities of the result, and the quantities of an accepted order add up to what was
requested. In every interleaving of a server, each response is converted and encoded, so that an
open connection gives up on one only if there is no room for its frame. -/
theorem responses_encode :
    (∀ (commands : List JournalCommand) (connectionId : ConnectionId)
      (envelope : WireEnvelope ClientMessage), ∃ results b result b' response message bytes,
      OrderBook.fresh.run commands = .ok (results, b) ∧
      b.applyCommand (toJournalCommand (toEngineRequest connectionId envelope)) =
        .ok (result, b') ∧
      summarize (toEngineRequest connectionId envelope) result = some response ∧
      toWireResponse response = some ⟨envelope.requestId, message⟩ ∧
      encodeServerFrame ⟨envelope.requestId, message⟩ = .ok bytes ∧
      (∀ rest, decodeServerFramePrefix (bytes ++ rest) =
        .ok ⟨⟨envelope.requestId, message⟩, bytes.length⟩) ∧
      result.ReportedBy message ∧
      (∀ request reply, envelope.message = .submitLimitOrder request →
        message = .submitResult reply → reply.status = .accepted →
          reply.executedQuantity.toNat + reply.restingQuantity.toNat = request.quantity.toNat) ∧
      ∀ (c : Connection) (maximum : ℕ), c.closing = false →
        c.deliver response maximum = c.queueFrame bytes maximum) ∧
    ∀ maxSize config engine f gatewayCreated server gatewayConfig events x,
      DurableEngine.Started engine f →
      ExchangeServer.create config (.ok (engine, f)) gatewayCreated = .ok server →
      Run maxSize (ofServer server gatewayConfig) events x →
      ∀ response ∈ Server.published (shown events), ∃ envelope bytes,
        toWireResponse response = some envelope ∧ encodeServerFrame envelope = .ok bytes ∧
          ∀ (c : Connection) (maximum : ℕ), c.closing = false →
            c.deliver response maximum = c.queueFrame bytes maximum := by
  refine ⟨fun commands connectionId envelope => ?_, ?_⟩
  · have hrun := Book.fresh.run_eq commands
    generalize (Book.fresh.run commands).2 = book at hrun
    obtain ⟨response, message, hsummarize, hwire, hvalid, hreported⟩ :=
      exists_reported book (toEngineRequest connectionId envelope)
    rw [ids_toEngineRequest] at hwire
    have hbytes : encodeServerFrame ⟨envelope.requestId, message⟩ = _ :=
      WireProtocol.encodeServerFrame_of_valid hvalid
    have hencodes : response.Encodes := encodes_of_valid hwire
      ((congrArg Prod.snd (ids_of_summarize hsummarize)).trans (by rw [ids_toEngineRequest])).symm
      hvalid
    refine ⟨_, book.impl, _, _, response, message, _, hrun, book.applyCommand_eq _, hsummarize,
      hwire, hbytes, WireProtocol.serverCodec.decodeFramePrefix_frame _ _ hvalid, hreported, ?_,
      fun c maximum hopen => ?_⟩
    · rintro request reply hmessage rfl haccepted
      rw [toEngineRequest, hmessage] at hreported
      exact book.executed_add_resting hreported haccepted
    · rw [hencodes.deliver_eq hopen, responseFrame_eq hwire hbytes]
  · intro maxSize config engine f gatewayCreated server gatewayConfig events x hstarted hcreate hrun
      response hresponse
    obtain ⟨-, rfl, startup, hready⟩ := ExchangeServer.exists_ready_of_create hstarted hcreate
    have hencodes := hrun.encodes hready response hresponse
    have hdeliver : ∀ (c : Connection) (maximum : ℕ), c.closing = false →
        c.deliver response maximum = c.queueFrame (responseFrame response) maximum :=
      fun c maximum hopen => hencodes.deliver_eq hopen maximum
    obtain ⟨envelope, henvelope, -, hbytes⟩ := hencodes
    exact ⟨envelope, _, henvelope, hbytes, hdeliver⟩

/-- The side of an order can be any octet. The rejection is encoded and read back. -/
theorem invalid_side_encodes : ∃ bytes,
    encodeServerFrame ⟨⟨1⟩, .submitResult ⟨.rejected, .invalidSide, ⟨0⟩, ⟨0⟩⟩⟩ = .ok bytes ∧
      decodeServerFramePrefix bytes =
        .ok ⟨⟨⟨1⟩, .submitResult ⟨.rejected, .invalidSide, ⟨0⟩, ⟨0⟩⟩⟩, bytes.length⟩ := by
  obtain ⟨results, b, result, b', response, message, bytes, hrun, happly, hsummarize, hwire,
    hencode, hdecode, -⟩ :=
    responses_encode.1 [] ⟨1⟩ ⟨⟨1⟩, .submitLimitOrder ⟨⟨7⟩, 9, ⟨100⟩, ⟨5⟩⟩⟩
  cases hrun
  cases happly
  cases hsummarize
  cases hwire
  have hframe := hdecode []
  rw [List.append_nil] at hframe
  exact ⟨bytes, hencode, hframe⟩

/-- A completion for the only connection is put in its output. -/
theorem deliver_singleton {g : Gateway} {c : Connection} {response : EngineResponse}
    (hconnections : g.connections = [c]) (hid : c.id = response.ids.1) (hopen : c.closing = false)
    (hempty : c.output = .empty) (hencodes : response.Encodes)
    (hfits : (responseFrame response).length ≤ g.config.maximumOutputBufferBytes.toNat) :
    g.deliver response = { g with
      connections := [{ c with output := ⟨responseFrame response, 0, Nat.zero_le _⟩ }] } := by
  rw [← Connection.deliver_eq hopen hempty hencodes hfits]
  simp [Gateway.deliver, Gateway.findConnection, Gateway.update, hconnections, hid]

/-- It can get to the socket of the connection. -/
theorem exists_run_sent {maxSize : ℕ} {start x : Exchange} {events : List Event} {c : Connection}
    {response : EngineResponse} {queue : BoundedQueue EngineResponse} {limiter : InFlightLimiter}
    (hrun : Run maxSize start events x) (hidle : x.Idle) (hhalted : x.server.halted = none)
    (hpop : x.server.responseQueue.tryPop = some (response, queue))
    (hrelease : x.server.inFlightLimiter.releaseOne = some limiter)
    (hconnections : x.gateway.connections = [c]) (hid : c.id = response.ids.1)
    (hopen : c.closing = false) (hempty : c.output = .empty) (hencodes : response.Encodes)
    (hfits : (responseFrame response).length ≤
      x.gateway.config.maximumOutputBufferBytes.toNat) :
    ∃ x', Run maxSize start (events ++ [.server .internal] ++ [.server (.delivered response)] ++
        [.sent response.ids.1 (responseFrame response)]) x' ∧
      x'.gateway.pendingRequests = x.gateway.pendingRequests := by
  have hdelivered := (hrun.step hhalted (.take hidle (.takeCompletion hidle.1 hpop) rfl)).step
    hhalted (.deliver (.release rfl hrelease))
  rw [deliver_singleton hconnections hid hopen hempty hencodes hfits] at hdelivered
  have hsent := hdelivered.step hhalted (.flush [.sent (responseFrame response).length]
    ⟨rfl, hidle.2⟩ (List.mem_singleton.mpr rfl))
  rw [Connection.flushOutput_fst, ConnectionOutputBuffer.flush_all, hid] at hsent
  exact ⟨_, hsent, rfl⟩

/-- The first of two requests of a connection is executed, and the connection gets the answer. -/
theorem exists_run_answered :
    ∃ events x, Run (2 ^ 56)
        (ofServer (Server.ofConfig { maximumInFlight := 1, requestQueueCapacity := 1 }
          ⟨Book.fresh, ⟨some ⟨1⟩, false⟩, .healthy⟩
          (Posix.File.empty.append encodeFileHeader).sync) {}) events x ∧
      x.gateway.pendingRequests = [⟨⟨1⟩, ⟨2⟩, .cancelOrder ⟨⟨8⟩⟩⟩] ∧
      Server.published (shown events) = [.cancel ⟨⟨1⟩, ⟨1⟩, .notFound, ⟨0⟩⟩] ∧
      sentTo events ⟨1⟩ = responseFrame (.cancel ⟨⟨1⟩, ⟨1⟩, .notFound, ⟨0⟩⟩) := by
  obtain ⟨parser, hrun⟩ := exists_run_retained (2 ^ 56)
    (Server.ofConfig { maximumInFlight := 1, requestQueueCapacity := 1 }
      ⟨Book.fresh, ⟨some ⟨1⟩, false⟩, .healthy⟩ (Posix.File.empty.append encodeFileHeader).sync)
    rfl rfl rfl rfl rfl rfl rfl (by decide) feed_cancels
  have hpopped := hrun.step rfl (.worker (.pop rfl rfl (show 1 ≤ 2 ^ 56 by decide)) rfl rfl)
  have hexecuting := hpopped.step rfl
    (.worker (.stopDraining rfl fun h => absurd h (Nat.lt_irrefl 1)) rfl rfl)
  have hanswered := hexecuting.step rfl
    (.worker (.execute rfl ⟨[.cancelOrder ⟨7⟩], false, none, Posix.Outcomes.calm⟩ rfl) rfl rfl)
  have hpublished := hanswered.step rfl (.worker
    (show Server.Step _ _ (.published (.cancel ⟨⟨1⟩, ⟨1⟩, .notFound, ⟨0⟩⟩)) _ from
      .publish rfl rfl) rfl rfl)
  have hfits : (responseFrame (.cancel ⟨⟨1⟩, ⟨1⟩, .notFound, ⟨0⟩⟩)).length ≤ 65536 := by
    decide +kernel
  obtain ⟨x, hsent, hpending⟩ := exists_run_sent hpublished ⟨rfl, rfl⟩ rfl rfl rfl rfl rfl rfl rfl
    (encodes_of_valid rfl rfl rfl) hfits
  exact ⟨_, x, hsent, hpending, rfl, List.append_nil _⟩

/-- The server of one request at a time, whose first connection gets an answer to one request while
another one is retained. -/
theorem run_routes_answered :
    ∃ server events x, ExchangeServer.create { maximumInFlight := 1, requestQueueCapacity := 1 }
        (.ok (⟨Book.fresh, ⟨some ⟨1⟩, false⟩, .healthy⟩,
          (Posix.File.empty.append encodeFileHeader).sync)) true = .ok server ∧
      Run (2 ^ 56) (ofServer server {}) events x ∧
      x.gateway.pendingRequests = [⟨⟨1⟩, ⟨2⟩, .cancelOrder ⟨⟨8⟩⟩⟩] ∧
      Server.published (shown events) = [.cancel ⟨⟨1⟩, ⟨1⟩, .notFound, ⟨0⟩⟩] ∧
      sentTo events ⟨1⟩ = [77, 69, 88, 71, 0, 1, 0, 102, 0, 0, 0, 9, 0, 0, 0, 0, 0, 0, 0, 1,
        2, 0, 0, 0, 0, 0, 0, 0, 0] ∧
      sentTo events ⟨1⟩ <+: ((Server.published (shown events)).filter
        fun r => r.ids.1 = ⟨1⟩).flatMap responseFrame := by
  have hstarted : DurableEngine.Started ⟨Book.fresh, ⟨some ⟨1⟩, false⟩, .healthy⟩
      (Posix.File.empty.append encodeFileHeader).sync :=
    .created none Posix.Outcomes.calm Posix.Outcomes.calm rfl
  have hcreate : ExchangeServer.create { maximumInFlight := 1, requestQueueCapacity := 1 }
      (.ok (⟨Book.fresh, ⟨some ⟨1⟩, false⟩, .healthy⟩,
        (Posix.File.empty.append encodeFileHeader).sync)) true = .ok (Server.ofConfig _ _ _) := rfl
  obtain ⟨events, x, hrun, hpending, hpublished, hsent⟩ := exists_run_answered
  have hroutes := run_routes (2 ^ 56) _ _ _ true _ {} hstarted hcreate events x hrun
  exact ⟨_, events, x, hcreate, hrun, hpending, hpublished, hsent.trans (by decide +kernel),
    (hroutes.1 ⟨1⟩).2.2⟩

end Exchange

end MatchingEngine
