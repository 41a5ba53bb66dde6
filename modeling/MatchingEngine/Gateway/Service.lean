import MatchingEngine.Gateway.Handling
import MatchingEngine.Gateway.Routing

/-!
# The service that clients get

A client writes bytes to its socket and reads bytes from it. What it gets is the service of a book
with price-time priority that executes one request at a time: There is one order of the requests of
all clients in which those of each connection are the first ones of the messages in its bytes, and
what is sent to a connection begins the frames of the replies of this book to its requests. If the
engine fails, the requests behind the last one that is executed are refused.

How a stream is cut into the chunks that the gateway reads plays no role, nor does how the gateway
and the worker take turns, or who else is connected.

## Main definitions

* `PriorityBook.Replies`: the replies of a book that executes one request at a time.
* `Exchange.Session`: a run, with the bytes that were read from each connection.

## Main results

* `Exchange.Session.parsers_heard`: the parser of each connection has read the bytes of the
  connection.
* `Exchange.session_serves`: the bytes that clients get.
-/

namespace MatchingEngine

/-! ### One request at a time -/

/-- A message to a connection. -/
abbrev Reply := ConnectionId × WireEnvelope ServerMessage

/-- A book executes some requests one by one and replies to each what has come of it. -/
inductive PriorityBook.Replies : PriorityBook → List EngineRequest → List Reply → Prop
  | nil {p : PriorityBook} : Replies p [] []
  | cons {p : PriorityBook} {request : EngineRequest} {requests : List EngineRequest}
      {message : ServerMessage} {replies : List Reply}
      (hreported : (p.apply (toJournalCommand request)).1.ReportedBy message)
      (hrest : Replies (p.apply (toJournalCommand request)).2 requests replies) :
      Replies p (request :: requests) ((request.ids.1, ⟨request.ids.2, message⟩) :: replies)

/-- The reply to a request that is refused. -/
def refusal (request : EngineRequest) : Reply :=
  (request.ids.1, ⟨request.ids.2, .engineUnavailable {}⟩)

/-- A completion reaches its connection as this reply. -/
def EngineResponse.Yields (response : EngineResponse) (reply : Reply) : Prop :=
  reply.1 = response.ids.1 ∧ encodeServerFrame reply.2 = .ok (responseFrame response)

section Replies

theorem yields_refusal (request : EngineRequest) :
    (unavailableResponse request).Yields (refusal request) := by
  have hwire : toWireResponse (unavailableResponse request) = some (refusal request).2 := rfl
  have hbytes : encodeServerFrame (refusal request).2 = .ok _ :=
    WireProtocol.encodeServerFrame_of_valid rfl
  refine ⟨(congrArg Prod.fst (ids_unavailableResponse request)).symm, ?_⟩
  rw [hbytes, responseFrame_eq hwire hbytes]

/-- The completions of a book that executes some requests are its replies. -/
theorem exists_replies (book : Book) (requests : List EngineRequest) :
    ∃ responses replies, List.zipWith summarize requests
        (book.run (requests.map toJournalCommand)).1 = responses.map some ∧
      book.abs.Replies requests replies ∧
      List.Forall₂ EngineResponse.Yields responses replies := by
  induction requests generalizing book with
  | nil => exact ⟨[], [], rfl, .nil, .nil⟩
  | cons request requests ih =>
    obtain ⟨response, message, hsummarize, hwire, hvalid, hreported⟩ := exists_reported book request
    obtain ⟨hresult, hbook⟩ := book.apply_refines (toJournalCommand request)
    obtain ⟨responses, replies, heq, hreplies, hyields⟩ :=
      ih (book.apply (toJournalCommand request)).2
    have hbytes : encodeServerFrame ⟨request.ids.2, message⟩ = .ok _ :=
      WireProtocol.encodeServerFrame_of_valid hvalid
    refine ⟨response :: responses, (request.ids.1, ⟨request.ids.2, message⟩) :: replies, ?_, ?_, ?_⟩
    · have hcons : List.zipWith summarize (request :: requests)
          (book.run ((request :: requests).map toJournalCommand)).1 =
          summarize request (book.apply (toJournalCommand request)).1 ::
            List.zipWith summarize requests ((book.apply (toJournalCommand request)).2.run
              (requests.map toJournalCommand)).1 := rfl
      rw [hcons, hsummarize, heq, List.map_cons]
    · rw [hresult] at hreported
      rw [hbook] at hreplies
      exact .cons hreported hreplies
    · refine .cons ⟨(congrArg Prod.fst (ids_of_summarize hsummarize)).symm, ?_⟩ hyields
      rw [hbytes, responseFrame_eq hwire hbytes]

/-- The completions of a server begin those of a book that executes some requests and refuses the
others. -/
theorem Server.Pipelined.exists_replies {startup : List JournalCommand}
    {requests completed executed refused : List EngineRequest} {responses : List EngineResponse}
    {s : Server} (h : Pipelined startup requests responses s completed executed refused) :
    ∃ replies all, (Book.fresh.run startup).2.abs.Replies executed replies ∧ responses <+: all ∧
      List.Forall₂ EngineResponse.Yields all (replies ++ refused.map refusal) := by
  obtain ⟨responses', replies, heq, hreplies, hyields⟩ :=
    MatchingEngine.exists_replies (Book.fresh.run startup).2 executed
  refine ⟨replies, responses' ++ refused.map unavailableResponse, hreplies, ?_, ?_⟩
  · have hanswers : responses.map some <+:
        (responses' ++ refused.map unavailableResponse).map some := by
      rw [List.map_append, List.map_map, ← heq]
      exact ⟨_, h.responses_eq⟩
    have hinitial := hanswers.filterMap id
    rwa [List.filterMap_map, List.filterMap_map, Function.id_comp, List.filterMap_some,
      List.filterMap_some] at hinitial
  · refine List.rel_append hyields ?_
    rw [List.forall₂_map_left_iff, List.forall₂_map_right_iff, List.forall₂_same]
    exact fun request _ => yields_refusal request

end Replies

namespace Exchange

/-! ### Sessions -/

/-- The gateway has read some bytes from a connection. -/
def read (x : Exchange) (c : Connection) (bytes : List UInt8) : Exchange :=
  { x with gateway := { x.gateway.update c.descriptor
        (fun c => { c with parser := (c.parser.feed bytes).2 }) with
      task := .receiving c.descriptor c.id (c.parser.feed bytes).1.messages
        (c.parser.feed bytes).1.error.isSome } }

/-- A run, with all bytes that were read from each connection. -/
inductive Session (maxSize : ℕ) (start : Exchange) :
    List Event → (ConnectionId → List UInt8) → Exchange → Prop
  | refl : Session maxSize start [] (fun _ => []) start
  | read {events : List Event} {heard : ConnectionId → List UInt8} {x : Exchange} {c : Connection}
      {bytes : List UInt8} (h : Session maxSize start events heard x)
      (hhalted : x.server.halted = none) (hc : c ∈ x.gateway.connections)
      (hstep : Step maxSize x (.received c.id (c.parser.feed bytes).1.messages) (x.read c bytes)) :
      Session maxSize start (events ++ [.received c.id (c.parser.feed bytes).1.messages])
        (Function.update heard c.id (heard c.id ++ bytes)) (x.read c bytes)
  | step {events : List Event} {event : Event} {heard : ConnectionId → List UInt8}
      {x x' : Exchange} (h : Session maxSize start events heard x)
      (hhalted : x.server.halted = none) (hstep : Step maxSize x event x')
      (hother : ∀ id messages, event ≠ .received id messages) :
      Session maxSize start (events ++ [event]) heard x'

section Session

variable {maxSize : ℕ} {start x x' : Exchange} {event : Event} {events : List Event}
  {heard : ConnectionId → List UInt8}

theorem Session.run (h : Session maxSize start events heard x) : Run maxSize start events x := by
  induction h with
  | refl => exact .refl
  | read _ hhalted _ hstep ih | step _ hhalted hstep _ ih => exact ih.step hhalted hstep

/-- Every run is a session. -/
theorem Run.exists_session (hrun : Run maxSize start events x) :
    ∃ heard, Session maxSize start events heard x := by
  induction hrun with
  | refl => exact ⟨_, .refl⟩
  | @step _ event _ _ _ hhalted hstep ih =>
    obtain ⟨heard, hsession⟩ := ih
    cases event with
    | received id messages =>
      cases hstep with
      | receive bytes hidle hc hclosing hreads hopen hne hlength =>
        exact ⟨_, hsession.read hhalted hc
          (.receive bytes hidle hc hclosing hreads hopen hne hlength)⟩
    | _ => exact ⟨heard, hsession.step hhalted hstep fun _ _ => Event.noConfusion⟩

end Session

end Exchange

/-! ### The bytes that a parser has read -/

/-- The parser of a connection keeps what a reader of the bytes of the connection does. -/
structure Connection.Hears (config : ServerConfig) (heard : ConnectionId → List UInt8)
    (c : Connection) : Prop where
  maximum_eq : c.parser.maximumBufferedBytes = config.maximumInputBufferBytes.toNat
  state_eq : c.parser.state =
    (receiveAll config.maximumInputBufferBytes.toNat (.ok []) (heard c.id)).2

theorem Connection.handled_hears (config : ServerConfig) (heard : ConnectionId → List UInt8) :
    Gateway.Handled config (Hears config heard) where
  markClosing _ h := ⟨h.maximum_eq, h.state_eq⟩
  flushOutput c results h := by
    rw [flushOutput]
    split <;> exact ⟨h.maximum_eq, h.state_eq⟩
  deliver c response h := by
    rw [deliver]
    split
    · exact h
    · split
      · exact ⟨h.maximum_eq, h.state_eq⟩
      · rw [queueResponse]
        split
        · exact ⟨h.maximum_eq, h.state_eq⟩
        · split <;> exact ⟨h.maximum_eq, h.state_eq⟩

namespace Exchange

/-- The messages are those of the bytes that were read, and so is what each parser keeps. Nothing
was read from a connection that has not been accepted. -/
structure Heard (config : ServerConfig) (events : List Event) (heard : ConnectionId → List UInt8)
    (x : Exchange) : Prop where
  parsed_eq : ∀ id, parsed events id =
    (receiveAll config.maximumInputBufferBytes.toNat (.ok []) (heard id)).1
  hears : x.gateway.Holds config (Connection.Hears config heard)
  heard_eq_nil : ∀ id, x.gateway.issued ≤ id.value.toNat → heard id = []

section Heard

variable {maxSize : ℕ} {config : ServerConfig} {x x' : Exchange} {event : Event}
  {events : List Event} {heard : ConnectionId → List UInt8}

theorem parsed_append (events events' : List Event) (id : ConnectionId) :
    parsed (events ++ events') id = parsed events id ++ parsed events' id :=
  List.flatMap_append

theorem parsed_received (id id' : ConnectionId) (messages : List (WireEnvelope ClientMessage)) :
    parsed [.received id messages] id' = if id = id' then messages else [] :=
  List.flatMap_singleton ..

theorem Heard.read (h : Heard config events heard x) (horderly : Orderly events x) {c : Connection}
    (hc : c ∈ x.gateway.connections) (bytes : List UInt8) :
    Heard config (events ++ [.received c.id (c.parser.feed bytes).1.messages])
      (Function.update heard c.id (heard c.id ++ bytes)) (x.read c bytes) := by
  have hfed := ClientStreamParser.feed_receiveAll (horderly.parsers_settled c hc) bytes
  rw [(h.hears.of_mem c hc).maximum_eq, (h.hears.of_mem c hc).state_eq] at hfed
  refine ⟨fun id => ?_, ⟨h.hears.config_eq, ?_, List.forall_mem_map.mpr fun c' hc' => ?_⟩,
    fun id hid => ?_⟩
  · rw [parsed_append, parsed_received, h.parsed_eq]
    split
    · next heq =>
      rw [← heq, Function.update_self, receiveAll_append, hfed.messages_eq]
      rfl
    · next hne => rw [Function.update_of_ne (Ne.symm hne), List.append_nil]
  · exact (List.length_map ..).trans_le h.hears.length_le
  · split
    · next heq =>
      obtain rfl := horderly.keyed.eq_of_descriptor hc' hc heq
      refine ⟨hfed.maximum_eq, ?_⟩
      rw [Function.update_self, receiveAll_append, hfed.state_eq]
    · next hne =>
      have hid : c'.id ≠ c.id := by
        intro heq
        rw [horderly.keyed.eq_of_id hc' hc heq] at hne
        exact hne rfl
      refine ⟨(h.hears.of_mem c' hc').maximum_eq, ?_⟩
      rw [Function.update_of_ne hid, (h.hears.of_mem c' hc').state_eq]
  · rw [Function.update_of_ne, h.heard_eq_nil id hid]
    rintro rfl
    exact absurd (horderly.keyed.ids_lt c hc) (not_lt.mpr hid)

theorem Heard.step (h : Heard config events heard x) (horderly : Orderly events x)
    (hstep : Step maxSize x event x') (hother : ∀ id messages, event ≠ .received id messages) :
    Heard config (events ++ [event]) heard x' := by
  have hissued := ((hstep.changed horderly.keyed horderly.controlled.roomy).keyed
    horderly.keyed).2
  refine ⟨fun id => ?_, hstep.holds (Connection.handled_hears config heard) hother ?_ h.hears,
    fun id hid => h.heard_eq_nil id (hissued.trans hid)⟩
  · rw [parsed_append, h.parsed_eq]
    cases event with
    | received id messages => exact absurd rfl (hother id messages)
    | _ => exact List.append_nil _
  · -- a new connection has an identity from which nothing was read
    refine fun hnext descriptor => ⟨rfl, ?_⟩
    rw [h.heard_eq_nil _ (by rw [Gateway.issued, if_neg hnext])]
    rfl

theorem heard_ofServer (server : Server) (config : ServerConfig) :
    Heard config [] (fun _ => []) (ofServer server config) :=
  ⟨fun _ => rfl, ⟨rfl, Nat.zero_le _, fun _ h => absurd h List.not_mem_nil⟩, fun _ _ => rfl⟩

/-- The parser of each connection has read the bytes of the connection, however they were cut into
chunks. -/
theorem Session.parsers_heard {server : Server} (hgateway : server.gateway = .idle)
    (hsession : Session maxSize (ofServer server config) events heard x) :
    Heard config events heard x := by
  induction hsession with
  | refl => exact heard_ofServer server config
  | read hsession _ hc _ ih =>
    exact ih.read ((orderly_ofServer hgateway config).run hsession.run) hc _
  | step hsession _ hstep hother ih =>
    exact ih.step ((orderly_ofServer hgateway config).run hsession.run) hstep hother

end Heard

/-! ### What clients get -/

/-- The frames of the completions for a connection are those of the replies to it. -/
theorem forall₂_frames {responses : List EngineResponse} {replies : List Reply}
    (h : List.Forall₂ EngineResponse.Yields responses replies) (id : ConnectionId) :
    List.Forall₂ (fun reply bytes => encodeServerFrame reply.2 = .ok bytes)
      (replies.filter fun reply => reply.1 = id)
      ((responses.filter fun response => response.ids.1 = id).map responseFrame) := by
  have hfilter : List.Forall₂ EngineResponse.Yields
      (responses.filter fun response => response.ids.1 = id)
      (replies.filter fun reply => reply.1 = id) := by
    refine List.rel_filter (fun response reply hyields => ?_) h
    dsimp only
    rw [hyields.1]
  rw [List.forall₂_map_right_iff]
  exact (hfilter.imp fun _ _ hyields => hyields.2).flip

/-- In every interleaving of a server on an engine that was created or recovered, whatever bytes
clients send: There are requests that a book with price-time priority executes one by one, and
requests that are refused, of which there are none unless the engine fails. For every connection,
its requests among them are the first ones of the messages in the bytes that were read from it, and
what is sent to it begins the frames of the replies to these requests. All executed requests are
synced in the journal. -/
theorem session_serves (maxSize : ℕ) (config : ExchangeServerConfig) (engine : DurableEngine)
    (f : Posix.File) (gatewayCreated : Bool) (server : Server) (gatewayConfig : ServerConfig)
    (hstarted : DurableEngine.Started engine f)
    (hcreate : ExchangeServer.create config (.ok (engine, f)) gatewayCreated = .ok server)
    (events : List Event) (heard : ConnectionId → List UInt8) (x : Exchange)
    (hsession : Session maxSize (ofServer server gatewayConfig) events heard x) :
    ∃ startup executed refused replies, f.bytes = journal startup ∧
      engine.orderBook.abs.Replies executed replies ∧
      (x.server.failed = false → refused = []) ∧
      (executed = [] ∨ journal (startup ++ executed.map toJournalCommand) <+:
        x.server.file.bytes.take x.server.file.synced) ∧
      ∀ id, (executed ++ refused).filter (fun request => request.ids.1 = id) <+:
          ((ClientStreamParser.ofLimit gatewayConfig.maximumInputBufferBytes.toNat).feed
            (heard id)).1.messages.map (toEngineRequest id) ∧
        ∃ frames, List.Forall₂ (fun reply bytes => encodeServerFrame reply.2 = .ok bytes)
            ((replies ++ refused.map refusal).filter fun reply => reply.1 = id) frames ∧
          sentTo events id <+: frames.flatten := by
  obtain ⟨-, rfl, startup, hready⟩ := ExchangeServer.exists_ready_of_create hstarted hcreate
  have hrun := hsession.run
  have horderly : Orderly events x := (orderly_ofServer rfl gatewayConfig).run hrun
  obtain ⟨completed, executed, refused, hs⟩ :=
    (Server.pipelined_ofConfig config hready).run hrun.server
  obtain ⟨replies, all, hreplies, hinitial, hyields⟩ := hs.exists_replies
  refine ⟨startup, executed, refused, replies, hready.on.bytes_eq, ?_, fun h => (hs.ready h).1,
    hs.synced, fun id => ⟨?_, _, forall₂_frames hyields id, ?_⟩⟩
  · rw [hready.orderBook_eq]
    exact hreplies
  · have hmessages := (ClientStreamParser.feed_receiveAll (ClientStreamParser.settled_ofLimit
      gatewayConfig.maximumInputBufferBytes.toNat) (heard id)).messages_eq
    obtain ⟨rest, hrequests⟩ := hs.exists_requests_eq
    have hadmitted := horderly.admitted_isPrefix id
    rw [hrequests, List.filter_append, (hsession.parsers_heard rfl).parsed_eq id] at hadmitted
    rw [hmessages]
    exact (List.prefix_append _ _).trans hadmitted
  · have hdelivered := (hrun.delivered_isPrefix.trans hinitial).filter
      fun response => response.ids.1 = id
    exact ((hrun.routed hready).sent_isPrefix id).trans (hdelivered.flatMap responseFrame)

/-- The first connection of a server of one request at a time, which gets the answer to the first of
its two requests. -/
theorem session_serves_answered :
    ∃ server events heard x, ExchangeServer.create
        { maximumInFlight := 1, requestQueueCapacity := 1 }
        (.ok (⟨Book.fresh, ⟨some ⟨1⟩, false⟩, .healthy⟩,
          (Posix.File.empty.append encodeFileHeader).sync)) true = .ok server ∧
      Session (2 ^ 56) (ofServer server {}) events heard x ∧
      sentTo events ⟨1⟩ = responseFrame (.cancel ⟨⟨1⟩, ⟨1⟩, .notFound, ⟨0⟩⟩) ∧
      ∃ (executed refused : List EngineRequest) (replies : List Reply),
        Book.fresh.abs.Replies executed replies ∧
        ∃ frames, List.Forall₂ (fun reply bytes => encodeServerFrame reply.2 = .ok bytes)
            ((replies ++ refused.map refusal).filter fun reply => reply.1 = ⟨1⟩) frames ∧
          sentTo events ⟨1⟩ <+: frames.flatten := by
  have hstarted : DurableEngine.Started ⟨Book.fresh, ⟨some ⟨1⟩, false⟩, .healthy⟩
      (Posix.File.empty.append encodeFileHeader).sync :=
    .created none Posix.Outcomes.calm Posix.Outcomes.calm rfl
  have hcreate : ExchangeServer.create { maximumInFlight := 1, requestQueueCapacity := 1 }
      (.ok (⟨Book.fresh, ⟨some ⟨1⟩, false⟩, .healthy⟩,
        (Posix.File.empty.append encodeFileHeader).sync)) true = .ok (Server.ofConfig _ _ _) := rfl
  obtain ⟨events, x, hrun, -, -, hsent⟩ := exists_run_answered
  obtain ⟨heard, hsession⟩ := hrun.exists_session
  obtain ⟨_, executed, refused, replies, -, hreplies, -, -, hserves⟩ :=
    session_serves (2 ^ 56) _ _ _ true _ {} hstarted hcreate events heard x hsession
  exact ⟨_, events, heard, x, hcreate, hsession, hsent, executed, refused, replies, hreplies,
    (hserves ⟨1⟩).2⟩

end Exchange

end MatchingEngine
