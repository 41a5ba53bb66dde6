import MatchingEngine.ExchangeServer.Shutdown
import MatchingEngine.Gateway.Basic
import MatchingEngine.Data.KeyedList

/-!
# The table of the connections

What a step of the pipeline does to the exchange server and to the table of the connections. A run
of the pipeline is a run of the exchange server, with more to be seen. In the table, the connections
evolve one by one, a connection is accepted, or connections are removed; descriptors and identities
are those of one connection each, and an identity is never given again.

The bytes for a connection are the frames of the responses that were delivered to it. A connection
carries them as long as it is not closing: those that the socket has accepted, followed by its
output. When it is closing, the two together only begin them.

## Main definitions

* `Server.GatewayMove`: the steps of the exchange server, as far as the gateway is concerned.
* `responseFrame`, `Exchange.sentTo`, `Exchange.framesTo`.
* `Gateway.Keyed`, `Connection.Carries`, `Connection.Evolves`, `Gateway.Changed`.

## Main results

* `Exchange.Run.server`: a run of the pipeline is a run of the exchange server.
* `Exchange.Step.changed`: what a step does to the table.
* `Gateway.Changed.keyed`: descriptors and identities stay unique.
-/

namespace MatchingEngine

/-! ### The gateway in the exchange server -/

namespace Server

/-- A step of the exchange server, seen from the gateway: what the gateway does, and whether the
shutdown has begun, before and after. -/
inductive GatewayMove : GatewayPhase → Bool → Event → GatewayPhase → Bool → Prop
  | other {phase : GatewayPhase} {down : Bool} {event : Event}
      (hadmitted : event.admittedRequests = []) (hdelivered : event.deliveredResponses = []) :
      GatewayMove phase down event phase down
  | acquire (request : EngineRequest) :
      GatewayMove .idle false .internal (.admitting request) false
  | enqueue (request : EngineRequest) (down : Bool) :
      GatewayMove (.admitting request) down (.admitted request) .idle down
  | refuse (request : EngineRequest) (down : Bool) :
      GatewayMove (.admitting request) down .internal .idle down
  | take (response : EngineResponse) (down : Bool) :
      GatewayMove .idle down .internal (.delivering response) down
  | release (response : EngineResponse) (down : Bool) :
      GatewayMove (.delivering response) down (.delivered response) .idle down
  | shutdown : GatewayMove .idle false .internal .idle true
  | exit : GatewayMove .idle true .internal .exited true

theorem executeAndPublishBatch_shutdownStarted (s : Server) (batch : List EngineRequest)
    (call : DurableEngine.Call) :
    (s.executeAndPublishBatch batch call).shutdownStarted = s.shutdownStarted := by
  rw [executeAndPublishBatch]
  dsimp only
  split
  · exact (executeBatch_frame _ batch call).2.1
  · rfl

theorem Step.gatewayMove {maxSize : ℕ} {s s' : Server} {event : Event}
    (hstep : Step maxSize s event s') :
    GatewayMove s.gateway s.shutdownStarted event s'.gateway s'.shutdownStarted := by
  cases hstep with
  | acquire request hidle hopen =>
    rw [hidle]
    dsimp only
    rw [hopen]
    exact .acquire request
  | enqueue hadmitting | refuse hadmitting =>
    rw [hadmitting]
    constructor
  | takeCompletion hidle | release hidle =>
    rw [hidle]
    constructor
  | shutdown hidle hopen =>
    dsimp only
    rw [hidle, hopen]
    exact .shutdown
  | exit hidle hshutdown =>
    dsimp only
    rw [hidle, hshutdown]
    exact .exit
  | @execute batch _ call _ =>
    rw [(executeAndPublishBatch_frame s batch call).gateway_eq,
      executeAndPublishBatch_shutdownStarted]
    exact .other rfl rfl
  | _ => exact .other rfl rfl

section Step

variable {maxSize : ℕ} {s s' : Server} {event : Event} {request : EngineRequest}
  {response : EngineResponse}

theorem Step.of_admitted (hstep : Step maxSize s (.admitted request) s') :
    s.gateway = .admitting request ∧ s'.gateway = .idle ∧
      s'.shutdownStarted = s.shutdownStarted := by
  have hmove := hstep.gatewayMove
  generalize s.gateway = phase, s'.gateway = phase', s.shutdownStarted = down,
    s'.shutdownStarted = down' at hmove ⊢
  cases hmove with
  | other hadmitted => cases hadmitted
  | enqueue => exact ⟨rfl, rfl, rfl⟩

theorem Step.of_delivered (hstep : Step maxSize s (.delivered response) s') :
    s.gateway = .delivering response ∧ s'.gateway = .idle := by
  have hmove := hstep.gatewayMove
  generalize s.gateway = phase, s'.gateway = phase', s.shutdownStarted = down,
    s'.shutdownStarted = down' at hmove ⊢
  cases hmove with
  | other _ hdelivered => cases hdelivered
  | release => exact ⟨rfl, rfl⟩

theorem Step.of_acquire (hstep : Step maxSize s event s') (hidle : s.gateway = .idle)
    (hadmitting : s'.gateway = .admitting request) :
    event = .internal ∧ s'.shutdownStarted = false := by
  have hmove := hstep.gatewayMove
  rw [hidle, hadmitting] at hmove
  generalize s.shutdownStarted = down, s'.shutdownStarted = down' at hmove ⊢
  cases hmove
  exact ⟨rfl, rfl⟩

/-- A request that does not go on the queue is not admitted. -/
theorem Step.of_refuse (hstep : Step maxSize s event s')
    (hadmitting : s.gateway = .admitting request)
    (hpush : s.requestQueue.tryPush request = none) (hidle : s'.gateway = .idle) :
    event = .internal := by
  have hmove := hstep.gatewayMove
  rw [hadmitting, hidle] at hmove
  generalize s.shutdownStarted = down, s'.shutdownStarted = down' at hmove
  cases hmove with
  | enqueue =>
    cases hstep with
    | enqueue hadmitting' hpush' => cases hpush.symm.trans hpush'
  | refuse => rfl

/-- What an idle gateway begins shows nothing. -/
theorem Step.internal_of_idle (hstep : Step maxSize s event s') (hidle : s.gateway = .idle)
    (hne : s'.gateway ≠ .idle) : event = .internal := by
  have hmove := hstep.gatewayMove
  rw [hidle] at hmove
  generalize s'.gateway = phase', s.shutdownStarted = down, s'.shutdownStarted = down' at hmove hne
  cases hmove with
  | other | shutdown => exact absurd rfl hne
  | acquire | take | exit => rfl

theorem Step.of_shutdown (hstep : Step maxSize s event s') (hopen : s.shutdownStarted = false)
    (hshutdown : s'.shutdownStarted = true) : event = .internal ∧ s'.gateway = s.gateway := by
  have hmove := hstep.gatewayMove
  rw [hopen, hshutdown] at hmove
  generalize s.gateway = phase, s'.gateway = phase' at hmove ⊢
  cases hmove
  exact ⟨rfl, rfl⟩

/-- A step of the worker. -/
theorem Step.of_worker (hstep : Step maxSize s event s') (hgateway : s'.gateway = s.gateway)
    (hshutdown : s'.shutdownStarted = s.shutdownStarted) :
    event.admittedRequests = [] ∧ event.deliveredResponses = [] := by
  have hmove := hstep.gatewayMove
  rw [hgateway, hshutdown] at hmove
  generalize s.gateway = phase, s.shutdownStarted = down at hmove
  cases hmove with
  | other hadmitted hdelivered => exact ⟨hadmitted, hdelivered⟩

theorem Step.shutdownStarted_of (hstep : Step maxSize s event s')
    (hshutdown : s.shutdownStarted = true) : s'.shutdownStarted = true := by
  have hmove := hstep.gatewayMove
  rw [hshutdown] at hmove
  generalize s.gateway = phase, s'.gateway = phase', s'.shutdownStarted = down' at hmove ⊢
  cases hmove <;> rfl

end Step

end Server

/-! ### What a run shows -/

/-- The frame of a response, which is empty if there is none. -/
def responseFrame (response : EngineResponse) : List UInt8 :=
  match toWireResponse response with
  | none => []
  | some envelope =>
    match encodeServerFrame envelope with
    | .error _ => []
    | .ok bytes => bytes

theorem responseFrame_eq {response : EngineResponse} {envelope : WireEnvelope ServerMessage}
    {bytes : List UInt8} (henvelope : toWireResponse response = some envelope)
    (hbytes : encodeServerFrame envelope = .ok bytes) : responseFrame response = bytes := by
  rw [responseFrame, henvelope]
  dsimp only
  rw [hbytes]

namespace Exchange

def Event.shown : Event → List Server.Event
  | .server event => [event]
  | .shutdown _ => [.internal]
  | .received _ _ => []
  | .skipped _ => []
  | .sent _ _ => []
  | .internal => []

def Event.sentBytes (id : ConnectionId) : Event → List UInt8
  | .server _ => []
  | .shutdown _ => []
  | .received _ _ => []
  | .skipped _ => []
  | .sent connectionId bytes => if connectionId = id then bytes else []
  | .internal => []

/-- What a run shows of the exchange server. -/
def shown (events : List Event) : List Server.Event := events.flatMap Event.shown

/-- The bytes that the socket of a connection has accepted. -/
def sentTo (events : List Event) (id : ConnectionId) : List UInt8 :=
  events.flatMap (Event.sentBytes id)

/-- The frames of the responses that were delivered to a connection. -/
def framesTo (events : List Event) (id : ConnectionId) : List UInt8 :=
  ((Server.delivered (shown events)).filter fun response => response.ids.1 = id).flatMap
    responseFrame

section Events

variable (events events' : List Event) (id : ConnectionId)

theorem shown_append : shown (events ++ events') = shown events ++ shown events' :=
  List.flatMap_append

theorem sentTo_append : sentTo (events ++ events') id = sentTo events id ++ sentTo events' id :=
  List.flatMap_append

theorem framesTo_append :
    framesTo (events ++ events') id = framesTo events id ++ framesTo events' id := by
  rw [framesTo, shown_append, Server.delivered, List.flatMap_append, List.filter_append,
    List.flatMap_append]
  rfl

variable {id}

theorem framesTo_singleton {event : Event} (h : Server.delivered event.shown = []) :
    framesTo [event] id = [] := by
  rw [framesTo, shown, List.flatMap_singleton, h]
  rfl

end Events

/-! ### Runs of the exchange server -/

section Server

variable {maxSize : ℕ} {x x' : Exchange} {event : Event}

theorem Step.server (hstep : Step maxSize x event x') :
    (event.shown = [] ∧ x'.server = x.server) ∨
      ∃ event', event.shown = [event'] ∧ Server.Step maxSize x.server event' x'.server := by
  cases hstep with
  | worker hstep | acquire _ _ hstep | enqueue hstep | refuse _ _ hstep | take _ hstep
  | deliver hstep | exit _ hstep => exact Or.inr ⟨_, rfl, hstep⟩
  | shutdown hidle hopen hstep hshutdown =>
    obtain ⟨rfl, -⟩ := hstep.of_shutdown hopen hshutdown
    exact Or.inr ⟨_, rfl, hstep⟩
  | _ => exact Or.inl ⟨rfl, rfl⟩

theorem Run.server {start : Exchange} {events : List Event} (hrun : Run maxSize start events x) :
    Server.Run maxSize start.server (shown events) x.server := by
  induction hrun with
  | refl => exact .refl
  | step _ hhalted hstep ih =>
    rw [shown_append, shown, shown, List.flatMap_singleton]
    rcases hstep.server with ⟨hnil, hserver⟩ | ⟨event', hone, hstep'⟩
    · rw [hnil, List.append_nil, hserver]
      exact ih
    · rw [hone]
      exact ih.step hhalted hstep'

end Server

end Exchange

open Exchange (sentTo framesTo)

/-! ### One connection -/

namespace Connection

/-- The bytes that were sent and the output are the frames for the connection, or the beginning of
them if the connection is closing. -/
def Carries (c : Connection) (sent frames : List UInt8) : Prop :=
  sent ++ c.output.pending <+: frames ∧ (c.closing = false → sent ++ c.output.pending = frames)

section Carries

variable {c : Connection} {sent frames : List UInt8}

theorem Carries.sent_isPrefix (h : c.Carries sent frames) : sent <+: frames :=
  (List.prefix_append _ _).trans h.1

theorem carries_abandon (h : sent <+: frames) : c.abandon.Carries sent frames :=
  ⟨by rwa [abandon, ConnectionOutputBuffer.pending_clear, List.append_nil], nofun⟩

theorem Carries.flushOutput (h : c.Carries sent frames) (results : List SendResult) :
    (c.flushOutput results).2.Carries (sent ++ (c.flushOutput results).1) frames := by
  have hflush := c.output.flush_pending results
  rw [Connection.flushOutput]
  generalize c.output.flush results = r at hflush
  obtain ⟨hbytes, hrest⟩ := hflush
  split
  · exact carries_abandon (((List.prefix_append_right_inj sent).mpr hbytes).trans h.1)
  · next hfatal =>
    rw [Carries, List.append_assoc, hrest hfatal]
    exact h

/-- A response follows the frames. A connection that is closing ignores it, and one that cannot
take it gives up its output. -/
theorem Carries.deliver (h : c.Carries sent frames) (response : EngineResponse) (maximum : ℕ) :
    (c.deliver response maximum).Carries sent (frames ++ responseFrame response) := by
  have hsent : sent <+: frames ++ responseFrame response :=
    h.sent_isPrefix.trans (List.prefix_append _ _)
  rw [Connection.deliver]
  split
  · next hclosing =>
    exact ⟨h.1.trans (List.prefix_append _ _), fun hopen => by rw [hclosing] at hopen; cases hopen⟩
  · next hclosing =>
    rw [Bool.not_eq_true] at hclosing
    split
    · exact carries_abandon hsent
    · next envelope henvelope =>
      rw [queueResponse]
      split
      · exact carries_abandon hsent
      · next bytes hbytes =>
        split
        · exact carries_abandon hsent
        · next output happend =>
          have heq : sent ++ output.pending = frames ++ responseFrame response := by
            rw [ConnectionOutputBuffer.pending_append happend, ← List.append_assoc, h.2 hclosing,
              responseFrame_eq henvelope hbytes]
          exact ⟨heq ▸ List.prefix_refl _, fun _ => heq⟩

end Carries

/-- What a step can do to a connection. -/
structure Evolves (event : Exchange.Event) (c c' : Connection) : Prop where
  id_eq : c'.id = c.id
  descriptor_eq : c'.descriptor = c.descriptor
  closing_of : c.closing = true → c'.closing = true
  settled_of : c.parser.Settled → c'.parser.Settled
  carries_of : ∀ sent frames, c.Carries sent frames →
    c'.Carries (sent ++ sentTo [event] c.id) (frames ++ framesTo [event] c.id)

section Evolves

variable {event : Exchange.Event} {c : Connection}

/-- A connection whose output is not concerned. -/
theorem Evolves.of_quiet {c' : Connection} (hsent : sentTo [event] c.id = [])
    (hframes : framesTo [event] c.id = []) (hid : c'.id = c.id)
    (hdescriptor : c'.descriptor = c.descriptor) (hclosing : c.closing = true → c'.closing = true)
    (hsettled : c.parser.Settled → c'.parser.Settled) (houtput : c'.output = c.output) :
    Evolves event c c' := by
  refine ⟨hid, hdescriptor, hclosing, hsettled, fun sent frames h => ?_⟩
  rw [hsent, hframes, List.append_nil, List.append_nil, Carries, houtput]
  refine ⟨h.1, fun hopen => h.2 ?_⟩
  by_contra hnot
  rw [hclosing (Bool.eq_true_of_not_eq_false hnot)] at hopen
  cases hopen

theorem Evolves.refl (hsent : sentTo [event] c.id = []) (hframes : framesTo [event] c.id = []) :
    Evolves event c c :=
  .of_quiet hsent hframes rfl rfl (fun h => h) (fun h => h) rfl

theorem evolves_flushOutput (results : List SendResult) :
    Evolves (.sent c.id (c.flushOutput results).1) c (c.flushOutput results).2 := by
  have hsame : (c.flushOutput results).2.id = c.id ∧
      (c.flushOutput results).2.descriptor = c.descriptor ∧
      (c.flushOutput results).2.parser = c.parser ∧
      (c.closing = true → (c.flushOutput results).2.closing = true) := by
    rw [flushOutput]
    split
    · exact ⟨rfl, rfl, rfl, fun _ => rfl⟩
    · exact ⟨rfl, rfl, rfl, fun h => h⟩
  obtain ⟨hid, hdescriptor, hparser, hclosing⟩ := hsame
  refine ⟨hid, hdescriptor, hclosing, hparser ▸ fun h => h, fun sent frames h => ?_⟩
  have hframes : framesTo [.sent c.id (c.flushOutput results).1] c.id = [] := rfl
  have hsent : sentTo [.sent c.id (c.flushOutput results).1] c.id = (c.flushOutput results).1 := by
    rw [sentTo, List.flatMap_singleton, Exchange.Event.sentBytes, if_pos rfl]
  rw [hframes, hsent, List.append_nil]
  exact h.flushOutput results

theorem evolves_deliver {response : EngineResponse} (hid : c.id = response.ids.1) (maximum : ℕ) :
    Evolves (.server (.delivered response)) c (c.deliver response maximum) := by
  have hsame : (c.deliver response maximum).id = c.id ∧
      (c.deliver response maximum).descriptor = c.descriptor ∧
      (c.deliver response maximum).parser = c.parser ∧
      (c.closing = true → (c.deliver response maximum).closing = true) := by
    rw [deliver]
    split
    · exact ⟨rfl, rfl, rfl, fun h => h⟩
    · split
      · exact ⟨rfl, rfl, rfl, fun _ => rfl⟩
      · rw [queueResponse]
        split
        · exact ⟨rfl, rfl, rfl, fun _ => rfl⟩
        · split
          · exact ⟨rfl, rfl, rfl, fun _ => rfl⟩
          · exact ⟨rfl, rfl, rfl, fun h => h⟩
  obtain ⟨hid', hdescriptor, hparser, hclosing⟩ := hsame
  refine ⟨hid', hdescriptor, hclosing, hparser ▸ fun h => h, fun sent frames h => ?_⟩
  have hframes : framesTo [.server (.delivered response)] c.id = responseFrame response := by
    simp [framesTo, Exchange.shown, Exchange.Event.shown, Server.delivered,
      Server.Event.deliveredResponses, hid]
  rw [hframes, show sentTo [.server (.delivered response)] c.id = [] from rfl, List.append_nil]
  exact h.deliver response maximum

end Evolves

end Connection

namespace Exchange

/-- Nothing is sent and no completion is released. -/
def Event.Quiet (event : Event) : Prop :=
  ∀ id, sentTo [event] id = [] ∧ framesTo [event] id = []

theorem quiet_internal : Event.Quiet .internal := fun _ => ⟨rfl, rfl⟩

theorem quiet_server {event : Server.Event} (h : event.deliveredResponses = []) :
    Event.Quiet (.server event) := fun id =>
  ⟨rfl, framesTo_singleton (by rw [Event.shown, Server.delivered, List.flatMap_singleton, h])⟩

end Exchange

/-! ### The table -/

namespace Gateway

/-- The number of identities that have been given, the invalid one among them. -/
def issued (g : Gateway) : ℕ := if g.nextConnectionId = 0 then 2 ^ 64 else g.nextConnectionId.toNat

/-- Descriptors and identities are those of one connection each. -/
structure Keyed (g : Gateway) : Prop where
  descriptors_nodup : (g.connections.map (·.descriptor)).Nodup
  ids_nodup : (g.connections.map (·.id)).Nodup
  ids_lt : ∀ c ∈ g.connections, c.id.value.toNat < g.issued

/-- What a step can do to the table. -/
inductive Changed (event : Exchange.Event) (g g' : Gateway) : Prop
  | kept (change : Connection → Connection)
      (hconnections : g'.connections = g.connections.map change)
      (hnext : g'.nextConnectionId = g.nextConnectionId)
      (hevolves : ∀ c ∈ g.connections, c.Evolves event (change c))
      (hsent : ∀ id, (∀ c ∈ g.connections, c.id ≠ id) → sentTo [event] id = [])
  | accepted {descriptor : ℕ} (hg' : g' = g.accept descriptor) (hid : g.nextConnectionId ≠ 0)
      (hfresh : ∀ c ∈ g.connections, c.descriptor ≠ descriptor) (hquiet : event.Quiet)
  | removed (hconnections : g'.connections.Sublist g.connections)
      (hnext : g'.nextConnectionId = g.nextConnectionId) (hquiet : event.Quiet)

section Table

variable {g g' : Gateway} {event : Exchange.Event}

theorem issued_accept (descriptor : ℕ) :
    (g.accept descriptor).issued = g.nextConnectionId.toNat + 1 := by
  have hlt := g.nextConnectionId.toNat_lt
  have hadd : (g.nextConnectionId + 1).toNat = (g.nextConnectionId.toNat + 1) % 2 ^ 64 :=
    UInt64.toNat_add ..
  have hzero : g.nextConnectionId + 1 = 0 ↔ (g.nextConnectionId.toNat + 1) % 2 ^ 64 = 0 := by
    rw [← UInt64.toNat_inj, hadd, UInt64.toNat_zero]
  rw [issued, accept]
  dsimp only
  split
  · next heq =>
    have := hzero.mp heq
    omega
  · next hne =>
    have := mt hzero.mpr hne
    omega

theorem Keyed.eq_of_id {c c' : Connection} (h : g.Keyed) (hc : c ∈ g.connections)
    (hc' : c' ∈ g.connections) (heq : c.id = c'.id) : c = c' :=
  List.inj_on_of_nodup_map h.ids_nodup hc hc' heq

theorem Keyed.eq_of_descriptor {c c' : Connection} (h : g.Keyed) (hc : c ∈ g.connections)
    (hc' : c' ∈ g.connections) (heq : c.descriptor = c'.descriptor) : c = c' :=
  List.inj_on_of_nodup_map h.descriptors_nodup hc hc' heq

theorem Changed.keyed (h : Changed event g g') (hkeyed : g.Keyed) :
    g'.Keyed ∧ g.issued ≤ g'.issued := by
  obtain ⟨hdescriptors, hids, hlt⟩ := hkeyed
  cases h with
  | kept change hconnections hnext hevolves =>
    have hissued : g'.issued = g.issued := by rw [issued, issued, hnext]
    have hdescriptors' : g'.connections.map (·.descriptor) = g.connections.map (·.descriptor) := by
      rw [hconnections, List.map_map]
      exact List.map_congr_left fun c hc => (hevolves c hc).descriptor_eq
    have hids' : g'.connections.map (·.id) = g.connections.map (·.id) := by
      rw [hconnections, List.map_map]
      exact List.map_congr_left fun c hc => (hevolves c hc).id_eq
    refine ⟨⟨hdescriptors' ▸ hdescriptors, hids' ▸ hids, ?_⟩, hissued.ge⟩
    · rw [hconnections, hissued]
      refine List.forall_mem_map.mpr fun c hc => ?_
      rw [(hevolves c hc).id_eq]
      exact hlt c hc
  | @accepted descriptor hg' hid hfresh =>
    subst hg'
    have hissued : g.issued = g.nextConnectionId.toNat := by rw [issued, if_neg hid]
    rw [hissued] at hlt ⊢
    refine ⟨⟨?_, ?_, ?_⟩, by rw [issued_accept]; omega⟩
    · rw [accept, List.map_append]
      refine List.nodup_append.mpr ⟨hdescriptors, List.nodup_singleton _, ?_⟩
      simpa using hfresh
    · rw [accept, List.map_append]
      refine List.nodup_append.mpr ⟨hids, List.nodup_singleton _, ?_⟩
      simp only [List.map_cons, List.map_nil, List.mem_map, List.mem_singleton]
      rintro _ ⟨c, hc, rfl⟩ _ rfl heq
      exact absurd (heq ▸ hlt c hc) (lt_irrefl _)
    · intro c hc
      rw [issued_accept]
      rcases List.mem_append.mp hc with hc | hc
      · exact (hlt c hc).trans (Nat.lt_succ_self _)
      · rw [List.mem_singleton.mp hc]
        exact Nat.lt_succ_self _
  | removed hsublist hnext =>
    have hissued : g'.issued = g.issued := by rw [issued, issued, hnext]
    exact ⟨⟨hdescriptors.sublist (hsublist.map _), hids.sublist (hsublist.map _),
      fun c hc => hissued ▸ hlt c (hsublist.subset hc)⟩, hissued.ge⟩

theorem Changed.parsers_settled (h : Changed event g g')
    (hsettled : ∀ c ∈ g.connections, c.parser.Settled) :
    ∀ c ∈ g'.connections, c.parser.Settled := by
  cases h with
  | kept change hconnections _ hevolves =>
    rw [hconnections]
    exact List.forall_mem_map.mpr fun c hc => (hevolves c hc).settled_of (hsettled c hc)
  | accepted hg' =>
    subst hg'
    intro c hc
    rcases List.mem_append.mp hc with hc | hc
    · exact hsettled c hc
    · rw [List.mem_singleton.mp hc]
      exact ClientStreamParser.settled_ofLimit _
  | removed hsublist => exact fun c hc => hsettled c (hsublist.subset hc)

/-- A connection that is closing stays so until it is removed, and none with its identity follows.
-/
theorem Changed.closing_of (h : Changed event g g') {id : ConnectionId}
    (hclosing : ∀ c ∈ g.connections, c.id = id → c.closing = true)
    (hissued : id.value.toNat < g.issued) :
    ∀ c ∈ g'.connections, c.id = id → c.closing = true := by
  cases h with
  | kept change hconnections _ hevolves =>
    rw [hconnections]
    refine List.forall_mem_map.mpr fun c hc hid => ?_
    obtain ⟨hid', -, hclosing', -⟩ := hevolves c hc
    exact hclosing' (hclosing c hc (hid'.symm.trans hid))
  | accepted hg' hnext =>
    subst hg'
    intro c hc hid
    rcases List.mem_append.mp hc with hc | hc
    · exact hclosing c hc hid
    · rw [List.mem_singleton.mp hc] at hid
      rw [← hid, issued, if_neg hnext] at hissued
      exact absurd hissued (lt_irrefl _)
  | removed hsublist => exact fun c hc => hclosing c (hsublist.subset hc)

theorem Changed.of_eq (hconnections : g'.connections = g.connections)
    (hnext : g'.nextConnectionId = g.nextConnectionId) (hquiet : event.Quiet) :
    Changed event g g' :=
  .kept (fun c => c) (by rw [hconnections, List.map_id']) hnext
    (fun c _ => .refl (hquiet c.id).1 (hquiet c.id).2) fun id _ => (hquiet id).1

theorem Changed.of_update {descriptor : ℕ} {change : Connection → Connection}
    (hconnections : g'.connections = (g.update descriptor change).connections)
    (hnext : g'.nextConnectionId = g.nextConnectionId)
    (hchange : ∀ c ∈ g.connections, c.descriptor = descriptor → c.Evolves event (change c))
    (hother : ∀ c ∈ g.connections, c.descriptor ≠ descriptor → c.Evolves event c)
    (hsent : ∀ id, (∀ c ∈ g.connections, c.id ≠ id) → sentTo [event] id = []) :
    Changed event g g' := by
  refine .kept _ hconnections hnext (fun c hc => ?_) hsent
  split
  · next heq => exact hchange c hc heq
  · next hne => exact hother c hc hne

theorem Changed.of_quiet_update {descriptor : ℕ} {change : Connection → Connection}
    (hconnections : g'.connections = (g.update descriptor change).connections)
    (hnext : g'.nextConnectionId = g.nextConnectionId) (hquiet : event.Quiet)
    (hchange : ∀ c ∈ g.connections, c.descriptor = descriptor → c.Evolves event (change c)) :
    Changed event g g' :=
  .of_update hconnections hnext hchange (fun c _ _ => .refl (hquiet c.id).1 (hquiet c.id).2)
    fun id _ => (hquiet id).1

theorem Changed.of_markClosing (descriptor : ℕ)
    (hconnections : g'.connections = (g.markClosing descriptor).connections)
    (hnext : g'.nextConnectionId = g.nextConnectionId) (hquiet : event.Quiet) :
    Changed event g g' :=
  .of_quiet_update hconnections hnext hquiet fun c _ _ =>
    .of_quiet (hquiet c.id).1 (hquiet c.id).2 rfl rfl (fun _ => rfl) (fun h => h) rfl

theorem Changed.of_finishReceiving {g₀ : Gateway} {descriptor : ℕ} {failed : Bool}
    (hconnections : g₀.connections = g.connections)
    (hnext : g₀.nextConnectionId = g.nextConnectionId) (hquiet : event.Quiet) :
    Changed event g (g₀.finishReceiving descriptor failed) := by
  cases failed with
  | false => exact .of_eq hconnections hnext hquiet
  | true =>
    refine .of_markClosing descriptor ?_ hnext hquiet
    rw [markClosing, update, ← hconnections]
    rfl

end Table

/-! ### Requests that are retained -/

section Retain

variable {g : Gateway}

theorem foldl_retainPending {id : ConnectionId} {messages : List (WireEnvelope ClientMessage)}
    (hroom : g.pendingRequests.length + messages.length ≤ maximumPendingRequests) :
    messages.foldl (fun g message => g.retainPending id message) g =
      { g with pendingRequests := g.pendingRequests ++ messages.map (PendingRequest.mk id) } := by
  induction messages generalizing g with
  | nil => rw [List.map_nil, List.append_nil, List.foldl_nil]
  | cons message messages ih =>
    rw [List.length_cons] at hroom
    have hstep : g.retainPending id message =
        { g with pendingRequests := g.pendingRequests ++ [⟨id, message⟩] } := by
      rw [retainPending, if_neg (by omega)]
    rw [List.foldl_cons, hstep, ih (by rw [List.length_append, List.length_singleton]; omega),
      List.map_cons, List.append_cons g.pendingRequests _ (messages.map _)]

/-- The messages that were not admitted are pending, as there is room for them. -/
theorem backOff_receiving {descriptor : ℕ} {id : ConnectionId}
    {messages : List (WireEnvelope ClientMessage)} {failed : Bool}
    (htask : g.task = .receiving descriptor id messages failed)
    (hroom : g.pendingRequests.length + messages.length ≤ maximumPendingRequests) :
    g.backOff = { g with
      pendingRequests := g.pendingRequests ++ messages.map (PendingRequest.mk id)
      readsPaused := true }.finishReceiving descriptor failed := by
  rw [backOff, htask]
  dsimp only
  rw [foldl_retainPending hroom]
  rfl

end Retain

/-- The requests of the messages that `receive_from` has not come to yet. -/
def remaining (g : Gateway) : List EngineRequest :=
  match g.task with
  | .idle => []
  | .receiving _ connectionId messages _ => messages.map (toEngineRequest connectionId)
  | .draining => []

/-- The requests that are neither admitted nor dropped yet, in the order of their messages. -/
def waiting (g : Gateway) : List EngineRequest :=
  g.pendingRequests.map PendingRequest.engineRequest ++ g.remaining

theorem length_waiting (g : Gateway) :
    g.waiting.length = g.pendingRequests.length + g.remaining.length := by
  rw [waiting, List.length_append, List.length_map]

theorem waiting_of_cons {g : Gateway} {pending : PendingRequest} {rest : List PendingRequest}
    (h : g.pendingRequests = pending :: rest) :
    g.waiting = pending.engineRequest :: { g with pendingRequests := rest }.waiting := by
  rw [waiting, h]
  rfl

/-- There is room for the messages that may have to be retained. -/
def Roomy (g : Gateway) : Prop := g.waiting.length ≤ maximumPendingRequests

theorem Changed.backOff {g : Gateway} {event : Exchange.Event} (hroom : g.Roomy)
    (hquiet : event.Quiet) : Changed event g g.backOff := by
  rw [Roomy, length_waiting, remaining] at hroom
  cases htask : g.task with
  | idle =>
    rw [Gateway.backOff, htask]
    exact .of_eq rfl rfl hquiet
  | draining =>
    rw [Gateway.backOff, htask]
    exact .of_eq rfl rfl hquiet
  | receiving descriptor id messages failed =>
    rw [htask, List.length_map] at hroom
    rw [backOff_receiving htask hroom]
    exact .of_finishReceiving rfl rfl hquiet

end Gateway

namespace Exchange

open Gateway (Changed)

variable {maxSize : ℕ} {x x' : Exchange} {event : Event}

theorem Step.changed (hstep : Step maxSize x event x') (hkeyed : x.gateway.Keyed)
    (hroom : x.gateway.Roomy) : Changed event x.gateway x'.gateway := by
  cases hstep with
  | worker hstep hgateway hshutdown =>
    exact .of_eq rfl rfl (quiet_server (hstep.of_worker hgateway hshutdown).2)
  | accept _ _ _ _ hid hfresh => exact .accepted rfl hid hfresh quiet_internal
  | hangUp descriptor => exact .of_markClosing descriptor rfl rfl quiet_internal
  | @flush c results hidle hc =>
    refine .of_update rfl rfl (fun c' hc' heq => ?_) (fun c' hc' hne => ?_) fun id hid => ?_
    · obtain rfl := hkeyed.eq_of_descriptor hc' hc heq
      exact Connection.evolves_flushOutput results
    · have hid : c.id ≠ c'.id := fun heq => hne (by rw [hkeyed.eq_of_id hc hc' heq])
      refine .refl ?_ rfl
      rw [sentTo, List.flatMap_singleton, Event.sentBytes, if_neg hid]
    · rw [sentTo, List.flatMap_singleton, Event.sentBytes, if_neg (hid c hc)]
  | closeFinished descriptor =>
    rw [Gateway.closeIfFinished]
    split
    · exact .of_eq rfl rfl quiet_internal
    · split
      · exact .removed List.eraseP_sublist rfl quiet_internal
      · exact .of_eq rfl rfl quiet_internal
  | @receive c bytes =>
    have hquiet : Event.Quiet (.received c.id (c.parser.feed bytes).1.messages) :=
      fun _ => ⟨rfl, rfl⟩
    refine .of_quiet_update rfl rfl hquiet fun c' _ _ => ?_
    exact .of_quiet rfl rfl rfl rfl (fun h => h)
      (fun h => (ClientStreamParser.feed_receiveAll h bytes).settled) rfl
  | finishReceiving => exact .of_finishReceiving rfl rfl quiet_internal
  | startDraining | finishDraining => exact .of_eq rfl rfl quiet_internal
  | @skip pending => exact .of_eq rfl rfl fun _ => ⟨rfl, rfl⟩
  | acquire hidle _ hstep hadmitting =>
    obtain ⟨rfl, -⟩ := hstep.of_acquire hidle hadmitting
    exact .of_eq rfl rfl (quiet_server rfl)
  | enqueue =>
    refine .of_eq ?_ ?_ (quiet_server rfl) <;>
    · rw [Gateway.advance]
      split <;> rfl
  | refuse hadmitting hpush hstep hidle =>
    obtain rfl := hstep.of_refuse hadmitting hpush hidle
    exact .backOff hroom (quiet_server rfl)
  | reject => exact .backOff hroom quiet_internal
  | take hidle hstep hdelivering =>
    obtain rfl := hstep.internal_of_idle hidle.1 (by simp [hdelivering])
    exact .of_eq rfl rfl (quiet_server rfl)
  | @deliver response =>
    have hother {c : Connection} (hne : c.id ≠ response.ids.1) :
        c.Evolves (.server (.delivered response)) c := by
      refine .refl rfl ?_
      simp [framesTo, shown, Event.shown, Server.delivered, Server.Event.deliveredResponses,
        hne.symm]
    rw [Gateway.deliver, Gateway.findConnection]
    split
    · next hnone =>
      have hne := List.find?_eq_none.mp hnone
      exact .kept (fun c => c) (List.map_id' _).symm rfl
        (fun c hc => hother fun heq => hne c hc (decide_eq_true heq)) fun _ _ => rfl
    · next c hc =>
      have hid : c.id = response.ids.1 := by simpa using List.find?_some hc
      refine .of_update rfl rfl (fun c' hc' heq => ?_) (fun c' hc' hne => ?_) fun _ _ => rfl
      · obtain rfl := hkeyed.eq_of_descriptor hc' (List.mem_of_find?_eq_some hc) heq
        exact Connection.evolves_deliver hid _
      · refine hother fun heq => hne ?_
        rw [hkeyed.eq_of_id hc' (List.mem_of_find?_eq_some hc) (heq.trans hid.symm)]
  | shutdown => exact .of_eq rfl rfl fun _ => ⟨rfl, rfl⟩
  | exit hidle hstep hexited =>
    obtain rfl := hstep.internal_of_idle hidle.1 (by simp [hexited])
    exact .removed (List.nil_sublist _) rfl (quiet_server rfl)

end Exchange

end MatchingEngine
