import MatchingEngine.Gateway.Connections

/-!
# Pending requests

Backpressure. When a request is not admitted, the messages behind it are retained and the gateway
does not read any more, from no connection, until it has drained them. So a message is received
only when nothing is pending, and requests are settled in the order in which their messages were
received: each is admitted, or dropped because its connection is closing or the server stops. Of a
connection nothing is admitted behind a request that was dropped.

One call of `recv` gives at most 4096 bytes, which complete the beginning of one frame and at most
146 frames more; this bounds the requests that are pending.

## Main definitions

* `Exchange.received`, `Exchange.parsed`, `Exchange.settled`: what a run has done with requests.
* `Exchange.Controlled`, `Exchange.Orderly`: the invariants.

## Main results

* `Exchange.Step.requests_eq`, `Exchange.Run.requests_eq`: requests are settled in order.
* `Exchange.run_pending`: backpressure, in every interleaving.
-/

namespace MatchingEngine

theorem ids_toEngineRequest (id : ConnectionId) (message : WireEnvelope ClientMessage) :
    (toEngineRequest id message).ids = (id, message.requestId) := by
  rw [toEngineRequest]
  split <;> rfl

namespace Exchange

/-! ### What a run does with requests -/

def Event.parsedMessages (id : ConnectionId) : Event → List (WireEnvelope ClientMessage)
  | .server _ => []
  | .shutdown _ => []
  | .received connectionId messages => if connectionId = id then messages else []
  | .skipped _ => []
  | .sent _ _ => []
  | .internal => []

def Event.receivedRequests : Event → List EngineRequest
  | .server _ => []
  | .shutdown _ => []
  | .received connectionId messages => messages.map (toEngineRequest connectionId)
  | .skipped _ => []
  | .sent _ _ => []
  | .internal => []

def Event.settledRequests : Event → List (EngineRequest × Bool)
  | .server event => event.admittedRequests.map fun request => (request, true)
  | .shutdown cleared => cleared.map fun pending => (pending.engineRequest, false)
  | .received _ _ => []
  | .skipped pending => [(pending.engineRequest, false)]
  | .sent _ _ => []
  | .internal => []

/-- The messages that the parser of a connection has produced, in order. -/
def parsed (events : List Event) (id : ConnectionId) : List (WireEnvelope ClientMessage) :=
  events.flatMap (Event.parsedMessages id)

/-- The requests of all messages, in the order in which they were received. -/
def received (events : List Event) : List EngineRequest := events.flatMap Event.receivedRequests

/-- The requests that were pushed on the request queue, with `true`, or dropped, with `false`, in
order. -/
def settled (events : List Event) : List (EngineRequest × Bool) :=
  events.flatMap Event.settledRequests

section Events

variable (events events' : List Event)

theorem received_append : received (events ++ events') = received events ++ received events' :=
  List.flatMap_append

theorem settled_append : settled (events ++ events') = settled events ++ settled events' :=
  List.flatMap_append

theorem filter_received (id : ConnectionId) :
    (received events).filter (fun request => request.ids.1 = id) =
      (parsed events id).map (toEngineRequest id) := by
  induction events with
  | nil => rfl
  | cons event events ih =>
    rw [received, parsed, List.flatMap_cons, List.flatMap_cons, List.filter_append,
      List.map_append]
    refine congrArg₂ (· ++ ·) ?_ ih
    cases event with
    | received connectionId messages =>
      rw [Event.receivedRequests, Event.parsedMessages, List.filter_map]
      split
      · next heq =>
        rw [heq, List.filter_eq_self.mpr]
        exact fun message _ => decide_eq_true (congrArg Prod.fst (ids_toEngineRequest ..))
      · next hne =>
        rw [List.filter_eq_nil_iff.mpr, List.map_nil, List.map_nil]
        intro message _ heq
        rw [Function.comp_apply, ids_toEngineRequest] at heq
        exact hne (of_decide_eq_true heq)
    | _ => rfl

theorem admitted_shown :
    Server.admitted (shown events) = ((settled events).filter (·.2)).map (·.1) := by
  induction events with
  | nil => rfl
  | cons event events ih =>
    rw [shown, settled, Server.admitted, List.flatMap_cons, List.flatMap_cons,
      List.flatMap_append, List.filter_append, List.map_append]
    refine congrArg₂ (· ++ ·) ?_ ih
    cases event with
    | server event =>
      simp [Event.shown, Event.settledRequests, List.filter_map, Function.comp_def]
    | shutdown cleared =>
      simp [Event.shown, Event.settledRequests, List.filter_map, Function.comp_def,
        Server.Event.admittedRequests]
    | _ => rfl

end Events

/-! ### The state between two accesses -/

/-- What the gateway thread is doing and what is pending fit together. -/
structure Controlled (x : Exchange) : Prop where
  paused : x.gateway.pendingRequests ≠ [] → x.gateway.readsPaused = true
  length_le : x.gateway.waiting.length ≤ 147
  of_receiving : ∀ descriptor id messages failed,
    x.gateway.task = .receiving descriptor id messages failed → x.gateway.pendingRequests = [] ∧
      ∃ c ∈ x.gateway.connections, c.id = id ∧ c.closing = false
  of_shutdown : x.server.shutdownStarted = true → x.gateway.task = .idle
  of_admitting : ∀ request, x.server.gateway = .admitting request →
    x.gateway.candidate = some request
  of_delivering : ∀ response, x.server.gateway = .delivering response → x.gateway.task = .idle

section Controlled

variable {x : Exchange}

theorem Controlled.roomy (h : x.Controlled) : x.gateway.Roomy :=
  h.length_le.trans (by decide)

/-- Between two functions of the loop. -/
theorem Controlled.of_idle (htask : x.gateway.task = .idle)
    (hgateway : ∀ request, x.server.gateway ≠ .admitting request)
    (hpaused : x.gateway.pendingRequests ≠ [] → x.gateway.readsPaused = true)
    (hlength : x.gateway.pendingRequests.length ≤ 147) : x.Controlled where
  paused := hpaused
  length_le := by
    rw [Gateway.length_waiting, Gateway.remaining, htask]
    exact hlength
  of_receiving descriptor id messages failed heq := by cases htask.symm.trans heq
  of_shutdown _ := htask
  of_admitting request heq := absurd heq (hgateway request)
  of_delivering _ _ := htask

/-- In a function of the loop, before the shutdown. -/
theorem Controlled.of_open (hgateway : x.server.gateway = .idle)
    (hopen : x.server.shutdownStarted = false)
    (hpaused : x.gateway.pendingRequests ≠ [] → x.gateway.readsPaused = true)
    (hlength : x.gateway.waiting.length ≤ 147)
    (hreceiving : ∀ descriptor id messages failed,
      x.gateway.task = .receiving descriptor id messages failed → x.gateway.pendingRequests = [] ∧
        ∃ c ∈ x.gateway.connections, c.id = id ∧ c.closing = false) : x.Controlled where
  paused := hpaused
  length_le := hlength
  of_receiving := hreceiving
  of_shutdown h := by cases hopen.symm.trans h
  of_admitting request h := by cases hgateway.symm.trans h
  of_delivering response h := by cases hgateway.symm.trans h

theorem Controlled.pendingRequests_eq_nil (h : x.Controlled)
    (hreads : x.gateway.readsPaused = false) : x.gateway.pendingRequests = [] := by
  by_contra hne
  cases hreads.symm.trans (h.paused hne)

/-- The request that can be admitted is the first one. -/
theorem Controlled.waiting_eq (h : x.Controlled) {request : EngineRequest}
    (hcandidate : x.gateway.candidate = some request) :
    x.gateway.waiting = request :: x.gateway.advance.waiting := by
  rw [Gateway.candidate] at hcandidate
  split at hcandidate
  · next htask =>
    obtain ⟨hnil, -⟩ := h.of_receiving _ _ _ _ htask
    cases hcandidate
    rw [Gateway.waiting, Gateway.waiting, Gateway.advance, Gateway.remaining, Gateway.remaining,
      htask]
    dsimp only
    rw [hnil]
    rfl
  · next pending rest htask hcons =>
    split at hcandidate
    · cases hcandidate
    · next c hfind =>
      have hid : c.id = pending.connectionId := by simpa using List.find?_some hfind
      split at hcandidate
      · cases hcandidate
      · cases hcandidate
        rw [Gateway.waiting, Gateway.waiting, Gateway.advance, Gateway.remaining,
          Gateway.remaining, htask]
        dsimp only
        rw [hcons, hid]
        rfl
  · cases hcandidate

/-- A request that can be admitted is that of a connection that is open. -/
theorem Controlled.open_of_candidate (h : x.Controlled) {request : EngineRequest}
    (hcandidate : x.gateway.candidate = some request) :
    x.server.shutdownStarted = false ∧
      ∃ c ∈ x.gateway.connections, c.id = request.ids.1 ∧ c.closing = false := by
  rw [Gateway.candidate] at hcandidate
  refine ⟨Bool.eq_false_of_not_eq_true fun hshutdown => ?_, ?_⟩
  · rw [h.of_shutdown hshutdown] at hcandidate
    cases hcandidate
  · split at hcandidate
    · next descriptor id message messages failed htask =>
      obtain ⟨-, c, hc, rfl, hopen⟩ := h.of_receiving _ _ _ _ htask
      cases hcandidate
      exact ⟨c, hc, (congrArg Prod.fst (ids_toEngineRequest ..)).symm, hopen⟩
    · split at hcandidate
      · cases hcandidate
      · next c hfind =>
        split at hcandidate
        · cases hcandidate
        · next hopen =>
          cases hcandidate
          exact ⟨c, List.mem_of_find?_eq_some hfind,
            (congrArg Prod.fst (ids_toEngineRequest ..)).symm, Bool.eq_false_of_not_eq_true hopen⟩
    · cases hcandidate

end Controlled

/-! ### Steps -/

section Step

variable {maxSize : ℕ} {x x' : Exchange} {event : Event}

/-- All requests that are left are pending after `admit` has returned `false`. -/
theorem Controlled.backOff (h : x.Controlled) : x.gateway.backOff.task = .idle ∧
    (x.gateway.backOff.pendingRequests ≠ [] → x.gateway.backOff.readsPaused = true) ∧
      x.gateway.backOff.waiting = x.gateway.waiting := by
  cases htask : x.gateway.task with
  | idle =>
    rw [Gateway.backOff, htask]
    exact ⟨htask, h.paused, rfl⟩
  | draining =>
    rw [Gateway.backOff, Gateway.waiting, Gateway.waiting, Gateway.remaining, Gateway.remaining,
      htask]
    exact ⟨rfl, fun _ => rfl, rfl⟩
  | receiving descriptor id messages failed =>
    have hroom := h.roomy
    rw [Gateway.Roomy, Gateway.length_waiting, Gateway.remaining, htask, List.length_map] at hroom
    have hwaiting : x.gateway.waiting =
        (x.gateway.pendingRequests ++ messages.map (PendingRequest.mk id)).map
          PendingRequest.engineRequest ++ [] := by
      rw [Gateway.waiting, Gateway.remaining, htask, List.map_append, List.map_map,
        List.append_nil]
      rfl
    rw [Gateway.backOff_receiving htask hroom, hwaiting]
    cases failed <;> exact ⟨rfl, fun _ => rfl, rfl⟩

theorem exists_closeIfFinished (g : Gateway) (descriptor : ℕ) :
    ∃ connections, g.closeIfFinished descriptor = { g with connections := connections } := by
  rw [Gateway.closeIfFinished]
  split
  · exact ⟨_, rfl⟩
  · split <;> exact ⟨_, rfl⟩

theorem exists_deliver (g : Gateway) (response : EngineResponse) :
    ∃ connections, g.deliver response = { g with connections := connections } := by
  rw [Gateway.deliver]
  split <;> exact ⟨_, rfl⟩

/-- At most 147 messages are received at once. -/
theorem length_messages_le {c : Connection} {bytes : List UInt8} (hsettled : c.parser.Settled)
    (hlength : bytes.length ≤ receiveBufferSize) :
    (c.parser.feed bytes).1.messages.length ≤ 147 := by
  have hle := ClientStreamParser.length_messages_feed hsettled bytes
  rw [receiveBufferSize] at hlength
  omega

theorem Controlled.after_enqueue (h : x.Controlled) {request : EngineRequest}
    (hcandidate : x.gateway.candidate = some request) {s : Server} (hidle : s.gateway = .idle)
    (hsame : s.shutdownStarted = x.server.shutdownStarted) :
    Controlled ⟨s, x.gateway.advance⟩ := by
  have hopen := hsame.trans (h.open_of_candidate hcandidate).1
  have hlength : x.gateway.advance.waiting.length ≤ 147 := by
    have hwaiting := h.length_le
    rw [h.waiting_eq hcandidate, List.length_cons] at hwaiting
    omega
  rw [Gateway.advance] at hlength ⊢
  cases htask : x.gateway.task with
  | idle =>
    rw [Gateway.candidate, htask] at hcandidate
    cases hcandidate
  | receiving descriptor id messages failed =>
    rw [htask] at hlength
    refine .of_open hidle hopen h.paused hlength fun _ _ _ _ heq => ?_
    cases heq
    exact h.of_receiving _ _ _ _ htask
  | draining =>
    rw [htask] at hlength
    refine .of_open hidle hopen (fun hne => h.paused fun hnil => hne ?_) hlength
      fun _ _ _ _ heq => by cases heq
    dsimp only
    rw [hnil, List.tail_nil]

theorem Step.controlled (hstep : Step maxSize x event x') (h : x.Controlled)
    (hsettled : ∀ c ∈ x.gateway.connections, c.parser.Settled) : x'.Controlled := by
  have hidle_ne {phase : GatewayPhase} (hidle : phase = .idle) (request : EngineRequest) :
      phase ≠ .admitting request := fun heq => by cases hidle.symm.trans heq
  have hwaiting := h.length_le
  have hpending : x.gateway.pendingRequests.length ≤ 147 := by
    rw [Gateway.length_waiting] at hwaiting
    omega
  cases hstep with
  | worker hstep hgateway hshutdown =>
    refine ⟨h.paused, h.length_le, h.of_receiving, ?_, ?_, ?_⟩
    · rw [hshutdown]
      exact h.of_shutdown
    · rw [hgateway]
      exact h.of_admitting
    · rw [hgateway]
      exact h.of_delivering
  | accept hidle | hangUp _ hidle | flush _ hidle =>
    exact .of_idle hidle.2 (hidle_ne hidle.1) h.paused hpending
  | closeFinished descriptor hidle =>
    obtain ⟨connections, heq⟩ := exists_closeIfFinished x.gateway descriptor
    rw [heq]
    exact .of_idle hidle.2 (hidle_ne hidle.1) h.paused hpending
  | @receive c bytes hidle hc hclosing hreads hopen hne hlength =>
    -- reads are not paused, so only the messages of this call are to be admitted
    have hnil := h.pendingRequests_eq_nil hreads
    refine .of_open hidle.1 hopen h.paused ?_ ?_
    · rw [Gateway.length_waiting]
      dsimp only [Gateway.remaining, Gateway.update]
      rw [hnil, List.length_nil, List.length_map, Nat.zero_add]
      exact length_messages_le (hsettled c hc) hlength
    · intro _ _ _ _ heq
      cases heq
      refine ⟨hnil, _, List.mem_map_of_mem hc, ?_, ?_⟩
      · rw [if_pos rfl]
      · rw [if_pos rfl]
        exact hclosing
  | @finishReceiving _ _ failed hidle htask =>
    cases failed <;> exact .of_idle rfl (hidle_ne hidle) h.paused hpending
  | startDraining hidle hopen =>
    refine .of_open hidle.1 hopen h.paused ?_ fun _ _ _ _ heq => by cases heq
    rw [Gateway.length_waiting]
    exact hpending
  | skip hidle htask hcons =>
    have hopen : x.server.shutdownStarted = false :=
      Bool.eq_false_of_not_eq_true fun hdown => by cases htask.symm.trans (h.of_shutdown hdown)
    refine .of_open hidle hopen (fun _ => h.paused (by rw [hcons]; exact List.cons_ne_nil _ _)) ?_
      fun _ _ _ _ heq => by cases htask.symm.trans heq
    rw [Gateway.waiting_of_cons hcons, List.length_cons] at hwaiting
    exact Nat.le_of_succ_le hwaiting
  | finishDraining hidle htask hnil =>
    exact .of_idle rfl (hidle_ne hidle) (fun hne => absurd hnil hne) hpending
  | acquire hidle hcandidate hstep hadmitting =>
    obtain ⟨-, hopen⟩ := hstep.of_acquire hidle hadmitting
    refine ⟨h.paused, h.length_le, h.of_receiving, ?_, ?_, ?_⟩
    · exact fun hdown => by cases hopen.symm.trans hdown
    · exact fun request heq => by cases hadmitting.symm.trans heq; exact hcandidate
    · exact fun response heq => by cases hadmitting.symm.trans heq
  | @enqueue request _ hstep =>
    obtain ⟨hadmitting, hidle, hsame⟩ := hstep.of_admitted
    exact h.after_enqueue (h.of_admitting _ hadmitting) hidle hsame
  | refuse _ _ _ hidle | reject hidle =>
    obtain ⟨htask, hpaused, heq⟩ := h.backOff
    rw [← heq, Gateway.length_waiting] at hwaiting
    exact .of_idle htask (hidle_ne hidle) hpaused ((Nat.le_add_right _ _).trans hwaiting)
  | take hidle hstep hdelivering =>
    exact .of_idle hidle.2 (fun _ heq => by cases hdelivering.symm.trans heq) h.paused hpending
  | @deliver response _ hstep =>
    obtain ⟨hdelivering, hidle⟩ := hstep.of_delivered
    obtain ⟨connections, heq⟩ := exists_deliver x.gateway response
    rw [heq]
    exact .of_idle (h.of_delivering _ hdelivering) (hidle_ne hidle) h.paused hpending
  | shutdown hidle hopen hstep hshutdown =>
    obtain ⟨-, hsame⟩ := hstep.of_shutdown hopen hshutdown
    exact .of_idle hidle.2 (hidle_ne (hsame.trans hidle.1)) (fun hne => absurd rfl hne)
      (Nat.zero_le _)
  | exit hidle hstep hexited =>
    exact .of_idle hidle.2 (fun _ heq => by cases hexited.symm.trans heq) h.paused hpending

/-- A step settles the first requests and receives requests behind the others. -/
theorem Step.requests_eq (hstep : Step maxSize x event x') (h : x.Controlled) :
    x.gateway.waiting ++ event.receivedRequests =
      event.settledRequests.map Prod.fst ++ x'.gateway.waiting := by
  cases hstep with
  | worker hstep hgateway hshutdown =>
    rw [Event.receivedRequests, Event.settledRequests, (hstep.of_worker hgateway hshutdown).1,
      List.append_nil]
    rfl
  | accept | hangUp | flush => exact List.append_nil _
  | closeFinished descriptor hidle =>
    obtain ⟨connections, heq⟩ := exists_closeIfFinished x.gateway descriptor
    rw [heq]
    exact List.append_nil _
  | @receive c bytes hidle hc hclosing hreads =>
    have hnil := h.pendingRequests_eq_nil hreads
    rw [Gateway.waiting, Gateway.waiting, Gateway.remaining, hidle.2]
    dsimp only [Gateway.remaining, Gateway.update]
    rw [hnil]
    rfl
  | @finishReceiving _ _ failed hidle htask =>
    rw [Gateway.waiting, Gateway.remaining, htask]
    cases failed <;> exact List.append_nil _
  | startDraining hidle =>
    rw [Gateway.waiting, Gateway.remaining, hidle.2]
    exact List.append_nil _
  | skip hidle htask hcons =>
    rw [Gateway.waiting_of_cons hcons, Event.receivedRequests, List.append_nil]
    rfl
  | finishDraining hidle htask =>
    rw [Gateway.waiting, Gateway.remaining, htask]
    exact List.append_nil _
  | acquire hidle _ hstep hadmitting =>
    obtain ⟨rfl, -⟩ := hstep.of_acquire hidle hadmitting
    exact List.append_nil _
  | enqueue hstep =>
    obtain ⟨hadmitting, -, -⟩ := hstep.of_admitted
    rw [h.waiting_eq (h.of_admitting _ hadmitting), Event.receivedRequests, List.append_nil]
    rfl
  | refuse hadmitting hpush hstep hidle =>
    obtain rfl := hstep.of_refuse hadmitting hpush hidle
    rw [h.backOff.2.2]
    exact List.append_nil _
  | reject =>
    rw [h.backOff.2.2]
    exact List.append_nil _
  | take hidle hstep hdelivering =>
    obtain rfl := hstep.internal_of_idle hidle.1 (by simp [hdelivering])
    exact List.append_nil _
  | @deliver response =>
    obtain ⟨connections, heq⟩ := exists_deliver x.gateway response
    rw [heq]
    exact List.append_nil _
  | shutdown hidle =>
    rw [Gateway.waiting, Gateway.waiting, Gateway.remaining, Gateway.remaining, hidle.2,
      Event.settledRequests, List.map_map]
    exact List.append_nil _
  | exit hidle hstep hexited =>
    obtain rfl := hstep.internal_of_idle hidle.1 (by simp [hexited])
    exact List.append_nil _

/-- A request is admitted if it can be, or dropped because its connection is closing or the server
stops. -/
theorem Step.settled_cases (hstep : Step maxSize x event x') (hkeyed : x.gateway.Keyed)
    (h : x.Controlled) :
    (∃ request, x.gateway.candidate = some request ∧
      event.settledRequests = [(request, true)]) ∨
    ∀ o ∈ event.settledRequests, o.2 = false ∧ (x'.server.shutdownStarted = true ∨
      ∀ c ∈ x'.gateway.connections, c.id = o.1.ids.1 → c.closing = true) := by
  cases hstep with
  | worker hstep hgateway hshutdown =>
    rw [Event.settledRequests, (hstep.of_worker hgateway hshutdown).1]
    exact Or.inr (List.forall_mem_nil _)
  | acquire hidle _ hstep hadmitting =>
    obtain ⟨rfl, -⟩ := hstep.of_acquire hidle hadmitting
    exact Or.inr (List.forall_mem_nil _)
  | enqueue hstep =>
    obtain ⟨hadmitting, -, -⟩ := hstep.of_admitted
    exact Or.inl ⟨_, h.of_admitting _ hadmitting, rfl⟩
  | refuse hadmitting hpush hstep hidle =>
    obtain rfl := hstep.of_refuse hadmitting hpush hidle
    exact Or.inr (List.forall_mem_nil _)
  | take hidle hstep hdelivering =>
    obtain rfl := hstep.internal_of_idle hidle.1 (by simp [hdelivering])
    exact Or.inr (List.forall_mem_nil _)
  | exit hidle hstep hexited =>
    obtain rfl := hstep.internal_of_idle hidle.1 (by simp [hexited])
    exact Or.inr (List.forall_mem_nil _)
  | @skip pending _ hidle htask hcons hclosed =>
    refine Or.inr fun o ho => ?_
    obtain rfl := List.mem_singleton.mp ho
    refine ⟨rfl, Or.inr fun c hc hid => hclosed c ?_⟩
    replace hid : c.id = pending.connectionId :=
      hid.trans (congrArg Prod.fst (ids_toEngineRequest ..))
    rw [Gateway.findConnection, ← hid]
    exact List.find?_key Connection.id hkeyed.ids_nodup hc
  | shutdown _ _ _ hshutdown =>
    refine Or.inr fun o ho => ?_
    obtain ⟨pending, -, rfl⟩ := List.mem_map.mp ho
    exact ⟨rfl, Or.inl hshutdown⟩
  | _ => exact Or.inr (List.forall_mem_nil _)

theorem Step.ids_lt (hstep : Step maxSize x event x') (hkeyed : x.gateway.Keyed) :
    ∀ request ∈ event.receivedRequests, request.ids.1.value.toNat < x.gateway.issued := by
  intro request hrequest
  cases event with
  | received id messages =>
    obtain ⟨message, -, rfl⟩ := List.mem_map.mp hrequest
    rw [ids_toEngineRequest]
    cases hstep with
    | receive _ _ hc => exact hkeyed.ids_lt _ hc
  | _ => cases hrequest

theorem Step.shutdownStarted_of (hstep : Step maxSize x event x')
    (h : x.server.shutdownStarted = true) : x'.server.shutdownStarted = true := by
  rcases hstep.server with ⟨-, hsame⟩ | ⟨event', -, hstep'⟩
  · rw [hsame]
    exact h
  · exact hstep'.shutdownStarted_of h

end Step

/-! ### Runs -/

/-- The requests of a run. They are settled in the order of their messages. Of a connection, nothing
is admitted behind a request that was dropped. -/
structure Orderly (events : List Event) (x : Exchange) : Prop where
  keyed : x.gateway.Keyed
  parsers_settled : ∀ c ∈ x.gateway.connections, c.parser.Settled
  controlled : x.Controlled
  received_eq : received events = (settled events).map Prod.fst ++ x.gateway.waiting
  ids_lt : ∀ request ∈ received events, request.ids.1.value.toNat < x.gateway.issued
  of_dropped : ∀ request, (request, false) ∈ settled events →
    x.server.shutdownStarted = true ∨
      ∀ c ∈ x.gateway.connections, c.id = request.ids.1 → c.closing = true
  admitted_first : ∀ id, ((settled events).filter fun o => o.1.ids.1 = id).filter (·.2) <+:
    (settled events).filter fun o => o.1.ids.1 = id

section Run

variable {maxSize : ℕ} {x x' : Exchange} {event : Event} {events : List Event}

theorem Orderly.mem_received (h : Orderly events x) {o : EngineRequest × Bool}
    (ho : o ∈ settled events) : o.1 ∈ received events := by
  rw [h.received_eq]
  exact List.mem_append_left _ (List.mem_map_of_mem ho)

/-- Nothing was dropped of a connection that is open. -/
theorem Orderly.filter_settled (h : Orderly events x) {request : EngineRequest}
    (hcandidate : x.gateway.candidate = some request) :
    ((settled events).filter fun o => o.1.ids.1 = request.ids.1).filter (·.2) =
      (settled events).filter fun o => o.1.ids.1 = request.ids.1 := by
  obtain ⟨hopen, c, hc, hid, hclosing⟩ := h.controlled.open_of_candidate hcandidate
  refine List.filter_eq_self.mpr fun o ho => ?_
  obtain ⟨ho, hrequest⟩ := List.mem_filter.mp ho
  by_contra hdropped
  obtain ⟨request', admitted⟩ := o
  obtain rfl : admitted = false := Bool.eq_false_of_not_eq_true hdropped
  rcases h.of_dropped _ ho with hdown | hall
  · cases hopen.symm.trans hdown
  · cases hclosing.symm.trans (hall c hc (hid.trans (of_decide_eq_true hrequest).symm))

theorem Orderly.step (h : Orderly events x) (hstep : Step maxSize x event x') :
    Orderly (events ++ [event]) x' := by
  have hchanged := hstep.changed h.keyed h.controlled.roomy
  obtain ⟨hkeyed, hissued⟩ := hchanged.keyed h.keyed
  have hsettled : settled (events ++ [event]) = settled events ++ event.settledRequests := by
    rw [settled_append, settled, settled, List.flatMap_singleton]
  have hreceived : received (events ++ [event]) = received events ++ event.receivedRequests := by
    rw [received_append, received, received, List.flatMap_singleton]
  have hcases := hstep.settled_cases h.keyed h.controlled
  refine ⟨hkeyed, hchanged.parsers_settled h.parsers_settled,
    hstep.controlled h.controlled h.parsers_settled, ?_, ?_, ?_, ?_⟩
  · rw [hreceived, hsettled, h.received_eq, List.append_assoc, List.map_append, List.append_assoc,
      hstep.requests_eq h.controlled]
  · rw [hreceived]
    intro request hrequest
    rcases List.mem_append.mp hrequest with hold | hnew
    · exact (h.ids_lt request hold).trans_le hissued
    · exact (hstep.ids_lt h.keyed request hnew).trans_le hissued
  · rw [hsettled]
    intro request hrequest
    rcases List.mem_append.mp hrequest with hold | hnew
    · refine (h.of_dropped request hold).imp hstep.shutdownStarted_of fun hclosing => ?_
      exact hchanged.closing_of hclosing (h.ids_lt _ (h.mem_received hold))
    · rcases hcases with ⟨request', -, hone⟩ | hdropped
      · rw [hone] at hnew
        cases List.mem_singleton.mp hnew
      · exact (hdropped _ hnew).2
  · rw [hsettled]
    intro id
    rw [List.filter_append, List.filter_append]
    rcases hcases with ⟨request, hcandidate, hone⟩ | hdropped
    · rw [hone]
      by_cases hid : request.ids.1 = id
      · subst hid
        rw [h.filter_settled hcandidate]
        simp
      · simpa [hid] using h.admitted_first id
    · have hnil : (event.settledRequests.filter fun o => o.1.ids.1 = id).filter (·.2) = [] :=
        List.filter_eq_nil_iff.mpr fun o ho => by
          rw [(hdropped o (List.mem_of_mem_filter ho)).1]
          exact Bool.false_ne_true
      rw [hnil, List.append_nil]
      exact (h.admitted_first id).trans (List.prefix_append _ _)

theorem Orderly.run {events' : List Event} (h : Orderly events x)
    (hrun : Run maxSize x events' x') : Orderly (events ++ events') x' := by
  induction hrun with
  | refl =>
    rw [List.append_nil]
    exact h
  | step _ _ hstep ih =>
    rw [← List.append_assoc]
    exact ih.step hstep

theorem orderly_ofServer {server : Server} (hidle : server.gateway = .idle)
    (config : ServerConfig) : Orderly [] (ofServer server config) where
  keyed := ⟨.nil, .nil, nofun⟩
  parsers_settled := nofun
  controlled := .of_idle rfl (fun _ heq => by cases hidle.symm.trans heq) (absurd rfl)
    (Nat.zero_le _)
  received_eq := rfl
  ids_lt := nofun
  of_dropped := nofun
  admitted_first _ := List.nil_prefix

/-- Requests are settled in order: first those that are waiting, then those that are received. -/
theorem Run.requests_eq {events' : List Event} (h : Orderly events x)
    (hrun : Run maxSize x events' x') :
    x.gateway.waiting ++ received events' =
      (settled events').map Prod.fst ++ x'.gateway.waiting := by
  have heq := (h.run hrun).received_eq
  rw [received_append, settled_append, h.received_eq, List.map_append, List.append_assoc,
    List.append_assoc] at heq
  exact List.append_cancel_left heq

/-- What is admitted of a connection are the first of its messages. -/
theorem Orderly.admitted_isPrefix (h : Orderly events x) (id : ConnectionId) :
    (Server.admitted (shown events)).filter (fun request => request.ids.1 = id) <+:
      (parsed events id).map (toEngineRequest id) := by
  rw [← filter_received, admitted_shown, h.received_eq, List.filter_append, List.filter_map,
    List.filter_map, List.filter_filter]
  refine List.IsPrefix.trans ?_ (List.prefix_append _ _)
  have hfirst := (h.admitted_first id).map Prod.fst
  rw [List.filter_filter] at hfirst
  simpa only [Bool.and_comm, Function.comp_def] using hfirst

/-- While the messages of a call are retained, there is room. -/
theorem Controlled.length_foldl_retainPending (h : x.Controlled) {descriptor : ℕ}
    {id : ConnectionId} {messages retained rest : List (WireEnvelope ClientMessage)} {failed : Bool}
    {message : WireEnvelope ClientMessage}
    (htask : x.gateway.task = .receiving descriptor id messages failed)
    (hmessages : messages = retained ++ message :: rest) :
    (retained.foldl (fun g message => g.retainPending id message)
      x.gateway).pendingRequests.length < 147 := by
  have hlength := h.length_le
  rw [Gateway.length_waiting, Gateway.remaining, htask, List.length_map, hmessages,
    List.length_append, List.length_cons] at hlength
  have hroom : x.gateway.pendingRequests.length + retained.length ≤ maximumPendingRequests := by
    rw [maximumPendingRequests]
    omega
  rw [Gateway.foldl_retainPending hroom, List.length_append, List.length_map]
  omega

end Run

/-- In every interleaving of a server that was created, whatever its clients send: If requests are
pending, reads are paused or the server stops. What is pushed on the request queue of a connection
are the first messages that its parser has produced. From any moment on, requests are settled in the
order of their messages, those that are pending before all that are received later; a request that
is dropped is one of a connection that is closing or closed, if the server does not stop. At most
147 requests are pending, and `retain_pending` finds room for each of them. -/
theorem run_pending (maxSize : ℕ) (config : ExchangeServerConfig)
    (engineResult : Except DurableEngineError (DurableEngine × Posix.File)) (gatewayCreated : Bool)
    (server : Server) (gatewayConfig : ServerConfig)
    (hcreate : ExchangeServer.create config engineResult gatewayCreated = .ok server)
    (events : List Event) (x : Exchange)
    (hrun : Run maxSize (ofServer server gatewayConfig) events x) :
    (x.gateway.pendingRequests ≠ [] →
      x.gateway.readsPaused = true ∨ x.server.shutdownStarted = true) ∧
    (∀ id, (Server.admitted (shown events)).filter (fun request => request.ids.1 = id) <+:
      (parsed events id).map (toEngineRequest id)) ∧
    (∀ events' x', Run maxSize x events' x' →
      x.gateway.waiting ++ received events' =
        (settled events').map Prod.fst ++ x'.gateway.waiting ∧
      Server.admitted (shown events') = ((settled events').filter (·.2)).map (·.1)) ∧
    (∀ request, (request, false) ∈ settled events → x.server.shutdownStarted = true ∨
      ∀ c ∈ x.gateway.connections, c.id = request.ids.1 → c.closing = true) ∧
    x.gateway.pendingRequests.length ≤ 147 ∧
    ∀ descriptor id messages failed, x.gateway.task = .receiving descriptor id messages failed →
      ∀ retained message rest, messages = retained ++ message :: rest →
        (retained.foldl (fun g message => g.retainPending id message)
          x.gateway).pendingRequests.length ≠ maximumPendingRequests := by
  obtain ⟨-, -, -, engine, f, -, rfl⟩ := ExchangeServer.create_eq_ok hcreate
  have h : Orderly events x := (orderly_ofServer rfl gatewayConfig).run hrun
  refine ⟨fun hne => Or.inl (h.controlled.paused hne), h.admitted_isPrefix,
    fun events' x' hrun' => ⟨hrun'.requests_eq h, admitted_shown events'⟩, h.of_dropped, ?_, ?_⟩
  · have hlength := h.controlled.length_le
    rw [Gateway.length_waiting] at hlength
    omega
  · intro descriptor id messages failed htask retained message rest hmessages
    have hlt := h.controlled.length_foldl_retainPending htask hmessages
    exact (hlt.trans (by decide)).ne

/-- The first connection of a server that admits one request at a time. It sends two messages at
once, and the second one is retained. -/
theorem exists_run_retained (maxSize : ℕ) (server : Server) {limiter : InFlightLimiter}
    {queue : BoundedQueue EngineRequest} {bytes : List UInt8}
    {message message' : WireEnvelope ClientMessage} (hhalted : server.halted = none)
    (hidle : server.gateway = .idle) (hopen : server.shutdownStarted = false)
    (hhealthy : server.engineFailed = false)
    (hacquire : server.inFlightLimiter.tryAcquire = some limiter)
    (hfull : limiter.tryAcquire = none)
    (hpush : server.requestQueue.tryPush (toEngineRequest ⟨1⟩ message) = some queue)
    (hlength : bytes.length ≤ receiveBufferSize)
    (hfeed : ((ClientStreamParser.ofLimit 65536).feed bytes).1 = ⟨[message, message'], none⟩) :
    ∃ parser, Run maxSize (ofServer server {})
      [.internal, .received ⟨1⟩ [message, message'], .server .internal,
        .server (.admitted (toEngineRequest ⟨1⟩ message)), .internal]
      ⟨{ server with inFlightLimiter := limiter, requestQueue := queue, gateway := .idle },
        { config := {}
          connections := [⟨⟨1⟩, 5, parser, .empty, false⟩]
          pendingRequests := [⟨⟨1⟩, message'⟩]
          nextConnectionId := 2
          readsPaused := true }⟩ := by
  have hne : bytes ≠ [] := by
    rintro rfl
    cases hfeed
  have haccepted : Run maxSize (ofServer server {}) [.internal]
      ⟨server, Gateway.accept { config := {} } 5⟩ :=
    .step .refl hhalted
      (.accept ⟨hidle, rfl⟩ rfl hopen (show 0 < 256 by decide) (show (1 : UInt64) ≠ 0 by decide)
        nofun)
  obtain ⟨parser, hreceived⟩ : ∃ parser, Run maxSize (ofServer server {})
      [.internal, .received ⟨1⟩ [message, message']]
      ⟨server,
        { config := {}
          connections := [⟨⟨1⟩, 5, parser, .empty, false⟩]
          nextConnectionId := 2
          task := .receiving 5 ⟨1⟩ [message, message'] false }⟩ := by
    generalize hfed : (ClientStreamParser.ofLimit 65536).feed bytes = fed at hfeed
    have hstep : Step maxSize ⟨server, Gateway.accept { config := {} } 5⟩
        (.received ⟨1⟩ fed.1.messages)
        ⟨server,
          { config := {}
            connections := [⟨⟨1⟩, 5, fed.2, .empty, false⟩]
            nextConnectionId := 2
            task := .receiving 5 ⟨1⟩ fed.1.messages fed.1.error.isSome }⟩ :=
      hfed ▸ Step.receive (c := ⟨⟨1⟩, 5, .ofLimit 65536, .empty, false⟩) bytes ⟨hidle, rfl⟩
        (List.mem_singleton.mpr rfl) rfl rfl hopen hne hlength
    rw [hfeed] at hstep
    exact ⟨fed.2, haccepted.step hhalted hstep⟩
  have hadmitted := (hreceived.step hhalted (.acquire hidle rfl
    (.acquire _ hidle hopen hhealthy hacquire) rfl)).step hhalted (.enqueue (.enqueue rfl hpush))
  exact ⟨parser, hadmitted.step hhalted (.reject rfl rfl (Or.inr (Or.inr hfull)))⟩

/-- Two requests to cancel an order. -/
theorem feed_cancels : ((ClientStreamParser.ofLimit 65536).feed
    [77, 69, 88, 71, 0, 1, 0, 2, 0, 0, 0, 8, 0, 0, 0, 0, 0, 0, 0, 1, 0, 0, 0, 0, 0, 0, 0, 7,
      77, 69, 88, 71, 0, 1, 0, 2, 0, 0, 0, 8, 0, 0, 0, 0, 0, 0, 0, 2, 0, 0, 0, 0, 0, 0, 0, 8]).1 =
      ⟨[⟨⟨1⟩, .cancelOrder ⟨⟨7⟩⟩⟩, ⟨⟨2⟩, .cancelOrder ⟨⟨8⟩⟩⟩], none⟩ := by
  decide +kernel

/-- A server that was created for one request at a time, on a new journal. -/
theorem run_pending_retained :
    ∃ server events x, ExchangeServer.create { maximumInFlight := 1 }
        (.ok (⟨Book.fresh, ⟨some ⟨1⟩, false⟩, .healthy⟩,
          (Posix.File.empty.append encodeFileHeader).sync)) true = .ok server ∧
      Run (2 ^ 56) (ofServer server {}) events x ∧
      x.gateway.pendingRequests = [⟨⟨1⟩, ⟨2⟩, .cancelOrder ⟨⟨8⟩⟩⟩] ∧
      (x.gateway.readsPaused = true ∨ x.server.shutdownStarted = true) := by
  have hcreate : ExchangeServer.create { maximumInFlight := 1 }
      (.ok (⟨Book.fresh, ⟨some ⟨1⟩, false⟩, .healthy⟩,
        (Posix.File.empty.append encodeFileHeader).sync)) true =
      .ok (Server.ofConfig { maximumInFlight := 1 } _ _) := rfl
  obtain ⟨parser, hrun⟩ := exists_run_retained (2 ^ 56)
    (Server.ofConfig { maximumInFlight := 1 } ⟨Book.fresh, ⟨some ⟨1⟩, false⟩, .healthy⟩
      (Posix.File.empty.append encodeFileHeader).sync)
    rfl rfl rfl rfl rfl rfl rfl (by decide) feed_cancels
  exact ⟨_, _, _, hcreate, hrun, rfl,
    (run_pending (2 ^ 56) _ _ true _ {} hcreate _ _ hrun).1 (List.cons_ne_nil _ _)⟩

end Exchange

end MatchingEngine
