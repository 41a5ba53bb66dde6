import MatchingEngine.ExchangeServer.Batches
import MatchingEngine.Gateway.Loop
import MatchingEngine.Gateway.Routing

/-!
# The stages of the loop

What holds of the pipeline at each place of the loop of the gateway. Most functions of the loop are
one step; in `drain_engine_completions`, `drain_pending_requests` and `receive_from` the gateway
can be in the middle of a completion or of an admission.

## Main definitions

* `Server.Serving`: the request queue and the batches of a server.
* `Exchange.Pressed`: reads are paused for the sake of pending requests.
* `EventLoop.Stage.Fits`, `EventLoop.Fitting`: what the gateway can be in the middle of in a stage.

## Main results

* `Exchange.Run.cleared`: nothing is pending after the shutdown has begun.
* `Exchange.Run.pressed`: reads are not paused longer than that.
* `EventLoop.Run.fitting`, `EventLoop.Run.orderly`, `EventLoop.Run.serving`,
  `EventLoop.Run.accounted`.
-/

namespace MatchingEngine

namespace Server

/-! ### The request queue -/

/-- The request queue is closed when the shutdown begins, a batch has a request, and the worker
closes the response queue at its end. -/
structure Serving (config : ExchangeServerConfig) (s : Server) : Prop where
  capacity_eq : s.requestQueue.capacity = config.requestQueueCapacity.toNat
  closed_eq : s.requestQueue.closed = s.shutdownStarted
  gathering : s.Gathering
  of_finished : s.worker = .finished → s.responseQueue.closed = true

section Serving

variable {maxSize : ℕ} {config : ExchangeServerConfig} {s s' : Server} {event : Event}

theorem serving_ofConfig (config : ExchangeServerConfig) (engine : DurableEngine)
    (f : Posix.File) : Serving config (ofConfig config engine f) where
  capacity_eq := rfl
  closed_eq := rfl
  gathering := by rintro batch (h | h) <;> cases h
  of_finished h := by cases h

theorem Serving.finished_step (h : Serving config s) (hstep : Step maxSize s event s')
    (hfinished : s'.worker = .finished) : s'.responseQueue.closed = true := by
  cases hstep with
  | takeCompletion _ hpop =>
    exact (BoundedQueue.tryPop_eq_some hpop).2.2.trans (h.of_finished hfinished)
  | execute hexecuting call =>
    exact absurd hfinished (executeAndPublishBatch_ne_finished hexecuting call)
  | finish => rfl
  | pop | drain | stopDraining | publish | await => cases hfinished
  | _ => exact h.of_finished hfinished

theorem Serving.step (h : Serving config s) (hstep : Step maxSize s event s') :
    Serving config s' := by
  refine ⟨?_, ?_, h.gathering.step hstep, h.finished_step hstep⟩
  · cases hstep with
    | enqueue _ hpush => exact (BoundedQueue.tryPush_eq_some hpush).2.1.trans h.capacity_eq
    | pop _ hpop | drain _ _ hpop =>
      exact (BoundedQueue.tryPop_eq_some hpop).2.1.trans h.capacity_eq
    | execute _ call _ =>
      rw [(executeAndPublishBatch_frame s _ call).requestQueue_eq]
      exact h.capacity_eq
    | _ => exact h.capacity_eq
  · cases hstep with
    | enqueue _ hpush =>
      obtain ⟨-, -, hopen, hopen'⟩ := BoundedQueue.tryPush_eq_some hpush
      exact hopen'.trans (hopen.symm.trans h.closed_eq)
    | pop _ hpop | drain _ _ hpop =>
      exact (BoundedQueue.tryPop_eq_some hpop).2.2.trans h.closed_eq
    | shutdown => rfl
    | execute _ call _ =>
      rw [(executeAndPublishBatch_frame s _ call).requestQueue_eq,
        executeAndPublishBatch_shutdownStarted]
      exact h.closed_eq
    | _ => exact h.closed_eq

theorem Serving.run {start : Server} {events : List Event} (h : Serving config start)
    (hrun : Run maxSize start events s) : Serving config s := by
  induction hrun with
  | refl => exact h
  | step _ _ hstep ih => exact ih.step hstep

end Serving

end Server

/-! ### What is pending -/

section Cleared

variable {maxSize : ℕ} {start x x' : Exchange} {event : Exchange.Event}
  {events : List Exchange.Event}

theorem Exchange.Step.cleared (hstep : Exchange.Step maxSize x event x')
    (hcontrolled : x.Controlled)
    (h : x.server.shutdownStarted = true → x.gateway.pendingRequests = []) :
    x'.server.shutdownStarted = true → x'.gateway.pendingRequests = [] := by
  intro hdown
  have hopen {request : EngineRequest} (hcandidate : x.gateway.candidate = some request) :=
    (hcontrolled.open_of_candidate hcandidate).1
  cases hstep with
  | worker _ _ hshutdown => exact h (hshutdown.symm.trans hdown)
  | closeFinished descriptor =>
    obtain ⟨connections, heq⟩ := Exchange.exists_closeIfFinished x.gateway descriptor
    dsimp only
    rw [heq]
    exact h hdown
  | receive _ _ _ _ _ hdown' => cases hdown'.symm.trans hdown
  | @finishReceiving _ _ failed => cases failed <;> exact h hdown
  | skip _ htask => cases htask.symm.trans (hcontrolled.of_shutdown hdown)
  | finishDraining _ _ hpending => exact hpending
  | acquire hidle hcandidate hstep hadmitting =>
    cases (hstep.of_acquire hidle hadmitting).2.symm.trans hdown
  | enqueue hstep =>
    obtain ⟨hadmitting, -, hsame⟩ := hstep.of_admitted
    cases (hopen (hcontrolled.of_admitting _ hadmitting)).symm.trans (hsame.symm.trans hdown)
  | refuse hadmitting hpush hstep hidle =>
    obtain ⟨-, hsame⟩ := hstep.of_shutdown (hopen (hcontrolled.of_admitting _ hadmitting)) hdown
    cases hadmitting.symm.trans (hsame.symm.trans hidle)
  | reject _ hcandidate => cases (hopen hcandidate).symm.trans hdown
  | take hidle hstep hdelivering =>
    refine h (Bool.eq_true_of_not_eq_false fun hup => ?_)
    obtain ⟨-, hsame⟩ := hstep.of_shutdown hup hdown
    cases hdelivering.symm.trans (hsame.trans hidle.1)
  | @deliver response _ hstep =>
    obtain ⟨connections, heq⟩ := Exchange.exists_deliver x.gateway response
    dsimp only
    rw [heq]
    refine h (Bool.eq_true_of_not_eq_false fun hup => ?_)
    cases (hstep.of_shutdown hup hdown).1
  | shutdown => rfl
  | exit hidle hstep hexited =>
    refine h (Bool.eq_true_of_not_eq_false fun hup => ?_)
    obtain ⟨-, hsame⟩ := hstep.of_shutdown hup hdown
    cases hexited.symm.trans (hsame.trans hidle.1)
  | _ => exact h hdown

theorem Exchange.Run.cleared {server : Server} {config : ServerConfig}
    (hidle : server.gateway = .idle)
    (hrun : Exchange.Run maxSize (Exchange.ofServer server config) events x) :
    x.server.shutdownStarted = true → x.gateway.pendingRequests = [] := by
  induction hrun with
  | refl => exact fun _ => rfl
  | step hrun _ hstep ih =>
    exact hstep.cleared ((Exchange.orderly_ofServer hidle config).run hrun).controlled ih

/-- Reads are paused for the sake of requests that are pending. The flag is reset at the end of
`drain_pending_requests`, and never after a shutdown. -/
def Exchange.Pressed (x : Exchange) : Prop :=
  x.gateway.readsPaused = true →
    x.gateway.pendingRequests ≠ [] ∨ x.gateway.task = .draining ∨ x.server.shutdownStarted = true

/-- A request for which `admit` has returned `false` is pending. -/
theorem Exchange.Controlled.backOff_ne_nil (h : x.Controlled) {request : EngineRequest}
    (hcandidate : x.gateway.candidate = some request) :
    x.gateway.backOff.pendingRequests ≠ [] := by
  obtain ⟨htask, -, hwaiting⟩ := h.backOff
  intro hnil
  rw [h.waiting_eq hcandidate, Gateway.waiting, hnil, Gateway.remaining, htask] at hwaiting
  cases hwaiting

theorem Exchange.Step.pressed (hstep : Exchange.Step maxSize x event x')
    (hcontrolled : x.Controlled) (h : x.Pressed) : x'.Pressed := by
  have hshutdown := hstep.shutdownStarted_of
  -- what does not take anything from the pending requests and leaves the flag
  have hkept (hpaused : x'.gateway.readsPaused = x.gateway.readsPaused)
      (hpending : x'.gateway.pendingRequests = x.gateway.pendingRequests)
      (htask : x.gateway.task = .draining → x'.gateway.task = .draining) : x'.Pressed := by
    intro hreads
    rw [hpending]
    exact (h (hpaused.symm.trans hreads)).imp_right (Or.imp htask hshutdown)
  cases hstep with
  | worker | acquire | take => exact hkept rfl rfl id
  | accept | hangUp | flush | exit => exact hkept rfl rfl id
  | closeFinished descriptor =>
    obtain ⟨connections, heq⟩ := Exchange.exists_closeIfFinished x.gateway descriptor
    dsimp only at hkept
    rw [heq] at hkept ⊢
    exact hkept rfl rfl id
  | @deliver response =>
    obtain ⟨connections, heq⟩ := Exchange.exists_deliver x.gateway response
    dsimp only at hkept
    rw [heq] at hkept ⊢
    exact hkept rfl rfl id
  | receive _ _ _ _ hreads => exact fun hpaused => by cases hreads.symm.trans hpaused
  | @finishReceiving _ _ failed _ htask =>
    cases failed <;> exact hkept rfl rfl fun hdraining => by cases htask.symm.trans hdraining
  | startDraining => exact fun _ => Or.inr (Or.inl rfl)
  | skip _ htask => exact fun _ => Or.inr (Or.inl htask)
  | finishDraining => exact fun hpaused => by cases hpaused
  | enqueue =>
    dsimp only [Gateway.advance] at hkept ⊢
    cases htask : x.gateway.task with
    | idle =>
      rw [htask] at hkept
      exact hkept rfl rfl GatewayTask.noConfusion
    | receiving =>
      rw [htask] at hkept
      exact hkept rfl rfl GatewayTask.noConfusion
    | draining => exact fun _ => Or.inr (Or.inl rfl)
  | refuse hadmitting =>
    exact fun _ => Or.inl (hcontrolled.backOff_ne_nil (hcontrolled.of_admitting _ hadmitting))
  | reject _ hcandidate => exact fun _ => Or.inl (hcontrolled.backOff_ne_nil hcandidate)
  | shutdown _ _ _ hdown => exact fun _ => Or.inr (Or.inr hdown)

theorem Exchange.Run.pressed {server : Server} {config : ServerConfig}
    (hidle : server.gateway = .idle)
    (hrun : Exchange.Run maxSize (Exchange.ofServer server config) events x) : x.Pressed := by
  induction hrun with
  | refl => exact fun hpaused => by cases hpaused
  | step hrun _ hstep ih =>
    exact hstep.pressed ((Exchange.orderly_ofServer hidle config).run hrun).controlled ih

end Cleared

namespace EventLoop

open Exchange (exists_deliver exists_closeIfFinished)

/-! ### Stages -/

namespace Stage

/-- The gateway is in no function that has steps of its own. -/
def Plain : Stage → Prop
  | drainCompletions _ => False
  | drainPending _ => False
  | receive _ _ _ => False
  | returned => False
  | _ => True

/-- What the gateway can be in the middle of. -/
inductive Fits : Stage → GatewayPhase → GatewayTask → Prop
  | idle {stage : Stage} (h : stage ≠ returned) : Fits stage .idle .idle
  | delivering (next : Continuation) (response : EngineResponse) :
      Fits (drainCompletions next) (.delivering response) .idle
  | draining (next : Continuation) : Fits (drainPending next) .idle .draining
  | admitting (next : Continuation) (request : EngineRequest) :
      Fits (drainPending next) (.admitting request) .draining
  | receiving (descriptor : ℕ) (events : PollEvents) (clients : List (ℕ × PollEvents))
      (id : ConnectionId) (messages : List (WireEnvelope ClientMessage)) (failed : Bool) :
      Fits (receive descriptor events clients) .idle (.receiving descriptor id messages failed)
  | admittingReceived (descriptor : ℕ) (events : PollEvents) (clients : List (ℕ × PollEvents))
      (id : ConnectionId) (messages : List (WireEnvelope ClientMessage)) (failed : Bool)
      (request : EngineRequest) :
      Fits (receive descriptor events clients) (.admitting request)
        (.receiving descriptor id messages failed)
  | exited : Fits returned .exited .idle

variable {stage stage' : Stage} {phase : GatewayPhase} {task : GatewayTask}

theorem Fits.of_plain (h : Fits stage phase task) (hplain : stage.Plain) :
    phase = .idle ∧ task = .idle := by
  cases h with
  | idle => exact ⟨rfl, rfl⟩
  | _ => cases hplain

theorem Fits.move (h : Fits stage phase task) (hplain : stage.Plain) (hne : stage' ≠ returned) :
    Fits stage' phase task := by
  obtain ⟨rfl, rfl⟩ := h.of_plain hplain
  exact .idle hne

theorem next_ne_returned (next : Continuation) : next.stage ≠ returned := by
  cases next <;> exact Stage.noConfusion

theorem refused_ne_returned (h : stage.Admits) : stage.refused ≠ returned := by
  cases stage with
  | drainPending next => exact next_ne_returned next
  | receive => exact Stage.noConfusion
  | _ => cases h

end Stage

/-- The stage fits what the gateway is in the middle of. -/
def Fitting (l : EventLoop) : Prop := l.stage.Fits l.server.gateway l.gateway.task

section Fitting

variable {maxSize : ℕ} {l l' : EventLoop} {new : List Exchange.Event}

theorem Fitting.idle (h : l.Fitting) (hplain : l.stage.Plain) : l.Idle :=
  Stage.Fits.of_plain h hplain

theorem task_finishReceiving (g : Gateway) (descriptor : ℕ) (failed : Bool) :
    (g.finishReceiving descriptor failed).task = .idle := by
  cases failed <;> rfl

theorem Fitting.step (h : l.Fitting) (hcontrolled : l.Controlled) (hstep : Step maxSize l new l') :
    l'.Fitting := by
  rw [Fitting] at h ⊢
  cases hstep with
  | work _ _ hgateway =>
    dsimp only
    rw [hgateway]
    exact h
  | workerStops | workerWakes | callerWakes | readWakeup => exact h
  | beginShutdown hstage hidle =>
    dsimp only
    rw [hidle.1, hidle.2]
    exact .idle Stage.noConfusion
  | takeCompletion hstage hidle =>
    dsimp only
    rw [hstage, hidle.2]
    exact .delivering _ _
  | @deliver _ response _ hstage hdelivering =>
    obtain ⟨connections, heq⟩ := exists_deliver l.gateway response
    dsimp only
    rw [heq, hcontrolled.of_delivering response hdelivering, hstage]
    exact .idle Stage.noConfusion
  | completionsDrained hstage hidle | leaveReceive hstage hidle =>
    dsimp only
    rw [hidle.1, hidle.2]
    exact .idle Stage.noConfusion
  | leavePending hstage hidle =>
    dsimp only
    rw [hidle.1, hidle.2]
    exact .idle (Stage.next_ne_returned _)
  | startDraining hstage hidle =>
    dsimp only
    rw [hstage, hidle.1]
    exact .draining _
  | skip hstage hidle htask =>
    dsimp only
    rw [hstage, hidle, htask]
    exact .draining _
  | pendingDrained hstage hidle =>
    dsimp only
    rw [hidle]
    exact .idle (Stage.next_ne_returned _)
  | acquire hstage hidle hcandidate =>
    rw [hidle] at h
    dsimp only
    generalize l.stage = stage, htask : l.gateway.task = task at h hstage
    cases h with
    | idle =>
      rw [Gateway.candidate, htask] at hcandidate
      cases hcandidate
    | draining next => exact .admitting next _
    | receiving => exact .admittingReceived _ _ _ _ _ _ _
  | enqueue hstage hadmitting =>
    rw [hadmitting] at h
    dsimp only
    rw [Gateway.advance]
    generalize l.stage = stage, htask : l.gateway.task = task at h
    cases h with
    | admitting next => exact .draining next
    | admittingReceived => exact .receiving _ _ _ _ _ _
  | refuse hstage =>
    dsimp only
    rw [hcontrolled.backOff.1]
    exact .idle (Stage.refused_ne_returned hstage)
  | reject hstage hidle =>
    dsimp only
    rw [hidle, hcontrolled.backOff.1]
    exact .idle (Stage.refused_ne_returned hstage)
  | wakeItself hstage =>
    rw [hstage] at h
    refine h.move trivial ?_
    unfold Stage.woken
    split <;> exact Stage.noConfusion
  | finishReceiving hstage hidle =>
    dsimp only
    rw [hstage, hidle, task_finishReceiving]
    exact .idle Stage.noConfusion
  | receiveEnd _ hidle | flush _ _ hidle | hangUp _ hidle | flushLast _ _ hidle =>
    dsimp only [Gateway.markClosing, Gateway.update]
    rw [hidle.1, hidle.2]
    exact .idle Stage.noConfusion
  | @closeIfFinished descriptor _ _ hidle =>
    obtain ⟨connections, heq⟩ := exists_closeIfFinished l.gateway descriptor
    dsimp only
    rw [heq, hidle.1, hidle.2]
    exact .idle Stage.noConfusion
  | exit _ hidle =>
    dsimp only
    rw [hidle.2]
    exact .exited
  | keepRunning hstage | closed hstage | notClosed hstage | complete hstage | notEmpty hstage
  | wake hstage | wakeupDrained hstage | leaveAccept hstage | listenerFailed hstage
  | listenerFine hstage | missing hstage | found hstage | clientsDone hstage | leaveFlush hstage
  | stayConnected hstage | nothingLeft hstage =>
    rw [hstage] at h
    exact h.move trivial Stage.noConfusion

theorem Fitting.input (h : l.Fitting) (hinput : Input l new l') : l'.Fitting := by
  rw [Fitting] at h ⊢
  cases hinput with
  | requestStop => exact h
  | report hstage =>
    rw [hstage] at h
    refine h.move trivial ?_
    split <;> exact Stage.noConfusion
  | interrupted hstage | pollFailed hstage =>
    rw [hstage] at h
    exact h.move trivial Stage.noConfusion
  | accept hstage =>
    rw [hstage] at h
    dsimp only
    rw [hstage]
    exact h
  | receive bytes hstage _ hidle =>
    dsimp only
    rw [hstage, hidle.1]
    exact .receiving _ _ _ _ _ _

end Fitting

/-! ### Runs -/

section Run

variable {maxSize : ℕ} {config : ExchangeServerConfig} {engine : DurableEngine} {f : Posix.File}
  {gatewayConfig : ServerConfig} {events : List Exchange.Event} {l : EventLoop}

theorem Run.orderly
    (hrun : Run maxSize (ofServer (Server.ofConfig config engine f) gatewayConfig) events l) :
    Exchange.Orderly events l.toExchange :=
  (Exchange.orderly_ofServer rfl gatewayConfig).run hrun.exchange

theorem Run.fitting
    (hrun : Run maxSize (ofServer (Server.ofConfig config engine f) gatewayConfig) events l) :
    l.Fitting := by
  induction hrun with
  | refl => exact Stage.Fits.idle Stage.noConfusion
  | step hrun _ hstep ih => exact ih.step hrun.orderly.controlled hstep
  | input _ _ hinput ih => exact ih.input hinput

theorem Run.serving
    (hrun : Run maxSize (ofServer (Server.ofConfig config engine f) gatewayConfig) events l) :
    Server.Serving config l.server :=
  (Server.serving_ofConfig config engine f).run hrun.exchange.server

theorem Run.accounted (hbatch : 0 < config.maxDurableBatchSize.toNat)
    (hrun : Run maxSize (ofServer (Server.ofConfig config engine f) gatewayConfig) events l) :
    Server.Accounted maxSize config l.server :=
  (Server.accounted_ofConfig maxSize config hbatch engine f).run hrun.exchange.server

end Run

end EventLoop

end MatchingEngine
