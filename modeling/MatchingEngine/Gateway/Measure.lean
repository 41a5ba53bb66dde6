import MatchingEngine.Gateway.Stages

/-!
# The measure of a run

What the threads of a server can still do without an input. A request is priced by what can become
of it: its admission, its way through the worker, the wakeup and the delivery of its completion. A
wakeup pays for one round of the loop, and within a round the stages go down.

## Main definitions

* `Server.cost`, `EventLoop.cost`: the price of what is under way.
* `EventLoop.rank`: how far the round of the loop has still to go.

## Main results

* `EventLoop.Step.decreases`.
-/

namespace MatchingEngine

open Posix

/-! ### The worker -/

/-- The price of what the worker holds. A request whose completion is published pays for a wakeup
and for the delivery, one that is executed also for the stop after a failure, and a worker that
waits for the wakeup at its end. -/
def WorkerPhase.cost : WorkerPhase → ℕ
  | .waiting => 3
  | .draining batch => 13 * batch.length + 1
  | .executing batch => 13 * batch.length
  | .publishing remaining => 5 * remaining.length + 4
  | .finished => 0

def GatewayPhase.cost : GatewayPhase → ℕ
  | .delivering _ => 1
  | _ => 0

namespace Server

def cost (s : Server) : ℕ :=
  14 * s.requestQueue.items.length + s.worker.cost + 2 * s.responseQueue.items.length +
    s.gateway.cost

end Server

namespace Gateway

theorem length_connections_backOff {g : Gateway} (hroom : g.Roomy) :
    g.backOff.connections.length = g.connections.length := by
  rw [Roomy, length_waiting, remaining] at hroom
  cases htask : g.task with
  | idle | draining => rw [backOff, htask]
  | receiving descriptor id messages failed =>
    rw [htask, List.length_map] at hroom
    rw [backOff_receiving htask hroom]
    cases failed
    · rfl
    · exact List.length_map ..

end Gateway

namespace EventLoop

def GatewayCall.cost : GatewayCall → ℕ
  | .stop => 1
  | .wake => 2

def callsCost (calls : List GatewayCall) : ℕ := (calls.map GatewayCall.cost).sum

theorem callsCost_nil : callsCost [] = 0 := rfl

theorem callsCost_cons (call : GatewayCall) (calls : List GatewayCall) :
    callsCost (call :: calls) = call.cost + callsCost calls := by
  rw [callsCost, List.map_cons, List.sum_cons, callsCost]

theorem callsCost_callsAfter_le (s : Server) (event : Server.Event) (s' : Server) :
    callsCost (callsAfter s event s') ≤ 3 := by
  unfold callsAfter
  split
  · decide
  · split_ifs <;> decide

theorem callsAfter_internal {s s' : Server} (hfailed : s'.engineFailed = s.engineFailed)
    (hworker : s'.worker ≠ .finished) : callsAfter s .internal s' = [] := by
  have hhealthy : ¬ (s.engineFailed = false ∧ s'.engineFailed = true) := by
    rintro ⟨hhealthy, hfailed'⟩
    cases hhealthy.symm.trans (hfailed.symm.trans hfailed')
  simp only [callsAfter, if_neg hhealthy, hworker, and_false, if_false]

/-- A batch that was executed is answered request by request. -/
theorem cost_executeAndPublishBatch {s : Server} {batch : List EngineRequest}
    {call : DurableEngine.Call} (hhalted : (s.executeAndPublishBatch batch call).halted = none) :
    (s.executeAndPublishBatch batch call).worker.cost ≤ 5 * batch.length + 4 := by
  have houtcome := Server.executeAndPublishBatch_outcome s batch call
  generalize s.executeAndPublishBatch batch call = s' at houtcome hhalted
  obtain ⟨_, _, _, _, _, _, _, _, _, _, _, _, _, _, _⟩ := s'
  dsimp only at houtcome hhalted ⊢
  cases houtcome with
  | outOfRange | mismatch => cases hhalted
  | unavailable | failed =>
    rw [WorkerPhase.cost, List.length_map]
  | answered =>
    rw [WorkerPhase.cost, List.length_zip]
    omega

/-- A step of the worker, with the calls that follow it. -/
theorem cost_lt_of_work {maxSize : ℕ} {config : ExchangeServerConfig} {s s' : Server}
    {event : Server.Event} (hserving : Server.Serving config s)
    (hstep : Server.Step maxSize s event s') (hgateway : s'.gateway = s.gateway)
    (hshutdown : s'.shutdownStarted = s.shutdownStarted) (hhalted : s'.halted = none) :
    s'.cost + callsCost (callsAfter s event s') < s.cost := by
  rw [Server.cost, Server.cost, hgateway]
  cases hstep with
  | acquire _ hidle | takeCompletion hidle | exit hidle => cases hgateway.trans hidle
  | enqueue hgateway' | refuse hgateway' | release hgateway' => cases hgateway.trans hgateway'
  | releaseNothing | publishNothing => cases hhalted
  | shutdown _ hopen => cases hshutdown.trans hopen
  | pop hwaiting hpop =>
    rw [callsAfter_internal, (BoundedQueue.tryPop_eq_some hpop).1, hwaiting, List.length_cons,
      callsCost_nil]
    · dsimp only [WorkerPhase.cost, List.length_singleton]
      omega
    · rfl
    · exact WorkerPhase.noConfusion
  | drain hdraining _ hpop =>
    rw [callsAfter_internal, (BoundedQueue.tryPop_eq_some hpop).1, hdraining, List.length_cons,
      WorkerPhase.cost, WorkerPhase.cost, List.length_append, List.length_singleton, callsCost_nil]
    · dsimp only
      omega
    · rfl
    · exact WorkerPhase.noConfusion
  | stopDraining hworker | await hworker =>
    rw [callsAfter_internal, hworker, callsCost_nil]
    · dsimp only [WorkerPhase.cost, List.length_nil]
      omega
    · rfl
    · exact WorkerPhase.noConfusion
  | finish hwaiting =>
    have hcalls : callsAfter s .internal { s with
        responseQueue := s.responseQueue.close, worker := .finished } = [.wake] := by
      simp [callsAfter, hwaiting]
    rw [hcalls, hwaiting, callsCost_cons, callsCost_nil]
    dsimp only [WorkerPhase.cost, GatewayCall.cost, BoundedQueue.close]
    omega
  | publish hpublishing hpush =>
    rw [hpublishing, (BoundedQueue.tryPush_eq_some hpush).1, List.length_append,
      List.length_singleton, WorkerPhase.cost, WorkerPhase.cost, List.length_cons, callsAfter,
      callsCost_cons, callsCost_nil, GatewayCall.cost]
    dsimp only
    omega
  | @execute batch hexecuting call _ =>
    obtain ⟨-, -, hrequests, hresponses, -, -⟩ := Server.executeAndPublishBatch_frame s batch call
    have hworker := cost_executeAndPublishBatch hhalted
    have hcalls := callsCost_callsAfter_le s (.called batch) (s.executeAndPublishBatch batch call)
    have hpos := List.length_pos_of_ne_nil (hserving.gathering batch (Or.inr hexecuting))
    rw [hrequests, hresponses, hexecuting, WorkerPhase.cost]
    omega

/-! ### The loop -/

/-- The `poll` that has returned because of the counter has paid with one of its units. -/
def Stage.reading : Stage → ℕ
  | drainWakeup _ => 1
  | _ => 0

/-- An error of the listener pays for the wakeup that follows the stop. -/
def PollReport.cost (report : PollReport) : ℕ := if report.listener.error then 3 else 0

def Continuation.cost : Continuation → ℕ
  | .check => 0
  | .dispatch report => report.cost

def Stage.cost : Stage → ℕ
  | beginShutdown next => next.cost
  | drainCompletions next => next.cost
  | drainPending next => next.cost
  | drainWakeup report => report.cost
  | acceptConnections report => report.cost
  | checkListener report => report.cost
  | stopping _ => 2
  | _ => 0

/-- The price of what is under way. -/
def cost (l : EventLoop) : ℕ :=
  15 * l.gateway.waiting.length + l.server.cost + callsCost l.workerCalls + 2 * l.stopCallers +
    (l.wakeups - l.stage.reading) + l.stage.cost

/-- The rank of an admission in a function of the gateway. -/
def admissionRank : GatewayTask → GatewayPhase → ℕ
  | .idle, _ => 0
  | _, .admitting _ => 1
  | _, _ => 2

/-- How far a round of the loop has still to go, with the number of connections. -/
def Continuation.rank (connections : ℕ) : Continuation → ℕ
  | .check => connections + 3
  | .dispatch report => connections + 13 + 8 * report.clients.length

def Stage.rank (connections wakeups : ℕ) (task : GatewayTask) (phase : GatewayPhase) : Stage → ℕ
  | poll => 0
  | returned => 0
  | flushOutputs descriptors => descriptors.length + 1
  | checkEmpty => connections + 2
  | checkClosed => connections + 3
  | drainPending next =>
    next.rank connections + if task = .idle then 4 else admissionRank task phase + 1
  | drainCompletions next => next.rank connections + 5
  | beginShutdown next => next.rank connections + 6
  | stopping none => connections + 10
  | stopping (some clients) => connections + 11 + 8 * clients.length
  | client clients => connections + 10 + 8 * clients.length
  | close _ clients => connections + 11 + 8 * clients.length
  | hangUp _ _ clients => connections + 12 + 8 * clients.length
  | flush _ _ clients => connections + 13 + 8 * clients.length
  | receive _ _ clients => connections + 14 + 8 * clients.length + admissionRank task phase
  | checkListener report => connections + 12 + 8 * report.clients.length
  | acceptConnections report => connections + 13 + 8 * report.clients.length
  | drainWakeup report =>
    connections + 20 + 8 * report.clients.length + if 0 < wakeups then 1 else 0

def rank (l : EventLoop) : ℕ :=
  l.stage.rank l.gateway.connections.length l.wakeups l.gateway.task l.server.gateway

section Decreases

variable {maxSize : ℕ} {config : ExchangeServerConfig} {l l' : EventLoop}
  {new : List Exchange.Event}

/-- The threads receive nothing by themselves, so what is waiting becomes settled. -/
theorem Step.length_waiting (hcontrolled : l.Controlled) (hstep : Step maxSize l new l') :
    (Exchange.settled new).length + l'.gateway.waiting.length = l.gateway.waiting.length := by
  have hreceived : Exchange.received new = [] := by cases hstep <;> rfl
  have hmoves := hstep.moves
  generalize l.toExchange = x, l'.toExchange = x' at hcontrolled hmoves ⊢
  cases hmoves with
  | stay => exact Nat.zero_add _
  | @move event _ hstep =>
    have heq := congrArg List.length (hstep.requests_eq hcontrolled)
    rw [Exchange.received, List.flatMap_singleton] at hreceived
    rw [hreceived, List.append_nil, List.length_append, List.length_map] at heq
    rw [Exchange.settled, List.flatMap_singleton]
    exact heq.symm

theorem Step.length_connections_le (hcontrolled : l.Controlled) (hstep : Step maxSize l new l') :
    l'.gateway.connections.length ≤ l.gateway.connections.length := by
  cases hstep with
  | @deliver _ response =>
    dsimp only [Gateway.deliver]
    split
    · exact le_rfl
    · exact (List.length_map ..).le
  | enqueue =>
    dsimp only [Gateway.advance]
    split <;> exact le_rfl
  | refuse | reject => exact (Gateway.length_connections_backOff hcontrolled.roomy).le
  | @finishReceiving _ _ _ _ failed =>
    cases failed
    · exact le_rfl
    · exact (List.length_map ..).le
  | receiveEnd | hangUp | flush | flushLast => exact (List.length_map ..).le
  | closeIfFinished =>
    dsimp only [Gateway.closeIfFinished]
    split
    · exact le_rfl
    · split_ifs
      · exact List.length_eraseP_le
      · exact le_rfl
  | exit => exact Nat.zero_le _
  | _ => exact le_rfl

theorem signal_le (wakeups : ℕ) : signal wakeups ≤ wakeups + 1 := by
  unfold signal
  split_ifs <;> omega

theorem Stage.rank_next (next : Continuation) (connections wakeups : ℕ) (task : GatewayTask)
    (phase : GatewayPhase) :
    next.stage.rank connections wakeups task phase = next.rank connections := by
  cases next <;> rfl

theorem Stage.cost_next (next : Continuation) : next.stage.cost = next.cost := by
  cases next <;> rfl

theorem Stage.reading_next (next : Continuation) : next.stage.reading = 0 := by
  cases next <;> rfl

theorem Continuation.rank_le {connections connections' : ℕ} (h : connections' ≤ connections)
    (next : Continuation) : next.rank connections' ≤ next.rank connections := by
  cases next with
  | check => exact Nat.add_le_add_right h _
  | dispatch => exact Nat.add_le_add_right (Nat.add_le_add_right h _) _

theorem admissionRank_of_idle (phase : GatewayPhase) : admissionRank .idle phase = 0 := rfl

theorem admissionRank_le (task : GatewayTask) (phase : GatewayPhase) :
    admissionRank task phase ≤ 2 := by
  unfold admissionRank
  split <;> omega

theorem admissionRank_pos {task : GatewayTask} (htask : task ≠ .idle) (phase : GatewayPhase) :
    0 < admissionRank task phase := by
  unfold admissionRank
  split
  · exact absurd rfl htask
  · exact Nat.one_pos
  · exact Nat.two_pos

theorem admissionRank_idle {task : GatewayTask} (htask : task ≠ .idle) :
    admissionRank task .idle = 2 := by
  cases task with
  | idle => exact absurd rfl htask
  | _ => rfl

theorem admissionRank_admitting {task : GatewayTask} (htask : task ≠ .idle)
    (request : EngineRequest) : admissionRank task (.admitting request) = 1 := by
  cases task with
  | idle => exact absurd rfl htask
  | _ => rfl

theorem Stage.rank_acquire {stage : Stage} (hstage : stage.Admits) (connections wakeups : ℕ)
    {task : GatewayTask} (htask : task ≠ .idle) (request : EngineRequest) :
    stage.rank connections wakeups task (.admitting request) <
      stage.rank connections wakeups task .idle := by
  cases stage with
  | drainPending next =>
    rw [rank, rank, if_neg htask, if_neg htask, admissionRank_idle htask,
      admissionRank_admitting htask]
    omega
  | receive =>
    rw [rank, rank, admissionRank_idle htask, admissionRank_admitting htask]
    omega
  | _ => cases hstage

/-- The function that has called `admit` ends when it returns `false`. -/
theorem Stage.rank_refused {stage : Stage} (hstage : stage.Admits) {connections connections' : ℕ}
    (hconnections : connections' ≤ connections) (wakeups : ℕ) {task : GatewayTask}
    (htask : task ≠ .idle) (phase : GatewayPhase) :
    stage.refused.rank connections' wakeups .idle .idle <
      stage.rank connections wakeups task phase := by
  have hpos := admissionRank_pos htask phase
  cases stage with
  | drainPending next =>
    have hle := Continuation.rank_le hconnections next
    rw [refused, rank_next, rank, if_neg htask]
    omega
  | receive =>
    rw [refused, rank, rank, admissionRank_of_idle]
    · omega
    · exact fun _ => Stage.noConfusion
  | _ => cases hstage

theorem Stage.cost_refused {stage : Stage} (hstage : stage.Admits) :
    stage.refused.cost = stage.cost ∧ stage.refused.reading = stage.reading := by
  cases stage with
  | drainPending next => exact ⟨cost_next next, reading_next next⟩
  | receive => exact ⟨rfl, rfl⟩
  | _ => cases hstage

theorem task_ne_idle {g : Gateway} {request : EngineRequest} (h : g.candidate = some request) :
    g.task ≠ .idle := by
  intro htask
  rw [Gateway.candidate, htask] at h
  cases h

/-- Every step pays with something, or goes on in the round of the loop. -/
theorem Step.decreases (hserving : Server.Serving config l.server) (hcontrolled : l.Controlled)
    (hstep : Step maxSize l new l') (hhalted : l'.server.halted = none) :
    l'.cost < l.cost ∨ l'.cost ≤ l.cost ∧ l'.rank < l.rank := by
  have hwaiting := hstep.length_waiting hcontrolled
  have hconnections := hstep.length_connections_le hcontrolled
  cases hstep with
  | work hcalls hstep hgateway hshutdown =>
    have hlt := cost_lt_of_work hserving hstep hgateway hshutdown hhalted
    left
    rw [cost, cost, hcalls, callsCost_nil]
    dsimp only
    omega
  | workerStops hcalls =>
    left
    rw [cost, cost, hcalls, callsCost_cons, GatewayCall.cost]
    dsimp only
    omega
  | workerWakes hcalls =>
    have hsignal := signal_le l.wakeups
    left
    rw [cost, cost, hcalls, callsCost_cons, GatewayCall.cost]
    dsimp only
    omega
  | callerWakes hcallers =>
    have hsignal := signal_le l.wakeups
    left
    rw [cost, cost, hcallers]
    dsimp only
    omega
  | takeCompletion hstage hidle hpop =>
    left
    simp only [cost, Server.cost, hidle.1, (BoundedQueue.tryPop_eq_some hpop).1, List.length_cons,
      GatewayPhase.cost]
    omega
  | @deliver _ response _ hstage hdelivering =>
    left
    dsimp only at hwaiting
    simp only [cost, Server.cost, hdelivering, GatewayPhase.cost]
    omega
  | @skip _ pending =>
    have hone : (Exchange.settled [.skipped pending]).length = 1 := rfl
    left
    rw [cost, cost, ← hwaiting, hone]
    dsimp only
    omega
  | @enqueue request _ hstage hadmitting hpush =>
    have hone : (Exchange.settled [.server (.admitted request)]).length = 1 := rfl
    left
    rw [hone] at hwaiting
    simp only [cost, Server.cost, ← hwaiting, (BoundedQueue.tryPush_eq_some hpush).1,
      List.length_append, List.length_singleton, hadmitting, GatewayPhase.cost]
    omega
  | wake hstage hwakeups hquiet =>
    left
    simp only [cost, hstage, Stage.reading, Stage.cost, PollReport.cost, hquiet.listener_eq,
      Bool.false_eq_true, if_false]
    omega
  | listenerFailed hstage hlistening herror =>
    left
    simp only [cost, hstage, Stage.reading, Stage.cost, PollReport.cost, herror, if_true]
    omega
  | @wakeItself clients hstage =>
    have hsignal := signal_le l.wakeups
    left
    cases clients <;>
    · simp only [cost, hstage, Stage.woken, Stage.reading, Stage.cost, Continuation.cost]
      omega
  | acquire hstage hidle hcandidate =>
    right
    simp only [cost, Server.cost, rank, hidle, GatewayPhase.cost]
    exact ⟨le_rfl, Stage.rank_acquire hstage _ _ (task_ne_idle hcandidate) _⟩
  | refuse hstage hadmitting =>
    have htask := task_ne_idle (hcontrolled.of_admitting _ hadmitting)
    obtain ⟨hcost, hreading⟩ := Stage.cost_refused hstage
    right
    simp only [cost, Server.cost, rank, hadmitting, GatewayPhase.cost, hcost, hreading,
      hcontrolled.backOff.1, hcontrolled.backOff.2.2]
    exact ⟨le_rfl, Stage.rank_refused hstage hconnections _ htask _⟩
  | reject hstage hidle hcandidate =>
    obtain ⟨hcost, hreading⟩ := Stage.cost_refused hstage
    right
    simp only [cost, rank, hidle, hcost, hreading, hcontrolled.backOff.1, hcontrolled.backOff.2.2]
    exact ⟨le_rfl, Stage.rank_refused hstage hconnections _ (task_ne_idle hcandidate) _⟩
  | beginShutdown hstage hidle =>
    right
    simp only [cost, rank, hstage, Stage.cost, Stage.rank, Stage.reading, Server.cost,
      BoundedQueue.close]
    dsimp only at hwaiting
    omega
  | completionsDrained hstage hidle =>
    right
    simp only [cost, rank, hstage, Stage.cost, Stage.rank, Stage.reading, hidle.2, if_true]
    omega
  | leavePending hstage hidle =>
    right
    simp only [cost, rank, hstage, Stage.cost_next, Stage.rank_next, Stage.reading_next]
    dsimp only [Stage.cost, Stage.rank, Stage.reading]
    rw [if_pos hidle.2]
    omega
  | startDraining hstage hidle =>
    right
    simp only [cost, rank, hstage, Stage.rank, hidle.1, hidle.2, if_true]
    rw [if_neg GatewayTask.noConfusion, admissionRank_idle GatewayTask.noConfusion]
    dsimp only at hwaiting
    omega
  | pendingDrained hstage hidle =>
    right
    simp only [cost, rank, hstage, Stage.cost_next, Stage.rank_next, Stage.reading_next]
    dsimp only [Stage.cost, Stage.rank, Stage.reading] at hwaiting ⊢
    split_ifs <;> omega
  | finishReceiving hstage hidle htask =>
    have hne : l.gateway.task ≠ .idle := by
      rw [htask]
      exact GatewayTask.noConfusion
    have hpos := admissionRank_pos hne l.server.gateway
    right
    simp only [cost, rank, hstage, Stage.cost, Stage.rank, Stage.reading, task_finishReceiving,
      admissionRank_of_idle]
    dsimp only at hwaiting hconnections
    omega
  | found hstage =>
    have hle := admissionRank_le l.gateway.task l.server.gateway
    right
    simp only [cost, rank, hstage, Stage.cost, Stage.rank, Stage.reading, List.length_cons]
    omega
  | readWakeup hstage hwakeups =>
    right
    simp only [cost, rank, hstage, Stage.cost, Stage.rank, Stage.reading, hwakeups, if_true,
      lt_irrefl, if_false]
    omega
  | exit hstage hidle =>
    right
    simp only [cost, rank, hstage, Stage.cost, Stage.rank, Stage.reading, Server.cost, hidle.1,
      GatewayPhase.cost]
    dsimp only at hwaiting
    omega
  | complete hstage hempty horder =>
    have hlength := horder.length_eq
    rw [List.length_map] at hlength
    right
    simp only [cost, rank, hstage, Stage.cost, Stage.rank, Stage.reading]
    dsimp only at hwaiting ⊢
    omega
  | keepRunning hstage | closed hstage | notClosed hstage | notEmpty hstage
  | wakeupDrained hstage | leaveAccept hstage | listenerFine hstage | missing hstage
  | clientsDone hstage | leaveReceive hstage | receiveEnd hstage | flush _ hstage
  | leaveFlush hstage | hangUp hstage | stayConnected hstage | closeIfFinished hstage
  | flushLast _ hstage | nothingLeft hstage =>
    right
    simp only [cost, rank, hstage, Stage.cost, Stage.rank, Stage.reading, Continuation.cost,
      Continuation.rank, List.length_cons, List.length_map]
    dsimp only at hwaiting hconnections ⊢
    omega

end Decreases

end EventLoop

end MatchingEngine
