import MatchingEngine.Gateway.Stages

/-!
# No wakeup is lost

The loop of the gateway waits in `poll` without a limit, so whatever another thread has to tell it
must leave a trace in the counter. The loop looks at what the threads share in a fixed order before
it waits: whether it is to stop, whether there are completions, whether there is room for a pending
request, whether the worker has finished. The level of a stage says how far it is in that order.
What changes behind its back is always followed by a write to the counter, and only `drain_wakeup`,
which comes before the first look, resets the counter.

## Main definitions

* `EventLoop.Stage.level`, `EventLoop.Awaited`, `EventLoop.Signalled`.

## Main results

* `EventLoop.Signalled.step`, `EventLoop.Run.signalled`.
* `EventLoop.run_awaited`: what a gateway that waits in `poll` can have missed.
-/

namespace MatchingEngine

/-- The worker has requests to complete. -/
def Server.Occupied (s : Server) : Prop := s.requestQueue.items ≠ [] ∨ s.worker.held ≠ []

namespace EventLoop

open Exchange (exists_deliver exists_closeIfFinished)

/-! ### What a step does to the signals -/

/-- How far the loop has looked at what the threads share, since it has begun anew. -/
def Stage.level : Stage → ℕ
  | drainCompletions .check => 1
  | drainPending .check => 2
  | checkClosed => 3
  | checkEmpty => 4
  | poll => 5
  | _ => 0

/-- The counter is not zero, or a thread is about to write to it. -/
def Awaited (l : EventLoop) : Prop := 0 < l.wakeups ∨ l.workerCalls ≠ [] ∨ 0 < l.stopCallers

/-- Why `drain_pending_requests` leaves requests pending. -/
inductive Blocked (l : EventLoop) : Prop
  | down (h : l.server.shutdownStarted = true)
  | failed (h : l.server.engineFailed = true)
  | full (request : EngineRequest) (hadmitting : l.server.gateway = .admitting request)
      (hpush : l.server.requestQueue.tryPush request = none)
  | limited (hidle : l.server.gateway = .idle)
      (hacquire : l.server.inFlightLimiter.tryAcquire = none)

/-- A step begins anew, stays at its level, or goes on to the next level for a reason. -/
inductive Advance (l l' : EventLoop) : ℕ → ℕ → Prop
  | anew (level : ℕ) : Advance l l' level 0
  | same (level : ℕ) : Advance l l' level level
  | handled (h : l'.stopRequested = false ∨ l'.server.shutdownStarted = true) : Advance l l' 0 1
  | drained (h : l'.server.responseQueue.items = []) : Advance l l' 1 2
  | settled (h : l'.gateway.pendingRequests = [] ∨ l.Blocked) : Advance l l' 2 3
  | closed : Advance l l' 3 4
  | notClosed (h : l'.server.shutdownStarted = false ∨ l'.server.responseQueue.closed = false) :
      Advance l l' 3 5
  | notEmpty (h : l.server.responseQueue.items ≠ []) : Advance l l' 4 5

theorem signal_pos (n : ℕ) : 0 < signal n := by
  rw [signal]
  split <;> omega

/-- A worker whose engine fails stops the gateway. -/
theorem stop_mem_callsAfter {maxSize : ℕ} {s s' : Server} {event : Server.Event}
    (hstep : Server.Step maxSize s event s') (hhealthy : s.engineFailed = false)
    (hfailed : s'.engineFailed = true) : GatewayCall.stop ∈ callsAfter s event s' := by
  cases hstep with
  | execute =>
    dsimp only [callsAfter]
    rw [if_pos ⟨hhealthy, hfailed⟩]
    exact List.mem_cons_self
  | _ => cases hhealthy.symm.trans hfailed

section Advance

variable {l l' : EventLoop} {m n : ℕ}

theorem Advance.of_one_le (h : Advance l l' m n) (hn : 1 ≤ n) :
    1 ≤ m ∨ l'.stopRequested = false ∨ l'.server.shutdownStarted = true := by
  cases h with
  | handled h => exact Or.inr h
  | _ => omega

theorem Advance.of_two_le (h : Advance l l' m n) (hn : 2 ≤ n) :
    2 ≤ m ∨ l'.server.responseQueue.items = [] := by
  cases h with
  | drained h => exact Or.inr h
  | _ => omega

theorem Advance.of_three_le (h : Advance l l' m n) (hn : 3 ≤ n) :
    3 ≤ m ∨ m = 2 ∧ (l'.gateway.pendingRequests = [] ∨ l.Blocked) := by
  cases h with
  | settled h => exact Or.inr ⟨rfl, h⟩
  | _ => omega

theorem Advance.of_five_le (h : Advance l l' m n) (hn : 5 ≤ n) :
    5 ≤ m ∨ 2 ≤ m ∧ l.server.responseQueue.items ≠ [] ∨
      l'.server.shutdownStarted = false ∨ l'.server.responseQueue.closed = false := by
  cases h with
  | notClosed h => exact Or.inr (Or.inr h)
  | notEmpty h => exact Or.inr (Or.inl ⟨by omega, h⟩)
  | _ => omega

end Advance

section Step

variable {maxSize : ℕ} {l l' : EventLoop} {new : List Exchange.Event}

theorem Moves.shutdownStarted_of {x x' : Exchange} (h : Moves maxSize x new x')
    (hdown : x.server.shutdownStarted = true) : x'.server.shutdownStarted = true := by
  cases h with
  | stay => exact hdown
  | move hstep => exact hstep.shutdownStarted_of hdown

theorem Advance.of_refused (hstage : l.stage.Admits) (h : l.Blocked) :
    Advance l l' l.stage.level l.stage.refused.level := by
  generalize l.stage = stage at hstage
  cases stage with
  | drainPending next => cases next with
    | check => exact .settled (Or.inr h)
    | dispatch => exact .anew _
  | receive => exact .same _
  | _ => cases hstage

theorem Step.advance (hstep : Step maxSize l new l') :
    Advance l l' l.stage.level l'.stage.level := by
  cases hstep with
  | @beginShutdown next hstage =>
    rw [hstage]
    cases next with
    | check => exact .handled (Or.inr rfl)
    | dispatch => exact .anew _
  | @keepRunning next hstage hkeep =>
    rw [hstage]
    cases next with
    | check => exact .handled hkeep
    | dispatch => exact .anew _
  | @completionsDrained next hstage _ hempty =>
    rw [hstage]
    cases next with
    | check => exact .drained hempty
    | dispatch => exact .anew _
  | @leavePending next hstage _ hleave =>
    rw [hstage]
    cases next with
    | check => exact .settled (Or.inr (hleave.elim .down .failed))
    | dispatch => exact .anew _
  | @pendingDrained next hstage _ _ hpending =>
    rw [hstage]
    cases next with
    | check => exact .settled (Or.inl hpending)
    | dispatch => exact .anew _
  | refuse hstage hadmitting hpush => exact .of_refused hstage (.full _ hadmitting hpush)
  | reject hstage hidle _ hrejects =>
    exact .of_refused hstage (hrejects.elim .down fun h => h.elim .failed (.limited hidle))
  | closed hstage =>
    rw [hstage]
    exact .closed
  | notClosed hstage hopen =>
    rw [hstage]
    exact .notClosed hopen
  | notEmpty hstage hne =>
    rw [hstage]
    exact .notEmpty hne
  | @wakeItself clients hstage => cases clients <;> exact .anew _
  | work | workerStops | workerWakes | callerWakes | takeCompletion | deliver | startDraining | skip
  | acquire | enqueue | readWakeup | finishReceiving => exact .same _
  | _ => exact .anew _

/-- Only `drain_wakeup` reads the counter. -/
theorem Step.awaited (hstep : Step maxSize l new l') (hcalls : l.workerCalls ≠ [.stop])
    (h : l.Awaited) : l'.Awaited ∨ l'.stage.level = 0 := by
  cases hstep with
  | work hnil => exact Or.inl (h.imp_right fun h => Or.inr (h.resolve_left (absurd hnil)))
  | workerStops hcons =>
    refine Or.inl (Or.inr (Or.inl fun hnil => hcalls ?_))
    dsimp only at hnil
    rw [hcons, hnil]
  | workerWakes | callerWakes | wakeItself => exact Or.inl (Or.inl (signal_pos _))
  | readWakeup hstage =>
    dsimp only
    rw [hstage]
    exact Or.inr rfl
  | _ => exact Or.inl h

theorem Step.stopRequested_of (hstep : Step maxSize l new l') (hcalls : l.workerCalls ≠ [.stop])
    (h : l'.stopRequested = true) : l.stopRequested = true ∨ l'.Awaited ∨ l'.stage.level = 0 := by
  cases hstep with
  | workerStops hcons =>
    refine Or.inr (Or.inl (Or.inr (Or.inl fun hnil => hcalls ?_)))
    dsimp only at hnil
    rw [hcons, hnil]
  | listenerFailed => exact Or.inr (Or.inr rfl)
  | _ => exact Or.inl h

/-- The shutdown begins before the loop looks at anything else. -/
theorem Step.down_of (hstep : Step maxSize l new l') (hlevel : 2 ≤ l'.stage.level)
    (h : l'.server.shutdownStarted = true) : l.server.shutdownStarted = true := by
  cases hstep with
  | work _ _ _ hshutdown => exact hshutdown.symm.trans h
  | @beginShutdown next =>
    cases next with
    | check => exact absurd hlevel (Nat.not_succ_le_self 1)
    | dispatch => exact absurd hlevel (Nat.not_succ_le_zero 1)
  | _ => exact h

/-- A completion is followed by a wakeup. -/
theorem Step.responses_of (hstep : Step maxSize l new l')
    (h : l'.server.responseQueue.items ≠ []) :
    l.server.responseQueue.items ≠ [] ∨ l'.Awaited := by
  cases hstep with
  | @work event s _ hstep hgateway =>
    cases hstep with
    | publish => exact Or.inr (Or.inr (Or.inl (List.cons_ne_nil _ _)))
    | takeCompletion hidle => cases hidle.symm.trans hgateway.symm
    | @execute batch _ call _ =>
      dsimp only at h
      rw [(Server.executeAndPublishBatch_frame l.server batch call).responseQueue_eq] at h
      exact Or.inl h
    | _ => exact Or.inl h
  | takeCompletion _ _ hpop =>
    refine Or.inl ?_
    rw [(BoundedQueue.tryPop_eq_some hpop).1]
    exact List.cons_ne_nil _ _
  | _ => exact Or.inl h

/-- The end of the worker is followed by a wakeup. -/
theorem Step.closed_of (hstep : Step maxSize l new l')
    (h : l'.server.responseQueue.closed = true) :
    l.server.responseQueue.closed = true ∨ l'.Awaited := by
  cases hstep with
  | @work event s _ hstep hgateway =>
    cases hstep with
    | publish => exact Or.inr (Or.inr (Or.inl (List.cons_ne_nil _ _)))
    | takeCompletion hidle => cases hidle.symm.trans hgateway.symm
    | @execute batch _ call _ =>
      dsimp only at h
      rw [(Server.executeAndPublishBatch_frame l.server batch call).responseQueue_eq] at h
      exact Or.inl h
    | finish hwaiting =>
      refine Or.inr (Or.inr (Or.inl ?_))
      dsimp only [callsAfter]
      rw [hwaiting]
      split <;> simp
    | _ => exact Or.inl h
  | takeCompletion _ _ hpop => exact Or.inl ((BoundedQueue.tryPop_eq_some hpop).2.2 ▸ h)
  | _ => exact Or.inl h

/-- The worker completes what it has, and wakes the gateway for each request. -/
theorem Step.occupied (hstep : Step maxSize l new l') (h : l.server.Occupied) :
    l'.server.Occupied ∨ l'.Awaited := by
  cases hstep with
  | @work event s _ hstep hgateway =>
    cases hstep with
    | enqueue hadmitting => cases hadmitting.symm.trans hgateway.symm
    | pop => exact Or.inl (Or.inr (List.cons_ne_nil _ _))
    | drain =>
      exact Or.inl (Or.inr (List.append_ne_nil_of_right_ne_nil _ (List.cons_ne_nil _ _)))
    | stopDraining hworker | await hworker =>
      rw [Server.Occupied, hworker] at h
      exact Or.inl h
    | @execute batch hexecuting call _ =>
      refine Or.inl ?_
      rw [Server.Occupied] at h ⊢
      dsimp only
      rw [(Server.executeAndPublishBatch_frame l.server batch call).requestQueue_eq,
        Server.held_executeAndPublishBatch l.server batch call hexecuting]
      rwa [hexecuting] at h
    | publish => exact Or.inr (Or.inr (Or.inl (List.cons_ne_nil _ _)))
    | finish hwaiting _ hempty =>
      rw [Server.Occupied, hwaiting, hempty] at h
      exact absurd rfl (h.elim id id)
    | _ => exact Or.inl h
  | enqueue _ _ hpush =>
    refine Or.inl (Or.inl ?_)
    dsimp only
    rw [(BoundedQueue.tryPush_eq_some hpush).1]
    exact List.append_ne_nil_of_right_ne_nil _ (List.cons_ne_nil _ _)
  | _ => exact Or.inl h

/-- At a level at which pending requests are looked at, none is retained. -/
theorem Step.pending_of (hstep : Step maxSize l new l') (hfitting : l.Fitting)
    (h : l'.gateway.pendingRequests ≠ []) :
    l.gateway.pendingRequests ≠ [] ∨ l'.stage.level = 0 := by
  have hbackOff (hstage : l.stage.Admits) (h : l.gateway.backOff.pendingRequests ≠ []) :
      l.gateway.pendingRequests ≠ [] ∨ l.stage.refused.level = 0 := by
    rw [Fitting] at hfitting
    rw [Gateway.backOff] at h
    generalize l.stage = stage, l.server.gateway = phase, l.gateway.task = task at *
    cases hfitting with
    | draining | admitting => exact Or.inl h
    | receiving | admittingReceived => exact Or.inr rfl
    | idle => exact Or.inl h
    | _ => cases hstage
  cases hstep with
  | @deliver _ response _ hstage =>
    obtain ⟨connections, heq⟩ := exists_deliver l.gateway response
    dsimp only at h
    rw [heq] at h
    exact Or.inl h
  | skip _ _ _ hpending =>
    rw [hpending]
    exact Or.inl (List.cons_ne_nil _ _)
  | beginShutdown => exact absurd rfl h
  | enqueue hstage =>
    refine Or.inl fun hnil => h ?_
    dsimp only
    rw [Gateway.advance]
    split <;> simp [hnil]
  | refuse hstage | reject hstage => exact hbackOff hstage h
  | @finishReceiving descriptor events clients _ failed hstage =>
    cases failed <;> exact Or.inl h
  | @closeIfFinished descriptor _ _ hidle =>
    obtain ⟨connections, heq⟩ := exists_closeIfFinished l.gateway descriptor
    dsimp only at h
    rw [heq] at h
    exact Or.inl h
  | _ => exact Or.inl h

/-- An input changes nothing that the worker shares with the loop. It stops the gateway with a
wakeup to come, and otherwise the loop begins anew or stays where it is. -/
theorem Input.kept (hinput : Input l new l') :
    l'.server = l.server ∧ l'.gateway.pendingRequests = l.gateway.pendingRequests ∧
      l'.workerCalls = l.workerCalls ∧ (l.Awaited → l'.Awaited) ∧
      (l'.stage = l.stage ∨ l'.stage.level = 0) ∧
      (l.stopRequested = true → l'.stopRequested = true) ∧
      (l'.stopRequested = true → l.stopRequested = true ∨ l'.Awaited ∨ l'.stage.level = 0) := by
  cases hinput with
  | requestStop =>
    refine ⟨rfl, rfl, rfl, fun h => ?_, Or.inl rfl, fun _ => rfl, fun _ => ?_⟩
    · exact Or.inr (Or.inr (Nat.succ_pos _))
    · exact Or.inr (Or.inl (Or.inr (Or.inr (Nat.succ_pos _))))
  | report =>
    refine ⟨rfl, rfl, rfl, id, Or.inr ?_, id, Or.inl⟩
    dsimp only
    split <;> rfl
  | interrupted => exact ⟨rfl, rfl, rfl, id, Or.inr rfl, id, Or.inl⟩
  | pollFailed =>
    exact ⟨rfl, rfl, rfl, id, Or.inr rfl, fun _ => rfl,
      fun _ => Or.inr (Or.inr rfl)⟩
  | accept | receive => exact ⟨rfl, rfl, rfl, id, Or.inl rfl, id, Or.inl⟩

end Step

/-! ### Signals -/

/-- Whatever the loop has not seen at its level, and what it cannot do yet, is followed by a write
to the counter. -/
structure Signalled (l : EventLoop) : Prop where
  calls : l.workerCalls <:+ [.stop, .wake]
  failed : l.server.engineFailed = true → l.stopRequested = true ∨ .stop ∈ l.workerCalls
  stop : 1 ≤ l.stage.level → l.stopRequested = true → l.server.shutdownStarted = false → l.Awaited
  responses : 2 ≤ l.stage.level → l.server.responseQueue.items ≠ [] → l.Awaited
  pending : 3 ≤ l.stage.level → l.gateway.pendingRequests ≠ [] → l.Awaited ∨ l.server.Occupied
  closed : 5 ≤ l.stage.level → l.server.shutdownStarted = true →
    l.server.responseQueue.closed = true → l.Awaited

theorem callsAfter_suffix (s : Server) (event : Server.Event) (s' : Server) :
    callsAfter s event s' <:+ [.stop, .wake] := by
  unfold callsAfter
  split
  · decide
  · split_ifs <;> decide

section Signalled

variable {maxSize : ℕ} {config : ExchangeServerConfig} {l l' : EventLoop}
  {new events : List Exchange.Event}

theorem Signalled.calls_ne (h : l.Signalled) : l.workerCalls ≠ [.stop] := by
  intro heq
  have hsuffix := h.calls
  rw [heq] at hsuffix
  exact absurd hsuffix (by decide)

/-- What keeps a request pending will wake the gateway. -/
theorem Signalled.of_blocked (h : l.Signalled) (hblocked : l.Blocked) (hlevel : l.stage.level = 2)
    (hcleared : l.server.shutdownStarted = true → l.gateway.pendingRequests = [])
    (haccounted : Server.Accounted maxSize config l.server)
    (hserving : Server.Serving config l.server) (hcapacity : 0 < config.requestQueueCapacity.toNat)
    (hinFlight : 0 < config.maximumInFlight.toNat) :
    l.gateway.pendingRequests = [] ∨ l.Awaited ∨ l.server.Occupied := by
  by_cases hdown : l.server.shutdownStarted = true
  · exact Or.inl (hcleared hdown)
  rw [Bool.not_eq_true] at hdown
  refine Or.inr ?_
  cases hblocked with
  | down hdown' => cases hdown.symm.trans hdown'
  | failed hfailed =>
    rcases h.failed hfailed with hstop | hmem
    · exact Or.inl (h.stop (by omega) hstop hdown)
    · exact Or.inl (Or.inr (Or.inl (List.ne_nil_of_mem hmem)))
  | full request hadmitting hpush =>
    refine Or.inr (Or.inl fun hnil => ?_)
    obtain ⟨queue, hsome⟩ := BoundedQueue.exists_tryPush_eq_some (hserving.closed_eq.trans hdown)
      (by rw [hnil, hserving.capacity_eq]; exact hcapacity) request
    cases hpush.symm.trans hsome
  | limited hidle hacquire =>
    by_cases hoccupied : l.server.Occupied
    · exact Or.inr hoccupied
    · rw [Server.Occupied, not_or, not_not, not_not] at hoccupied
      refine Or.inl (h.responses (by omega) fun hnil => ?_)
      have hfree : l.server.inFlightLimiter.inFlight < l.server.inFlightLimiter.capacity := by
        rw [haccounted.inFlight_eq, haccounted.capacity_eq, Server.reservations, hidle, hoccupied.1,
          hoccupied.2, hnil]
        exact hinFlight
      obtain ⟨limiter, hsome⟩ := InFlightLimiter.exists_tryAcquire_eq_some hfree
      cases hacquire.symm.trans hsome

section Step

variable (h : l.Signalled) (hstep : Step maxSize l new l')

include h hstep

theorem Signalled.awaited (ha : l.Awaited) {level : ℕ} (hlevel : level + 1 ≤ l'.stage.level) :
    l'.Awaited :=
  (hstep.awaited h.calls_ne ha).resolve_right (by omega)

theorem Signalled.step_calls : l'.workerCalls <:+ [.stop, .wake] := by
  have hcalls := h.calls
  cases hstep with
  | work => exact callsAfter_suffix _ _ _
  | workerStops hcons | workerWakes hcons =>
    rw [hcons] at hcalls
    exact (List.suffix_cons _ _).trans hcalls
  | _ => exact hcalls

theorem Signalled.step_failed (hfailed : l'.server.engineFailed = true) :
    l'.stopRequested = true ∨ .stop ∈ l'.workerCalls := by
  cases hstep with
  | work hcalls hstep =>
    by_cases hold : l.server.engineFailed = true
    · refine (h.failed hold).imp_right fun hmem => ?_
      rw [hcalls] at hmem
      cases hmem
    · exact Or.inr (stop_mem_callsAfter hstep (Bool.eq_false_of_not_eq_true hold) hfailed)
  | workerStops | listenerFailed => exact Or.inl rfl
  | workerWakes hcalls =>
    refine (h.failed hfailed).imp_right fun hmem => ?_
    rw [hcalls] at hmem
    exact (List.mem_cons.mp hmem).resolve_left (by decide)
  | _ => exact h.failed hfailed

theorem Signalled.step_stop (hlevel : 1 ≤ l'.stage.level) (hrequested : l'.stopRequested = true)
    (hopen : l'.server.shutdownStarted = false) : l'.Awaited := by
  have hopen' : l.server.shutdownStarted = false := Bool.eq_false_of_not_eq_true fun hdown => by
    cases hopen.symm.trans (hstep.moves.shutdownStarted_of hdown)
  rcases hstep.stopRequested_of h.calls_ne hrequested with hold | hnew | hzero
  · rcases hstep.advance.of_one_le hlevel with hle | hnot | hdown
    · exact h.awaited hstep (h.stop hle hold hopen') hlevel
    · cases hnot.symm.trans hrequested
    · cases hopen.symm.trans hdown
  · exact hnew
  · omega

theorem Signalled.step_responses (hlevel : 2 ≤ l'.stage.level)
    (hitems : l'.server.responseQueue.items ≠ []) : l'.Awaited := by
  rcases hstep.responses_of hitems with hold | hnew
  · rcases hstep.advance.of_two_le hlevel with hle | hnil
    · exact h.awaited hstep (h.responses hle hold) hlevel
    · exact absurd hnil hitems
  · exact hnew

theorem Signalled.step_closed (hlevel : 5 ≤ l'.stage.level)
    (hdown : l'.server.shutdownStarted = true)
    (hclosed : l'.server.responseQueue.closed = true) : l'.Awaited := by
  rcases hstep.closed_of hclosed with hold | hnew
  · rcases hstep.advance.of_five_le hlevel with hle | ⟨hle, hitems⟩ | hup | hopen
    · exact h.awaited hstep (h.closed hle (hstep.down_of (by omega) hdown) hold) hlevel
    · exact h.awaited hstep (h.responses hle hitems) hlevel
    · cases hup.symm.trans hdown
    · cases hopen.symm.trans hclosed
  · exact hnew

theorem Signalled.step_pending (hfitting : l.Fitting)
    (hcleared : l.server.shutdownStarted = true → l.gateway.pendingRequests = [])
    (haccounted : Server.Accounted maxSize config l.server)
    (hserving : Server.Serving config l.server) (hcapacity : 0 < config.requestQueueCapacity.toNat)
    (hinFlight : 0 < config.maximumInFlight.toNat) (hlevel : 3 ≤ l'.stage.level)
    (hpending : l'.gateway.pendingRequests ≠ []) : l'.Awaited ∨ l'.server.Occupied := by
  have hold := (hstep.pending_of hfitting hpending).resolve_right (by omega)
  have hbefore : l.Awaited ∨ l.server.Occupied := by
    rcases hstep.advance.of_three_le hlevel with hle | ⟨htwo, hnil | hblocked⟩
    · exact h.pending hle hold
    · exact absurd hnil hpending
    · exact (h.of_blocked hblocked htwo hcleared haccounted hserving hcapacity
        hinFlight).resolve_left hold
  rcases hbefore with hawaited | hoccupied
  · exact Or.inl (h.awaited hstep hawaited hlevel)
  · exact (hstep.occupied hoccupied).symm

end Step

theorem Signalled.step (h : l.Signalled) (hfitting : l.Fitting)
    (hcleared : l.server.shutdownStarted = true → l.gateway.pendingRequests = [])
    (haccounted : Server.Accounted maxSize config l.server)
    (hserving : Server.Serving config l.server) (hcapacity : 0 < config.requestQueueCapacity.toNat)
    (hinFlight : 0 < config.maximumInFlight.toNat) (hstep : Step maxSize l new l') :
    l'.Signalled where
  calls := h.step_calls hstep
  failed := h.step_failed hstep
  stop := h.step_stop hstep
  responses := h.step_responses hstep
  pending := h.step_pending hstep hfitting hcleared haccounted hserving hcapacity hinFlight
  closed := h.step_closed hstep

theorem Signalled.input (h : l.Signalled) (hinput : Input l new l') : l'.Signalled := by
  obtain ⟨hserver, hpending, hcalls, hawaited, hstage, hkeeps, hnew⟩ := hinput.kept
  have hlevel {level : ℕ} (hle : level + 1 ≤ l'.stage.level) : level + 1 ≤ l.stage.level := by
    rcases hstage with hsame | hzero
    · rwa [← hsame]
    · omega
  constructor
  · rw [hcalls]
    exact h.calls
  · rw [hserver, hcalls]
    exact fun hfailed => (h.failed hfailed).imp_left hkeeps
  · rw [hserver]
    intro hle hrequested hopen
    rcases hnew hrequested with hold | hnew | hzero
    · exact hawaited (h.stop (hlevel hle) hold hopen)
    · exact hnew
    · omega
  · rw [hserver]
    exact fun hle hitems => hawaited (h.responses (hlevel hle) hitems)
  · rw [hserver, hpending]
    exact fun hle hne => (h.pending (hlevel hle) hne).imp_left hawaited
  · rw [hserver]
    exact fun hle hdown hclosed => hawaited (h.closed (hlevel hle) hdown hclosed)

end Signalled

/-! ### Runs -/

theorem Run.signalled {maxSize : ℕ} {config : ExchangeServerConfig} {engine : DurableEngine}
    {f : Posix.File} {gatewayConfig : ServerConfig} {events : List Exchange.Event} {l : EventLoop}
    (hinFlight : 0 < config.maximumInFlight.toNat)
    (hcapacity : 0 < config.requestQueueCapacity.toNat)
    (hbatch : 0 < config.maxDurableBatchSize.toNat)
    (hrun : Run maxSize (ofServer (Server.ofConfig config engine f) gatewayConfig) events l) :
    l.Signalled := by
  induction hrun with
  | refl =>
    have hlevel {level : ℕ} :
        ¬ level + 1 ≤ (ofServer (Server.ofConfig config engine f) gatewayConfig).stage.level :=
      Nat.not_succ_le_zero level
    exact ⟨List.nil_suffix, by rintro ⟨⟩, fun h => absurd h hlevel, fun h => absurd h hlevel,
      fun h => absurd h hlevel, fun h => absurd h hlevel⟩
  | step hrun _ hstep ih =>
    exact ih.step hrun.fitting (hrun.exchange.cleared rfl) (hrun.accounted hbatch) hrun.serving
      hcapacity hinFlight hstep
  | input _ _ hinput ih => exact ih.input hinput

/-- In every run of a server that was created, under any inputs: when the gateway waits in `poll`,
the counter is zero and no thread is about to write to it, then there is no completion to deliver,
a request to stop has been followed, the response queue of a shutdown is not closed yet, and there
are pending requests only while the worker has requests to complete, for each of which it will wake
the gateway. -/
theorem run_awaited (maxSize : ℕ) (config : ExchangeServerConfig)
    (engineResult : Except DurableEngineError (DurableEngine × Posix.File)) (gatewayCreated : Bool)
    (server : Server) (gatewayConfig : ServerConfig)
    (hcreate : ExchangeServer.create config engineResult gatewayCreated = .ok server)
    (events : List Exchange.Event) (l : EventLoop)
    (hrun : Run maxSize (ofServer server gatewayConfig) events l) (hpoll : l.stage = .poll)
    (hwakeups : l.wakeups = 0) (hcalls : l.workerCalls = []) (hcallers : l.stopCallers = 0) :
    l.server.responseQueue.items = [] ∧
      (l.stopRequested = true → l.server.shutdownStarted = true) ∧
      (l.server.shutdownStarted = true → l.server.responseQueue.closed = false) ∧
      (l.gateway.pendingRequests ≠ [] →
        l.server.requestQueue.items ≠ [] ∨ l.server.worker.held ≠ []) := by
  obtain ⟨hinFlight, hcapacity, hbatch, engine, f, -, rfl⟩ := ExchangeServer.create_eq_ok hcreate
  have hsignalled := hrun.signalled hinFlight hcapacity hbatch
  have hlevel : l.stage.level = 5 := by rw [hpoll]; rfl
  have hquiet : ¬ l.Awaited := by
    rintro (h | h | h)
    · omega
    · exact h hcalls
    · omega
  refine ⟨?_, ?_, ?_, ?_⟩
  · by_contra hitems
    exact hquiet (hsignalled.responses (by omega) hitems)
  · intro hrequested
    by_contra hopen
    exact hquiet (hsignalled.stop (by omega) hrequested (Bool.eq_false_of_not_eq_true hopen))
  · intro hdown
    by_contra hclosed
    exact hquiet (hsignalled.closed (by omega) hdown (Bool.eq_true_of_not_eq_false hclosed))
  · intro hpending
    exact (hsignalled.pending (by omega) hpending).resolve_left hquiet

section Waiting

variable (maxSize : ℕ) (engine : DurableEngine) (f : Posix.File)

/-- A client connects to a server for one request at a time, and has sent something. -/
theorem run_readable :
    Run maxSize (ofServer (Server.ofConfig ⟨1, 1, 1⟩ engine f) {})
      [.internal, .internal, .internal, .internal, .internal]
      ⟨⟨Server.ofConfig ⟨1, 1, 1⟩ engine f,
        { config := {}
          connections := [⟨⟨1⟩, 5, .ofLimit 65536, .empty, false⟩]
          nextConnectionId := 2 }⟩, .receive 5 { input := true } [], false, 0, [], 0⟩ := by
  have hstart : Run maxSize (ofServer (Server.ofConfig ⟨1, 1, 1⟩ engine f) {}) [] _ := .refl
  have hdrained := (hstart.step rfl (.keepRunning rfl (Or.inl rfl))).step rfl
    (.completionsDrained rfl ⟨rfl, rfl⟩ rfl)
  have hpolls := ((hdrained.step rfl (.startDraining rfl ⟨rfl, rfl⟩ rfl rfl)).step rfl
    (.pendingDrained rfl rfl rfl rfl)).step rfl (.notClosed rfl (Or.inl rfl))
  have hconnecting := hpolls.input rfl (.report rfl
    (show Answers _ ⟨{ input := true }, []⟩ from ⟨List.Perm.refl _, nofun, nofun⟩))
  have haccepted := hconnecting.input rfl
    (@Input.accept _ _ 5 rfl rfl ⟨rfl, rfl⟩ rfl rfl (show 0 < 256 by decide)
      (show (1 : UInt64) ≠ 0 by decide) nofun)
  -- the next round of the loop begins
  have hround := ((haccepted.step rfl (.leaveAccept rfl)).step rfl
    (.listenerFine rfl (Or.inr rfl))).step rfl (.clientsDone rfl)
  have hdrained' := (hround.step rfl (.keepRunning rfl (Or.inl rfl))).step rfl
    (.completionsDrained rfl ⟨rfl, rfl⟩ rfl)
  have hpolls' := ((hdrained'.step rfl (.startDraining rfl ⟨rfl, rfl⟩ rfl rfl)).step rfl
    (.pendingDrained rfl rfl rfl rfl)).step rfl (.notClosed rfl (Or.inl rfl))
  have hpolling : Run maxSize (ofServer (Server.ofConfig ⟨1, 1, 1⟩ engine f) {})
      [.internal, .internal, .internal, .internal, .internal]
      ⟨⟨Server.ofConfig ⟨1, 1, 1⟩ engine f,
        { config := {}
          connections := [⟨⟨1⟩, 5, .ofLimit 65536, .empty, false⟩]
          nextConnectionId := 2 }⟩, .poll, false, 0, [], 0⟩ := hpolls'
  have hreadable := hpolling.input rfl (.report rfl
    (show Answers _ ⟨{}, [(5, { input := true })]⟩ from ⟨List.Perm.refl _, fun _ => rfl, by
      intro entry hentry c hc _
      rw [List.mem_singleton] at hentry hc
      rw [hentry, hc]
      exact ⟨fun _ => rfl, nofun⟩⟩))
  exact ((hreadable.step rfl (.leaveAccept rfl)).step rfl
    (.listenerFine rfl (Or.inr rfl))).step rfl
      (.found (c := ⟨⟨1⟩, 5, .ofLimit 65536, .empty, false⟩) rfl (List.mem_singleton.mpr rfl))

variable {limiter : InFlightLimiter} {queue : BoundedQueue EngineRequest} {bytes : List UInt8}
  {message message' : WireEnvelope ClientMessage}

/-- It sends two requests at once. The first one is admitted and the other retained, and the gateway
waits in `poll`. -/
theorem exists_run_waiting (hacquire : (InFlightLimiter.ofCapacity 1).tryAcquire = some limiter)
    (hfull : limiter.tryAcquire = none)
    (hpush : (BoundedQueue.ofCapacity 1).tryPush (toEngineRequest ⟨1⟩ message) = some queue)
    (hlength : bytes.length ≤ receiveBufferSize)
    (hfeed : ((ClientStreamParser.ofLimit 65536).feed bytes).1 = ⟨[message, message'], none⟩) :
    ∃ parser, Run maxSize (ofServer (Server.ofConfig ⟨1, 1, 1⟩ engine f) {})
      [.internal, .internal, .internal, .internal, .internal, .received ⟨1⟩ [message, message'],
        .server .internal, .server (.admitted (toEngineRequest ⟨1⟩ message)), .internal, .internal,
        .internal, .internal]
      ⟨⟨{ Server.ofConfig ⟨1, 1, 1⟩ engine f with
          inFlightLimiter := limiter, requestQueue := queue },
        { config := {}
          connections := [⟨⟨1⟩, 5, parser, .empty, false⟩]
          pendingRequests := [⟨⟨1⟩, message'⟩]
          nextConnectionId := 2
          readsPaused := true }⟩, .poll, false, 0, [], 0⟩ := by
  have hne : bytes ≠ [] := by
    rintro rfl
    cases hfeed
  obtain ⟨parser, hreceived⟩ : ∃ parser,
      Run maxSize (ofServer (Server.ofConfig ⟨1, 1, 1⟩ engine f) {})
        [.internal, .internal, .internal, .internal, .internal, .received ⟨1⟩ [message, message']]
        ⟨⟨Server.ofConfig ⟨1, 1, 1⟩ engine f,
          { config := {}
            connections := [⟨⟨1⟩, 5, parser, .empty, false⟩]
            nextConnectionId := 2
            task := .receiving 5 ⟨1⟩ [message, message'] false }⟩,
          .receive 5 { input := true } [], false, 0, [], 0⟩ := by
    generalize hfed : (ClientStreamParser.ofLimit 65536).feed bytes = fed at hfeed
    have hinput : Input
        ⟨⟨Server.ofConfig ⟨1, 1, 1⟩ engine f,
          { config := {}
            connections := [⟨⟨1⟩, 5, .ofLimit 65536, .empty, false⟩]
            nextConnectionId := 2 }⟩, .receive 5 { input := true } [], false, 0, [], 0⟩
        [.received ⟨1⟩ fed.1.messages]
        ⟨⟨Server.ofConfig ⟨1, 1, 1⟩ engine f,
          { config := {}
            connections := [⟨⟨1⟩, 5, fed.2, .empty, false⟩]
            nextConnectionId := 2
            task := .receiving 5 ⟨1⟩ fed.1.messages fed.1.error.isSome }⟩,
          .receive 5 { input := true } [], false, 0, [], 0⟩ :=
      hfed ▸ Input.receive (c := ⟨⟨1⟩, 5, .ofLimit 65536, .empty, false⟩) bytes rfl rfl
        ⟨rfl, rfl⟩ (List.mem_singleton.mpr rfl) rfl rfl rfl hne hlength
    rw [hfeed] at hinput
    exact ⟨fed.2, (run_readable maxSize engine f).input rfl hinput⟩
  have hadmitted := (hreceived.step rfl (.acquire trivial rfl rfl rfl rfl hacquire)).step rfl
    (.enqueue trivial rfl hpush)
  have hretained : Run maxSize (ofServer (Server.ofConfig ⟨1, 1, 1⟩ engine f) {})
      [.internal, .internal, .internal, .internal, .internal, .received ⟨1⟩ [message, message'],
        .server .internal, .server (.admitted (toEngineRequest ⟨1⟩ message)), .internal]
      ⟨⟨{ Server.ofConfig ⟨1, 1, 1⟩ engine f with
          inFlightLimiter := limiter, requestQueue := queue },
        { config := {}
          connections := [⟨⟨1⟩, 5, parser, .empty, false⟩]
          pendingRequests := [⟨⟨1⟩, message'⟩]
          nextConnectionId := 2
          readsPaused := true }⟩, .receive 5 { input := true } [], false, 0, [], 0⟩ :=
    hadmitted.step rfl (.reject trivial rfl rfl (Or.inr (Or.inr hfull)))
  have hclient := (((hretained.step rfl (.leaveReceive rfl ⟨rfl, rfl⟩)).step rfl
    (.leaveFlush rfl (Or.inl rfl))).step rfl (.stayConnected rfl rfl)).step rfl
      (.closeIfFinished rfl ⟨rfl, rfl⟩)
  -- the retained request is tried once more before the gateway waits
  have hagain := ((hclient.step rfl (.clientsDone rfl)).step rfl
    (.keepRunning rfl (Or.inl rfl))).step rfl (.completionsDrained rfl ⟨rfl, rfl⟩ rfl)
  have hpending := (hagain.step rfl (.startDraining rfl ⟨rfl, rfl⟩ rfl rfl)).step rfl
    (.reject trivial rfl rfl (Or.inr (Or.inr hfull)))
  exact ⟨parser, hpending.step rfl (.notClosed rfl (Or.inl rfl))⟩

end Waiting

/-- One request is in the queue and one is retained. -/
theorem run_awaited_pending :
    ∃ server events l, ExchangeServer.create ⟨1, 1, 1⟩
        (.ok (⟨Book.fresh, ⟨some ⟨1⟩, false⟩, .healthy⟩,
          (Posix.File.empty.append encodeFileHeader).sync)) true = .ok server ∧
      Run (2 ^ 56) (ofServer server {}) events l ∧ l.stage = .poll ∧ l.wakeups = 0 ∧
      l.server.requestQueue.items = [.cancel ⟨⟨1⟩, ⟨1⟩, ⟨7⟩⟩] ∧
      l.gateway.pendingRequests = [⟨⟨1⟩, ⟨2⟩, .cancelOrder ⟨⟨8⟩⟩⟩] ∧
      l.server.responseQueue.items = [] ∧
      (l.server.requestQueue.items ≠ [] ∨ l.server.worker.held ≠ []) := by
  have hcreate : ExchangeServer.create ⟨1, 1, 1⟩ (.ok (⟨Book.fresh, ⟨some ⟨1⟩, false⟩, .healthy⟩,
      (Posix.File.empty.append encodeFileHeader).sync)) true = .ok (Server.ofConfig _ _ _) := rfl
  obtain ⟨parser, hrun⟩ := exists_run_waiting (2 ^ 56) ⟨Book.fresh, ⟨some ⟨1⟩, false⟩, .healthy⟩
    (Posix.File.empty.append encodeFileHeader).sync rfl rfl rfl (by decide) Exchange.feed_cancels
  obtain ⟨hresponses, -, -, hpending⟩ :=
    run_awaited (2 ^ 56) ⟨1, 1, 1⟩ _ true _ {} hcreate _ _ hrun rfl rfl rfl rfl
  exact ⟨_, _, _, hcreate, hrun, rfl, rfl, rfl, rfl, hresponses, hpending (List.cons_ne_nil _ _)⟩

end EventLoop

end MatchingEngine
