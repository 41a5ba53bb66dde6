import MatchingEngine.WireProtocol.Basic

/-!
# Requests, responses and queues

What the gateway and the engine worker exchange: the requests and responses of
`include/matching/gateway_types.hpp`, the queue of `include/matching/detail/bounded_queue.hpp` and
the limiter of `src/gateway_types.cpp`. A queue and a limiter are within their capacity by
construction. Every operation on them runs under a mutex of its own.

## Main definitions

* `EngineRequest`, `EngineResponse`, `toEngineRequest`, `summarizeSubmitResult`,
  `summarizeCancelResult`.
* `BoundedQueue`, `InFlightLimiter`.
-/

namespace MatchingEngine

structure ConnectionId where
  value : UInt64
  deriving DecidableEq, Repr

/-! ### Requests and responses -/

structure SubmitEngineRequest where
  connectionId : ConnectionId
  requestId : RequestId
  order : NewLimitOrder
  deriving DecidableEq, Repr

structure CancelEngineRequest where
  connectionId : ConnectionId
  requestId : RequestId
  orderId : OrderId
  deriving DecidableEq, Repr

inductive EngineRequest where
  | submit (request : SubmitEngineRequest)
  | cancel (request : CancelEngineRequest)
  deriving DecidableEq, Repr

structure SubmitEngineResponse where
  connectionId : ConnectionId
  requestId : RequestId
  status : SubmissionStatus
  rejectionReason : Option RejectionReason
  executedQuantity : Quantity
  restingQuantity : Quantity
  deriving DecidableEq, Repr

structure CancelEngineResponse where
  connectionId : ConnectionId
  requestId : RequestId
  status : CancelStatus
  cancelledQuantity : Quantity
  deriving DecidableEq, Repr

structure EngineUnavailableEngineResponse where
  connectionId : ConnectionId
  requestId : RequestId
  deriving DecidableEq, Repr

inductive EngineResponse where
  | submit (response : SubmitEngineResponse)
  | cancel (response : CancelEngineResponse)
  | unavailable (response : EngineUnavailableEngineResponse)
  deriving DecidableEq, Repr

/-- The connection and the number of a request. -/
def EngineRequest.ids : EngineRequest → ConnectionId × RequestId
  | .submit request => (request.connectionId, request.requestId)
  | .cancel request => (request.connectionId, request.requestId)

/-- The connection and the number of the request that is answered. -/
def EngineResponse.ids : EngineResponse → ConnectionId × RequestId
  | .submit response => (response.connectionId, response.requestId)
  | .cancel response => (response.connectionId, response.requestId)
  | .unavailable response => (response.connectionId, response.requestId)

def EngineResponse.isUnavailable : EngineResponse → Bool
  | .unavailable _ => true
  | _ => false

/-- The cast is defined for every octet, as `Side` has a fixed underlying type. -/
def sideFromWireRaw (rawSide : UInt8) : Side := ⟨rawSide⟩

def toDomainOrder (request : SubmitLimitOrderRequest) : NewLimitOrder where
  id := request.orderId
  side := sideFromWireRaw request.rawSide
  limitPrice := request.limitPrice
  quantity := request.quantity

def toEngineRequest (connectionId : ConnectionId) (request : WireEnvelope ClientMessage) :
    EngineRequest :=
  match request.message with
  | .submitLimitOrder message =>
    .submit ⟨connectionId, request.requestId, toDomainOrder message⟩
  | .cancelOrder message => .cancel ⟨connectionId, request.requestId, message.orderId⟩

def summarizeSubmitResult (connectionId : ConnectionId) (requestId : RequestId)
    (result : SubmitResult) : SubmitEngineResponse where
  connectionId := connectionId
  requestId := requestId
  status := result.status
  rejectionReason := result.rejectionReason
  executedQuantity := result.executedQuantity
  restingQuantity := result.restingQuantity

def summarizeCancelResult (connectionId : ConnectionId) (requestId : RequestId)
    (result : CancelResult) : CancelEngineResponse where
  connectionId := connectionId
  requestId := requestId
  status := result.status
  cancelledQuantity := result.cancelledQuantity

/-! ### Queues -/

structure BoundedQueue (α : Type*) where
  capacity : ℕ
  items : List α
  closed : Bool
  length_le : items.length ≤ capacity

namespace BoundedQueue

variable {α : Type*}

/-- An empty queue. -/
def ofCapacity (capacity : ℕ) : BoundedQueue α := ⟨capacity, [], false, Nat.zero_le _⟩

/-- `try_push`: the queue with the value, or nothing if the value was refused. -/
def tryPush (q : BoundedQueue α) (value : α) : Option (BoundedQueue α) :=
  if h : q.closed ∨ q.items.length = q.capacity then none
  else some { q with
    items := q.items ++ [value]
    length_le := by
      have := q.length_le
      rw [List.length_append, List.length_singleton]
      omega }

/-- `try_pop`, and `wait_pop` once it does not wait any more. -/
def tryPop (q : BoundedQueue α) : Option (α × BoundedQueue α) :=
  match h : q.items with
  | [] => none
  | value :: items => some (value, { q with
      items := items
      length_le := by
        have := q.length_le
        rw [h, List.length_cons] at this
        omega })

def close (q : BoundedQueue α) : BoundedQueue α := { q with closed := true }

theorem tryPush_eq_some {q q' : BoundedQueue α} {value : α} (h : q.tryPush value = some q') :
    q'.items = q.items ++ [value] ∧ q'.capacity = q.capacity ∧ q.closed = false ∧
      q'.closed = false := by
  rw [tryPush] at h
  split at h
  · cases h
  · next hopen =>
    cases h
    have hclosed : q.closed = false := Bool.eq_false_of_not_eq_true fun h => hopen (Or.inl h)
    exact ⟨rfl, rfl, hclosed, hclosed⟩

theorem tryPop_eq_some {q q' : BoundedQueue α} {value : α} (h : q.tryPop = some (value, q')) :
    q.items = value :: q'.items ∧ q'.capacity = q.capacity ∧ q'.closed = q.closed := by
  rw [tryPop] at h
  split at h
  · cases h
  · next hitems =>
    cases h
    exact ⟨hitems, rfl, rfl⟩

theorem exists_tryPush_eq_some {q : BoundedQueue α} (hopen : q.closed = false)
    (hlt : q.items.length < q.capacity) (value : α) : ∃ q', q.tryPush value = some q' := by
  rw [tryPush, dif_neg]
  · exact ⟨_, rfl⟩
  · rintro (hclosed | hfull)
    · cases hopen.symm.trans hclosed
    · omega

theorem exists_tryPop_eq_some {q : BoundedQueue α} {value : α} {items : List α}
    (h : q.items = value :: items) : ∃ q', q.tryPop = some (value, q') := by
  rw [tryPop]
  split
  · next hitems => cases hitems.symm.trans h
  · next hitems =>
    cases hitems.symm.trans h
    exact ⟨_, rfl⟩

theorem tryPop_eq_none {q : BoundedQueue α} (h : q.items = []) : q.tryPop = none := by
  rw [tryPop]
  split
  · rfl
  · next hitems => cases hitems.symm.trans h

end BoundedQueue

/-! ### The limiter -/

structure InFlightLimiter where
  capacity : ℕ
  inFlight : ℕ
  maximumObserved : ℕ
  inFlight_le : inFlight ≤ capacity

namespace InFlightLimiter

def ofCapacity (capacity : ℕ) : InFlightLimiter := ⟨capacity, 0, 0, Nat.zero_le _⟩

/-- `try_acquire`. -/
def tryAcquire (l : InFlightLimiter) : Option InFlightLimiter :=
  if h : l.inFlight = l.capacity then none
  else some { l with
    inFlight := l.inFlight + 1
    maximumObserved := if l.inFlight + 1 > l.maximumObserved then l.inFlight + 1
      else l.maximumObserved
    inFlight_le := by have := l.inFlight_le; omega }

/-- `release_one`, which terminates the program if there is nothing to release. -/
def releaseOne (l : InFlightLimiter) : Option InFlightLimiter :=
  if l.inFlight = 0 then none
  else some { l with
    inFlight := l.inFlight - 1
    inFlight_le := by have := l.inFlight_le; omega }

theorem tryAcquire_eq_some {l l' : InFlightLimiter} (h : l.tryAcquire = some l') :
    l'.inFlight = l.inFlight + 1 ∧ l'.capacity = l.capacity := by
  rw [tryAcquire] at h
  split at h
  · cases h
  · cases h
    exact ⟨rfl, rfl⟩

theorem exists_tryAcquire_eq_some {l : InFlightLimiter} (h : l.inFlight < l.capacity) :
    ∃ l', l.tryAcquire = some l' := by
  rw [tryAcquire, dif_neg (Nat.ne_of_lt h)]
  exact ⟨_, rfl⟩

theorem exists_releaseOne_eq_some {l : InFlightLimiter} (h : 0 < l.inFlight) :
    ∃ l', l.releaseOne = some l' := by
  rw [releaseOne, if_neg (Nat.ne_of_gt h)]
  exact ⟨_, rfl⟩

theorem releaseOne_eq_some {l l' : InFlightLimiter} (h : l.releaseOne = some l') :
    l.inFlight = l'.inFlight + 1 ∧ l'.capacity = l.capacity := by
  rw [releaseOne] at h
  split at h
  · cases h
  · next hpos =>
    cases h
    exact ⟨(Nat.succ_pred_eq_of_ne_zero hpos).symm, rfl⟩

end InFlightLimiter

end MatchingEngine
