import MatchingEngine.Data.Run
import MatchingEngine.Types
import Mathlib.Data.Finset.Insert
import Mathlib.Data.List.Sort
import Mathlib.Algebra.BigOperators.Group.List.Basic

/-!
# Price-time priority

What an order book is for, with nothing of how it stores its orders: each side is the list of its
active orders, first the one to be matched first. A better price comes first, and at equal prices
the order that arrived first. An incoming order is filled from the head of the opposite side as
long as prices cross, and what is left of it is inserted behind every order of its own side that
is at least as good.

Arrival sequence numbers, iterators and the aggregates of the levels are not part of this state,
so a statement about it is a statement about what the book's behaviour depends on.

## Main definitions

* `PriorityBook.Fill`, `PriorityBook.fill`: the greedy fill of a queue.
* `PriorityBook.submit`, `PriorityBook.cancel`, `PriorityBook.run`.
* `PriorityBook.WellFormed`: the invariant of the two queues.
-/

namespace MatchingEngine

/-- A resting order at price `resting` trades with an incoming one at price `incoming`. -/
def BookSide.crosses (s : BookSide) (resting incoming : Price) : Bool := ¬ s.lt incoming resting

/-- The active orders of both sides, in priority order, with the identifiers and counters that
decide whether a further order is accepted. -/
structure PriorityBook where
  bids : List OrderView
  asks : List OrderView
  seenOrderIds : Finset OrderId
  nextArrivalSequence : UInt64
  nextTradeId : UInt64
  deriving DecidableEq

namespace PriorityBook

/-- The book with no order. -/
def fresh : PriorityBook := ⟨[], [], ∅, 1, 1⟩

/-- The orders of one side. -/
def queue (p : PriorityBook) : BookSide → List OrderView
  | .bids => p.bids
  | .asks => p.asks

/-- Replace the orders of one side. -/
def setQueue (p : PriorityBook) : BookSide → List OrderView → PriorityBook
  | .bids, q => { p with bids := q }
  | .asks, q => { p with asks := q }

/-- Every active order. -/
def orders (p : PriorityBook) : List OrderView := p.bids ++ p.asks

/-- The quantity resting on one side at one price, without wrap-around. -/
def levelTotal (p : PriorityBook) (s : BookSide) (price : Price) : ℕ :=
  (((p.queue s).filter fun o => o.limitPrice = price).map fun o => o.remainingQuantity.toNat).sum

/-! ### Filling an incoming order -/

/-- The trades of an incoming order, what is left of it, and what is left of the queue. -/
structure Fill where
  trades : List Trade
  remaining : Quantity
  rest : List OrderView
  deriving DecidableEq

/-- Fill a quantity from the head of a queue, one trade for each order, until the quantity or the
crossing orders run out. -/
def fill (crosses : Price → Bool) (taker : OrderId) : UInt64 → Quantity → List OrderView → Fill
  | _, quantity, [] => ⟨[], quantity, []⟩
  | nextTradeId, quantity, maker :: makers =>
    let trade (executed : Quantity) : Trade :=
      { id := ⟨nextTradeId⟩
        makerOrderId := maker.id
        takerOrderId := taker
        executionPrice := maker.limitPrice
        executionQuantity := executed }
    if quantity.units = 0 ∨ ¬ crosses maker.limitPrice then ⟨[], quantity, maker :: makers⟩
    else if maker.remainingQuantity.units ≤ quantity.units then
      let f := fill crosses taker (nextTradeId + 1)
        ⟨quantity.units - maker.remainingQuantity.units⟩ makers
      ⟨trade maker.remainingQuantity :: f.trades, f.remaining, f.rest⟩
    else
      let left : Quantity := ⟨maker.remainingQuantity.units - quantity.units⟩
      ⟨[trade quantity], ⟨0⟩, { maker with remainingQuantity := left } :: makers⟩

/-- The incoming order filled from the opposite side. -/
def fillFor (p : PriorityBook) (order : NewLimitOrder) : Fill :=
  let s := BookSide.ofSide order.side
  fill (fun price => s.other.crosses price order.limitPrice) order.id p.nextTradeId order.quantity
    (p.queue s.other)

/-- There are `count` identifiers left to issue from `next` before the counter wraps to `0`. -/
def IdsAvailable (next : UInt64) (count : ℕ) : Prop :=
  count = 0 ∨ next ≠ 0 ∧ next.toNat + count ≤ 2 ^ 64

instance (next : UInt64) (count : ℕ) : Decidable (IdsAvailable next count) :=
  inferInstanceAs (Decidable (_ ∨ _))

/-! ### Operations -/

/-- The residual of an incoming order as it rests in the book. -/
def residual (order : NewLimitOrder) (remaining : Quantity) : OrderView where
  id := order.id
  side := order.side
  limitPrice := order.limitPrice
  originalQuantity := order.quantity
  remainingQuantity := remaining

/-- Insert an order behind every order of the side that is at least as good. -/
def insertByPriority (s : BookSide) (o : OrderView) (q : List OrderView) : List OrderView :=
  q.orderedInsert (fun a b => s.lt a.limitPrice b.limitPrice) o

/-- The book after the trades of an accepted order. -/
def matched (p : PriorityBook) (order : NewLimitOrder) (f : Fill) : PriorityBook :=
  { p.setQueue (BookSide.ofSide order.side).other f.rest with
    seenOrderIds := insert order.id p.seenOrderIds
    nextTradeId := p.nextTradeId + UInt64.ofNat f.trades.length }

/-- Rest a residual quantity on the order's own side. -/
def rested (p : PriorityBook) (order : NewLimitOrder) (remaining : Quantity) : PriorityBook :=
  let s := BookSide.ofSide order.side
  { p.setQueue s (insertByPriority s (residual order remaining) (p.queue s)) with
    nextArrivalSequence := p.nextArrivalSequence + 1 }

/-- The book after an accepted order. -/
def accept (p : PriorityBook) (order : NewLimitOrder) (f : Fill) : PriorityBook :=
  if 0 < f.remaining.units then (p.matched order f).rested order f.remaining
  else p.matched order f

/-- The result of an accepted order. -/
def acceptResult (order : NewLimitOrder) (f : Fill) : SubmitResult where
  status := .accepted
  rejectionReason := none
  executedQuantity := ⟨order.quantity.units - f.remaining.units⟩
  restingQuantity := f.remaining
  trades := f.trades

/-- Why an order is rejected, if it is. -/
def rejection (p : PriorityBook) (order : NewLimitOrder) : Option RejectionReason :=
  if order.id.value = 0 then some .invalidOrderId
  else if order.side ≠ .buy ∧ order.side ≠ .sell then some .invalidSide
  else if order.limitPrice.ticks = 0 then some .invalidPrice
  else if order.quantity.units = 0 then some .invalidQuantity
  else if order.id ∈ p.seenOrderIds then some .duplicateOrderId
  else if ¬ IdsAvailable p.nextTradeId (p.fillFor order).trades.length then some .tradeIdExhausted
  else if 0 < (p.fillFor order).remaining.units ∧ p.nextArrivalSequence = 0 then
    some .sequenceExhausted
  else if 0 < (p.fillFor order).remaining.units ∧ 2 ^ 64 ≤
      p.levelTotal (.ofSide order.side) order.limitPrice + (p.fillFor order).remaining.toNat then
    some .quantityOverflow
  else none

/-- Submit an order. -/
def submit (p : PriorityBook) (order : NewLimitOrder) : SubmitResult × PriorityBook :=
  match p.rejection order with
  | some reason => (.rejected reason, p)
  | none => (acceptResult order (p.fillFor order), p.accept order (p.fillFor order))

/-- Remove the order with the given identifier. -/
def remove (p : PriorityBook) (id : OrderId) : PriorityBook :=
  { p with
    bids := p.bids.eraseP fun o => o.id = id
    asks := p.asks.eraseP fun o => o.id = id }

/-- Look an active order up. -/
def find (p : PriorityBook) (id : OrderId) : Option OrderView := p.orders.find? fun o => o.id = id

/-- Cancel an order. -/
def cancel (p : PriorityBook) (id : OrderId) : CancelResult × PriorityBook :=
  match p.find id with
  | none => (.notFound, p)
  | some o => (⟨.cancelled, o.remainingQuantity⟩, p.remove id)

/-- Apply one command. -/
def apply (p : PriorityBook) : JournalCommand → BatchCommandResult × PriorityBook
  | .submitLimitOrder order => (.submit (p.submit order).1, (p.submit order).2)
  | .cancelOrder id => (.cancel (p.cancel id).1, (p.cancel id).2)

/-- Apply a sequence of commands. -/
def run (p : PriorityBook) (commands : List JournalCommand) :
    List BatchCommandResult × PriorityBook :=
  runAll apply p commands

/-! ### The invariant -/

/-- The two queues hold live orders of their own side in priority order, no two orders share an
identifier, no bid crosses an ask, and the quantity at any price fits in a word. -/
structure WellFormed (p : PriorityBook) : Prop where
  side_eq : ∀ s, ∀ o ∈ p.queue s, o.side = s.side
  remaining_pos : ∀ s, ∀ o ∈ p.queue s, 0 < o.remainingQuantity.toNat
  remaining_le : ∀ s, ∀ o ∈ p.queue s, o.remainingQuantity.toNat ≤ o.originalQuantity.toNat
  sorted : ∀ s, (p.queue s).Pairwise fun a b => ¬ s.lt b.limitPrice a.limitPrice
  uncrossed : ∀ s, ∀ o ∈ p.queue s, ∀ o' ∈ p.queue s.other, s.lt o'.limitPrice o.limitPrice
  ids_nodup : (p.orders.map fun o => o.id).Nodup
  ids_seen : ∀ s, ∀ o ∈ p.queue s, o.id ∈ p.seenOrderIds
  zero_notMem_seen : ⟨0⟩ ∉ p.seenOrderIds
  levelTotal_lt : ∀ s price, p.levelTotal s price < 2 ^ 64

theorem fresh_wellFormed : fresh.WellFormed where
  side_eq s := by cases s <;> simp [queue, fresh]
  remaining_pos s := by cases s <;> simp [queue, fresh]
  remaining_le s := by cases s <;> simp [queue, fresh]
  sorted s := by cases s <;> simp [queue, fresh]
  uncrossed s := by cases s <;> simp [queue, fresh]
  ids_nodup := by simp [orders, fresh]
  ids_seen s := by cases s <;> simp [queue, fresh]
  zero_notMem_seen := by simp [fresh]
  levelTotal_lt s _ := by cases s <;> simp [levelTotal, queue, fresh]

end PriorityBook

end MatchingEngine
