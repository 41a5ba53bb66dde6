import Mathlib.Algebra.Ring.Nat
import Mathlib.Order.Lattice
import Mathlib.Order.RelClasses
import Mathlib.Data.List.Basic

/-!
# Value types of the matching engine

The strong integer types and the plain records of `include/matching/types.hpp`, `order.hpp`,
`trade.hpp` and `order_book.hpp`. Every integer is the 64-bit word the source uses, so additions
and subtractions wrap as they do there; `Side` has a fixed 8-bit underlying type and therefore 256
values, of which two are named.

## Main definitions

* `Side`, `OrderId`, `TradeId`, `Price`, `Quantity`.
* `NewLimitOrder`, `OrderView`, `Trade`.
* `RejectionReason`, `SubmitResult`, `CancelResult`, `Quote`, `PriceLevelView`.
* `BookSide`: one of the two sides of a book, with the order in which its prices are matched.
* `JournalCommand`, `BatchCommandResult`: a command of either kind and its result.
-/

namespace MatchingEngine

/-- `enum class Side : std::uint8_t`. A cast from a raw octet can produce any of its values. -/
structure Side where
  raw : UInt8
  deriving DecidableEq, Repr

namespace Side

/-- `Side::Buy`. -/
def buy : Side := ⟨0⟩

/-- `Side::Sell`. -/
def sell : Side := ⟨1⟩

end Side

/-- The identity of an order; `0` is not a valid one. -/
structure OrderId where
  value : UInt64
  deriving DecidableEq, Repr

/-- The identity of a trade. -/
structure TradeId where
  value : UInt64
  deriving DecidableEq, Repr

/-- A price in integer ticks. -/
structure Price where
  ticks : UInt64
  deriving DecidableEq, Repr

/-- A quantity in integer units. -/
structure Quantity where
  units : UInt64
  deriving DecidableEq, Repr

theorem Price.ticks_toNat_injective : Function.Injective fun p : Price => p.ticks.toNat := by
  rintro ⟨a⟩ ⟨b⟩ h
  exact congrArg Price.mk (UInt64.toNat_inj.mp h)

/-- The defaulted `operator<=>` of `Price`. -/
instance : LinearOrder Price :=
  LinearOrder.lift' (fun p => p.ticks.toNat) Price.ticks_toNat_injective

/-- The units of a quantity as an unbounded number, for sums that must not wrap. -/
def Quantity.toNat (q : Quantity) : ℕ := q.units.toNat

@[simp] theorem Quantity.toNat_mk (u : UInt64) : (Quantity.mk u).toNat = u.toNat := rfl

theorem Quantity.toNat_lt (q : Quantity) : q.toNat < 2 ^ 64 := q.units.toNat_lt

theorem Quantity.toNat_inj {p q : Quantity} : p.toNat = q.toNat ↔ p = q := by
  obtain ⟨a⟩ := p
  obtain ⟨b⟩ := q
  simp [UInt64.toNat_inj]

theorem Quantity.units_eq_zero_iff {q : Quantity} : q.units = 0 ↔ q.toNat = 0 := by
  rw [Quantity.toNat, ← UInt64.toNat_inj, UInt64.toNat_zero]

theorem Quantity.units_pos_iff {q : Quantity} : 0 < q.units ↔ 0 < q.toNat := by
  rw [Quantity.toNat, UInt64.lt_iff_toNat_lt, UInt64.toNat_zero]

theorem Quantity.units_le_iff {p q : Quantity} : p.units ≤ q.units ↔ p.toNat ≤ q.toNat :=
  UInt64.le_iff_toNat_le

theorem Quantity.units_lt_iff {p q : Quantity} : p.units < q.units ↔ p.toNat < q.toNat :=
  UInt64.lt_iff_toNat_lt

theorem Quantity.toNat_sub {p q : Quantity} (h : q.units ≤ p.units) :
    (Quantity.mk (p.units - q.units)).toNat = p.toNat - q.toNat :=
  UInt64.toNat_sub_of_le _ _ h

/-- The argument of `OrderBook::submit`. -/
structure NewLimitOrder where
  id : OrderId
  side : Side
  limitPrice : Price
  quantity : Quantity
  deriving DecidableEq, Repr

/-- A snapshot of an active order, without the internals of the book. -/
structure OrderView where
  id : OrderId
  side : Side
  limitPrice : Price
  originalQuantity : Quantity
  remainingQuantity : Quantity
  deriving DecidableEq, Repr

/-- One execution of an incoming order, the taker, against a resting one, the maker. -/
structure Trade where
  id : TradeId
  makerOrderId : OrderId
  takerOrderId : OrderId
  executionPrice : Price
  executionQuantity : Quantity
  deriving DecidableEq, Repr

inductive SubmissionStatus where
  | accepted
  | rejected
  deriving DecidableEq, Repr

inductive RejectionReason where
  | invalidOrderId
  | invalidSide
  | invalidPrice
  | invalidQuantity
  | duplicateOrderId
  | quantityOverflow
  | sequenceExhausted
  | tradeIdExhausted
  deriving DecidableEq, Repr

structure SubmitResult where
  status : SubmissionStatus
  rejectionReason : Option RejectionReason
  executedQuantity : Quantity
  restingQuantity : Quantity
  trades : List Trade
  deriving DecidableEq, Repr

/-- `rejected(reason)`: nothing executed, nothing resting, no trade. -/
def SubmitResult.rejected (reason : RejectionReason) : SubmitResult where
  status := .rejected
  rejectionReason := some reason
  executedQuantity := ⟨0⟩
  restingQuantity := ⟨0⟩
  trades := []

inductive CancelStatus where
  | cancelled
  | notFound
  deriving DecidableEq, Repr

structure CancelResult where
  status : CancelStatus
  cancelledQuantity : Quantity
  deriving DecidableEq, Repr

/-- The result of cancelling an order that is not active. -/
def CancelResult.notFound : CancelResult where
  status := .notFound
  cancelledQuantity := ⟨0⟩

structure Quote where
  price : Price
  quantity : Quantity
  deriving DecidableEq, Repr

structure PriceLevelView where
  price : Price
  totalQuantity : Quantity
  orderCount : ℕ
  deriving DecidableEq, Repr

/-- Which of the two maps of a book a reference `Levels&` denotes. -/
inductive BookSide where
  | bids
  | asks
  deriving DecidableEq, Repr

namespace BookSide

/-- The side of the orders that rest in the map. -/
def side : BookSide → Side
  | bids => .buy
  | asks => .sell

/-- The map on the other side of the book. -/
def other : BookSide → BookSide
  | bids => asks
  | asks => bids

/-- The comparator of the map: `std::greater` for bids and `std::less` for asks. -/
def lt : BookSide → Price → Price → Prop
  | bids => (· > ·)
  | asks => (· < ·)

instance (s : BookSide) : DecidableRel s.lt :=
  match s with
  | bids => inferInstanceAs (DecidableRel fun a b : Price => a > b)
  | asks => inferInstanceAs (DecidableRel fun a b : Price => a < b)

instance (s : BookSide) : IsStrictTotalOrder Price s.lt :=
  match s with
  | bids => inferInstanceAs (IsStrictTotalOrder Price (· > ·))
  | asks => inferInstanceAs (IsStrictTotalOrder Price (· < ·))

/-- The map in which an order of the given valid side rests. -/
def ofSide (side : Side) : BookSide := if side = .buy then bids else asks

theorem ne_other (s : BookSide) : s ≠ s.other := by
  cases s <;> decide

theorem other_other (s : BookSide) : s.other.other = s := by
  cases s <;> rfl

theorem eq_or_eq_other (s t : BookSide) : t = s ∨ t = s.other := by
  cases s <;> cases t <;> decide

theorem lt_other {s : BookSide} {a b : Price} : s.other.lt a b ↔ s.lt b a := by
  cases s <;> exact Iff.rfl

end BookSide

/-- `JournalCommand` of `journal.hpp`: the commands that drive a book, and that the journal
records. -/
inductive JournalCommand where
  | submitLimitOrder (order : NewLimitOrder)
  | cancelOrder (orderId : OrderId)
  deriving DecidableEq, Repr

/-- `DurableEngine::BatchCommandResult`: the result of one command. -/
inductive BatchCommandResult where
  | submit (result : SubmitResult)
  | cancel (result : CancelResult)
  deriving DecidableEq, Repr

end MatchingEngine
