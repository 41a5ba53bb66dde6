import MatchingEngine.OrderBook.History
import MatchingEngine.PriorityBook.Crossing

/-!
# Which orders a book accepts

`submit` has eight ways of rejecting an order, all of them before its first change of the book. On
a book that has a history, the two that concern the counters are never taken, and the one that
concerns the total of a level can only be taken by an order that would not trade. What is rejected
leaves no trace, so a history can be read without its rejected submissions and its cancellations
that found nothing.

## Main results

* `OrderBook.run_accepts_iff`: exactly which orders are accepted, and that the other commands can be
  left out of a history.
-/

namespace MatchingEngine

/-- The result of a rejected submission, or of a cancellation that found nothing. -/
def BatchCommandResult.idle : BatchCommandResult → Bool
  | .submit r => r.status = .rejected
  | .cancel r => r.status = .notFound

namespace OrderBook

/-! ### What is rejected leaves the book alone -/

/-- A call that returns anything but an acceptance leaves the book. -/
def Keeps (b : OrderBook) (call : Except Abort (SubmitResult × OrderBook)) : Prop :=
  ∀ r b', call = .ok (r, b') → r.status ≠ .accepted → b' = b

section Keeps

variable {b : OrderBook}

theorem keeps_rejected (reason : RejectionReason) : b.Keeps (.ok (.rejected reason, b)) := by
  intro r b' h _
  exact (Prod.mk.inj (Except.ok.inj h)).2.symm

theorem Keeps.ite {c : Prop} [Decidable c] {x y : Except Abort (SubmitResult × OrderBook)}
    (hx : b.Keeps x) (hy : b.Keeps y) : b.Keeps (if c then x else y) := by
  split
  · exact hx
  · exact hy

theorem keeps_submitPlanned (order : NewLimitOrder) (matchPlan : MatchPlan) :
    b.Keeps (b.submitPlanned order matchPlan) := by
  intro r b' h hr
  unfold submitPlanned at h
  split at h
  · cases h
  · dsimp only at h
    split at h
    · cases h
    · split at h
      · cases h
      · split at h
        · cases h
        · exact absurd (congrArg SubmitResult.status (Prod.mk.inj (Except.ok.inj h)).1).symm hr

/-- Every rejection comes before the first change. -/
theorem keeps_submit (b : OrderBook) (order : NewLimitOrder) : b.Keeps (b.submit order) := by
  unfold submit
  refine .ite (keeps_rejected _) (.ite (keeps_rejected _) (.ite (keeps_rejected _)
    (.ite (keeps_rejected _) (.ite (keeps_rejected _) ?_))))
  exact .ite (keeps_rejected _) (.ite (keeps_rejected _) (.ite (keeps_rejected _)
    (keeps_submitPlanned _ _)))

end Keeps

/-- A command without effect leaves the book. -/
theorem eq_of_applyCommand_idle {b b' : OrderBook} {command : JournalCommand}
    {r : BatchCommandResult} (h : b.applyCommand command = .ok (r, b')) (hr : r.idle = true) :
    b' = b := by
  cases command with
  | submitLimitOrder order =>
    rw [applyCommand] at h
    cases hsubmit : b.submit order with
    | error e =>
      rw [hsubmit] at h
      cases h
    | ok out =>
      rw [hsubmit] at h
      obtain ⟨rfl, rfl⟩ := Prod.mk.inj (Except.ok.inj h)
      refine keeps_submit b order out.1 out.2 hsubmit fun haccepted => ?_
      rw [BatchCommandResult.idle, haccepted] at hr
      cases hr
  | cancelOrder id =>
    rw [applyCommand, cancel] at h
    cases hlookup : b.activeOrders.lookup id with
    | none =>
      rw [hlookup] at h
      exact (Prod.mk.inj (Except.ok.inj h)).2.symm
    | some locator =>
      -- what is found is cancelled
      rw [hlookup] at h
      dsimp only at h
      split at h
      · cases h
      · split at h
        · cases h
        · obtain ⟨rfl, -⟩ := Prod.mk.inj (Except.ok.inj h)
          cases hr

/-! ### Levels and crossing orders -/

section Levels

variable {b : OrderBook} {order : NewLimitOrder}

/-- An order meets another one if and only if the price of some level crosses. -/
theorem crossing_eq_nil_iff (hb : b.Linked) : b.abs.crossing order = [] ↔
    ∀ e ∈ (b.levels (BookSide.ofSide order.side).other).entries,
      ¬ (BookSide.ofSide order.side).other.crosses e.1 order.limitPrice := by
  rw [PriorityBook.crossing, List.filter_eq_nil_iff, queue_abs]
  constructor
  · intro h e he hcross
    obtain ⟨n, hn⟩ := List.exists_mem_of_ne_nil _ (hb.level_ok _ e he).orders_ne_nil
    refine h n.value.view (List.mem_map_of_mem (mem_nodesOf.mpr ⟨e, he, hn⟩)) ?_
    rwa [RestingOrder.view_limitPrice, (hb.level_ok _ e he).limitPrice_eq n hn]
  · intro h o ho
    obtain ⟨n, hn, rfl⟩ := List.mem_map.mp ho
    obtain ⟨e, he, hn⟩ := mem_nodesOf.mp hn
    rw [RestingOrder.view_limitPrice, (hb.level_ok _ e he).limitPrice_eq n hn]
    exact h e he

/-- An order is too much for its level if there is one and the sum does not fit in a word. -/
theorem exists_level_iff (hb : b.Linked) (s : BookSide) (price : Price) (q : Quantity) :
    (∃ level, (b.levels s).find? price = some level ∧
      2 ^ 64 ≤ level.totalQuantity.toNat + q.toNat) ↔
    2 ^ 64 ≤ b.abs.levelTotal s price + q.toNat := by
  rw [← overflow_iff hb, Option.any_eq_true]
  simp only [wouldOverflow_iff]

end Levels

/-- On the book that any history leaves, an order is accepted if and only if its identifier, side,
price and quantity are valid, the identifier was not accepted before, and it is not the case that
no price of the opposite side crosses and that the level of its price, which exists, has no room for
its quantity. An order that would trade is not rejected for lack of room. What is not accepted
leaves the book as it was; so, without the rejected submissions and the cancellations that found
nothing, the history has the same other results and leaves the same book. -/
theorem run_accepts_iff (commands : List JournalCommand) :
    ∃ results b, OrderBook.fresh.run commands = .ok (results, b) ∧
      results.length = commands.length ∧
      (∀ order : NewLimitOrder, ∃ r b', b.submit order = .ok (r, b') ∧
        (r.status = .accepted ↔ order.id.value ≠ 0 ∧
          (order.side = .buy ∨ order.side = .sell) ∧ order.limitPrice.ticks ≠ 0 ∧
          order.quantity.units ≠ 0 ∧
          (∀ o ∈ Log.accepted (commands.zip results), o.id ≠ order.id) ∧
          ¬ ((∀ e ∈ (b.levels (BookSide.ofSide order.side).other).entries,
              ¬ (BookSide.ofSide order.side).other.crosses e.1 order.limitPrice) ∧
            ∃ level, (b.levels (.ofSide order.side)).find? order.limitPrice = some level ∧
              2 ^ 64 ≤ level.totalQuantity.toNat + order.quantity.toNat)) ∧
        ((∃ e ∈ (b.levels (BookSide.ofSide order.side).other).entries,
            (BookSide.ofSide order.side).other.crosses e.1 order.limitPrice) →
          r.rejectionReason ≠ some .quantityOverflow) ∧
        (r.status ≠ .accepted → b' = b)) ∧
      OrderBook.fresh.run (((commands.zip results).filter fun e => ¬ e.2.idle).map Prod.fst) =
        .ok (((commands.zip results).filter fun e => ¬ e.2.idle).map Prod.snd, b) := by
  obtain ⟨results, b, hrun, hinv, habs, hlength, hlog⟩ := run_fresh_log commands
  refine ⟨results, b, hrun, hlength, fun order => ?_,
    tryRunAll_filter (fun _ _ _ _ => eq_of_applyCommand_idle) hrun⟩
  obtain ⟨b', hsubmit, -, -⟩ := submit_refines hinv order
  refine ⟨_, b', hsubmit, ?_, fun hcross => ?_, keeps_submit b order _ b' hsubmit⟩
  · obtain ⟨-, -, hseen⟩ := PriorityBook.run_seen PriorityBook.fresh_wellFormed commands
    have hnew : order.id ∉ b.abs.seenOrderIds ↔
        ∀ o ∈ Log.accepted (commands.zip results), o.id ≠ order.id := by
      rw [hlog, habs, hseen, Finset.mem_union, List.mem_toFinset, List.mem_map]
      simp [PriorityBook.fresh]
    have haccepted : (b.abs.submit order).1.status = .accepted ↔ b.abs.Acceptable order := by
      rw [← PriorityBook.rejection_eq_none_iff, PriorityBook.submit]
      cases b.abs.rejection order <;> simp [SubmitResult.rejected, PriorityBook.acceptResult]
    rw [haccepted, hinv.wellFormed.acceptable_iff (habs ▸
        PriorityBook.idsAvailable_of_fresh commands order)
        (habs ▸ PriorityBook.nextArrivalSequence_ne_zero_of_fresh commands),
      hnew, crossing_eq_nil_iff hinv.linked, exists_level_iff hinv.linked]
  · have hne : b.abs.crossing order ≠ [] := by
      rw [Ne, crossing_eq_nil_iff hinv.linked]
      simpa using hcross
    have hreason := hinv.wellFormed.not_overflow_of_crossing hne
    rw [PriorityBook.submit]
    cases hr : b.abs.rejection order with
    | none => simp [PriorityBook.acceptResult]
    | some reason =>
      rw [hr] at hreason
      exact hreason

end OrderBook

end MatchingEngine
