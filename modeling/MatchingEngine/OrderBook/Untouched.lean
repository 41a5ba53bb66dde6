import MatchingEngine.OrderBook.Commute
import MatchingEngine.PriorityBook.Omission

/-!
# Orders that leave no trace

An order that is accepted, never traded with and cancelled as a whole has no influence on the
others. The commands between its submission and its cancellation have the results that they have
without it, and so have all later commands. Two things are left of it: its identifier cannot be used
again, and a sequence number was spent. There is one way in which such an order shows, while it
rests: it takes up room at its price, so another order can be rejected because the quantity of the
level would not fit into a word.

## Main definitions

* `OrderBook.SameBut`: two books agree but for an identifier, sequence numbers and list nodes.

## Main results

* `OrderBook.run_untouched`: the commands of a run do not depend on such an order.
-/

namespace MatchingEngine

namespace OrderBook

/-- Two books have the same levels, with the same totals and the same orders in the same places, the
same index, up to the addresses of the list nodes, and the same next trade identifier. The first one
has seen one identifier more. -/
structure SameBut (id : OrderId) (b b' : OrderBook) : Prop where
  levels_eq : ∀ s, (b'.levels s).entries.map levelView = (b.levels s).entries.map levelView
  locators_eq : ∀ id, (b'.activeOrders.lookup id).map (fun l => (l.side, l.price)) =
    (b.activeOrders.lookup id).map fun l => (l.side, l.price)
  find_eq : ∀ id, b'.find id = b.find id
  seenOrderIds_eq : b.seenOrderIds = insert id b'.seenOrderIds
  nextTradeId_eq : b'.nextTradeId = b.nextTradeId

section Abs

variable {b b' : OrderBook}

theorem SameBut.of_omits {id : OrderId} (hb : b.Inv) (hb' : b'.Inv)
    (h : PriorityBook.Omits id b.abs b'.abs) (hinactive : ∀ o ∈ b.abs.orders, o.id ≠ id) :
    b.SameBut id b' := by
  have hqueue := h.queue_eq_of_inactive hinactive
  have hfind (id : OrderId) : b'.abs.find id = b.abs.find id := by
    rw [PriorityBook.find, PriorityBook.find, PriorityBook.orders, PriorityBook.orders]
    exact congrArg₂ (fun bids asks => (bids ++ asks).find? fun o => o.id = id) (hqueue .bids)
      (hqueue .asks)
  refine ⟨fun s => levels_of_queue hb.linked hb'.linked (hqueue s), fun id => ?_, fun id => ?_,
    h.seenOrderIds_eq, h.nextTradeId_eq⟩
  · rw [lookup_of_abs hb', lookup_of_abs hb, hfind]
  · rw [OrderBook.find_eq hb', OrderBook.find_eq hb, hfind]

/-- Two books of which one omits an inactive order stay so, with the same results. -/
theorem run_omits {id : OrderId} (hb : b.Inv) (hb' : b'.Inv) (hreached : b.abs.Reached)
    (hreached' : b'.abs.Reached) (h : PriorityBook.Omits id b.abs b'.abs)
    (hinactive : ∀ o ∈ b.abs.orders, o.id ≠ id) {commands : List JournalCommand}
    (hid : ∀ command ∈ commands, command.orderId ≠ id) :
    ∃ results c c', b.run commands = .ok (results, c) ∧ b'.run commands = .ok (results, c') ∧
      c.SameBut id c' := by
  obtain ⟨c, hrun, hc, habs⟩ := run_refines hb commands
  obtain ⟨c', hrun', hc', habs'⟩ := run_refines hb' commands
  have hsilent := (h.retired hinactive).run hb.wellFormed commands
  obtain ⟨hresults, homits⟩ := h.run hreached hreached' hid
    (fun t ht => (hsilent.no_trade t ht).2) (Or.inr hinactive)
  rw [hresults] at hrun'
  rw [← habs, ← habs'] at homits
  refine ⟨_, c, c', hrun, hrun', .of_omits hc hc' homits ?_⟩
  rw [habs]
  exact (hreached.run commands).wellFormed.id_ne_of_activeQuantity hsilent.retired.active_eq_zero

/-- The result of an accepted submission, seen in the abstract book. -/
theorem applyCommand_accepted {order : NewLimitOrder} {r : SubmitResult} (hb : b.Inv)
    (h : b.applyCommand (.submitLimitOrder order) = .ok (.submit r, b'))
    (hr : r.status = .accepted) :
    b'.Inv ∧ b.abs.Acceptable order ∧
      r = PriorityBook.acceptResult order (b.abs.fillFor order) ∧
      b'.abs = b.abs.accept order (b.abs.fillFor order) := by
  obtain ⟨c, hc, hinv, habs⟩ := applyCommand_refines hb (.submitLimitOrder order)
  obtain ⟨hresult, rfl⟩ := Prod.mk.inj (Except.ok.inj (h.symm.trans hc))
  rw [PriorityBook.apply, PriorityBook.submit] at hresult habs
  cases hrejection : b.abs.rejection order with
  | some reason =>
    rw [hrejection] at hresult
    obtain rfl := BatchCommandResult.submit.inj hresult
    exact SubmissionStatus.noConfusion hr
  | none =>
    rw [hrejection] at hresult habs
    exact ⟨hinv, PriorityBook.rejection_eq_none_iff.mp hrejection,
      BatchCommandResult.submit.inj hresult, habs⟩

/-- The result of a cancellation that succeeds, seen in the abstract book. -/
theorem applyCommand_cancelled {id : OrderId} {quantity : Quantity} (hb : b.Inv)
    (h : b.applyCommand (.cancelOrder id) = .ok (.cancel ⟨.cancelled, quantity⟩, b')) :
    b'.Inv ∧ b'.abs = b.abs.remove id ∧
      ∃ o, b.abs.find id = some o ∧ o.remainingQuantity = quantity := by
  obtain ⟨c, hc, hinv, habs⟩ := applyCommand_refines hb (.cancelOrder id)
  obtain ⟨hresult, rfl⟩ := Prod.mk.inj (Except.ok.inj (h.symm.trans hc))
  rw [PriorityBook.apply, PriorityBook.cancel] at hresult habs
  cases hfind : b.abs.find id with
  | none =>
    rw [hfind] at hresult
    exact CancelStatus.noConfusion (CancelResult.mk.inj (BatchCommandResult.cancel.inj hresult)).1
  | some o =>
    rw [hfind] at hresult habs
    have hquantity := (CancelResult.mk.inj (BatchCommandResult.cancel.inj hresult)).2
    exact ⟨hinv, habs, o, rfl, hquantity.symm⟩

/-- The result of a run, seen in the abstract book. -/
theorem run_ok {commands : List JournalCommand} {results : List BatchCommandResult} (hb : b.Inv)
    (h : b.run commands = .ok (results, b')) :
    b'.Inv ∧ results = (b.abs.run commands).1 ∧ b'.abs = (b.abs.run commands).2 := by
  obtain ⟨c, hc, hinv, habs⟩ := run_refines hb commands
  obtain ⟨rfl, rfl⟩ := Prod.mk.inj (Except.ok.inj (h.symm.trans hc))
  exact ⟨hinv, rfl, habs⟩

end Abs

/-- After any history, an order is accepted, commands about other orders follow, and then all of the
order is cancelled. If none of these commands is rejected because a level has no room, they have the
results that they have without the order. The two books that are left agree but for the identifier
of the order, sequence numbers and list nodes, and they stay so, with the same results, whatever
comes next about other orders. -/
theorem run_untouched (before between : List JournalCommand) (order : NewLimitOrder)
    (results₀ results : List BatchCommandResult) (r : SubmitResult) (b₀ b₁ b₂ b₃ : OrderBook)
    (hbefore : fresh.run before = .ok (results₀, b₀))
    (hsubmit : b₀.applyCommand (.submitLimitOrder order) = .ok (.submit r, b₁))
    (haccepted : r.status = .accepted) (hbetween : b₁.run between = .ok (results, b₂))
    (hcancel : b₂.applyCommand (.cancelOrder order.id) =
      .ok (.cancel ⟨.cancelled, order.quantity⟩, b₃))
    (hothers : ∀ command ∈ between, command.orderId ≠ order.id)
    (hroom : ∀ result ∈ results, result ≠ .submit (.rejected .quantityOverflow)) :
    ∃ b₃', b₀.run between = .ok (results, b₃') ∧ b₃.SameBut order.id b₃' ∧
      ∀ further : List JournalCommand, (∀ command ∈ further, command.orderId ≠ order.id) →
        ∃ results' b₄ b₄', b₃.run further = .ok (results', b₄) ∧
          b₃'.run further = .ok (results', b₄') ∧ b₄.SameBut order.id b₄' := by
  obtain ⟨hinv₀, -, habs₀⟩ := run_ok fresh_inv hbefore
  obtain ⟨hinv₁, hacceptable, -, habs₁⟩ := applyCommand_accepted hinv₀ hsubmit haccepted
  obtain ⟨hinv₂, rfl, habs₂⟩ := run_ok hinv₁ hbetween
  obtain ⟨hinv₃, habs₃, o, hfind, hquantity⟩ := applyCommand_cancelled hinv₂ hcancel
  obtain ⟨b₃', hrun, hinv₃', habs₃'⟩ := run_refines hinv₀ between
  have hreached₀ : b₀.abs.Reached := ⟨before, habs₀.symm⟩
  have hreached₃ : b₃.abs.Reached := by
    have hlast := ((hreached₀.apply (.submitLimitOrder order)).run between).apply
      (.cancelOrder order.id)
    rwa [PriorityBook.apply, PriorityBook.submit_of_acceptable hacceptable, ← habs₁, ← habs₂,
      PriorityBook.apply, PriorityBook.cancel, hfind, ← habs₃] at hlast
  rw [habs₂, habs₁] at hfind
  rw [habs₁] at hroom
  obtain ⟨hresults, homits, hinactive⟩ :=
    hreached₀.run_without hacceptable hfind hquantity hothers hroom
  rw [← habs₁, ← habs₂, ← habs₃] at hinactive
  rw [← habs₁, ← habs₂, ← habs₃, ← habs₃'] at homits
  rw [hresults, ← habs₁] at hrun
  exact ⟨b₃', hrun, .of_omits hinv₃ hinv₃' homits hinactive, fun further hfurther =>
    run_omits hinv₃ hinv₃' hreached₃ (habs₃' ▸ hreached₀.run between) homits hinactive hfurther⟩

/-- A sell order behind the best one rests while a buyer trades with the best one, and is cancelled.
The buyer cannot tell. -/
theorem run_untouched_behind_best :
    ∃ (results₀ results : List BatchCommandResult) (r : SubmitResult) (b₀ b₁ b₂ b₃ b₃' : OrderBook),
      fresh.run [.submitLimitOrder ⟨⟨1⟩, .sell, ⟨10⟩, ⟨5⟩⟩] = .ok (results₀, b₀) ∧
      b₀.applyCommand (.submitLimitOrder ⟨⟨2⟩, .sell, ⟨11⟩, ⟨3⟩⟩) = .ok (.submit r, b₁) ∧
      b₁.run [.submitLimitOrder ⟨⟨3⟩, .buy, ⟨11⟩, ⟨2⟩⟩] = .ok (results, b₂) ∧
      b₂.applyCommand (.cancelOrder ⟨2⟩) = .ok (.cancel ⟨.cancelled, ⟨3⟩⟩, b₃) ∧
      b₀.run [.submitLimitOrder ⟨⟨3⟩, .buy, ⟨11⟩, ⟨2⟩⟩] = .ok (results, b₃') ∧
      b₃.SameBut ⟨2⟩ b₃' := by
  obtain ⟨b₃', hrun, hsame, -⟩ := run_untouched [.submitLimitOrder ⟨⟨1⟩, .sell, ⟨10⟩, ⟨5⟩⟩]
    [.submitLimitOrder ⟨⟨3⟩, .buy, ⟨11⟩, ⟨2⟩⟩] ⟨⟨2⟩, .sell, ⟨11⟩, ⟨3⟩⟩ _ _ _ _ _ _ _ rfl rfl rfl
    rfl rfl (by decide) (by decide)
  exact ⟨_, _, _, _, _, _, _, b₃', rfl, rfl, rfl, rfl, hrun, hsame⟩

end OrderBook

end MatchingEngine
