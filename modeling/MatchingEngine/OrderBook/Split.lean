import MatchingEngine.OrderBook.Untouched
import MatchingEngine.PriorityBook.Split

/-!
# Orders in two parts on a book

Nothing is gained or lost by submitting an order in two parts. If the order is accepted, its parts
are, one directly after the other, and together they trade as the order does.

## Main results

* `OrderBook.run_split`: an order trades as its parts do.
-/

namespace MatchingEngine

namespace OrderBook

/-- After any history, the parts of an order that would be accepted are accepted, one directly after
the other, under new identifiers. Together they execute what the order would execute, from every
maker and at the same cost, and leave resting what the order would leave. The opposite side of the
book is the same afterwards. -/
theorem run_split (commands : List JournalCommand) (order : NewLimitOrder) (id₁ id₂ : OrderId)
    (a b : Quantity) (results : List BatchCommandResult) (r : SubmitResult)
    (book b₁ : OrderBook) (hrun : fresh.run commands = .ok (results, book))
    (hwhole : book.applyCommand (.submitLimitOrder order) = .ok (.submit r, b₁))
    (haccepted : r.status = .accepted) (hid₁ : id₁.value ≠ 0) (hid₂ : id₂.value ≠ 0)
    (hne : id₁ ≠ id₂) (hnew₁ : id₁ ∉ book.seenOrderIds) (hnew₂ : id₂ ∉ book.seenOrderIds)
    (hpos₁ : 0 < a.toNat) (hpos₂ : 0 < b.toNat)
    (hquantity : order.quantity.toNat = a.toNat + b.toNat) :
    ∃ r₁ r₂ b₂, book.run [.submitLimitOrder (order.part id₁ a),
        .submitLimitOrder (order.part id₂ b)] = .ok ([.submit r₁, .submit r₂], b₂) ∧
      r₁.status = .accepted ∧ r₂.status = .accepted ∧
      r.executedQuantity.toNat = r₁.executedQuantity.toNat + r₂.executedQuantity.toNat ∧
      r.restingQuantity.toNat = r₁.restingQuantity.toNat + r₂.restingQuantity.toNat ∧
      Trade.cost r.trades = Trade.cost r₁.trades + Trade.cost r₂.trades ∧
      (∀ maker, Trade.makerQuantity r.trades maker =
        Trade.makerQuantity r₁.trades maker + Trade.makerQuantity r₂.trades maker) ∧
      (b₂.levels (BookSide.ofSide order.side).other).entries.map levelView =
        (b₁.levels (BookSide.ofSide order.side).other).entries.map levelView := by
  obtain ⟨hinv, -, habs⟩ := run_ok fresh_inv hrun
  have hreached : book.abs.Reached := ⟨commands, habs.symm⟩
  obtain ⟨hinv₁, hacceptable, rfl, habs₁⟩ := applyCommand_accepted hinv hwhole haccepted
  obtain ⟨hfirst, hsecond⟩ := hreached.accepts_parts hacceptable hid₁ hid₂ hne hnew₁ hnew₂ hpos₁
    hpos₂ hquantity
  obtain ⟨b₂, hparts, hinv₂, habs₂⟩ := run_refines hinv
    [.submitLimitOrder (order.part id₁ a), .submitLimitOrder (order.part id₂ b)]
  have happly {p : PriorityBook} {order : NewLimitOrder} (h : p.Acceptable order) :
      p.apply (.submitLimitOrder order) = (.submit (PriorityBook.acceptResult order
        (p.fillFor order)), p.accept order (p.fillFor order)) := by
    rw [PriorityBook.apply, PriorityBook.submit_of_acceptable h]
  rw [PriorityBook.run, runAll, happly hfirst, runAll, happly hsecond, runAll] at hparts habs₂
  obtain ⟨hrest, hremaining, hcost⟩ :=
    @PriorityBook.split_fillFor book.abs order id₁ id₂ a b hquantity
  have hresting : (PriorityBook.acceptResult order _).restingQuantity.toNat =
      (PriorityBook.acceptResult (order.part id₁ a) _).restingQuantity.toNat +
        (PriorityBook.acceptResult (order.part id₂ b) _).restingQuantity.toNat := hremaining
  refine ⟨_, _, b₂, hparts, rfl, rfl, ?_, hresting, hcost,
    PriorityBook.makerQuantity_parts hquantity, levels_of_queue hinv₁.linked hinv₂.linked ?_⟩
  · -- what rests of an order is what is not executed
    have htotal := book.abs.acceptResult_total order
    have htotal₁ : _ = a.toNat := book.abs.acceptResult_total (order.part id₁ a)
    have htotal₂ : _ = b.toNat := PriorityBook.acceptResult_total
      (book.abs.accept (order.part id₁ a) (book.abs.fillFor (order.part id₁ a))) (order.part id₂ b)
    omega
  · rw [habs₂, habs₁, PriorityBook.queue_other_accept, hrest]
    exact PriorityBook.queue_other_accept _

/-- A buy order in two parts that meets two sell orders: the first part ends within the first sell
order. -/
theorem run_split_two_makers :
    ∃ (results : List BatchCommandResult) (r r₁ r₂ : SubmitResult) (book b₁ b₂ : OrderBook),
      fresh.run [.submitLimitOrder ⟨⟨1⟩, .sell, ⟨10⟩, ⟨5⟩⟩,
        .submitLimitOrder ⟨⟨2⟩, .sell, ⟨11⟩, ⟨4⟩⟩] = .ok (results, book) ∧
      book.applyCommand (.submitLimitOrder ⟨⟨3⟩, .buy, ⟨11⟩, ⟨8⟩⟩) = .ok (.submit r, b₁) ∧
      book.run [.submitLimitOrder ⟨⟨4⟩, .buy, ⟨11⟩, ⟨2⟩⟩,
        .submitLimitOrder ⟨⟨5⟩, .buy, ⟨11⟩, ⟨6⟩⟩] = .ok ([.submit r₁, .submit r₂], b₂) ∧
      Trade.cost r.trades = 83 ∧
      Trade.cost r.trades = Trade.cost r₁.trades + Trade.cost r₂.trades := by
  obtain ⟨r₁, r₂, b₂, hparts, -, -, -, -, hcost, -⟩ := run_split
    [.submitLimitOrder ⟨⟨1⟩, .sell, ⟨10⟩, ⟨5⟩⟩, .submitLimitOrder ⟨⟨2⟩, .sell, ⟨11⟩, ⟨4⟩⟩]
    ⟨⟨3⟩, .buy, ⟨11⟩, ⟨8⟩⟩ ⟨4⟩ ⟨5⟩ ⟨2⟩ ⟨6⟩ _ _ _ _ rfl rfl rfl (by decide) (by decide) (by decide)
    (by decide) (by decide) (by decide) (by decide) (by decide)
  exact ⟨_, _, r₁, r₂, _, _, b₂, rfl, rfl, hparts, by decide, hcost⟩

end OrderBook

end MatchingEngine
