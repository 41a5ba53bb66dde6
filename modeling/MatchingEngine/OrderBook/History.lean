import MatchingEngine.OrderBook.Refinement
import MatchingEngine.PriorityBook.Counting

/-!
# Whole histories of an order book

What the results of a sequence of commands on a fresh book add up to. The book refines the priority
book, so these are the ledger and the counts of the priority book, read at the results that the
order book returns and at its own queries and counters.

## Main results

* `OrderBook.run_ledger`: where the quantity of every accepted order has gone.
* `OrderBook.run_counts`: trades are numbered without a gap and the counters never run out.
-/

namespace MatchingEngine

namespace OrderBook

/-- A run on a fresh book returns, and it has the log of the run on the empty priority book. -/
theorem run_fresh_log (commands : List JournalCommand) :
    ∃ results b, OrderBook.fresh.run commands = .ok (results, b) ∧ b.Inv ∧
      b.abs = (PriorityBook.fresh.run commands).2 ∧
      results.length = commands.length ∧
      commands.zip results = PriorityBook.fresh.log commands := by
  obtain ⟨b, h, hinv, habs⟩ := OrderBook.run_refines OrderBook.fresh_inv commands
  exact ⟨_, b, h, hinv, habs, length_runAll .., rfl⟩

/-- The preview of a match runs to its end and plans at most one trade for every active order. -/
theorem previewMatch_completed {b : OrderBook} (hb : b.Inv) (s : BookSide) (price : Price)
    (quantity : Quantity) :
    ∃ plan, previewMatch (b.levels s) price quantity s.crosses = .completed plan ∧
      plan.tradeCount ≤ b.abs.orders.length :=
  ⟨_, previewMatch_eq (hb.matchable s) ⟨⟨0⟩, .buy, price, quantity⟩,
    (PriorityBook.fill_filling ..).length_le.trans (b.abs.queue_length_le s)⟩

/-- In every history of a fresh book, the quantity of every accepted order is, without wrap-around,
what it traded as taker, what it traded as maker, what is still active and what was cancelled. It
is cancelled at most once, no trade follows the cancellation, and no trade follows the trade that
completes it. -/
theorem run_ledger (commands : List JournalCommand) :
    ∃ results b, OrderBook.fresh.run commands = .ok (results, b) ∧
      results.length = commands.length ∧
      let log : Log := commands.zip results
      ∀ order ∈ log.accepted,
        (∃ active, b.find order.id = .ok active ∧
          order.quantity.toNat =
            Trade.takerQuantity log.trades order.id + Trade.makerQuantity log.trades order.id +
              (active.elim 0 fun o => o.remainingQuantity.toNat) +
              log.cancelledQuantity order.id) ∧
        (log.cancelled.filter fun c => c.1 = order.id).length ≤ 1 ∧
        (∀ log₁ log₂ : Log, log = log₁ ++ log₂ → (∃ c ∈ log₁.cancelled, c.1 = order.id) →
          ∀ t ∈ log₂.trades, t.takerOrderId ≠ order.id ∧ t.makerOrderId ≠ order.id) ∧
        (∀ trades₁ trades₂, log.trades = trades₁ ++ trades₂ →
          Trade.takerQuantity trades₁ order.id + Trade.makerQuantity trades₁ order.id =
            order.quantity.toNat →
          ∀ t ∈ trades₂, t.takerOrderId ≠ order.id ∧ t.makerOrderId ≠ order.id) := by
  obtain ⟨results, b, hrun, hinv, habs, hlength, hlog⟩ := run_fresh_log commands
  have hp := PriorityBook.fresh_wellFormed
  refine ⟨results, b, hrun, hlength, ?_⟩
  intro log order horder
  replace hlog : log = PriorityBook.fresh.log commands := hlog
  clear_value log
  subst hlog
  obtain ⟨-, hnodup, -⟩ := PriorityBook.run_seen hp commands
  have hsum := PriorityBook.run_conserves hp commands order.id
  rw [Log.submittedQuantity_eq _ horder hnodup, ← habs, hinv.wellFormed.activeQuantity_eq_find]
    at hsum
  have hzero : PriorityBook.fresh.activeQuantity order.id = 0 := rfl
  refine ⟨⟨_, find_eq hinv order.id, by omega⟩, ?_, ?_, ?_⟩
  · exact List.length_filter_key_le_one _ (PriorityBook.run_cancelled hp commands).1 _
  · rintro log₁ log₂ hsplit ⟨c, hc, hid⟩
    obtain ⟨commands₁, commands₂, -, rfl, rfl⟩ := exists_of_runLog_eq_append hsplit
    have hretired := (PriorityBook.run_cancelled hp commands₁).2 c hc
    rw [hid] at hretired
    exact (hretired.run (PriorityBook.run_wellFormed hp commands₁) commands₂).no_trade
  · intro trades₁ trades₂ hsplit hdone
    have hpos := (PriorityBook.run_pos hp commands).1
    rw [hsplit] at hpos hsum
    rw [Trade.takerQuantity_append, Trade.makerQuantity_append] at hsum
    exact Trade.ne_of_quantity_eq_zero (fun t ht => hpos t (List.mem_append_right _ ht)) (by omega)

/-- In every history of a fresh book, trades are numbered `1, 2, 3, …`. Trades, active orders and
successful cancellations together are no more than the accepted orders, so no order is ever
rejected because a counter is exhausted. Whatever order comes next, the preview of its match runs
to its end on either side, and the trade counter does not reach `0` before its last trade. -/
theorem run_counts (commands : List JournalCommand) :
    ∃ results b, OrderBook.fresh.run commands = .ok (results, b) ∧
      results.length = commands.length ∧
      let log : Log := commands.zip results
      log.trades.map (fun t => t.id.value.toNat) = List.range' 1 log.trades.length ∧
      log.trades.length + b.activeOrderCount + log.cancelled.length ≤ log.accepted.length ∧
      (∀ r, .submit r ∈ results → r.rejectionReason ≠ some .tradeIdExhausted ∧
        r.rejectionReason ≠ some .sequenceExhausted) ∧
      ∀ price quantity,
        (∃ plan, previewMatch b.asks price quantity
            (fun askPrice incomingPrice => askPrice ≤ incomingPrice) = .completed plan ∧
          ∀ k < plan.tradeCount, b.nextTradeId + UInt64.ofNat k ≠ 0) ∧
        (∃ plan, previewMatch b.bids price quantity
            (fun bidPrice incomingPrice => bidPrice ≥ incomingPrice) = .completed plan ∧
          ∀ k < plan.tradeCount, b.nextTradeId + UInt64.ofNat k ≠ 0) := by
  obtain ⟨results, b, hrun, hinv, habs, hlength, hlog⟩ := run_fresh_log commands
  refine ⟨results, b, hrun, hlength, ?_⟩
  intro log
  have hresults : ∀ r ∈ results, ∃ command, (command, r) ∈ log := by
    intro r hr
    obtain ⟨i, hi, rfl⟩ := List.mem_iff_getElem.mp hr
    exact ⟨commands[i], List.mem_iff_getElem.mpr ⟨i, by simp [log]; omega, by simp [log]⟩⟩
  replace hlog : log = PriorityBook.fresh.log commands := hlog
  clear_value log
  subst hlog
  refine ⟨PriorityBook.tradeIds_of_fresh commands, ?_, ?_, ?_⟩
  · rw [activeOrderCount_eq hinv, habs]
    exact PriorityBook.count_le_of_fresh commands
  · intro r hr
    obtain ⟨command, hmem⟩ := hresults _ hr
    exact PriorityBook.result_not_exhausted commands hmem
  · have hroom (k : ℕ) (hk : k < b.abs.orders.length) : b.nextTradeId + UInt64.ofNat k ≠ 0 := by
      have hnext : b.nextTradeId = b.abs.nextTradeId := rfl
      rw [hnext, habs]
      exact PriorityBook.nextTradeId_add_ne_zero commands (habs ▸ hk)
    intro price quantity
    obtain ⟨asksPlan, hasks, hasksCount⟩ := previewMatch_completed hinv .asks price quantity
    obtain ⟨bidsPlan, hbids, hbidsCount⟩ := previewMatch_completed hinv .bids price quantity
    rw [crosses_asks, crosses_bids]
    exact ⟨⟨asksPlan, hasks, fun k hk => hroom k (hk.trans_le hasksCount)⟩,
      ⟨bidsPlan, hbids, fun k hk => hroom k (hk.trans_le hbidsCount)⟩⟩

end OrderBook

end MatchingEngine
