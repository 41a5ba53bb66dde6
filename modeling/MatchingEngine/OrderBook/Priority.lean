import MatchingEngine.OrderBook.Frame
import MatchingEngine.PriorityBook.Arrival

/-!
# Price-time priority of the order book

A book never compares arrival times. It keeps levels in an ordered map and orders in the list of
their level, and takes the first order of the first level. That this is price-time priority is a
statement about histories: at every point the orders that an incoming one can trade with stand in
the order of price and of acceptance, and the trades take them in that order.

## Main definitions

* `OrderBook.Eligible`: the orders that an incoming order can trade with, sorted by price and by
  the order in which they were accepted.

## Main results

* `OrderBook.run_greedy`: an accepted order is the greedy fill of these orders, and leaves the
  others alone.
-/

namespace MatchingEngine

namespace OrderBook

/-- The list of the active orders of the opposite side whose price crosses that of an incoming
order, the best price for the incoming order first, and at equal prices in the order of the given
list of accepted identifiers. -/
structure Eligible (accepted : List OrderId) (b : OrderBook) (order : NewLimitOrder)
    (makers : List OrderView) : Prop where
  mem_iff : ∀ o, o ∈ makers ↔ b.find o.id = .ok (some o) ∧
    o.side = (BookSide.ofSide order.side).other.side ∧
    (BookSide.ofSide order.side).other.crosses o.limitPrice order.limitPrice = true
  sorted : makers.Pairwise (PriorityBook.Before (BookSide.ofSide order.side).other accepted)

section Eligible

variable {accepted : List OrderId} {b : OrderBook} {order : NewLimitOrder}
  {makers makers' : List OrderView}

/-- There is only one such list. -/
theorem Eligible.unique (h : b.Eligible accepted order makers)
    (h' : b.Eligible accepted order makers') : makers' = makers := by
  have hnodup {l : List OrderView}
      (hl : l.Pairwise (PriorityBook.Before (BookSide.ofSide order.side).other accepted)) :
      l.Nodup := hl.imp fun hbefore heq => (heq ▸ hbefore).asymm (heq ▸ hbefore)
  have hperm : makers'.Perm makers := (List.perm_ext_iff_of_nodup (hnodup h'.sorted)
    (hnodup h.sorted)).mpr fun o => (h'.mem_iff o).trans (h.mem_iff o).symm
  exact hperm.eq_of_pairwise (fun _ _ _ _ hab hba => absurd hba hab.asymm) h'.sorted h.sorted

theorem mem_queue_iff (hb : b.Inv) (s : BookSide) (o : OrderView) :
    o ∈ b.abs.queue s ↔ b.find o.id = .ok (some o) ∧ o.side = s.side := by
  have hsides : s.side ≠ s.other.side := by cases s <;> decide
  rw [find_eq hb, Except.ok.injEq]
  constructor
  · intro ho
    exact ⟨hb.wellFormed.find_eq_some (b.abs.mem_orders.mpr ⟨s, ho⟩), hb.wellFormed.side_eq s o ho⟩
  · rintro ⟨hfind, hside⟩
    obtain ⟨t, ht⟩ := b.abs.mem_orders.mp (List.mem_of_find?_eq_some hfind)
    rcases s.eq_or_eq_other t with rfl | rfl
    · exact ht
    · exact absurd (hside.symm.trans (hb.wellFormed.side_eq _ o ht)) hsides

/-- The crossing orders at the head of the queue are the eligible ones. -/
theorem eligible_crossing (hb : b.Inv)
    (hbefore : (b.abs.queue (BookSide.ofSide order.side).other).Pairwise
      (PriorityBook.Before (BookSide.ofSide order.side).other accepted)) :
    b.Eligible accepted order (b.abs.crossing order) where
  mem_iff o := by
    rw [PriorityBook.mem_crossing, mem_queue_iff hb, and_assoc]
  sorted := hbefore.sublist List.filter_sublist

end Eligible

/-! ### The book after an accepted order -/

namespace Accepted

variable {b : OrderBook} {order : NewLimitOrder} {m : Matching}

/-- The nodes that the order does not trade with, on both sides. -/
theorem filter_nodes (h : b.Accepted order m) (hb : b.Inv) (ha : b.abs.Acceptable order)
    (t : BookSide) :
    (nodesOf ((restResidual order m).levels t)).filter (fun n =>
        n.value.id ∉ m.trades.map (fun t => t.makerOrderId) ∧ n.value.id ≠ order.id) =
      (nodesOf (b.levels t)).filter fun n =>
        n.value.id ∉ m.trades.map fun t => t.makerOrderId := by
  have hid := h.id_ne hb ha
  have hmatched : (nodesOf (m.book.levels t)).filter
        (fun n => n.value.id ∉ m.trades.map fun t => t.makerOrderId) =
      (nodesOf (b.levels t)).filter fun n => n.value.id ∉ m.trades.map fun t => t.makerOrderId := by
    rcases (BookSide.ofSide order.side).eq_or_eq_other t with rfl | rfl
    · rw [h.levels_own ha.side_valid]
    · exact h.nodes_other ha.side_valid
  rw [← hmatched, restResidual_eq m ha.side_valid]
  split
  · exact filter_nodes_restOn h.linked hid _ t
  · exact List.filter_congr fun n hn => by simp [hid n (m.book.mem_nodes.mpr ⟨t, hn⟩)]

/-- What is left of the order is behind the others of its level. -/
theorem exists_residual (h : b.Accepted order m) (hb : b.Inv) (ha : b.abs.Acceptable order)
    (hpos : 0 < m.remainingQuantity.units) :
    ∃ level n, ((restResidual order m).levels (.ofSide order.side)).find? order.limitPrice =
        some level ∧
      level.orders = (levelAt (b.levels (.ofSide order.side)) order.limitPrice).orders ++ [n] ∧
      n.value = ⟨order.id, order.side, order.limitPrice, order.quantity, m.remainingQuantity,
        b.nextArrivalSequence⟩ := by
  have hactive := notMem_activeOrders h.linked (h.id_ne hb ha)
  refine ⟨m.book.residualLevel (.ofSide order.side) order m.remainingQuantity,
    m.book.residualNode order m.remainingQuantity, ?_, ?_, ?_⟩
  · rw [restResidual_eq m ha.side_valid, if_pos hpos]
    exact find?_restOn hactive
  · rw [residualLevel, h.levels_own ha.side_valid]
  · rw [residualNode, h.nextArrivalSequence_eq]

/-- Nothing rests under the identifier of an order that is filled. -/
theorem find_restResidual (h : b.Accepted order m) (hb : b.Inv) (ha : b.abs.Acceptable order)
    (hzero : ¬ 0 < m.remainingQuantity.units) :
    (restResidual order m).find order.id = .ok none := by
  rw [find_eq (h.restResidual_refines hb ha).1, restResidual_eq m ha.side_valid, if_neg hzero]
  refine congrArg Except.ok (List.find?_eq_none.mpr ?_)
  rw [orders_abs]
  intro o ho heq
  obtain ⟨n, hn, rfl⟩ := List.mem_map.mp ho
  exact h.id_ne hb ha n hn (of_decide_eq_true heq)

end Accepted

/-- On the book that any history leaves, take the active orders of the opposite side whose price
crosses that of an accepted order, the best price first and, at equal prices, in the order in which
the history accepted them. The trades are the greedy fill of this list: the `k`-th trade is with its
`k`-th order, at the price of that order, for as much as both have left, until one of them has run
out. All makers but possibly the last one are filled; a filled maker is not active any more, and one
that is partly filled keeps the rest. The executed quantity is the sum of the trades, and what is
left rests behind the orders of its price with the original quantity recorded. All other orders,
down to their list nodes, are what they were, in the same order. -/
theorem run_greedy (commands : List JournalCommand) :
    ∃ results b, OrderBook.fresh.run commands = .ok (results, b) ∧
      results.length = commands.length ∧
      ∀ order r b', b.submit order = .ok (r, b') → r.status = .accepted →
        ∃ makers,
          b.Eligible ((Log.accepted (commands.zip results)).map fun o => o.id) order makers ∧
          (∀ makers', b.Eligible ((Log.accepted (commands.zip results)).map fun o => o.id) order
            makers' → makers' = makers) ∧
          PriorityBook.GreedyFill order makers r.trades ∧
          (∀ (k : ℕ) (t : Trade) (maker : OrderView), r.trades[k]? = some t →
            makers[k]? = some maker → b'.find maker.id =
              .ok (if t.executionQuantity = maker.remainingQuantity then none
                else some { maker with remainingQuantity :=
                  ⟨maker.remainingQuantity.units - t.executionQuantity.units⟩ })) ∧
          r.executedQuantity.toNat = Trade.total r.trades ∧
          r.restingQuantity.toNat = order.quantity.toNat - Trade.total r.trades ∧
          (0 < r.restingQuantity.toNat →
            ∃ level n, (b'.levels (.ofSide order.side)).find? order.limitPrice = some level ∧
              level.orders =
                (levelAt (b.levels (.ofSide order.side)) order.limitPrice).orders ++ [n] ∧
              n.value = ⟨order.id, order.side, order.limitPrice, order.quantity,
                r.restingQuantity, b.nextArrivalSequence⟩) ∧
          (r.restingQuantity.toNat = 0 → b'.find order.id = .ok none) ∧
          ∀ s, (nodesOf (b'.levels s)).filter (fun n =>
              n.value.id ∉ r.trades.map (fun t => t.makerOrderId) ∧ n.value.id ≠ order.id) =
            (nodesOf (b.levels s)).filter fun n =>
              n.value.id ∉ r.trades.map fun t => t.makerOrderId := by
  obtain ⟨results, b, hrun, hinv, habs, hlength, hlog⟩ := run_fresh_log commands
  refine ⟨results, b, hrun, hlength, fun order r b' hsubmit hstatus => ?_⟩
  have hbefore := PriorityBook.run_before commands (BookSide.ofSide order.side).other
  rw [← habs, ← hlog] at hbefore
  have heligible := eligible_crossing hinv hbefore
  rcases submit_cases hinv order with ⟨reason, -, hrejected⟩ | ⟨m, ha, hm, haccepted⟩
  · obtain ⟨rfl, -⟩ := Prod.mk.inj (Except.ok.inj (hrejected.symm.trans hsubmit))
    cases hstatus
  obtain ⟨rfl, rfl⟩ := Prod.mk.inj (Except.ok.inj (haccepted.symm.trans hsubmit))
  obtain ⟨hinv', habs'⟩ := hm.restResidual_refines hinv ha
  obtain ⟨hexecuted, hresting⟩ := PriorityBook.acceptResult_quantities b.abs order
  have hremaining : m.remainingQuantity = (b.abs.fillFor order).remaining := hm.remaining_eq
  refine ⟨b.abs.crossing order, heligible, fun makers' h => heligible.unique h,
    hinv.wellFormed.greedyFill, fun k t maker ht hk => ?_, hexecuted, hresting, fun hpos => ?_,
    fun hzero => ?_, ?_⟩
  · rw [find_eq hinv', habs', hinv.wellFormed.find_accept_maker ha ht hk]
  · have hresidual := hm.exists_residual hinv ha (hremaining ▸ Quantity.units_pos_iff.mpr hpos)
    rwa [hremaining] at hresidual
  · refine hm.find_restResidual hinv ha fun hpos => ?_
    rw [hremaining] at hpos
    exact (Quantity.units_pos_iff.mp hpos).ne' hzero
  · have hnodes := hm.filter_nodes hinv ha
    rwa [hm.trades_eq] at hnodes

/-- Two sell orders at one price, and then one at a better price: a buy order takes the last one
first, and then the two others in the order in which they were accepted. -/
theorem run_greedy_sells :
    ∃ results b r b', OrderBook.fresh.run [.submitLimitOrder ⟨⟨1⟩, .sell, ⟨10⟩, ⟨5⟩⟩,
        .submitLimitOrder ⟨⟨2⟩, .sell, ⟨10⟩, ⟨5⟩⟩, .submitLimitOrder ⟨⟨3⟩, .sell, ⟨9⟩, ⟨1⟩⟩] =
        .ok (results, b) ∧
      b.submit ⟨⟨4⟩, .buy, ⟨10⟩, ⟨8⟩⟩ = .ok (r, b') ∧ r.status = .accepted ∧
      r.trades.map (fun t => (t.makerOrderId.value, t.executionQuantity.units)) =
        [(3, 1), (1, 5), (2, 2)] ∧
      ∃ makers, b.Eligible [⟨1⟩, ⟨2⟩, ⟨3⟩] ⟨⟨4⟩, .buy, ⟨10⟩, ⟨8⟩⟩ makers ∧
        PriorityBook.GreedyFill ⟨⟨4⟩, .buy, ⟨10⟩, ⟨8⟩⟩ makers r.trades := by
  obtain ⟨results, b, hrun, -, hsubmit⟩ := run_greedy [.submitLimitOrder ⟨⟨1⟩, .sell, ⟨10⟩, ⟨5⟩⟩,
    .submitLimitOrder ⟨⟨2⟩, .sell, ⟨10⟩, ⟨5⟩⟩, .submitLimitOrder ⟨⟨3⟩, .sell, ⟨9⟩, ⟨1⟩⟩]
  cases hrun
  obtain ⟨makers, heligible, -, hgreedy, -⟩ :=
    hsubmit ⟨⟨4⟩, .buy, ⟨10⟩, ⟨8⟩⟩ _ _ rfl rfl
  exact ⟨_, _, _, _, rfl, rfl, rfl, rfl, makers, heligible, hgreedy⟩

end OrderBook

end MatchingEngine
