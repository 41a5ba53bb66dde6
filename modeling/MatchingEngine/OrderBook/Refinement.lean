import MatchingEngine.OrderBook.Check
import MatchingEngine.OrderBook.Matching

/-!
# The order book refines the priority book

From any book that satisfies the invariant, `submit` and `cancel` return, keep the invariant, and
agree with the priority book that the order book represents. In particular no assertion fails, no
`std::terminate` is reached and no iterator dangles.

The mutating part of `submit` is `match` followed by `insert_resting_order`; the part before it
only decides a rejection, and reads the same conditions off the levels that
`PriorityBook.rejection` reads off the queues.

## Main definitions

* `OrderBook.Accepted`: what matching has done for an accepted order.
* `OrderBook.without`: a book without one of its orders.

## Main results

* `OrderBook.previewMatch_eq`: the plan of a book that can be matched.
* `OrderBook.submitPlanned_eq`, `OrderBook.cancel_eq`: the books that the two operations leave.
* `OrderBook.submit_refines`, `OrderBook.cancel_refines`, `OrderBook.run_refines`.
-/

namespace MatchingEngine

open PriorityBook (fill)

namespace OrderBook

/-! ### Planning -/

theorem crosses_asks :
    (fun askPrice incomingPrice : Price => decide (askPrice ≤ incomingPrice)) =
      BookSide.asks.crosses := by
  funext a i
  exact decide_eq_decide.mpr not_lt.symm

theorem crosses_bids :
    (fun bidPrice incomingPrice : Price => decide (bidPrice ≥ incomingPrice)) =
      BookSide.bids.crosses := by
  funext a i
  exact decide_eq_decide.mpr not_lt.symm

theorem Inv.matchable {b : OrderBook} (hb : b.Inv) (s : BookSide) : b.Matchable s :=
  hb.linked.matchable (hb.wellFormed.remaining_pos s)

theorem previewMatch_eq {b : OrderBook} {s : BookSide} (hb : b.Matchable s)
    (order : NewLimitOrder) :
    previewMatch (b.levels s) order.limitPrice order.quantity s.crosses =
      let f := fill (fun price => s.crosses price order.limitPrice) order.id b.nextTradeId
        order.quantity (b.abs.queue s)
      .completed ⟨f.remaining, f.trades.length⟩ := by
  have hpos : ∀ e ∈ (b.levels s).entries, ∀ n ∈ e.2.orders,
      0 < n.value.remainingQuantity.toNat := by
    intro e he n hn
    have hmem : n.value.view ∈ b.abs.queue s := by
      rw [queue_abs]
      exact List.mem_map_of_mem (mem_nodesOf.mpr ⟨e, he, hn⟩)
    exact hb.remaining_pos _ hmem
  have hlt := order.quantity.toNat_lt
  unfold previewMatch
  rw [previewLevels_eq order.id b.nextTradeId (fun e he => (hb.level_ok e he).limitPrice_eq)
    (fun e he => (hb.level_ok e he).orders_ne_nil) hpos (by rw [maxWord_toNat]; dsimp only; omega)]
  dsimp only
  rw [queue_abs, Nat.zero_add]
  rfl

/-- The check of the level that a residual would join. -/
theorem overflow_iff {b : OrderBook} (hb : b.Linked) (s : BookSide) (price : Price)
    (q : Quantity) : ((b.levels s).find? price).any
      (fun level => wouldOverflow level.totalQuantity q) = true ↔
    2 ^ 64 ≤ b.abs.levelTotal s price + q.toNat := by
  rw [hb.levelTotal_abs]
  rcases hb.levelAt_cases s price with ⟨hnew, hfind⟩ | ⟨hfind, -⟩
  · rw [hfind, hnew, PriceLevel.new, Quantity.toNat_mk, UInt64.toNat_zero, Nat.zero_add]
    exact ⟨fun h => absurd h (by simp), fun h => absurd q.toNat_lt (Nat.not_lt.mpr h)⟩
  · rw [hfind, Option.any_some, wouldOverflow_iff]

section Submit

variable {b : OrderBook} {order : NewLimitOrder}

/-- The two branches of `submit` on the side of the order, as one. -/
theorem plan_eq (hb : ∀ s, b.Matchable s) (hside : order.side = .buy ∨ order.side = .sell) :
    (if order.side = .buy then
        (previewMatch b.asks order.limitPrice order.quantity
          fun askPrice incomingPrice => askPrice ≤ incomingPrice).plan
      else
        (previewMatch b.bids order.limitPrice order.quantity
          fun bidPrice incomingPrice => bidPrice ≥ incomingPrice).plan) =
      ⟨(b.abs.fillFor order).remaining, (b.abs.fillFor order).trades.length⟩ := by
  have hplan (s : BookSide) (hs : BookSide.ofSide order.side = s.other) :
      (previewMatch (b.levels s) order.limitPrice order.quantity s.crosses).plan =
        ⟨(b.abs.fillFor order).remaining, (b.abs.fillFor order).trades.length⟩ := by
    rw [previewMatch_eq (hb s), PriorityBook.fillFor, hs, s.other_other]
    rfl
  rcases hside with h | h
  · rw [if_pos h, crosses_asks]
    exact hplan .asks (by rw [h]; rfl)
  · rw [if_neg (by rw [h]; decide), crosses_bids]
    exact hplan .bids (by rw [h]; rfl)

theorem overflow_eq (hb : b.Linked) (hside : order.side = .buy ∨ order.side = .sell)
    (q : Quantity) :
    (if order.side = .buy then
        (b.bids.find? order.limitPrice).any fun level => wouldOverflow level.totalQuantity q
      else
        (b.asks.find? order.limitPrice).any fun level => wouldOverflow level.totalQuantity q) =
      true ↔ 2 ^ 64 ≤ b.abs.levelTotal (.ofSide order.side) order.limitPrice + q.toNat := by
  rcases hside with h | h
  · rw [if_pos h, h]
    exact overflow_iff hb .bids order.limitPrice q
  · rw [if_neg (by rw [h]; decide), h]
    exact overflow_iff hb .asks order.limitPrice q

/-- The checks of `submit`, with the two ways in which they end: an order is rejected for a reason,
or `submit` goes on with its plan. -/
def submitThen {α : Type*} (b : OrderBook) (order : NewLimitOrder) (rejected : RejectionReason → α)
    (planned : MatchPlan → α) : α :=
  if order.id.value = 0 then rejected .invalidOrderId
  else if ¬ isValidSide order.side then rejected .invalidSide
  else if order.limitPrice.ticks = 0 then rejected .invalidPrice
  else if order.quantity.units = 0 then rejected .invalidQuantity
  else if order.id ∈ b.seenOrderIds then rejected .duplicateOrderId
  else
    let matchPlan :=
      if order.side = .buy then
        (previewMatch b.asks order.limitPrice order.quantity
          fun askPrice incomingPrice => askPrice ≤ incomingPrice).plan
      else
        (previewMatch b.bids order.limitPrice order.quantity
          fun bidPrice incomingPrice => bidPrice ≥ incomingPrice).plan
    if ¬ b.canIssueTradeIds matchPlan.tradeCount then rejected .tradeIdExhausted
    else if 0 < matchPlan.remainingQuantity.units ∧ b.nextArrivalSequence = 0 then
      rejected .sequenceExhausted
    else if 0 < matchPlan.remainingQuantity.units ∧
        (if order.side = .buy then
          (b.bids.find? order.limitPrice).any fun level =>
            wouldOverflow level.totalQuantity matchPlan.remainingQuantity
        else
          (b.asks.find? order.limitPrice).any fun level =>
            wouldOverflow level.totalQuantity matchPlan.remainingQuantity) then
      rejected .quantityOverflow
    else planned matchPlan

theorem apply_submitThen {α β : Type*} (f : α → β) (b : OrderBook) (order : NewLimitOrder)
    (rejected : RejectionReason → α) (planned : MatchPlan → α) :
    f (b.submitThen order rejected planned) =
      b.submitThen order (fun reason => f (rejected reason)) fun plan => f (planned plan) := by
  unfold submitThen
  simp only [apply_ite f]

theorem submit_eq_submitThen (b : OrderBook) (order : NewLimitOrder) :
    b.submit order = b.submitThen order (fun reason => .ok (.rejected reason, b))
      (b.submitPlanned order) := rfl

/-- The checks reject what the priority book rejects, and otherwise end with its plan. -/
theorem submitThen_eq {α : Type*} (hb : b.Inv) (order : NewLimitOrder)
    (rejected : RejectionReason → α) (planned : MatchPlan → α) :
    b.submitThen order rejected planned =
      match b.abs.rejection order with
      | some reason => rejected reason
      | none => planned
          ⟨(b.abs.fillFor order).remaining, (b.abs.fillFor order).trades.length⟩ := by
  let go : Option RejectionReason → α
    | some reason => rejected reason
    | none => planned ⟨(b.abs.fillFor order).remaining, (b.abs.fillFor order).trades.length⟩
  change _ = go (b.abs.rejection order)
  unfold submitThen PriorityBook.rejection
  simp only [apply_ite go]
  refine ite_congr rfl (fun _ => rfl) fun _ => ?_
  refine ite_congr (by simp [isValidSide]) (fun _ => rfl) fun hside => ?_
  have hside : order.side = .buy ∨ order.side = .sell := by
    simpa [or_iff_not_imp_left] using hside
  refine ite_congr rfl (fun _ => rfl) fun _ => ?_
  refine ite_congr rfl (fun _ => rfl) fun _ => ?_
  refine ite_congr rfl (fun _ => rfl) fun _ => ?_
  rw [plan_eq hb.matchable hside]
  refine ite_congr ?_ (fun _ => rfl) fun _ => ?_
  · rw [canIssueTradeIds, canIssueFrom_iff]
    rfl
  refine ite_congr rfl (fun _ => rfl) fun _ => ?_
  refine ite_congr ?_ (fun _ => rfl) fun _ => rfl
  rw [overflow_eq hb.linked hside]

/-- `submit` rejects what the priority book rejects, and otherwise goes on with its plan. -/
theorem submit_eq (hb : b.Inv) (order : NewLimitOrder) : b.submit order =
    match b.abs.rejection order with
    | some reason => .ok (.rejected reason, b)
    | none => b.submitPlanned order
        ⟨(b.abs.fillFor order).remaining, (b.abs.fillFor order).trades.length⟩ := by
  rw [submit_eq_submitThen, submitThen_eq hb]

end Submit

/-! ### Resting a residual -/

/-- The node that `insert_resting_order` appends. -/
def residualNode (b : OrderBook) (order : NewLimitOrder) (remaining : Quantity) :
    Node RestingOrder where
  address := b.nextAddress
  value :=
    { id := order.id
      side := order.side
      limitPrice := order.limitPrice
      originalQuantity := order.quantity
      remainingQuantity := remaining
      arrivalSequence := b.nextArrivalSequence }

/-- The level that the residual joins. -/
def residualLevel (b : OrderBook) (s : BookSide) (order : NewLimitOrder) (remaining : Quantity) :
    PriceLevel where
  orders := (levelAt (b.levels s) order.limitPrice).orders ++ [b.residualNode order remaining]
  totalQuantity :=
    ⟨(levelAt (b.levels s) order.limitPrice).totalQuantity.units + remaining.units⟩

/-- Insert a residual and count its arrival. -/
def restOn (b : OrderBook) (s : BookSide) (order : NewLimitOrder) (remaining : Quantity) :
    OrderBook :=
  let b' := b.insertRestingOrder s order remaining b.nextArrivalSequence
  { b' with nextArrivalSequence := b'.nextArrivalSequence + 1 }

section RestOn

variable {b : OrderBook} {s : BookSide} {order : NewLimitOrder} {remaining : Quantity}

theorem restOn_eq (hid : order.id ∉ b.activeOrders) : b.restOn s order remaining =
    { b.setLevels s (putLevel (b.levels s) order.limitPrice
        (b.residualLevel s order remaining)) with
      activeOrders := b.activeOrders.insert order.id (b.residualNode order remaining).locator
      nextArrivalSequence := b.nextArrivalSequence + 1
      nextAddress := b.nextAddress + 1 } := by
  unfold restOn insertRestingOrder
  dsimp only
  rw [if_neg hid, OrderedMap.find?_tryEmplace, OrderedMap.insertOrAssign_tryEmplace,
    Option.getD_some, putLevel, OrderedMap.put, if_neg (by simp [residualLevel])]
  cases s <;> rfl

theorem notMem_activeOrders (hb : b.Linked) (hid : ∀ n ∈ b.nodes, n.value.id ≠ order.id) :
    order.id ∉ b.activeOrders := fun h => by
  obtain ⟨n, hn, heq⟩ := hb.indexes.isIndex.mem_iff.mp h
  exact hid n hn heq

theorem levelOk_residual (hb : b.Linked) (hsequence : b.nextArrivalSequence ≠ 0)
    (htotal : b.abs.levelTotal s order.limitPrice + remaining.toNat < 2 ^ 64) :
    LevelOk order.limitPrice (b.residualLevel s order remaining) where
  orders_ne_nil := by simp [residualLevel]
  limitPrice_eq := by
    intro n hn
    rcases List.mem_append.mp hn with hn | hn
    · exact hb.limitPrice_of_mem_levelAt hn
    · rw [List.mem_singleton.mp hn]
      rfl
  total_eq := by
    rw [hb.levelTotal_abs] at htotal
    rw [residualLevel, toNat_add_of_lt htotal, total_append, hb.total_levelAt]
    rfl
  arrivals := by
    refine List.pairwise_append.mpr ⟨hb.arrivals_levelAt, List.pairwise_singleton _ _, ?_⟩
    intro n hn n' hn'
    rw [List.mem_singleton.mp hn']
    exact hb.arrival_lt n (mem_nodes_of_mem_levelAt hn) hsequence

theorem restOn_linked (hb : b.Linked) (hid : ∀ n ∈ b.nodes, n.value.id ≠ order.id)
    (hsequence : b.nextArrivalSequence ≠ 0)
    (htotal : b.abs.levelTotal s order.limitPrice + remaining.toNat < 2 ^ 64) :
    (b.restOn s order remaining).Linked := by
  have hactive := notMem_activeOrders hb hid
  have hsucc (h : b.nextArrivalSequence + 1 ≠ 0) :
      (b.nextArrivalSequence + 1).toNat = b.nextArrivalSequence.toNat + 1 := by
    have hadd : (b.nextArrivalSequence + 1).toNat = (b.nextArrivalSequence.toNat + 1) % 2 ^ 64 :=
      UInt64.toNat_add ..
    have hne : (b.nextArrivalSequence + 1).toNat ≠ 0 := fun h0 => h (UInt64.toNat_inj.mp h0)
    have := b.nextArrivalSequence.toNat_lt
    omega
  have hnode {P : Node RestingOrder → Prop} (hold : ∀ n ∈ b.nodes, P n)
      (hnew : P (b.residualNode order remaining)) :
      ∀ n ∈ (b.residualLevel s order remaining).orders, P n := by
    intro n hn
    rcases List.mem_append.mp hn with hn | hn
    · exact hold n (mem_nodes_of_mem_levelAt hn)
    · rwa [List.mem_singleton.mp hn]
  rw [restOn_eq hactive]
  refine hb.of_putLevel s order.limitPrice (b.residualLevel s order remaining)
    (by cases s <;> rfl) (by cases s <;> rfl)
    (fun _ => levelOk_residual hb hsequence htotal) ?_ ?_ (Nat.le_succ _) ?_ ?_ ?_
  · have hindex := (hb.indexes.insert_head (n := b.residualNode order remaining)
      (fun m hm => (hb.address_lt m hm).ne) hid).perm
      ((b.nodes_perm_context s order.limitPrice).cons _)
    refine hindex.perm ?_
    rw [residualLevel, List.append_assoc, List.singleton_append]
    exact List.perm_middle.symm
  · exact hnode (fun n hn => (hb.address_lt n hn).trans (Nat.lt_succ_self _)) (Nat.lt_succ_self _)
  · exact hnode hb.arrival_pos (Nat.pos_of_ne_zero fun h0 => hsequence (UInt64.toNat_inj.mp h0))
  · refine hnode (fun n hn hne => ?_) fun hne => ?_
    · exact (hb.arrival_lt n hn hsequence).trans (by rw [hsucc hne]; exact Nat.lt_succ_self _)
    · rw [hsucc hne]
      exact Nat.lt_succ_self _
  · intro hne
    exact ⟨hsequence, by rw [hsucc hne]; exact Nat.le_succ _⟩

/-- Appending to the level of a price inserts behind every order that is at least as good. -/
theorem viewsOf_residual (hb : b.Linked) (s : BookSide) (order : NewLimitOrder)
    (remaining : Quantity) :
    viewsOf (putLevel (b.levels s) order.limitPrice (b.residualLevel s order remaining)) =
      PriorityBook.insertByPriority s (PriorityBook.residual order remaining)
        (viewsOf (b.levels s)) := by
  rw [viewsOf_putLevel, viewsOf_eq _ order.limitPrice,
    PriorityBook.insertByPriority_append (fun a ha => ?_) (fun a ha => ?_)]
  · simp only [residualLevel, List.map_append, List.append_assoc]
    rfl
  · rcases List.mem_append.mp ha with ha | ha
    · obtain ⟨n, hn, rfl⟩ := List.mem_map.mp ha
      exact asymm ((hb.bucketed s).lt_of_mem_flatBefore hn)
    · obtain ⟨n, hn, rfl⟩ := List.mem_map.mp ha
      rw [RestingOrder.view_limitPrice, hb.limitPrice_of_mem_levelAt hn]
      exact irrefl _
  · obtain ⟨n, hn, rfl⟩ := List.mem_map.mp ha
    exact (hb.bucketed s).lt_of_mem_flatAfter hn

theorem restOn_abs (hb : b.Linked) (hid : ∀ n ∈ b.nodes, n.value.id ≠ order.id)
    (hs : s = .ofSide order.side) :
    (b.restOn s order remaining).abs = b.abs.rested order remaining := by
  have hactive := notMem_activeOrders hb hid
  have hviews := viewsOf_residual hb s order remaining
  rw [restOn_eq hactive, PriorityBook.rested, ← hs]
  refine PriorityBook.ext_queue (fun t => ?_) ?_ ?_ ?_
  · rw [queue_abs]
    cases s <;> cases t <;> first | exact hviews | rfl
  all_goals cases s <;> rfl

end RestOn

/-! ### Submitting -/

section Submit

variable {b : OrderBook} {order : NewLimitOrder}

theorem restResidual_eq (m : Matching) (hside : order.side = .buy ∨ order.side = .sell) :
    restResidual order m = if 0 < m.remainingQuantity.units then
      m.book.restOn (.ofSide order.side) order m.remainingQuantity else m.book := by
  unfold restResidual
  rcases hside with h | h <;> rw [h] <;> rfl

/-- The book in which the identifier of an accepted order has been recorded. -/
theorem linked_insert_seen (hb : b.Linked) (id : OrderId) :
    ({ b with seenOrderIds := insert id b.seenOrderIds } : OrderBook).Linked where
  level_ok s := by
    cases s
    · exact hb.level_ok .bids
    · exact hb.level_ok .asks
  indexes := hb.indexes
  address_lt := hb.address_lt
  arrival_pos := hb.arrival_pos
  arrival_lt := hb.arrival_lt

/-- The two calls of `match` in `submit`, as one. -/
theorem matchLevels_of_side (b : OrderBook) (hside : order.side = .buy ∨ order.side = .sell) :
    (if order.side = .buy then
        b.matchLevels .asks order fun askPrice incomingPrice => askPrice ≤ incomingPrice
      else b.matchLevels .bids order fun bidPrice incomingPrice => bidPrice ≥ incomingPrice) =
      b.matchLevels (BookSide.ofSide order.side).other order
        (BookSide.ofSide order.side).other.crosses := by
  rw [crosses_asks, crosses_bids]
  rcases hside with h | h <;> rw [h] <;> rfl

/-- The matching part of `submit`. -/
theorem matched_spec (hb : b.Inv) (ha : b.abs.Acceptable order) :
    let b₁ : OrderBook := { b with seenOrderIds := insert order.id b.seenOrderIds }
    ∃ m : Matching, (if order.side = .buy then
          b₁.matchLevels .asks order fun askPrice incomingPrice => askPrice ≤ incomingPrice
        else b₁.matchLevels .bids order fun bidPrice incomingPrice => bidPrice ≥ incomingPrice) =
        .ok m ∧
      m.book.Linked ∧ m.remainingQuantity = (b.abs.fillFor order).remaining ∧
      m.trades = (b.abs.fillFor order).trades ∧
      m.book.abs = b.abs.matched order (b.abs.fillFor order) := by
  intro b₁
  have hpos : ∀ o ∈ b₁.abs.queue (BookSide.ofSide order.side).other,
      0 < o.remainingQuantity.toNat := by
    have := hb.wellFormed.remaining_pos (BookSide.ofSide order.side).other
    cases h : BookSide.ofSide order.side <;> rw [h] at this <;> exact this
  have hids := ha.idsAvailable
  rw [← PriorityBook.Progress.fill_start] at hids
  obtain ⟨m, hm, hinv, hdone⟩ := matchLevels_spec (linked_insert_seen hb.linked order.id) hpos hids
  have hmatched := PriorityBook.Progress.Done.matched (p := b.abs) hdone
  exact ⟨m, (matchLevels_of_side b₁ ha.side_valid).trans hm, hinv.linked, hmatched⟩

/-- What `submit` does with an accepted order: it matches, and rests what is left. -/
structure Accepted (b : OrderBook) (order : NewLimitOrder) (m : Matching) : Prop where
  matched : (if order.side = .buy then
      ({ b with seenOrderIds := insert order.id b.seenOrderIds } : OrderBook).matchLevels .asks
        order fun askPrice incomingPrice => askPrice ≤ incomingPrice
    else
      ({ b with seenOrderIds := insert order.id b.seenOrderIds } : OrderBook).matchLevels .bids
        order fun bidPrice incomingPrice => bidPrice ≥ incomingPrice) = .ok m
  linked : m.book.Linked
  remaining_eq : m.remainingQuantity = (b.abs.fillFor order).remaining
  trades_eq : m.trades = (b.abs.fillFor order).trades
  abs_eq : m.book.abs = b.abs.matched order (b.abs.fillFor order)

namespace Accepted

variable {m : Matching}

/-- The identifier of the order is new among the orders that matching leaves. -/
theorem id_ne (h : b.Accepted order m) (hb : b.Inv) (ha : b.abs.Acceptable order) :
    ∀ n ∈ m.book.nodes, n.value.id ≠ order.id := by
  intro n hn
  obtain ⟨s, hn⟩ := m.book.mem_nodes.mp hn
  refine hb.wellFormed.id_ne_of_mem_matched ha.id_notMem_seen s (o := n.value.view) ?_
  rw [← h.abs_eq, queue_abs]
  exact List.mem_map_of_mem hn

theorem nextArrivalSequence_eq (h : b.Accepted order m) :
    m.book.nextArrivalSequence = b.nextArrivalSequence := by
  change m.book.abs.nextArrivalSequence = _
  rw [h.abs_eq, PriorityBook.matched, PriorityBook.nextArrivalSequence_setQueue]
  rfl

/-- An accepted order leaves the book that the priority book prescribes. -/
theorem restResidual_refines (h : b.Accepted order m) (hb : b.Inv)
    (ha : b.abs.Acceptable order) : (restResidual order m).Inv ∧
      (restResidual order m).abs = b.abs.accept order (b.abs.fillFor order) := by
  have hrest : (restResidual order m).Linked ∧
      (restResidual order m).abs = b.abs.accept order (b.abs.fillFor order) := by
    rw [restResidual_eq m ha.side_valid, PriorityBook.accept, h.remaining_eq]
    split
    · next hpos =>
      refine ⟨restOn_linked h.linked (h.id_ne hb ha) ?_ ?_, ?_⟩
      · rw [h.nextArrivalSequence_eq]
        exact ha.sequence_ne_zero hpos
      · rw [h.abs_eq, PriorityBook.levelTotal, PriorityBook.queue_matched]
        exact ha.total_lt hpos
      · rw [restOn_abs h.linked (h.id_ne hb ha) rfl, h.abs_eq]
    · exact ⟨h.linked, h.abs_eq⟩
  exact ⟨⟨hrest.1, hrest.2 ▸ hb.wellFormed.accept ha⟩, hrest.2⟩

end Accepted

/-- An accepted order is matched, and what is left of it rests. -/
theorem submitPlanned_eq (hb : b.Inv) (ha : b.abs.Acceptable order) :
    ∃ m, b.Accepted order m ∧ b.submitPlanned order
        ⟨(b.abs.fillFor order).remaining, (b.abs.fillFor order).trades.length⟩ =
      .ok (PriorityBook.acceptResult order (b.abs.fillFor order), restResidual order m) := by
  obtain ⟨m, hmatched, hlinked, hremaining, htrades, habs⟩ := matched_spec hb ha
  have hm : b.Accepted order m := ⟨hmatched, hlinked, hremaining, htrades, habs⟩
  have hinv := (hm.restResidual_refines hb ha).1
  have hseen : order.id ∉ b.seenOrderIds := ha.id_notMem_seen
  refine ⟨m, hm, ?_⟩
  unfold submitPlanned
  rw [if_neg hseen]
  dsimp only at hmatched ⊢
  rw [hmatched]
  dsimp only
  rw [if_neg (by simp [hremaining, htrades]), if_neg (by simp [hinv.invariantsHold]), htrades]
  rfl

/-- `submit` rejects the order and leaves the book, or it accepts the order. -/
theorem submit_cases (hb : b.Inv) (order : NewLimitOrder) :
    (∃ reason, b.abs.rejection order = some reason ∧
      b.submit order = .ok (.rejected reason, b)) ∨
    ∃ m, b.abs.Acceptable order ∧ b.Accepted order m ∧ b.submit order =
      .ok (PriorityBook.acceptResult order (b.abs.fillFor order), restResidual order m) := by
  rw [submit_eq hb]
  cases hr : b.abs.rejection order with
  | some reason => exact Or.inl ⟨reason, rfl, rfl⟩
  | none =>
    have ha := PriorityBook.rejection_eq_none_iff.mp hr
    obtain ⟨m, hm, hplanned⟩ := submitPlanned_eq hb ha
    exact Or.inr ⟨m, ha, hm, hplanned⟩

/-- `submit` returns, keeps the invariant, and does what the priority book does. -/
theorem submit_refines (hb : b.Inv) (order : NewLimitOrder) :
    ∃ b', b.submit order = .ok ((b.abs.submit order).1, b') ∧ b'.Inv ∧
      b'.abs = (b.abs.submit order).2 := by
  rcases submit_cases hb order with ⟨reason, hr, hsubmit⟩ | ⟨m, ha, hm, hsubmit⟩
  · rw [PriorityBook.submit, hr]
    exact ⟨b, hsubmit, hb, rfl⟩
  · rw [PriorityBook.submit_of_acceptable ha]
    exact ⟨_, hsubmit, hm.restResidual_refines hb ha⟩

end Submit

/-! ### Cancelling -/

section Cancel

variable {b : OrderBook} {s : BookSide} {n : Node RestingOrder}

theorem deref_eq (hb : b.Linked) (hn : n ∈ b.nodes) : b.deref n.address = .ok n.value := by
  unfold deref
  rw [List.find?_key _ hb.indexes.addresses_nodup hn]

theorem find_abs (hb : b.Inv) (hn : n ∈ b.nodes) :
    b.abs.find n.value.id = some n.value.view := by
  refine hb.wellFormed.find_eq_some (o := n.value.view) ?_
  rw [orders_abs]
  exact List.mem_map_of_mem hn

theorem find_abs_eq_none (hb : b.Inv) {id : OrderId} (h : b.activeOrders.lookup id = none) :
    b.abs.find id = none := by
  unfold PriorityBook.find
  rw [List.find?_eq_none, orders_abs]
  simp only [List.forall_mem_map, decide_eq_true_iff]
  intro n hn heq
  have := Finmap.lookup_eq_none.mp h
  exact this (hb.linked.indexes.isIndex.mem_iff.mpr ⟨n, hn, heq⟩)

/-- Removing a node from the storage removes its order from the queues. -/
theorem abs_remove (hb : b.Inv) {ns₁ ns₂ : List (Node RestingOrder)} {b' : OrderBook}
    (total' : Quantity)
    (horders : (levelAt (b.levels s) n.value.limitPrice).orders = ns₁ ++ n :: ns₂)
    (hown : b'.levels s = putLevel (b.levels s) n.value.limitPrice ⟨ns₁ ++ ns₂, total'⟩)
    (hother : b'.levels s.other = b.levels s.other) (hseen : b'.seenOrderIds = b.seenOrderIds)
    (hsequence : b'.nextArrivalSequence = b.nextArrivalSequence)
    (htrade : b'.nextTradeId = b.nextTradeId) : b'.abs = b.abs.remove n.value.id := by
  have hqueue : b.abs.queue s =
      ((nodesBefore (b.levels s) n.value.limitPrice).map (fun n => n.value.view) ++
        ns₁.map fun n => n.value.view) ++ n.value.view ::
        (ns₂.map (fun n => n.value.view) ++
          (nodesAfter (b.levels s) n.value.limitPrice).map fun n => n.value.view) := by
    rw [queue_abs, viewsOf_eq _ n.value.limitPrice, horders]
    simp
  refine hb.wellFormed.eq_remove hqueue ?_ ?_ hseen hsequence htrade
  · rw [queue_abs, hown, viewsOf_putLevel]
    simp
  · rw [queue_abs, queue_abs, hother]

/-- The level of an order without the order. -/
def withoutNode (level : PriceLevel) (ns : List (Node RestingOrder)) (n : Node RestingOrder) :
    PriceLevel :=
  ⟨ns, ⟨level.totalQuantity.units - n.value.remainingQuantity.units⟩⟩

/-- The book without one of its orders. -/
def without (b : OrderBook) (s : BookSide) (ns : List (Node RestingOrder))
    (n : Node RestingOrder) : OrderBook :=
  { b.setLevels s (putLevel (b.levels s) n.value.limitPrice
      (withoutNode (levelAt (b.levels s) n.value.limitPrice) ns n)) with
    activeOrders := b.activeOrders.erase n.value.id }

section Without

variable {ns₁ ns₂ : List (Node RestingOrder)}

/-- The level of an order exists, and its total is that of the order and of the others. -/
theorem Linked.level_of_mem (hb : b.Linked)
    (horders : (levelAt (b.levels s) n.value.limitPrice).orders = ns₁ ++ n :: ns₂) :
    (b.levels s).find? n.value.limitPrice = some (levelAt (b.levels s) n.value.limitPrice) ∧
      LevelOk n.value.limitPrice (levelAt (b.levels s) n.value.limitPrice) ∧
      (levelAt (b.levels s) n.value.limitPrice).totalQuantity.toNat =
        n.value.remainingQuantity.toNat + total (ns₁ ++ ns₂) := by
  rcases hb.levelAt_cases s n.value.limitPrice with ⟨hnew, -⟩ | ⟨hfind, hok⟩
  · simp [hnew, PriceLevel.new] at horders
  · refine ⟨hfind, hok, ?_⟩
    rw [hok.total_eq, horders, total_append, total_append, total_cons]
    omega

/-- Cancelling a resting order on its side of the book. -/
theorem cancelRestingOrder_eq (hb : b.Inv)
    (horders : (levelAt (b.levels s) n.value.limitPrice).orders = ns₁ ++ n :: ns₂) :
    b.cancelRestingOrder s n.locator n.value.id = .ok (n.value.remainingQuantity,
      b.setLevels s (putLevel (b.levels s) n.value.limitPrice
        (withoutNode (levelAt (b.levels s) n.value.limitPrice) (ns₁ ++ ns₂) n))) := by
  obtain ⟨hfind, -, htotal⟩ := hb.linked.level_of_mem horders
  have hat : n ∈ (levelAt (b.levels s) n.value.limitPrice).orders := horders ▸ by simp
  have hnode : n ∈ b.nodes := mem_nodes_of_mem_levelAt hat
  have haddresses := (hb.linked.indexes.perm (b.nodes_perm_context s
    n.value.limitPrice)).addresses_nodup
  have hpos : 0 < n.value.remainingQuantity.toNat := by
    obtain ⟨t, ht⟩ := b.mem_nodes.mp hnode
    exact hb.wellFormed.remaining_pos t n.value.view
      (by rw [queue_abs]; exact List.mem_map_of_mem ht)
  have hle : n.value.remainingQuantity.units ≤
      (levelAt (b.levels s) n.value.limitPrice).totalQuantity.units := by
    rw [Quantity.units_le_iff]
    omega
  have herase : (levelAt (b.levels s) n.value.limitPrice).orders.eraseP
      (fun m => m.address = n.address) = ns₁ ++ ns₂ := by
    rw [List.map_append, List.nodup_append] at haddresses
    rw [horders] at haddresses ⊢
    exact List.eraseP_key (fun m : Node RestingOrder => m.address) haddresses.1
  unfold cancelRestingOrder Node.locator
  dsimp only
  rw [hfind, deref_eq hb.linked hnode]
  dsimp only
  rw [if_neg, if_neg, herase]
  · rfl
  · simpa using ⟨n, hat, rfl⟩
  · simp only [ne_eq, not_true_eq_false, false_or, not_or, Quantity.units_eq_zero_iff,
      UInt64.not_lt]
    exact ⟨by omega, hle⟩

theorem without_linked (hb : b.Linked)
    (horders : (levelAt (b.levels s) n.value.limitPrice).orders = ns₁ ++ n :: ns₂) :
    (b.without s (ns₁ ++ ns₂) n).Linked := by
  obtain ⟨-, hok, htotal⟩ := hb.level_of_mem horders
  have hindex := hb.indexes.perm (b.nodes_perm_context s n.value.limitPrice)
  have hle : n.value.remainingQuantity.units ≤
      (levelAt (b.levels s) n.value.limitPrice).totalQuantity.units := by
    rw [Quantity.units_le_iff]
    omega
  have hsub : (ns₁ ++ ns₂).Sublist (levelAt (b.levels s) n.value.limitPrice).orders := by
    rw [horders]
    exact (List.sublist_cons_self _ _).append_left _
  refine hb.of_putLevel_same s n.value.limitPrice
    (withoutNode (levelAt (b.levels s) n.value.limitPrice) (ns₁ ++ ns₂) n)
    (by cases s <;> rfl) (by cases s <;> rfl) (by cases s <;> rfl) (by cases s <;> rfl)
    (fun hne => ⟨hne, fun m hm => hok.limitPrice_eq m (hsub.subset hm), ?_,
      hok.arrivals.sublist hsub⟩) ?_
    fun m hm => ⟨m, mem_nodes_of_mem_levelAt (hsub.subset hm), rfl, rfl⟩
  · rw [withoutNode, Quantity.toNat_sub hle, htotal]
    exact Nat.add_sub_cancel_left _ _
  · rw [horders, List.append_assoc, List.cons_append] at hindex
    refine (hindex.perm List.perm_middle).erase_head.perm ?_
    rw [withoutNode, List.append_assoc]

theorem without_inv (hb : b.Inv)
    (horders : (levelAt (b.levels s) n.value.limitPrice).orders = ns₁ ++ n :: ns₂) :
    (b.without s (ns₁ ++ ns₂) n).Inv ∧
      (b.without s (ns₁ ++ ns₂) n).abs = b.abs.remove n.value.id := by
  have habs : (b.without s (ns₁ ++ ns₂) n).abs = b.abs.remove n.value.id :=
    abs_remove hb (withoutNode (levelAt (b.levels s) n.value.limitPrice) (ns₁ ++ ns₂)
        n).totalQuantity horders
      (by cases s <;> rfl) (by cases s <;> rfl) (by cases s <;> rfl) (by cases s <;> rfl)
      (by cases s <;> rfl)
  exact ⟨⟨without_linked hb.linked horders, habs ▸ hb.wellFormed.remove n.value.id⟩, habs⟩

/-- Cancelling an active order takes exactly this order out of the book. -/
theorem cancel_eq (hb : b.Inv) (hs : n ∈ nodesOf (b.levels s))
    (horders : (levelAt (b.levels s) n.value.limitPrice).orders = ns₁ ++ n :: ns₂) :
    b.cancel n.value.id =
      .ok (⟨.cancelled, n.value.remainingQuantity⟩, b.without s (ns₁ ++ ns₂) n) := by
  have hlookup : b.activeOrders.lookup n.value.id = some n.locator :=
    (hb.linked.indexes.isIndex.lookup_iff _ _).mpr ⟨n, b.mem_nodes.mpr ⟨s, hs⟩, rfl, rfl⟩
  have hside : n.value.side = s.side := hb.wellFormed.side_eq s n.value.view
    (by rw [queue_abs]; exact List.mem_map_of_mem hs)
  have hremoved : (if n.locator.side = .buy then b.cancelRestingOrder .bids n.locator n.value.id
      else b.cancelRestingOrder .asks n.locator n.value.id) = .ok (n.value.remainingQuantity,
        b.setLevels s (putLevel (b.levels s) n.value.limitPrice
          (withoutNode (levelAt (b.levels s) n.value.limitPrice) (ns₁ ++ ns₂) n))) := by
    rw [← cancelRestingOrder_eq hb horders, Node.locator, hside]
    cases s <;> rfl
  have hwithout : ({ b.setLevels s (putLevel (b.levels s) n.value.limitPrice
      (withoutNode (levelAt (b.levels s) n.value.limitPrice) (ns₁ ++ ns₂) n)) with
    activeOrders := (b.setLevels s (putLevel (b.levels s) n.value.limitPrice
      (withoutNode (levelAt (b.levels s) n.value.limitPrice)
        (ns₁ ++ ns₂) n))).activeOrders.erase n.value.id } : OrderBook) =
      b.without s (ns₁ ++ ns₂) n := by
    rw [activeOrders_setLevels]
    rfl
  rw [cancel, hlookup]
  dsimp only
  rw [hremoved]
  dsimp only
  rw [hwithout]
  exact if_neg (by simp [(without_inv hb horders).1.invariantsHold])

end Without

/-- `cancel` returns, keeps the invariant, and does what the priority book does. -/
theorem cancel_refines (hb : b.Inv) (id : OrderId) :
    ∃ b', b.cancel id = .ok ((b.abs.cancel id).1, b') ∧ b'.Inv ∧ b'.abs = (b.abs.cancel id).2 := by
  unfold PriorityBook.cancel
  cases hl : b.activeOrders.lookup id with
  | none =>
    rw [find_abs_eq_none hb hl, cancel, hl]
    exact ⟨b, rfl, hb, rfl⟩
  | some locator =>
    obtain ⟨n, hn, rfl, rfl⟩ := (hb.linked.indexes.isIndex.lookup_iff id locator).mp hl
    obtain ⟨s, hs⟩ := b.mem_nodes.mp hn
    obtain ⟨ns₁, ns₂, horders⟩ := List.append_of_mem (hb.linked.mem_levelAt hs)
    rw [find_abs hb hn, cancel_eq hb hs horders]
    exact ⟨_, rfl, without_inv hb horders⟩

end Cancel

/-! ### Sequences of commands -/

theorem applyCommand_refines {b : OrderBook} (hb : b.Inv) (command : JournalCommand) :
    ∃ b', b.applyCommand command = .ok ((b.abs.apply command).1, b') ∧ b'.Inv ∧
      b'.abs = (b.abs.apply command).2 := by
  cases command with
  | submitLimitOrder order =>
    obtain ⟨b', h, hinv, habs⟩ := submit_refines hb order
    exact ⟨b', by rw [applyCommand, h]; rfl, hinv, habs⟩
  | cancelOrder id =>
    obtain ⟨b', h, hinv, habs⟩ := cancel_refines hb id
    exact ⟨b', by rw [applyCommand, h]; rfl, hinv, habs⟩

/-- Every sequence of calls returns, and its results are those of the priority book. -/
theorem run_refines {b : OrderBook} (hb : b.Inv) (commands : List JournalCommand) :
    ∃ b', b.run commands = .ok ((b.abs.run commands).1, b') ∧ b'.Inv ∧
      b'.abs = (b.abs.run commands).2 :=
  tryRunAll_simulates (fun _ command h => applyCommand_refines h command) hb commands

/-! ### Queries -/

theorem find_eq {b : OrderBook} (hb : b.Inv) (id : OrderId) :
    b.find id = .ok (b.abs.find id) := by
  unfold find
  cases hl : b.activeOrders.lookup id with
  | none => rw [find_abs_eq_none hb hl]
  | some locator =>
    obtain ⟨n, hn, rfl, rfl⟩ := (hb.linked.indexes.isIndex.lookup_iff id locator).mp hl
    dsimp only
    rw [find_abs hb hn, Node.locator, deref_eq hb.linked hn]
    rfl

theorem activeOrderCount_eq {b : OrderBook} (hb : b.Inv) :
    b.activeOrderCount = b.abs.orders.length := by
  rw [activeOrderCount, hb.linked.indexes.isIndex.card_keys, orders_abs, List.length_map]

end OrderBook

end MatchingEngine
