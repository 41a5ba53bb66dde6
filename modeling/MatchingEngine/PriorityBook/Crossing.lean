import MatchingEngine.PriorityBook.Counting

/-!
# The orders that an incoming order meets

An incoming order can only trade with those orders of the opposite side whose price crosses its own.
They stand at the head of the queue, the fill goes through them one after the other, and it never
looks behind them. This says what each single trade is, and it says when an order is accepted: an
order that meets another one has no level of its own side to join, so only an order that meets
nothing can be too much for its level.

## Main definitions

* `PriorityBook.crossing`, `PriorityBook.clear`: the two parts of the opposite queue.
* `PriorityBook.GreedyFill`: the trades of an incoming order, one by one.

## Main results

* `PriorityBook.WellFormed.fillFor_eq`: a fill only concerns the crossing orders.
* `PriorityBook.WellFormed.greedyFill`: the trades of an order are greedy.
* `PriorityBook.WellFormed.acceptable_iff`: which orders are accepted.
-/

namespace MatchingEngine

/-- The quantity of some trades, without wrap-around. -/
def Trade.total (trades : List Trade) : ℕ := (trades.map fun t => t.executionQuantity.toNat).sum

@[simp] theorem Trade.total_nil : total [] = 0 := rfl

@[simp] theorem Trade.total_cons (t : Trade) (trades : List Trade) :
    total (t :: trades) = t.executionQuantity.toNat + total trades := by
  simp [total]

namespace PriorityBook

/-! ### Filling from crossing orders -/

section Fill

variable {crosses : Price → Bool} {taker : OrderId} {next : UInt64} {quantity : Quantity}
  {q : List OrderView}

theorem fill_of_clear (h : ∀ o ∈ q, ¬ crosses o.limitPrice) :
    fill crosses taker next quantity q = ⟨[], quantity, q⟩ := by
  cases q with
  | nil => rfl
  | cons o q => exact fill_cons_of_stop (Or.inr (h o List.mem_cons_self))

/-- What is traded and what is left is what came in. -/
theorem total_trades_fill : Trade.total (fill crosses taker next quantity q).trades +
    (fill crosses taker next quantity q).remaining.toNat = quantity.toNat := by
  induction q generalizing next quantity with
  | nil => simp [fill]
  | cons maker makers ih =>
    by_cases hstop : quantity.units = 0 ∨ ¬ crosses maker.limitPrice
    · rw [fill_cons_of_stop hstop]
      simp
    by_cases hle : maker.remainingQuantity.units ≤ quantity.units
    · have hrest := @ih (next + 1) ⟨quantity.units - maker.remainingQuantity.units⟩
      have hle' := Quantity.units_le_iff.mp hle
      rw [Quantity.toNat_sub hle] at hrest
      rw [fill_cons_of_le hstop hle]
      dsimp only
      rw [Trade.total_cons]
      dsimp only
      omega
    · rw [fill_cons_of_not_le hstop hle]
      simp

/-- A fill from crossing orders ends when the quantity or the orders have run out. -/
theorem fill_exhausted (hq : ∀ o ∈ q, crosses o.limitPrice) :
    (fill crosses taker next quantity q).trades.length = q.length ∨
      (fill crosses taker next quantity q).remaining.toNat = 0 := by
  generalize hf : fill crosses taker next quantity q = f
  cases hf ▸ fill_filling crosses taker next quantity q with
  | stop filled rest remaining hcross hquantity hend =>
    rcases hend with hzero | hhead
    · exact Or.inr (Quantity.units_eq_zero_iff.mp hzero)
    · cases rest with
      | nil => exact Or.inl (by simp)
      | cons o rest =>
        exact absurd (hq o (List.mem_append_right _ List.mem_cons_self)) (hhead o rfl)
  | part => exact Or.inr rfl

/-- The trade at one place of a fill from crossing orders. -/
theorem trade_of_fill (hq : ∀ o ∈ q, crosses o.limitPrice) {k : ℕ} {t : Trade}
    (ht : (fill crosses taker next quantity q).trades[k]? = some t) :
    ∃ maker, q[k]? = some maker ∧ t.makerOrderId = maker.id ∧ t.takerOrderId = taker ∧
      t.executionPrice = maker.limitPrice ∧
      t.executionQuantity.toNat =
        min (quantity.toNat -
            Trade.total ((fill crosses taker next quantity q).trades.take k))
          maker.remainingQuantity.toNat ∧
      (k + 1 < (fill crosses taker next quantity q).trades.length →
        t.executionQuantity = maker.remainingQuantity) := by
  induction q generalizing next quantity k with
  | nil => cases ht
  | cons maker makers ih =>
    obtain ⟨hmaker, hmakers⟩ := List.forall_mem_cons.mp hq
    by_cases hzero : quantity.units = 0
    · rw [fill_of_zero hzero] at ht
      cases ht
    have hgo : ¬ (quantity.units = 0 ∨ ¬ crosses maker.limitPrice) := by simp [hzero, hmaker]
    by_cases hle : maker.remainingQuantity.units ≤ quantity.units
    · have hle' := Quantity.units_le_iff.mp hle
      rw [fill_cons_of_le hgo hle] at ht ⊢
      dsimp only at ht ⊢
      cases k with
      | zero =>
        obtain rfl := Option.some.inj ht
        refine ⟨maker, rfl, rfl, rfl, rfl, ?_, fun _ => rfl⟩
        rw [List.take_zero, Trade.total_nil, Nat.sub_zero, min_eq_right hle']
      | succ k =>
        rw [List.getElem?_cons_succ] at ht
        obtain ⟨maker', hget, hid, htaker, hprice, hquantity, hfull⟩ := ih hmakers ht
        refine ⟨maker', hget, hid, htaker, hprice, ?_, fun hlt => hfull (by simpa using hlt)⟩
        rw [hquantity, Quantity.toNat_sub hle, List.take_succ_cons, Trade.total_cons, Nat.sub_sub]
    · have hlt := Nat.lt_of_not_le (mt Quantity.units_le_iff.mpr hle)
      rw [fill_cons_of_not_le hgo hle] at ht ⊢
      cases k with
      | zero =>
        obtain rfl := Option.some.inj ht
        refine ⟨maker, rfl, rfl, rfl, rfl, ?_, fun hlast => absurd hlast (by simp)⟩
        rw [List.take_zero, Trade.total_nil, Nat.sub_zero, min_eq_left hlt.le]
      | succ k => cases ht

/-- What a fill leaves of a maker. -/
theorem rest_of_fill (hq : ∀ o ∈ q, crosses o.limitPrice) (hnodup : (q.map fun o => o.id).Nodup)
    {k : ℕ} {t : Trade} {maker : OrderView}
    (ht : (fill crosses taker next quantity q).trades[k]? = some t) (hk : q[k]? = some maker) :
    if t.executionQuantity = maker.remainingQuantity then
      ∀ o ∈ (fill crosses taker next quantity q).rest, o.id ≠ maker.id
    else
      { maker with remainingQuantity :=
          ⟨maker.remainingQuantity.units - t.executionQuantity.units⟩ } ∈
        (fill crosses taker next quantity q).rest := by
  induction q generalizing next quantity k with
  | nil => cases ht
  | cons first makers ih =>
    obtain ⟨hfirst, hmakers⟩ := List.forall_mem_cons.mp hq
    obtain ⟨hnew, hnodup'⟩ := List.nodup_cons.mp (List.map_cons ▸ hnodup)
    by_cases hzero : quantity.units = 0
    · rw [fill_of_zero hzero] at ht
      cases ht
    have hgo : ¬ (quantity.units = 0 ∨ ¬ crosses first.limitPrice) := by simp [hzero, hfirst]
    by_cases hle : first.remainingQuantity.units ≤ quantity.units
    · rw [fill_cons_of_le hgo hle] at ht ⊢
      dsimp only at ht ⊢
      cases k with
      | zero =>
        obtain rfl := Option.some.inj ht
        obtain rfl := Option.some.inj hk
        rw [if_pos rfl]
        -- the others come from behind the maker
        rintro o ho heq
        obtain ⟨o', ho', hr⟩ := (fill_filling ..).shrinks.exists_reduced ho
        exact hnew (List.mem_map.mpr ⟨o', ho', hr.id_eq.symm.trans heq⟩)
      | succ k =>
        rw [List.getElem?_cons_succ] at ht hk
        exact ih hmakers hnodup' ht hk
    · rw [fill_cons_of_not_le hgo hle] at ht ⊢
      cases k with
      | zero =>
        obtain rfl := Option.some.inj ht
        obtain rfl := Option.some.inj hk
        rw [if_neg fun heq => hle (by rw [← heq]; exact UInt64.le_refl _)]
        exact List.mem_cons_self
      | succ k => cases ht

end Fill

/-! ### The crossing orders -/

section Crossing

variable (p : PriorityBook) (order : NewLimitOrder)

/-- The orders that an incoming order can trade with, in the order in which they are matched. -/
def crossing : List OrderView :=
  (p.queue (BookSide.ofSide order.side).other).filter fun o =>
    (BookSide.ofSide order.side).other.crosses o.limitPrice order.limitPrice

/-- The orders of the opposite side that an incoming order cannot trade with. -/
def clear : List OrderView :=
  (p.queue (BookSide.ofSide order.side).other).filter fun o =>
    ¬ (BookSide.ofSide order.side).other.crosses o.limitPrice order.limitPrice

variable {p} {order}

theorem mem_crossing {o : OrderView} : o ∈ p.crossing order ↔
    o ∈ p.queue (BookSide.ofSide order.side).other ∧
      (BookSide.ofSide order.side).other.crosses o.limitPrice order.limitPrice = true :=
  List.mem_filter

theorem crosses_of_mem_crossing : ∀ o ∈ p.crossing order,
    (BookSide.ofSide order.side).other.crosses o.limitPrice order.limitPrice = true :=
  fun _ ho => (mem_crossing.mp ho).2

/-- The crossing orders are at the head of the queue. -/
theorem WellFormed.queue_eq (hp : p.WellFormed) :
    p.queue (BookSide.ofSide order.side).other = p.crossing order ++ p.clear order := by
  refine List.eq_filter_append_filter_not
    ((hp.sorted (BookSide.ofSide order.side).other).imp fun hab hb => ?_)
  rw [BookSide.crosses, decide_eq_true_iff] at hb ⊢
  intro ha
  rcases trichotomous_of (BookSide.ofSide order.side).other.lt order.limitPrice _ with h | h | h
  · exact hb h
  · exact hab (h ▸ ha)
  · exact hab (IsTrans.trans _ _ _ h ha)

/-- A fill goes through the crossing orders and leaves the others. -/
theorem WellFormed.fillFor_eq (hp : p.WellFormed) :
    p.fillFor order =
      let f := fill
        (fun price => (BookSide.ofSide order.side).other.crosses price order.limitPrice)
        order.id p.nextTradeId order.quantity (p.crossing order)
      ⟨f.trades, f.remaining, f.rest ++ p.clear order⟩ := by
  have hclear (next : UInt64) (quantity : Quantity) : fill
      (fun price => (BookSide.ofSide order.side).other.crosses price order.limitPrice)
      order.id next quantity (p.clear order) = ⟨[], quantity, p.clear order⟩ :=
    fill_of_clear fun o ho => of_decide_eq_true (List.mem_filter.mp ho).2
  rw [fillFor, hp.queue_eq, fill_append crosses_of_mem_crossing]
  simp only [hclear, List.append_nil]

/-- An order that meets nothing comes in as it is. -/
theorem fillFor_of_crossing_nil (h : p.crossing order = []) :
    p.fillFor order = ⟨[], order.quantity, p.queue (BookSide.ofSide order.side).other⟩ :=
  fill_of_clear fun o ho hcross => List.filter_eq_nil_iff.mp h o ho hcross

/-- An order that meets another one has no level of its own side to join. -/
theorem WellFormed.levelTotal_of_crossing (hp : p.WellFormed) (h : p.crossing order ≠ []) :
    p.levelTotal (.ofSide order.side) order.limitPrice = 0 := by
  obtain ⟨o', ho'⟩ := List.exists_mem_of_ne_nil _ h
  obtain ⟨ho', hcross⟩ := mem_crossing.mp ho'
  rw [levelTotal, List.filter_eq_nil_iff.mpr]
  · rfl
  · intro o ho heq
    have huncrossed := hp.uncrossed _ o ho o' ho'
    rw [of_decide_eq_true heq, ← BookSide.lt_other] at huncrossed
    exact of_decide_eq_true hcross huncrossed

end Crossing

/-! ### Trades, one by one -/

/-- The trades of an incoming order are the greedy fill of the given makers: the trades take the
makers in turn, each at the price of its maker and for as much as both have left, so that all but
the last one fill their makers, and they end when the incoming quantity or the makers are used
up. -/
structure GreedyFill (order : NewLimitOrder) (makers : List OrderView) (trades : List Trade) :
    Prop where
  trade_eq : ∀ k t, trades[k]? = some t → ∃ maker, makers[k]? = some maker ∧
    t.makerOrderId = maker.id ∧ t.takerOrderId = order.id ∧
    t.executionPrice = maker.limitPrice ∧
    t.executionQuantity.toNat =
      min (order.quantity.toNat - Trade.total (trades.take k)) maker.remainingQuantity.toNat ∧
    0 < t.executionQuantity.toNat ∧
    (k + 1 < trades.length → t.executionQuantity = maker.remainingQuantity)
  total_le : Trade.total trades ≤ order.quantity.toNat
  exhausted : trades.length = makers.length ∨ Trade.total trades = order.quantity.toNat

section Greedy

variable {p : PriorityBook} {order : NewLimitOrder}

/-- The trades of an order are the greedy fill of the orders that it meets. -/
theorem WellFormed.greedyFill (hp : p.WellFormed) :
    GreedyFill order (p.crossing order) (p.fillFor order).trades := by
  have hpos : ∀ t ∈ (p.fillFor order).trades, 0 < t.executionQuantity.toNat :=
    (fill_filling ..).trade_pos (hp.remaining_pos _)
  rw [hp.fillFor_eq] at hpos ⊢
  dsimp only at hpos ⊢
  have htotal := @total_trades_fill
    (fun price => (BookSide.ofSide order.side).other.crosses price order.limitPrice)
    order.id p.nextTradeId order.quantity (p.crossing order)
  refine ⟨fun k t ht => ?_, by omega, ?_⟩
  · obtain ⟨maker, hk, hid, htaker, hprice, hquantity, hfull⟩ :=
      trade_of_fill crosses_of_mem_crossing ht
    exact ⟨maker, hk, hid, htaker, hprice, hquantity, hpos t (List.mem_of_getElem? ht), hfull⟩
  · refine (fill_exhausted crosses_of_mem_crossing).imp_right fun hzero => ?_
    rw [hzero] at htotal
    exact htotal

/-- What is executed of an accepted order and what rests of it is all of it. -/
theorem acceptResult_total (p : PriorityBook) (order : NewLimitOrder) :
    (acceptResult order (p.fillFor order)).executedQuantity.toNat +
        (acceptResult order (p.fillFor order)).restingQuantity.toNat = order.quantity.toNat := by
  have htotal : Trade.total (p.fillFor order).trades + (p.fillFor order).remaining.toNat =
      order.quantity.toNat := total_trades_fill
  have hle : (p.fillFor order).remaining.units ≤ order.quantity.units :=
    Quantity.units_le_iff.mpr (by omega)
  have hexecuted := Quantity.toNat_sub hle
  simp only [acceptResult]
  omega

/-- The quantities that are reported for an accepted order. -/
theorem acceptResult_quantities (p : PriorityBook) (order : NewLimitOrder) :
    (acceptResult order (p.fillFor order)).executedQuantity.toNat =
        Trade.total (p.fillFor order).trades ∧
      (acceptResult order (p.fillFor order)).restingQuantity.toNat =
        order.quantity.toNat - Trade.total (p.fillFor order).trades := by
  have htotal : Trade.total (p.fillFor order).trades +
      (acceptResult order (p.fillFor order)).restingQuantity.toNat = order.quantity.toNat :=
    total_trades_fill
  have hall := p.acceptResult_total order
  omega

/-- The orders of the book after an accepted order. -/
theorem mem_orders_accept {f : Fill} {o : OrderView} : o ∈ (p.accept order f).orders ↔
    (0 < f.remaining.units ∧ o = residual order f.remaining) ∨
      o ∈ p.queue (.ofSide order.side) ∨ o ∈ f.rest := by
  have hmatched : o ∈ (p.matched order f).orders ↔
      o ∈ p.queue (.ofSide order.side) ∨ o ∈ f.rest := by
    rw [((p.matched order f).orders_perm (.ofSide order.side)).mem_iff, List.mem_append,
      queue_matched, queue_matched_other]
  by_cases hrem : 0 < f.remaining.units
  · rw [accept, if_pos hrem, (orders_rested_perm order f.remaining).mem_iff, List.mem_cons,
      hmatched]
    simp [hrem]
  · rw [accept, if_neg hrem, hmatched]
    simp [hrem]

/-- A maker that is filled leaves the book, and one that is partly filled keeps the rest. -/
theorem WellFormed.find_accept_maker (hp : p.WellFormed) (ha : p.Acceptable order) {k : ℕ}
    {t : Trade} {maker : OrderView} (ht : (p.fillFor order).trades[k]? = some t)
    (hk : (p.crossing order)[k]? = some maker) :
    (p.accept order (p.fillFor order)).find maker.id =
      if t.executionQuantity = maker.remainingQuantity then none
      else some { maker with remainingQuantity :=
        ⟨maker.remainingQuantity.units - t.executionQuantity.units⟩ } := by
  have hmaker := List.mem_of_getElem? hk
  have hqueue : maker ∈ p.queue (BookSide.ofSide order.side).other := (mem_crossing.mp hmaker).1
  have hids := ((p.orders_perm (.ofSide order.side)).map fun o => o.id).nodup_iff.mp hp.ids_nodup
  rw [List.map_append, hp.queue_eq, List.map_append, List.nodup_append, List.nodup_append] at hids
  obtain ⟨-, ⟨hcrossing, -, hclear⟩, hown⟩ := hids
  have hmakerId : maker.id ∈ (p.crossing order).map fun o => o.id := List.mem_map_of_mem hmaker
  rw [hp.fillFor_eq] at ht
  have hrest := rest_of_fill crosses_of_mem_crossing hcrossing ht hk
  by_cases hfull : t.executionQuantity = maker.remainingQuantity
  · rw [if_pos hfull] at hrest ⊢
    refine List.find?_eq_none.mpr fun o ho heq => ?_
    replace heq : o.id = maker.id := of_decide_eq_true heq
    rw [hp.fillFor_eq] at ho
    rcases mem_orders_accept.mp ho with ⟨-, rfl⟩ | ho | ho
    · replace heq : order.id = maker.id := heq
      exact ha.id_notMem_seen (heq ▸ hp.ids_seen _ maker hqueue)
    · exact hown _ (List.mem_map_of_mem ho) _ (List.mem_append_left _ hmakerId) heq
    · rcases List.mem_append.mp ho with ho | ho
      · exact hrest o ho heq
      · exact hclear _ hmakerId _ (List.mem_map_of_mem ho) heq.symm
  · rw [if_neg hfull] at hrest ⊢
    have hmem : { maker with remainingQuantity :=
        ⟨maker.remainingQuantity.units - t.executionQuantity.units⟩ } ∈
        (p.accept order (p.fillFor order)).orders := by
      refine mem_orders_accept.mpr (Or.inr (Or.inr ?_))
      rw [hp.fillFor_eq]
      exact List.mem_append_left _ hrest
    exact (hp.accept ha).find_eq_some hmem

end Greedy

/-! ### Which orders are accepted -/

section Acceptance

variable {p : PriorityBook} {order : NewLimitOrder}

/-- What is left of an order fits into its level, unless the order meets nothing and is itself too
much. -/
theorem WellFormed.total_lt_iff (hp : p.WellFormed) (hquantity : order.quantity.units ≠ 0) :
    (0 < (p.fillFor order).remaining.units →
      p.levelTotal (.ofSide order.side) order.limitPrice +
        (p.fillFor order).remaining.toNat < 2 ^ 64) ↔
      ¬ (p.crossing order = [] ∧
        2 ^ 64 ≤ p.levelTotal (.ofSide order.side) order.limitPrice + order.quantity.toNat) := by
  by_cases hcross : p.crossing order = []
  · have hpos : 0 < order.quantity.units := Quantity.units_pos_iff.mpr
      (Nat.pos_of_ne_zero (mt Quantity.units_eq_zero_iff.mpr hquantity))
    rw [fillFor_of_crossing_nil hcross]
    simp [hcross, hpos]
  · have hlt := (p.fillFor order).remaining.toNat_lt
    rw [hp.levelTotal_of_crossing hcross, Nat.zero_add]
    exact ⟨fun _ h => hcross h.1, fun _ _ => hlt⟩

/-- The orders that are accepted while the counters last. -/
theorem WellFormed.acceptable_iff (hp : p.WellFormed)
    (hids : IdsAvailable p.nextTradeId (p.fillFor order).trades.length)
    (hsequence : order.id.value ≠ 0 → order.id ∉ p.seenOrderIds → p.nextArrivalSequence ≠ 0) :
    p.Acceptable order ↔ order.id.value ≠ 0 ∧ (order.side = .buy ∨ order.side = .sell) ∧
      order.limitPrice.ticks ≠ 0 ∧ order.quantity.units ≠ 0 ∧ order.id ∉ p.seenOrderIds ∧
      ¬ (p.crossing order = [] ∧
        2 ^ 64 ≤ p.levelTotal (.ofSide order.side) order.limitPrice + order.quantity.toNat) := by
  constructor
  · intro h
    exact ⟨h.id_ne_zero, h.side_valid, h.price_ne_zero, h.quantity_ne_zero, h.id_notMem_seen,
      (hp.total_lt_iff h.quantity_ne_zero).mp h.total_lt⟩
  · rintro ⟨hid, hside, hprice, hquantity, hseen, htotal⟩
    exact ⟨hid, hside, hprice, hquantity, hseen, hids, fun _ => hsequence hid hseen,
      (hp.total_lt_iff hquantity).mpr htotal⟩

/-- An order that meets another one is never too much for its level. -/
theorem WellFormed.not_overflow_of_crossing (hp : p.WellFormed) (h : p.crossing order ≠ []) :
    p.rejection order ≠ some .quantityOverflow := by
  have hlt := (p.fillFor order).remaining.toNat_lt
  intro hreason
  unfold rejection at hreason
  split_ifs at hreason with h1 h2 h3 h4 h5 h6 h7 hoverflow <;> cases hreason
  rw [hp.levelTotal_of_crossing h] at hoverflow
  omega

end Acceptance

end PriorityBook

end MatchingEngine
