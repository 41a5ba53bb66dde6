import MatchingEngine.OrderBook.Refinement
import MatchingEngine.PriorityBook.Crossing

/-!
# Matching goes as planned

`submit` decides by the plan of `preview_match` whether it accepts an order, and reports the
quantities of the plan; `match` then changes the book, order after order. Whatever book satisfies
the representation invariant, the two agree: no iteration of `match` stops the program or subtracts
more than there is, and it leaves the quantity and makes as many trades as were planned.

The representation invariant is what `invariants_hold` checks. It says less than `OrderBook.Inv`,
which also knows how a book has come about, but all that matching relies on.

## Main definitions

* `OrderBook.Iterates`: the states that the loop of `match` goes through.
* `OrderBook.Executable`: an iteration that goes through.

## Main results

* `OrderBook.RepInvariant.matchable`: the representation invariant is enough for matching.
* `OrderBook.submit_planned`: matching goes as planned.
-/

namespace MatchingEngine

namespace OrderBook

/-! ### The representation invariant -/

namespace RepInvariant

variable {b : OrderBook} (hb : b.RepInvariant)

include hb

theorem orderOk {s : BookSide} {n : Node RestingOrder} (hn : n ∈ nodesOf (b.levels s)) :
    ∃ price, b.OrderOk s price n := by
  obtain ⟨e, he, hn⟩ := mem_nodesOf.mp hn
  exact ⟨e.1, (hb.levels_hold s e he).orders_ok n hn⟩

theorem lookup_eq {n : Node RestingOrder} (hn : n ∈ b.nodes) :
    b.activeOrders.lookup n.value.id = some n.locator := by
  obtain ⟨s, hn⟩ := b.mem_nodes.mp hn
  obtain ⟨price, hok⟩ := hb.orderOk hn
  rw [hok.lookup_eq, Node.locator, hok.side_eq, hok.limitPrice_eq]

theorem isIndex :
    IsIndex (fun n : Node RestingOrder => n.value.id) Node.locator b.activeOrders b.nodes where
  keys_nodup := hb.ids_nodup
  lookup_iff id locator := by
    constructor
    · intro h
      obtain ⟨n, hn, rfl⟩ := hb.active_resting id (Finmap.mem_of_lookup_eq_some h)
      exact ⟨n, hn, rfl, Option.some.inj ((hb.lookup_eq hn).symm.trans h)⟩
    · rintro ⟨n, hn, rfl, rfl⟩
      exact hb.lookup_eq hn

/-- The representation invariant is all that matching relies on. -/
theorem matchable (s : BookSide) : b.Matchable s where
  level_ok e he := by
    have hlevel := hb.levels_hold s e he
    exact ⟨hlevel.orders_ne_nil, fun n hn => (hlevel.orders_ok n hn).limitPrice_eq,
      hlevel.total_eq, hlevel.arrivals⟩
  isIndex := hb.isIndex
  remaining_pos o ho := by
    rw [queue_abs] at ho
    obtain ⟨n, hn, rfl⟩ := List.mem_map.mp ho
    obtain ⟨price, hok⟩ := hb.orderOk hn
    exact hok.remaining_pos

end RepInvariant

/-! ### The iterations -/

section Iterations

variable {s : BookSide} {priceCrosses : Price → Price → Bool} {incoming : NewLimitOrder}

/-- The loop of `match` goes on at a level: it is the first one, something is left of the incoming
order, and the price crosses. -/
def GoesOn (s : BookSide) (priceCrosses : Price → Price → Bool) (incoming : NewLimitOrder)
    (m : Matching) (price : Price) (level : PriceLevel) : Prop :=
  (m.book.levels s).front? = some (price, level) ∧
    0 < m.remainingQuantity.units ∧ priceCrosses price incoming.limitPrice

/-- The states that the loop of `match` goes through. -/
inductive Iterates (s : BookSide) (priceCrosses : Price → Price → Bool) (incoming : NewLimitOrder)
    (m : Matching) : Matching → Prop
  | start : Iterates s priceCrosses incoming m m
  | next {m' m'' : Matching} {price : Price} {level : PriceLevel} :
    Iterates s priceCrosses incoming m m' → GoesOn s priceCrosses incoming m' price level →
      matchBody s incoming price level m' = .ok m'' → Iterates s priceCrosses incoming m m''

/-- What an iteration executes against the first order of a level. -/
def executed (m : Matching) (maker : Node RestingOrder) : UInt64 :=
  min m.remainingQuantity.units maker.value.remainingQuantity.units

/-- An iteration that goes through: none of its branches stops the program, and none of its
subtractions goes below zero. -/
structure Executable (m : Matching) (level : PriceLevel) (maker : Node RestingOrder)
    (others : List (Node RestingOrder)) : Prop where
  orders_eq : level.orders = maker :: others
  executed_ne_zero : executed m maker ≠ 0
  tradeId_ne_zero : m.book.nextTradeId ≠ 0
  active : maker.value.remainingQuantity.units - executed m maker = 0 →
    maker.value.id ∈ m.book.activeOrders
  le_total : executed m maker ≤ level.totalQuantity.units
  le_maker : executed m maker ≤ maker.value.remainingQuantity.units
  le_remaining : executed m maker ≤ m.remainingQuantity.units

theorem executed_le_remaining (m : Matching) (maker : Node RestingOrder) :
    executed m maker ≤ m.remainingQuantity.units := by
  rcases UInt64.le_total m.remainingQuantity.units maker.value.remainingQuantity.units with h | h
  · exact UInt64.le_of_eq (UInt64.min_eq_left_of_le h)
  · rwa [executed, UInt64.min_eq_right_of_le h]

theorem executed_le_maker (m : Matching) (maker : Node RestingOrder) :
    executed m maker ≤ maker.value.remainingQuantity.units := by
  rcases UInt64.le_total m.remainingQuantity.units maker.value.remainingQuantity.units with h | h
  · rwa [executed, UInt64.min_eq_left_of_le h]
  · exact UInt64.le_of_eq (UInt64.min_eq_right_of_le h)

/-- An iteration that returns has gone through. -/
theorem executable_of_matchBody {price : Price} {level : PriceLevel} {m m' : Matching}
    (h : matchBody s incoming price level m = .ok m') :
    ∃ maker others, Executable m level maker others := by
  unfold matchBody at h
  cases horders : level.orders with
  | nil =>
    rw [horders] at h
    cases h
  | cons maker others =>
    rw [horders] at h
    dsimp only at h
    rw [← executed] at h
    have hgo : ¬ (executed m maker = 0 ∨ level.totalQuantity.units < executed m maker ∨
        m.book.nextTradeId = 0) := by
      intro hstop
      rw [if_pos hstop] at h
      cases h
    rw [if_neg hgo] at h
    obtain ⟨hzero, hrest⟩ := not_or.mp hgo
    obtain ⟨htotal, hid⟩ := not_or.mp hrest
    refine ⟨maker, others, horders, hzero, hid, fun hfilled => ?_, UInt64.not_lt.mp htotal,
      executed_le_maker m maker, executed_le_remaining m maker⟩
    by_contra hactive
    rw [if_pos hfilled, if_pos hactive] at h
    cases h

/-- The loop goes on from every state that it goes through to its end. -/
theorem Iterates.matchLoop_ok {m m' final : Matching} {fuel : ℕ}
    (h : Iterates s priceCrosses incoming m m')
    (hloop : matchLoop s priceCrosses incoming fuel m = .ok final) :
    ∃ fuel', matchLoop s priceCrosses incoming fuel' m' = .ok final := by
  induction h with
  | start => exact ⟨fuel, hloop⟩
  | next _ hgo hbody ih =>
    obtain ⟨fuel', hrest⟩ := ih
    cases fuel' with
    | zero => cases hrest
    | succ fuel' =>
      rw [matchLoop, hgo.1] at hrest
      dsimp only at hrest
      rw [if_pos hgo.2, hbody] at hrest
      exact ⟨fuel', hrest⟩

/-- If the loop returns, all its iterations have gone through. -/
theorem Iterates.executable {m m' final : Matching} {fuel : ℕ} {price : Price} {level : PriceLevel}
    (h : Iterates s priceCrosses incoming m m')
    (hloop : matchLoop s priceCrosses incoming fuel m = .ok final)
    (hgo : GoesOn s priceCrosses incoming m' price level) :
    ∃ maker others, Executable m' level maker others := by
  obtain ⟨fuel', hrest⟩ := h.matchLoop_ok hloop
  cases fuel' with
  | zero => cases hrest
  | succ fuel' =>
    rw [matchLoop, hgo.1] at hrest
    dsimp only at hrest
    rw [if_pos hgo.2] at hrest
    cases hbody : matchBody s incoming price level m' with
    | error e =>
      rw [hbody] at hrest
      cases hrest
    | ok m'' => exact executable_of_matchBody hbody

end Iterations

/-! ### The plan -/

section Planned

variable {b : OrderBook} {order : NewLimitOrder} {plan : MatchPlan}

/-- What the checks of `submit` have established when they let an order pass. -/
theorem submitThen_eq_some (h : b.submitThen order (fun _ => none) some = some plan) :
    (order.side = .buy ∨ order.side = .sell) ∧ order.id ∉ b.seenOrderIds ∧
    (if order.side = .buy then
        (previewMatch b.asks order.limitPrice order.quantity
          fun askPrice incomingPrice => askPrice ≤ incomingPrice).plan
      else
        (previewMatch b.bids order.limitPrice order.quantity
          fun bidPrice incomingPrice => bidPrice ≥ incomingPrice).plan) = plan ∧
    b.canIssueTradeIds plan.tradeCount = true ∧
    b.submit order = b.submitPlanned order plan := by
  rw [submit_eq_submitThen]
  unfold submitThen at h ⊢
  dsimp only at h ⊢
  generalize (if order.side = .buy then _ else _ : MatchPlan) = planned at h ⊢
  simp only [Option.ite_none_left_eq_some] at h
  obtain ⟨hid, hside, hprice, hquantity, hseen, hissue, hsequence, hoverflow, hplan⟩ := h
  obtain rfl := Option.some.inj hplan
  rw [if_neg hid, if_neg hside, if_neg hprice, if_neg hquantity, if_neg hseen, if_neg hissue,
    if_neg hsequence, if_neg hoverflow]
  refine ⟨?_, hseen, rfl, not_not.mp hissue, rfl⟩
  simpa [isValidSide, or_iff_not_imp_left] using hside

theorem Matchable.insert_seen {s : BookSide} (hb : b.Matchable s) (id : OrderId) :
    ({ b with seenOrderIds := insert id b.seenOrderIds } : OrderBook).Matchable s := by
  cases s
  · exact ⟨hb.level_ok, hb.isIndex, hb.remaining_pos⟩
  · exact ⟨hb.level_ok, hb.isIndex, hb.remaining_pos⟩

/-- `match` does for an order that passes the checks what was planned. -/
theorem RepInvariant.matched_planned (hb : b.RepInvariant)
    (hplan : b.submitThen order (fun _ => none) some = some plan) :
    let b₁ : OrderBook := { b with seenOrderIds := insert order.id b.seenOrderIds }
    let s := (BookSide.ofSide order.side).other
    ∃ m, b₁.matchLevels s order s.crosses = .ok m ∧
      m.remainingQuantity = plan.remainingQuantity ∧ m.trades.length = plan.tradeCount ∧
      Trade.total m.trades + m.remainingQuantity.toNat = order.quantity.toNat := by
  obtain ⟨hside, -, rfl, hissue, -⟩ := submitThen_eq_some hplan
  rw [plan_eq hb.matchable hside] at hissue ⊢
  have hids : PriorityBook.IdsAvailable b.nextTradeId (b.abs.fillFor order).trades.length :=
    canIssueFrom_iff.mp hissue
  rw [← PriorityBook.Progress.fill_start] at hids
  obtain ⟨m, hm, -, hdone⟩ := ((hb.matchable _).insert_seen order.id).matchLevels_spec hids
  obtain ⟨hremaining, htrades, -⟩ := PriorityBook.Progress.Done.matched (p := b.abs) hdone
  have hremaining : m.remainingQuantity = (b.abs.fillFor order).remaining := hremaining
  have htrades : m.trades = (b.abs.fillFor order).trades := htrades
  refine ⟨m, hm, hremaining, congrArg List.length htrades, ?_⟩
  rw [hremaining, htrades]
  exact PriorityBook.total_trades_fill

/-- For every book that passes `invariants_hold` and every order that passes the checks of
`submit`, `match` ends; each of its iterations goes through, without a subtraction below zero; it
leaves the quantity and makes the number of trades that `preview_match` planned, so the two
assertions hold and the result has the quantities that were really executed and left. What remains
is the assertion that the invariant holds again. -/
theorem submit_planned (hb : b.invariantsHold = true)
    (hplan : b.submitThen order (fun _ => none) some = some plan) :
    let b₁ : OrderBook := { b with seenOrderIds := insert order.id b.seenOrderIds }
    let s := (BookSide.ofSide order.side).other
    ∃ m, b₁.matchLevels s order s.crosses = .ok m ∧
      (∀ m' price level, Iterates s s.crosses order ⟨b₁, order.quantity, []⟩ m' →
        GoesOn s s.crosses order m' price level →
          ∃ maker others, Executable m' level maker others) ∧
      m.remainingQuantity = plan.remainingQuantity ∧
      m.trades.length = plan.tradeCount ∧
      plan.remainingQuantity.units ≤ order.quantity.units ∧
      (Quantity.mk (order.quantity.units - plan.remainingQuantity.units)).toNat =
        Trade.total m.trades ∧
      b.submit order =
        if (restResidual order m).invariantsHold then
          .ok (⟨.accepted, none, ⟨order.quantity.units - plan.remainingQuantity.units⟩,
            plan.remainingQuantity, m.trades⟩, restResidual order m)
        else .error .assertion := by
  intro b₁ s
  obtain ⟨hside, hseen, -, -, hsubmit⟩ := submitThen_eq_some hplan
  obtain ⟨m, hm, hremaining, htrades, htotal⟩ := (b.invariantsHold_iff.mp hb).matched_planned hplan
  rw [hremaining] at htotal
  have hle : plan.remainingQuantity.units ≤ order.quantity.units :=
    Quantity.units_le_iff.mpr (by omega)
  refine ⟨m, hm, fun m' price level hm' hgo => hm'.executable hm hgo, hremaining, htrades, hle, ?_,
    ?_⟩
  · rw [Quantity.toNat_sub hle]
    omega
  · rw [hsubmit, submitPlanned, if_neg hseen]
    dsimp only
    rw [matchLevels_of_side b₁ hside, hm]
    dsimp only
    rw [if_neg (by simp [hremaining, htrades])]
    cases (restResidual order m).invariantsHold <;> rfl

/-- A buy order for three units meets a resting sell order for five. -/
theorem submit_planned_part :
    let maker : Node RestingOrder := ⟨0, ⟨⟨1⟩, .sell, ⟨10⟩, ⟨5⟩, ⟨5⟩, 1⟩⟩
    let b : OrderBook := { fresh with
      asks := fresh.asks.insertOrAssign ⟨10⟩ ⟨[maker], ⟨5⟩⟩
      activeOrders := fresh.activeOrders.insert ⟨1⟩ maker.locator
      seenOrderIds := {⟨1⟩}
      nextArrivalSequence := 2
      nextAddress := 1 }
    let order : NewLimitOrder := ⟨⟨2⟩, .buy, ⟨10⟩, ⟨3⟩⟩
    ∃ m, ({ b with seenOrderIds := insert ⟨2⟩ b.seenOrderIds } : OrderBook).matchLevels .asks order
        BookSide.asks.crosses = .ok m ∧
      m.remainingQuantity = ⟨0⟩ ∧ m.trades.length = 1 ∧ Trade.total m.trades = 3 := by
  intro maker b order
  have hb : b.invariantsHold = true := by decide
  have hplan : b.submitThen order (fun _ => none) some = some ⟨⟨0⟩, 1⟩ := by decide
  obtain ⟨m, hm, -, hremaining, htrades, -, htotal, -⟩ := submit_planned hb hplan
  exact ⟨m, hm, hremaining, htrades, htotal.symm.trans (by decide)⟩

end Planned

end OrderBook

end MatchingEngine
