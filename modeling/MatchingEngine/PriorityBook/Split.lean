import MatchingEngine.PriorityBook.Omission

/-!
# Orders in two parts

An order that is submitted in two parts, one directly after the other, trades as it does in one
piece: the same makers give the same quantities, and it costs the same. Only the order in which a
fill ends can be shared between the parts.

## Main definitions

* `Trade.cost`: the price of some trades.
* `PriorityBook.Split`: a fill comes to the same as two fills.

## Main results

* `PriorityBook.fill_split`: a quantity can be filled in two parts.
* `PriorityBook.Reached.accepts_parts`: the parts of an order are accepted if the order is.
-/

namespace MatchingEngine

/-- A part of an order, with an identifier of its own. -/
def NewLimitOrder.part (order : NewLimitOrder) (id : OrderId) (quantity : Quantity) :
    NewLimitOrder :=
  { order with
    id := id
    quantity := quantity }

/-- What the taker pays, or gets, for some trades. -/
def Trade.cost (trades : List Trade) : ℕ :=
  (trades.map fun t => t.executionPrice.ticks.toNat * t.executionQuantity.toNat).sum

@[simp] theorem Trade.cost_nil : cost [] = 0 := rfl

@[simp] theorem Trade.cost_cons (t : Trade) (trades : List Trade) :
    cost (t :: trades) =
      t.executionPrice.ticks.toNat * t.executionQuantity.toNat + cost trades := by
  simp [cost]

namespace PriorityBook

/-- A fill leaves what two fills leave, of the queue and of the quantities, at the same cost. -/
structure Split (f f₁ f₂ : Fill) : Prop where
  rest_eq : f.rest = f₂.rest
  remaining_eq : f.remaining.toNat = f₁.remaining.toNat + f₂.remaining.toNat
  cost_eq : Trade.cost f.trades = Trade.cost f₁.trades + Trade.cost f₂.trades

section Fill

variable {crosses : Price → Bool} {taker taker₁ taker₂ : OrderId} {next next₁ next₂ : UInt64}
  {a b c : Quantity} {q : List OrderView}

/-- The first part is empty: it does not matter who trades under which identifiers. -/
theorem split_zero (hzero : a.units = 0) :
    Split (fill crosses taker next b q) ⟨[], a, q⟩ (fill crosses taker₂ next₂ b q) := by
  have ha : a.toNat = 0 := congrArg UInt64.toNat hzero
  induction q generalizing next next₂ b with
  | nil => exact ⟨rfl, by simp [fill, ha], rfl⟩
  | cons maker makers ih =>
    by_cases hstop : b.units = 0 ∨ ¬ crosses maker.limitPrice
    · rw [fill_cons_of_stop hstop, fill_cons_of_stop hstop]
      exact ⟨rfl, by simp [ha], rfl⟩
    by_cases hle : maker.remainingQuantity.units ≤ b.units
    · rw [fill_cons_of_le hstop hle, fill_cons_of_le hstop hle]
      obtain ⟨hrest, hremaining, hcost⟩ := @ih (next + 1) (next₂ + 1)
        ⟨b.units - maker.remainingQuantity.units⟩
      refine ⟨hrest, hremaining, ?_⟩
      dsimp only at hcost ⊢
      rw [Trade.cost_cons, Trade.cost_cons, hcost]
      simp
    · rw [fill_cons_of_not_le hstop hle, fill_cons_of_not_le hstop hle]
      exact ⟨rfl, by simp [ha], by simp⟩

/-- The first part ends in a maker, and the second one goes on with what is left of it. -/
theorem split_maker {maker : OrderView} {makers : List OrderView} {left : Quantity}
    (hcross : crosses maker.limitPrice) (ha : 0 < a.toNat)
    (hleft : maker.remainingQuantity.toNat = a.toNat + left.toNat) (hpos : 0 < left.toNat)
    (h : c.toNat = a.toNat + b.toNat) :
    Split (fill crosses taker next c (maker :: makers))
      ⟨[⟨⟨next₁⟩, maker.id, taker₁, maker.limitPrice, a⟩], ⟨0⟩,
        { maker with remainingQuantity := left } :: makers⟩
      (fill crosses taker₂ next₂ b ({ maker with remainingQuantity := left } :: makers)) := by
  have hgo : ¬ (c.units = 0 ∨ ¬ crosses maker.limitPrice) := by
    rw [Quantity.units_eq_zero_iff, not_or, not_not]
    exact ⟨by omega, hcross⟩
  by_cases hb : b.units = 0
  · -- the second part is empty
    have hb' := Quantity.units_eq_zero_iff.mp hb
    obtain rfl : c = a := Quantity.toNat_inj.mp (by omega)
    have hle : ¬ maker.remainingQuantity.units ≤ c.units := by
      rw [Quantity.units_le_iff]
      omega
    have hsub : (⟨maker.remainingQuantity.units - c.units⟩ : Quantity) = left := by
      rw [← Quantity.toNat_inj, Quantity.toNat_sub (by rw [Quantity.units_le_iff]; omega)]
      omega
    rw [fill_cons_of_not_le hgo hle, fill_cons_of_stop (Or.inl hb), hsub]
    exact ⟨rfl, by simp [hb'], rfl⟩
  have hgo₂ : ¬ (b.units = 0 ∨
      ¬ crosses ({ maker with remainingQuantity := left } : OrderView).limitPrice) :=
    not_or.mpr ⟨hb, not_not.mpr hcross⟩
  by_cases hle₂ : left.units ≤ b.units
  · -- the second part takes the rest of the maker
    have hle₂' := Quantity.units_le_iff.mp hle₂
    have hle : maker.remainingQuantity.units ≤ c.units := by
      rw [Quantity.units_le_iff]
      omega
    have hsub : (⟨c.units - maker.remainingQuantity.units⟩ : Quantity) =
        ⟨b.units - left.units⟩ := by
      rw [← Quantity.toNat_inj, Quantity.toNat_sub hle, Quantity.toNat_sub hle₂]
      omega
    rw [fill_cons_of_le hgo hle, fill_cons_of_le hgo₂ hle₂, hsub]
    obtain ⟨hrest, hremaining, hcost⟩ := @split_zero crosses taker taker₂ (next + 1) (next₂ + 1)
      ⟨0⟩ ⟨b.units - left.units⟩ makers rfl
    refine ⟨hrest, hremaining, ?_⟩
    dsimp only at hcost ⊢
    rw [Trade.cost_cons, Trade.cost_cons, Trade.cost_cons, hcost]
    dsimp only
    rw [hleft, Nat.mul_add]
    simp only [Trade.cost_nil]
    omega
  · -- the second part ends in the same maker
    have hle₂' := mt Quantity.units_le_iff.mpr hle₂
    have hle : ¬ maker.remainingQuantity.units ≤ c.units := by
      rw [Quantity.units_le_iff]
      omega
    have hsub : (⟨maker.remainingQuantity.units - c.units⟩ : Quantity) =
        ⟨left.units - b.units⟩ := by
      rw [← Quantity.toNat_inj, Quantity.toNat_sub (by rw [Quantity.units_le_iff]; omega),
        Quantity.toNat_sub (by rw [Quantity.units_le_iff]; omega)]
      omega
    rw [fill_cons_of_not_le hgo hle, fill_cons_of_not_le hgo₂ hle₂, hsub]
    exact ⟨rfl, rfl, by simp [h, Nat.mul_add]⟩

/-- A quantity can be filled in two parts. -/
theorem fill_split (h : c.toNat = a.toNat + b.toNat) :
    Split (fill crosses taker next c q) (fill crosses taker₁ next₁ a q)
      (fill crosses taker₂ next₂ b (fill crosses taker₁ next₁ a q).rest) := by
  induction q generalizing next next₁ a c with
  | nil => exact ⟨rfl, h, rfl⟩
  | cons maker makers ih =>
    by_cases hzero : a.units = 0
    · obtain rfl : c = b := Quantity.toNat_inj.mp (by rw [h, Quantity.units_eq_zero_iff.mp hzero,
        Nat.zero_add])
      rw [fill_of_zero hzero]
      exact split_zero hzero
    have hpos := Nat.pos_of_ne_zero (mt Quantity.units_eq_zero_iff.mpr hzero)
    by_cases hcross : crosses maker.limitPrice
    · have hgo₁ : ¬ (a.units = 0 ∨ ¬ crosses maker.limitPrice) :=
        not_or.mpr ⟨hzero, not_not.mpr hcross⟩
      by_cases hle₁ : maker.remainingQuantity.units ≤ a.units
      · have hle₁' := Quantity.units_le_iff.mp hle₁
        have hle : maker.remainingQuantity.units ≤ c.units := by
          rw [Quantity.units_le_iff]
          omega
        have hgo : ¬ (c.units = 0 ∨ ¬ crosses maker.limitPrice) := by
          rw [Quantity.units_eq_zero_iff, not_or, not_not]
          exact ⟨by omega, hcross⟩
        rw [fill_cons_of_le hgo hle, fill_cons_of_le hgo₁ hle₁]
        obtain ⟨hrest, hremaining, hcost⟩ := @ih (next + 1) (next₁ + 1)
          ⟨a.units - maker.remainingQuantity.units⟩ ⟨c.units - maker.remainingQuantity.units⟩
          (by rw [Quantity.toNat_sub hle, Quantity.toNat_sub hle₁]; omega)
        refine ⟨hrest, hremaining, ?_⟩
        dsimp only
        rw [Trade.cost_cons, Trade.cost_cons, hcost, Nat.add_assoc]
      · have hle₁' := mt Quantity.units_le_iff.mpr hle₁
        have hsub := @Quantity.toNat_sub maker.remainingQuantity a
          (by rw [Quantity.units_le_iff]; omega)
        rw [fill_cons_of_not_le hgo₁ hle₁]
        exact split_maker hcross hpos (by omega) (by omega) h
    · rw [fill_cons_of_stop (Or.inr hcross), fill_cons_of_stop (Or.inr hcross),
        fill_cons_of_stop (Or.inr hcross)]
      exact ⟨rfl, h, rfl⟩

end Fill

/-! ### The parts of an order -/

section Parts

variable {p : PriorityBook} {order : NewLimitOrder} {id₁ id₂ : OrderId} {a b : Quantity}

theorem queue_other_accept (f : Fill) :
    (p.accept order f).queue (BookSide.ofSide order.side).other = f.rest := by
  unfold accept
  split_ifs
  · rw [queue_rested, if_neg (BookSide.ne_other _).symm, queue_matched_other]
  · exact queue_matched_other f

/-- What is left of an accepted order adds to the level of its price. -/
theorem levelTotal_accept (f : Fill) :
    (p.accept order f).levelTotal (.ofSide order.side) order.limitPrice =
      p.levelTotal (.ofSide order.side) order.limitPrice + f.remaining.toNat := by
  have hmatched : (p.matched order f).levelTotal (.ofSide order.side) order.limitPrice =
      p.levelTotal (.ofSide order.side) order.limitPrice := by
    rw [levelTotal, queue_matched, ← levelTotal]
  unfold accept
  split_ifs with hpos
  · have hown := queue_rested (p.matched order f) order f.remaining (.ofSide order.side)
    rw [if_pos rfl] at hown
    have hprice : (residual order f.remaining).limitPrice = order.limitPrice := rfl
    rw [levelTotal_of_insert hown, if_pos hprice, hmatched]
    rfl
  · have hzero : f.remaining.toNat = 0 := by
      have := mt Quantity.units_pos_iff.mpr hpos
      omega
    rw [hmatched, hzero, Nat.add_zero]

/-- An order is filled as its parts are, one after the other. -/
theorem split_fillFor (hquantity : order.quantity.toNat = a.toNat + b.toNat) :
    Split (p.fillFor order) (p.fillFor (order.part id₁ a))
      ((p.accept (order.part id₁ a) (p.fillFor (order.part id₁ a))).fillFor
        (order.part id₂ b)) := by
  set p₁ := p.accept (order.part id₁ a) (p.fillFor (order.part id₁ a))
  have hqueue : p₁.queue (BookSide.ofSide order.side).other =
      (p.fillFor (order.part id₁ a)).rest := queue_other_accept _
  have hsecond : p₁.fillFor (order.part id₂ b) =
      fill (fun price => (BookSide.ofSide order.side).other.crosses price order.limitPrice) id₂
        p₁.nextTradeId b (p.fillFor (order.part id₁ a)).rest :=
    congrArg (fill _ id₂ p₁.nextTradeId b) hqueue
  rw [hsecond]
  exact fill_split hquantity

/-- What a maker gives to an order is what it gives to the parts. -/
theorem makerQuantity_parts (hquantity : order.quantity.toNat = a.toNat + b.toNat)
    (maker : OrderId) : Trade.makerQuantity (p.fillFor order).trades maker =
      Trade.makerQuantity (p.fillFor (order.part id₁ a)).trades maker +
        Trade.makerQuantity ((p.accept (order.part id₁ a) (p.fillFor (order.part id₁ a))).fillFor
          (order.part id₂ b)).trades maker := by
  set p₁ := p.accept (order.part id₁ a) (p.fillFor (order.part id₁ a))
  have hconserves (p : PriorityBook) (id : OrderId) (quantity : Quantity) :
      quantityAt (p.queue (BookSide.ofSide order.side).other) maker =
        Trade.makerQuantity (p.fillFor (order.part id quantity)).trades maker +
          quantityAt (p.fillFor (order.part id quantity)).rest maker :=
    (fill_filling ..).maker_conserves maker
  have hwhole := hconserves p order.id order.quantity
  have hfirst := hconserves p id₁ a
  have hsecond := hconserves p₁ id₂ b
  have hself : order.part order.id order.quantity = order := rfl
  have hqueue : p₁.queue (BookSide.ofSide order.side).other =
      (p.fillFor (order.part id₁ a)).rest := queue_other_accept _
  have hrest : (p.fillFor order).rest = (p₁.fillFor (order.part id₂ b)).rest :=
    (split_fillFor hquantity).rest_eq
  rw [hself, hrest] at hwhole
  rw [hqueue] at hsecond
  omega

/-- The parts of an order are accepted one after the other if the order is. -/
theorem Reached.accepts_parts (hp : p.Reached) (ha : p.Acceptable order)
    (hid₁ : id₁.value ≠ 0) (hid₂ : id₂.value ≠ 0) (hne : id₁ ≠ id₂)
    (hnew₁ : id₁ ∉ p.seenOrderIds) (hnew₂ : id₂ ∉ p.seenOrderIds) (hpos₁ : 0 < a.toNat)
    (hpos₂ : 0 < b.toNat) (hquantity : order.quantity.toNat = a.toNat + b.toNat) :
    p.Acceptable (order.part id₁ a) ∧
      (p.accept (order.part id₁ a) (p.fillFor (order.part id₁ a))).Acceptable
        (order.part id₂ b) := by
  obtain ⟨-, hremaining, -⟩ := @split_fillFor p order id₁ id₂ a b hquantity
  have htotal : (p.accept (order.part id₁ a) (p.fillFor (order.part id₁ a))).levelTotal
      (.ofSide order.side) order.limitPrice = p.levelTotal (.ofSide order.side) order.limitPrice +
        (p.fillFor (order.part id₁ a)).remaining.toNat := levelTotal_accept _
  have hroom (hpos : 0 < (p.fillFor order).remaining.toNat) :=
    ha.total_lt (Quantity.units_pos_iff.mpr hpos)
  have hfirst : p.Acceptable (order.part id₁ a) := by
    refine ⟨hid₁, ha.side_valid, ha.price_ne_zero, ?_, hnew₁, hp.idsAvailable _,
      fun _ => hp.nextArrivalSequence_ne_zero hid₁ hnew₁, fun hpos => ?_⟩
    · exact mt Quantity.units_eq_zero_iff.mp hpos₁.ne'
    · have hpos := Quantity.units_pos_iff.mp hpos
      have hlt := hroom (by omega)
      exact Nat.lt_of_le_of_lt (Nat.add_le_add_left (by omega) _) hlt
  have hreached := hp.accept hfirst
  have hnew : id₂ ∉ (p.accept (order.part id₁ a) (p.fillFor (order.part id₁ a))).seenOrderIds := by
    rw [seenOrderIds_accept, Finset.mem_insert, not_or]
    exact ⟨hne.symm, hnew₂⟩
  refine ⟨hfirst, hid₂, ha.side_valid, ha.price_ne_zero, ?_, hnew, hreached.idsAvailable _,
    fun _ => hreached.nextArrivalSequence_ne_zero hid₂ hnew, fun hpos => ?_⟩
  · exact mt Quantity.units_eq_zero_iff.mp hpos₂.ne'
  · have hpos := Quantity.units_pos_iff.mp hpos
    have hlt := hroom (by omega)
    show (p.accept (order.part id₁ a) (p.fillFor (order.part id₁ a))).levelTotal
      (.ofSide order.side) order.limitPrice + _ < _
    omega

end Parts

end PriorityBook

end MatchingEngine
