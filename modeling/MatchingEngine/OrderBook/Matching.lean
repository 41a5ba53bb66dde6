import MatchingEngine.OrderBook.MatchFrame
import MatchingEngine.PriorityBook.Progress

/-!
# Matching computes the greedy fill

`preview_match` walks the levels without changing them, and `match` consumes the first order of the
first level until the incoming quantity or the crossing prices run out. Both compute
`PriorityBook.fill` on the flat queue of the opposite side.

Both only read the levels of that side and the index, so they only need these to be correct
(`OrderBook.Matchable`). One iteration of `match` is one step of the fill, and the loop follows by
induction on the bound of its iterations, which decreases with the number of resting orders.

## Main definitions

* `OrderBook.Matchable`: what matching a side relies on.

## Main results

* `canIssueFrom_iff`: the loop over prospective trade identifiers.
* `previewLevels_eq`: the plan is the outcome of the fill.
* `OrderBook.Matchable.matchLevels_spec`: matching ends, and what it leaves.
* `OrderBook.matchLevels_spec`: it leaves the storage linked.
-/

namespace MatchingEngine

open PriorityBook (fill fill_cons_of_stop fill_cons_of_le fill_cons_of_not_le IdsAvailable)

/-! ### Words -/

theorem UInt64.min_eq_left_of_le {a b : UInt64} (h : a ≤ b) : min a b = a := if_pos h

theorem UInt64.min_eq_right_of_le {a b : UInt64} (h : b ≤ a) : min a b = b := by
  change (if a ≤ b then a else b) = b
  split
  · next h' => exact UInt64.le_antisymm h' h
  · rfl

theorem maxWord_toNat : maxWord.toNat = 2 ^ 64 - 1 := by decide

/-! ### Trade identifiers -/

theorem canIssueFrom_iff {next : UInt64} {count : ℕ} :
    canIssueFrom next count = true ↔ IdsAvailable next count := by
  induction count generalizing next with
  | zero => exact ⟨fun _ => Or.inl rfl, fun _ => rfl⟩
  | succ count ih =>
    by_cases hz : next = 0
    · rw [canIssueFrom, if_pos hz]
      exact ⟨fun h => absurd h (by decide), fun h => absurd hz h.of_succ.1⟩
    · rw [canIssueFrom, if_neg hz, ih]
      exact ⟨.succ hz, fun h => h.of_succ.2⟩

/-! ### The plan -/

section Preview

variable {crosses : Price → Bool} {taker : OrderId}

variable (crosses) (taker)

/-- The inner loop of `preview_match` at a level whose price crosses. Every trade takes at least one
unit, so there are never as many trades as would stop the loop. -/
theorem previewOrders_eq {ns : List (Node RestingOrder)} {plan : MatchPlan} (next : UInt64)
    (hcross : ∀ n ∈ ns, crosses n.value.limitPrice)
    (hmakers : ∀ n ∈ ns, 0 < n.value.remainingQuantity.toNat)
    (hpos : 0 < plan.remainingQuantity.units)
    (hcount : plan.tradeCount + plan.remainingQuantity.toNat ≤ maxWord.toNat) :
    previewOrders ns plan =
      let f := fill crosses taker next plan.remainingQuantity (ns.map fun n => n.value.view)
      .completed ⟨f.remaining, plan.tradeCount + f.trades.length⟩ := by
  induction ns generalizing plan next with
  | nil => simp [previewOrders, fill]
  | cons n ns ih =>
    obtain ⟨hn, hns⟩ := List.forall_mem_cons.mp hcross
    have hne : plan.remainingQuantity.units ≠ 0 := fun h => absurd (h ▸ hpos) (by decide)
    have hgo : ¬ (plan.remainingQuantity.units = 0 ∨ ¬ crosses n.value.view.limitPrice) := by
      simpa [hne] using hn
    obtain ⟨hmaker, hmakers'⟩ := List.forall_mem_cons.mp hmakers
    have hpos' := Quantity.units_pos_iff.mp hpos
    rw [previewOrders, if_neg (by omega), List.map_cons]
    by_cases hle : n.value.remainingQuantity.units ≤ plan.remainingQuantity.units
    · rw [fill_cons_of_le hgo hle]
      simp only [UInt64.min_eq_right_of_le hle]
      split
      · next hz => simp [PriorityBook.fill_of_zero, hz]
      · next hz =>
        have hcount' : plan.tradeCount + 1 + (Quantity.mk (plan.remainingQuantity.units -
            n.value.remainingQuantity.units)).toNat ≤ maxWord.toNat := by
          rw [Quantity.toNat_sub hle]
          omega
        rw [ih (next + 1) hns hmakers' (Quantity.units_pos_iff.mpr (Nat.pos_of_ne_zero
          (mt Quantity.units_eq_zero_iff.mpr hz))) hcount']
        simp only [RestingOrder.view_remainingQuantity, List.length_cons, Nat.add_assoc,
          Nat.add_comm 1]
    · have hle' : plan.remainingQuantity.units ≤ n.value.remainingQuantity.units :=
        UInt64.le_of_lt (UInt64.not_le.mp hle)
      rw [fill_cons_of_not_le hgo hle]
      simp [UInt64.min_eq_left_of_le hle']

/-- The outer loop of `preview_match`. -/
theorem previewLevels_eq {priceCrosses : Price → Price → Bool} {incomingPrice : Price}
    {es : List (Price × PriceLevel)} {plan : MatchPlan} (next : UInt64)
    (hprice : ∀ e ∈ es, ∀ n ∈ e.2.orders, n.value.limitPrice = e.1)
    (hne : ∀ e ∈ es, e.2.orders ≠ [])
    (hmakers : ∀ e ∈ es, ∀ n ∈ e.2.orders, 0 < n.value.remainingQuantity.toNat)
    (hcount : plan.tradeCount + plan.remainingQuantity.toNat ≤ maxWord.toNat) :
    previewLevels priceCrosses incomingPrice es plan =
      let f := fill (fun price => priceCrosses price incomingPrice) taker next
        plan.remainingQuantity ((es.flatMap fun e => e.2.orders).map fun n => n.value.view)
      .completed ⟨f.remaining, plan.tradeCount + f.trades.length⟩ := by
  induction es generalizing plan next with
  | nil => simp [previewLevels, fill]
  | cons e es ih =>
    obtain ⟨price, level⟩ := e
    obtain ⟨hlevel, hprice'⟩ := List.forall_mem_cons.mp hprice
    obtain ⟨hlevel_ne, hne'⟩ := List.forall_mem_cons.mp hne
    obtain ⟨hlevel_makers, hmakers'⟩ := List.forall_mem_cons.mp hmakers
    rw [previewLevels, List.flatMap_cons, List.map_append]
    by_cases hgo : 0 < plan.remainingQuantity.units ∧ priceCrosses price incomingPrice
    · have hcross : ∀ n ∈ level.orders, priceCrosses n.value.limitPrice incomingPrice :=
        fun n hn => by rw [hlevel n hn]; exact hgo.2
      have hviews : ∀ o ∈ level.orders.map fun n => n.value.view,
          priceCrosses o.limitPrice incomingPrice := by simpa using hcross
      have hlen := (PriorityBook.fill_filling
        (fun price => priceCrosses price incomingPrice) taker next plan.remainingQuantity
        (level.orders.map fun n => n.value.view)).length_add_remaining_le
          (by simpa using hlevel_makers)
      rw [if_pos hgo, previewOrders_eq (fun price => priceCrosses price incomingPrice) taker next
        hcross hlevel_makers hgo.1 hcount,
        PriorityBook.fill_append hviews]
      generalize fill (fun price => priceCrosses price incomingPrice) taker next
        plan.remainingQuantity (level.orders.map fun n => n.value.view) = f at hlen ⊢
      dsimp only
      rw [ih (next + UInt64.ofNat f.trades.length) hprice' hne' hmakers' (by dsimp only; omega)]
      simp only [List.length_append, Nat.add_assoc]
    · rw [if_neg hgo]
      obtain ⟨n, ns, hns⟩ := List.exists_cons_of_ne_nil hlevel_ne
      have hstop : plan.remainingQuantity.units = 0 ∨
          ¬ priceCrosses n.value.view.limitPrice incomingPrice := by
        rw [show n.value.view.limitPrice = price from hlevel n (hns ▸ List.mem_cons_self)]
        by_contra hcon
        obtain ⟨h1, h2⟩ := not_or.mp hcon
        exact hgo ⟨Quantity.units_pos_iff.mpr (Nat.pos_of_ne_zero
          (mt Quantity.units_eq_zero_iff.mpr h1)), not_not.mp h2⟩
      rw [hns, List.map_cons, List.cons_append, fill_cons_of_stop hstop]
      simp

end Preview

/-! ### One iteration of matching -/

namespace OrderBook

section MatchBody

variable {s : BookSide} {incoming : NewLimitOrder} {price : Price} {level : PriceLevel}
  {maker : Node RestingOrder} {others : List (Node RestingOrder)} {m : Matching}

/-- The trade of an incoming order with a maker. -/
def tradeWith (incoming : NewLimitOrder) (maker : RestingOrder) (m : Matching)
    (executed : Quantity) : Trade where
  id := ⟨m.book.nextTradeId⟩
  makerOrderId := maker.id
  takerOrderId := incoming.id
  executionPrice := maker.limitPrice
  executionQuantity := executed

/-- An iteration that fills the maker. -/
theorem matchBody_of_le (horders : level.orders = maker :: others)
    (hpos : 0 < maker.value.remainingQuantity.units)
    (hle : maker.value.remainingQuantity.units ≤ m.remainingQuantity.units)
    (htotal : maker.value.remainingQuantity.units ≤ level.totalQuantity.units)
    (hid : m.book.nextTradeId ≠ 0) (hactive : maker.value.id ∈ m.book.activeOrders) :
    matchBody s incoming price level m = .ok
      { book := ({ m.book with
            nextTradeId := m.book.nextTradeId + 1
            activeOrders := m.book.activeOrders.erase maker.value.id } : OrderBook).setLevels s
          (putLevel (m.book.levels s) price
            ⟨others, ⟨level.totalQuantity.units - maker.value.remainingQuantity.units⟩⟩)
        remainingQuantity := ⟨m.remainingQuantity.units - maker.value.remainingQuantity.units⟩
        trades := m.trades ++
          [tradeWith incoming maker.value m maker.value.remainingQuantity] } := by
  have hgo : ¬ (maker.value.remainingQuantity.units = 0 ∨
      level.totalQuantity.units < maker.value.remainingQuantity.units ∨
      m.book.nextTradeId = 0) := by
    rintro (h | h | h)
    · exact absurd (h ▸ hpos) (by decide)
    · exact UInt64.not_lt.mpr htotal h
    · exact hid h
  unfold matchBody
  rw [horders]
  dsimp only
  rw [UInt64.min_eq_right_of_le hle, if_neg hgo, UInt64.sub_self, if_pos rfl,
    if_neg (not_not.mpr hactive), putLevel, OrderedMap.put]
  cases s <;> dsimp only [levels] <;> split <;> rfl

/-- An iteration that uses up the incoming quantity. -/
theorem matchBody_of_lt (horders : level.orders = maker :: others)
    (hpos : 0 < m.remainingQuantity.units)
    (hlt : m.remainingQuantity.units < maker.value.remainingQuantity.units)
    (htotal : maker.value.remainingQuantity.units ≤ level.totalQuantity.units)
    (hid : m.book.nextTradeId ≠ 0) :
    matchBody s incoming price level m = .ok
      { book := ({ m.book with nextTradeId := m.book.nextTradeId + 1 } : OrderBook).setLevels s
          (putLevel (m.book.levels s) price
            ⟨{ maker with value := { maker.value with remainingQuantity :=
                ⟨maker.value.remainingQuantity.units - m.remainingQuantity.units⟩ } } :: others,
              ⟨level.totalQuantity.units - m.remainingQuantity.units⟩⟩)
        remainingQuantity := ⟨0⟩
        trades := m.trades ++ [tradeWith incoming maker.value m m.remainingQuantity] } := by
  have hle := UInt64.le_of_lt hlt
  have hgo : ¬ (m.remainingQuantity.units = 0 ∨
      level.totalQuantity.units < m.remainingQuantity.units ∨ m.book.nextTradeId = 0) := by
    rintro (h | h | h)
    · exact absurd (h ▸ hpos) (by decide)
    · exact UInt64.not_lt.mpr (UInt64.le_trans hle htotal) h
    · exact hid h
  have hleft : maker.value.remainingQuantity.units - m.remainingQuantity.units ≠ 0 := by
    rw [Ne, ← UInt64.toNat_inj, UInt64.toNat_sub_of_le _ _ hle, UInt64.toNat_zero]
    have := UInt64.lt_iff_toNat_lt.mp hlt
    omega
  unfold matchBody
  rw [horders]
  dsimp only
  rw [UInt64.min_eq_left_of_le hle, if_neg hgo, if_neg hleft, UInt64.sub_self, putLevel,
    OrderedMap.put]
  cases s <;> rfl

end MatchBody

/-- The first level of a map: its orders, and where they stand in the queue of the side. -/
structure Front (b : OrderBook) (s : BookSide) (price : Price) (level : PriceLevel)
    (maker : Node RestingOrder) (others : List (Node RestingOrder)) : Prop where
  orders_eq : level.orders = maker :: others
  level_ok : LevelOk price level
  levelAt_eq : levelAt (b.levels s) price = level
  nodesBefore_eq : nodesBefore (b.levels s) price = []

/-- What matching a side relies on, and every iteration keeps: the levels of the side and the index
are correct, and something is left of every order. -/
structure Matchable (s : BookSide) (b : OrderBook) : Prop where
  level_ok : ∀ e ∈ (b.levels s).entries, LevelOk e.1 e.2
  isIndex : IsIndex (fun n : Node RestingOrder => n.value.id) Node.locator b.activeOrders b.nodes
  remaining_pos : ∀ o ∈ b.abs.queue s, 0 < o.remainingQuantity.toNat

theorem Linked.matchable {b : OrderBook} {s : BookSide} (hb : b.Linked)
    (hpos : ∀ o ∈ b.abs.queue s, 0 < o.remainingQuantity.toNat) : b.Matchable s :=
  ⟨hb.level_ok s, hb.indexes.isIndex, hpos⟩

theorem Matchable.exists_front {b : OrderBook} {s : BookSide} (hb : b.Matchable s) {price : Price}
    {level : PriceLevel} (h : (b.levels s).front? = some (price, level)) :
    ∃ maker others, b.Front s price level maker others := by
  obtain ⟨es, hes⟩ : ∃ es, (b.levels s).entries = (price, level) :: es := by
    unfold OrderedMap.front? at h
    cases he : (b.levels s).entries with
    | nil => simp [he] at h
    | cons e es =>
      rw [he, List.head?_cons, Option.some_inj] at h
      exact ⟨es, by rw [h]⟩
  have hok : LevelOk price level := hb.level_ok (price, level) (hes ▸ List.mem_cons_self)
  obtain ⟨maker, others, horders⟩ := List.exists_cons_of_ne_nil hok.orders_ne_nil
  refine ⟨maker, others, horders, hok, ?_, ?_⟩
  · rw [levelAt, OrderedMap.find?_of_entries_cons hes, Option.getD_some]
  · rw [nodesBefore, OrderedMap.flatBefore, OrderedMap.before_of_entries_cons hes, List.flatMap_nil]

namespace Front

variable {b : OrderBook} {s : BookSide} {price : Price} {level : PriceLevel}
  {maker : Node RestingOrder} {others : List (Node RestingOrder)}
  (h : b.Front s price level maker others)
include h

theorem mem_nodes {n : Node RestingOrder} (hn : n ∈ maker :: others) : n ∈ b.nodes :=
  mem_nodes_of_mem_levelAt (h.levelAt_eq ▸ h.orders_eq ▸ hn)

theorem limitPrice_eq {n : Node RestingOrder} (hn : n ∈ maker :: others) :
    n.value.limitPrice = price :=
  h.level_ok.limitPrice_eq n (h.orders_eq ▸ hn)

theorem arrivals : (maker :: others).Pairwise fun n n' =>
    n.value.arrivalSequence.toNat < n'.value.arrivalSequence.toNat :=
  h.orders_eq ▸ h.level_ok.arrivals

theorem total_eq : level.totalQuantity.toNat =
    maker.value.remainingQuantity.toNat + total others := by
  rw [h.level_ok.total_eq, h.orders_eq, total_cons]

theorem remaining_le_total :
    maker.value.remainingQuantity.units ≤ level.totalQuantity.units := by
  rw [Quantity.units_le_iff, h.total_eq]
  exact Nat.le_add_right _ _

theorem isIndex (hb : b.Matchable s) :
    IsIndex (fun n : Node RestingOrder => n.value.id) Node.locator b.activeOrders
      (maker :: (others ++ b.context s price)) := by
  have := hb.isIndex.perm (b.nodes_perm_context s price)
  rwa [h.levelAt_eq, h.orders_eq] at this

theorem queue_eq : b.abs.queue s = maker.value.view :: (others.map (fun n => n.value.view) ++
    (nodesAfter (b.levels s) price).map fun n => n.value.view) := by
  rw [queue_abs, viewsOf_eq _ price, h.levelAt_eq, h.nodesBefore_eq, h.orders_eq]
  rfl

theorem queue_putLevel {b' : OrderBook} {level' : PriceLevel}
    (hown : b'.levels s = putLevel (b.levels s) price level') :
    b'.abs.queue s = level'.orders.map (fun n => n.value.view) ++
      (nodesAfter (b.levels s) price).map fun n => n.value.view := by
  rw [queue_abs, hown, viewsOf_putLevel, h.nodesBefore_eq]
  rfl

end Front

/-- Replacing one level of the side that is matched. -/
theorem Matchable.of_putLevel {b b' : OrderBook} {s : BookSide} {price : Price} {level : PriceLevel}
    (hb : b.Matchable s) (hown : b'.levels s = putLevel (b.levels s) price level)
    (hother : b'.levels s.other = b.levels s.other)
    (hlevel : level.orders ≠ [] → LevelOk price level)
    (hindex : IsIndex (fun n : Node RestingOrder => n.value.id) Node.locator b'.activeOrders
      (level.orders ++ b.context s price))
    (hpos : ∀ o ∈ b'.abs.queue s, 0 < o.remainingQuantity.toNat) : b'.Matchable s where
  level_ok e he := by
    rw [hown] at he
    rcases OrderedMap.mem_put he with he | ⟨rfl, hne⟩
    · exact hb.level_ok e he
    · exact hlevel hne
  isIndex := hindex.perm (nodes_perm_of_putLevel hown hother).symm
  remaining_pos := hpos

/-! ### The loop -/

/-- What the loop has reached. -/
def Matching.progress (m : Matching) : PriorityBook.Progress :=
  ⟨m.book.abs, m.remainingQuantity, m.trades⟩

/-- What matching keeps of a book whose storage is linked. -/
structure MatchInv (s : BookSide) (m : Matching) : Prop where
  linked : m.book.Linked
  remaining_pos : ∀ o ∈ m.book.abs.queue s, 0 < o.remainingQuantity.toNat

section Step

variable {s : BookSide} (incoming : NewLimitOrder) {price : Price} {level : PriceLevel}
  {maker : Node RestingOrder} {others : List (Node RestingOrder)} {m : Matching}

/-- The iteration that fills the maker. -/
theorem matchBody_takeAll (hm : m.book.Matchable s) (hf : m.book.Front s price level maker others)
    (hle : maker.value.remainingQuantity.units ≤ m.remainingQuantity.units)
    (hid : m.book.nextTradeId ≠ 0) :
    ∃ m', matchBody s incoming price level m = .ok m' ∧ m'.book.Matchable s ∧
      m'.progress = m.progress.takeAll s incoming maker.value.view
        (others.map (fun n => n.value.view) ++
          (nodesAfter (m.book.levels s) price).map fun n => n.value.view) := by
  have hmaker : 0 < maker.value.remainingQuantity.toNat :=
    hm.remaining_pos maker.value.view (hf.queue_eq ▸ List.mem_cons_self)
  refine ⟨_, matchBody_of_le hf.orders_eq (Quantity.units_pos_iff.mpr hmaker) hle
    hf.remaining_le_total hid
    (hm.isIndex.mem_iff.mpr ⟨maker, hf.mem_nodes List.mem_cons_self, rfl⟩), ?_⟩
  generalize hb' : OrderBook.setLevels _ s _ = b'
  have hown : b'.levels s = putLevel (m.book.levels s) price
      ⟨others, ⟨level.totalQuantity.units - maker.value.remainingQuantity.units⟩⟩ := by
    rw [← hb', levels_setLevels]
  have hqueue := hf.queue_putLevel hown
  have hlevel (hne : others ≠ []) : LevelOk price
      ⟨others, ⟨level.totalQuantity.units - maker.value.remainingQuantity.units⟩⟩ := by
    refine ⟨hne, fun n hn => hf.limitPrice_eq (List.mem_cons_of_mem _ hn), ?_,
      (List.pairwise_cons.mp hf.arrivals).2⟩
    rw [Quantity.toNat_sub hf.remaining_le_total, hf.total_eq]
    exact Nat.add_sub_cancel_left _ _
  refine ⟨hm.of_putLevel hown (by subst hb'; cases s <;> rfl) hlevel ?_ fun o ho => ?_, ?_⟩
  · subst hb'
    rw [activeOrders_setLevels]
    exact (hf.isIndex hm).erase_head
  · exact hm.remaining_pos o (hf.queue_eq ▸ List.mem_cons_of_mem _ (hqueue ▸ ho))
  · unfold Matching.progress PriorityBook.Progress.takeAll
    rw [← hqueue]
    subst hb'
    cases s <;> rfl

/-- The iteration that uses up the incoming quantity. -/
theorem matchBody_takePart (hm : m.book.Matchable s) (hf : m.book.Front s price level maker others)
    (hrem : 0 < m.remainingQuantity.units)
    (hlt : m.remainingQuantity.units < maker.value.remainingQuantity.units)
    (hid : m.book.nextTradeId ≠ 0) :
    ∃ m', matchBody s incoming price level m = .ok m' ∧ m'.book.Matchable s ∧
      m'.progress = m.progress.takePart s incoming maker.value.view
        (others.map (fun n => n.value.view) ++
          (nodesAfter (m.book.levels s) price).map fun n => n.value.view) := by
  have hlt' := Quantity.units_lt_iff.mp hlt
  refine ⟨_, matchBody_of_lt hf.orders_eq hrem hlt hf.remaining_le_total hid, ?_⟩
  generalize hb' : OrderBook.setLevels _ s _ = b'
  let maker' : Node RestingOrder := { maker with value := { maker.value with remainingQuantity :=
    ⟨maker.value.remainingQuantity.units - m.remainingQuantity.units⟩ } }
  have hleft : maker'.value.remainingQuantity.toNat =
      maker.value.remainingQuantity.toNat - m.remainingQuantity.toNat :=
    Quantity.toNat_sub (UInt64.le_of_lt hlt)
  have hown : b'.levels s = putLevel (m.book.levels s) price
      ⟨maker' :: others, ⟨level.totalQuantity.units - m.remainingQuantity.units⟩⟩ := by
    rw [← hb', levels_setLevels]
  have hqueue := hf.queue_putLevel hown
  have hmaker' : maker'.value.limitPrice = price :=
    hf.limitPrice_eq (n := maker) List.mem_cons_self
  have hlevel : LevelOk price
      ⟨maker' :: others, ⟨level.totalQuantity.units - m.remainingQuantity.units⟩⟩ := by
    refine ⟨List.cons_ne_nil _ _, List.forall_mem_cons.mpr ⟨hmaker',
      fun n hn => hf.limitPrice_eq (List.mem_cons_of_mem _ hn)⟩, ?_,
      List.pairwise_cons.mpr (List.pairwise_cons.mp hf.arrivals)⟩
    have := hf.total_eq
    rw [Quantity.toNat_sub (UInt64.le_trans (UInt64.le_of_lt hlt) hf.remaining_le_total),
      total_cons, hleft]
    omega
  refine ⟨hm.of_putLevel hown (by subst hb'; cases s <;> rfl) (fun _ => hlevel) ?_ fun o ho => ?_,
    ?_⟩
  · subst hb'
    rw [activeOrders_setLevels]
    exact (hf.isIndex hm).replace_head rfl rfl
  · rw [hqueue] at ho
    rcases List.mem_cons.mp ho with rfl | ho
    · exact hleft.symm ▸ Nat.sub_pos_of_lt hlt'
    · exact hm.remaining_pos o (hf.queue_eq ▸ List.mem_cons_of_mem _ ho)
  · have hqueue' : b'.abs.queue s = maker'.value.view :: (others.map (fun n => n.value.view) ++
        (nodesAfter (m.book.levels s) price).map fun n => n.value.view) := hqueue
    unfold Matching.progress PriorityBook.Progress.takePart
    change _ = PriorityBook.Progress.mk { m.book.abs.setQueue s (maker'.value.view :: _) with
      nextTradeId := m.book.nextTradeId + 1 } _ _
    rw [← hqueue']
    subst hb'
    cases s <;> rfl

end Step

/-- The first level holds the head of the queue. -/
theorem exists_front_of_queue {b : OrderBook} {s : BookSide} (hb : b.Matchable s) {o : OrderView}
    {os : List OrderView} (h : b.abs.queue s = o :: os) :
    ∃ price level maker others, (b.levels s).front? = some (price, level) ∧
      b.Front s price level maker others ∧ maker.value.view = o ∧
      others.map (fun n => n.value.view) ++
        (nodesAfter (b.levels s) price).map (fun n => n.value.view) = os := by
  cases hfront : (b.levels s).front? with
  | none =>
    rw [queue_abs, viewsOf, nodesOf, List.head?_eq_none_iff.mp hfront] at h
    cases h
  | some e =>
    obtain ⟨maker, others, hf⟩ := hb.exists_front hfront
    have hqueue := hf.queue_eq
    rw [h, List.cons.injEq] at hqueue
    exact ⟨e.1, e.2, maker, others, rfl, hf, hqueue.1.symm, hqueue.2.symm⟩

/-- `match` ends and computes the fill of the incoming order. -/
theorem Matchable.matchLevels_spec {b : OrderBook} {s : BookSide} {incoming : NewLimitOrder}
    (hb : b.Matchable s)
    (hids : IdsAvailable b.nextTradeId ((Matching.progress ⟨b, incoming.quantity, []⟩).fill s
      incoming).trades.length) :
    ∃ m', b.matchLevels s incoming s.crosses = .ok m' ∧ m'.book.Matchable s ∧
      PriorityBook.Progress.Done s incoming (Matching.progress ⟨b, incoming.quantity, []⟩)
        m'.progress := by
  refine PriorityBook.Progress.loop_spec Matching.progress (fun m => m.book.Matchable s)
    (matchLoop s s.crosses incoming) (fun n m hm hqueue => ?_)
    (fun n m o os hm hqueue hstop => ?_) (fun n m o os hm hqueue hgo hid => ?_) hb hids
    (Or.inl ?_)
  · have hnone : (m.book.levels s).front? = none := by
      cases hfront : (m.book.levels s).front? with
      | none => rfl
      | some e =>
        obtain ⟨maker, others, hf⟩ := hm.exists_front hfront
        have hqueue : m.book.abs.queue s = [] := hqueue
        rw [hf.queue_eq] at hqueue
        cases hqueue
    rw [matchLoop, hnone]
  · obtain ⟨price, level, maker, others, hfront, hf, rfl, -⟩ :=
      exists_front_of_queue hm hqueue
    have hprice : maker.value.view.limitPrice = price := hf.limitPrice_eq List.mem_cons_self
    rw [matchLoop, hfront]
    refine if_neg fun hgo => ?_
    rcases hstop with h | h
    · exact absurd (h ▸ hgo.1) (UInt64.lt_irrefl 0)
    · exact h (hprice ▸ hgo.2)
  · obtain ⟨price, level, maker, others, hfront, hf, rfl, rfl⟩ :=
      exists_front_of_queue hm hqueue
    have hprice : maker.value.view.limitPrice = price := hf.limitPrice_eq List.mem_cons_self
    obtain ⟨hne, hcross⟩ := not_or.mp hgo
    have hrem : 0 < m.remainingQuantity.units := Quantity.units_pos_iff.mpr
      (Nat.pos_of_ne_zero (mt Quantity.units_eq_zero_iff.mpr hne))
    have hif : 0 < m.remainingQuantity.units ∧ s.crosses price incoming.limitPrice :=
      ⟨hrem, hprice ▸ not_not.mp hcross⟩
    by_cases hle : maker.value.remainingQuantity.units ≤ m.remainingQuantity.units
    · obtain ⟨m', hbody, hm', heq⟩ := matchBody_takeAll incoming hm hf hle hid
      refine ⟨m', ?_, hm', Or.inl ⟨hle, heq⟩⟩
      rw [matchLoop, hfront]
      dsimp only
      rw [if_pos hif, hbody]
    · obtain ⟨m', hbody, hm', heq⟩ := matchBody_takePart incoming hm hf hrem
        (UInt64.not_le.mp hle) hid
      refine ⟨m', ?_, hm', Or.inr ⟨UInt64.not_le.mp hle, heq⟩⟩
      rw [matchLoop, hfront]
      dsimp only
      rw [if_pos hif, hbody]
  · change (b.abs.queue s).length < _
    rw [queue_abs, viewsOf, List.length_map]
    exact Nat.lt_succ_self _

/-- Matching a book whose storage is linked leaves it linked. -/
theorem matchLevels_spec {b : OrderBook} {s : BookSide} {incoming : NewLimitOrder}
    (hb : b.Linked) (hpos : ∀ o ∈ b.abs.queue s, 0 < o.remainingQuantity.toNat)
    (hids : IdsAvailable b.nextTradeId ((Matching.progress ⟨b, incoming.quantity, []⟩).fill s
      incoming).trades.length) :
    ∃ m', b.matchLevels s incoming s.crosses = .ok m' ∧ MatchInv s m' ∧
      PriorityBook.Progress.Done s incoming (Matching.progress ⟨b, incoming.quantity, []⟩)
        m'.progress := by
  obtain ⟨m', hmatch, hm', hdone⟩ := (hb.matchable hpos).matchLevels_spec hids
  have hlinked := (matchLevels_frame hmatch).linked hb hm'.level_ok hm'.isIndex
  exact ⟨m', hmatch, ⟨hlinked, hm'.remaining_pos⟩, hdone⟩

end OrderBook

end MatchingEngine
