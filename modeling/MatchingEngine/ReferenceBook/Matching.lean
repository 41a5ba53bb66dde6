import MatchingEngine.OrderBook.Refinement
import MatchingEngine.ReferenceBook.Basic

/-!
# The reference book computes the greedy fill

The oracle keeps every order twice, in the queue of its level and in `activeOrders`. The invariant
says that the two copies agree, that the aggregates are exact, and that the flat queues form a
well-formed priority book. The planning loop and the matching loops of the oracle then compute the
same fill as those of the order book.

## Main definitions

* `ReferenceBook.abs`, `ReferenceBook.Linked`, `ReferenceBook.Inv`.

## Main results

* `ReferenceBook.previewLevels_eq`: the plan is the outcome of the fill.
* `ReferenceBook.matchSide_spec`: matching ends, and what it leaves.
-/

namespace MatchingEngine

open PriorityBook (fill fill_cons_of_stop fill_cons_of_le fill_cons_of_not_le IdsAvailable total)

namespace ReferenceBook

/-! ### Reading and writing one side -/

section Levels

variable (r : ReferenceBook) (s : BookSide) (l : Levels s)

@[simp] theorem levels_setLevels : (r.setLevels s l).levels s = l := by
  cases s <;> rfl

@[simp] theorem activeOrders_setLevels : (r.setLevels s l).activeOrders = r.activeOrders := by
  cases s <;> rfl

@[simp] theorem nextTradeId_setLevels : (r.setLevels s l).nextTradeId = r.nextTradeId := by
  cases s <;> rfl

end Levels

/-! ### The invariant -/

/-- The orders of one map in the order in which they are matched. -/
abbrev ordersOf {s : BookSide} (l : Levels s) : List OrderView := l.flat Level.orders

/-- The priority book that a reference book represents. -/
def abs (r : ReferenceBook) : PriorityBook where
  bids := ordersOf r.bids
  asks := ordersOf r.asks
  seenOrderIds := r.seenIds
  nextArrivalSequence := r.nextArrivalSequence
  nextTradeId := r.nextTradeId

theorem queue_abs (r : ReferenceBook) (s : BookSide) : r.abs.queue s = ordersOf (r.levels s) := by
  cases s <;> rfl

/-- A level stored at a price holds orders of that price and knows their exact total. -/
structure LevelOk (price : Price) (level : Level) : Prop where
  orders_ne_nil : level.orders ≠ []
  limitPrice_eq : ∀ o ∈ level.orders, o.limitPrice = price
  total_eq : level.totalQuantity.toNat = total level.orders

/-- The levels are correct, and the second copy of every order agrees with the first. -/
structure Linked (r : ReferenceBook) : Prop where
  level_ok : ∀ s, ∀ e ∈ (r.levels s).entries, LevelOk e.1 e.2
  isIndex : IsIndex (fun o : OrderView => o.id) id r.activeOrders r.abs.orders

/-- The representation invariant of the oracle. -/
structure Inv (r : ReferenceBook) : Prop where
  linked : r.Linked
  wellFormed : r.abs.WellFormed

theorem fresh_inv : fresh.Inv where
  linked := ⟨fun s => by cases s <;> simp [levels, fresh], .empty⟩
  wellFormed := PriorityBook.fresh_wellFormed

/-! ### The orders of a map around one price -/

/-- The level stored at a price, or an empty one. -/
def levelAt {s : BookSide} (l : Levels s) (price : Price) : Level := (l.find? price).getD .new

theorem bucket_eq {s : BookSide} (l : Levels s) (price : Price) :
    l.bucket Level.orders price = (levelAt l price).orders := by
  unfold levelAt OrderedMap.bucket
  cases l.find? price <;> rfl

/-- The orders that are not stored at the given price of the given side. -/
def context (r : ReferenceBook) (s : BookSide) (price : Price) : List OrderView :=
  (r.levels s).flatBefore Level.orders price ++ (r.levels s).flatAfter Level.orders price ++
    r.abs.queue s.other

theorem perm_context (before orders after other : List OrderView) :
    (before ++ orders ++ after ++ other).Perm (orders ++ (before ++ after ++ other)) := by
  simpa only [List.append_assoc] using
    (List.perm_append_comm : (before ++ orders).Perm (orders ++ before)).append_right
      (after ++ other)

theorem orders_perm_context (r : ReferenceBook) (s : BookSide) (price : Price) :
    r.abs.orders.Perm ((levelAt (r.levels s) price).orders ++ r.context s price) := by
  refine (r.abs.orders_perm s).trans ?_
  rw [queue_abs r s, ordersOf, (r.levels s).flat_eq Level.orders price, bucket_eq]
  exact perm_context ..

section Replace

variable {r r' : ReferenceBook}

/-- Replacing one level keeps the storage linked if the new level is correct and the second copies
follow the change. -/
theorem Linked.of_put (hr : r.Linked) (s : BookSide) (price : Price) (level : Level)
    (hown : r'.levels s = (r.levels s).put Level.orders price level)
    (hother : r'.levels s.other = r.levels s.other)
    (hlevel : level.orders ≠ [] → LevelOk price level)
    (hindex : IsIndex (fun o : OrderView => o.id) id r'.activeOrders
      (level.orders ++ r.context s price)) : r'.Linked := by
  refine ⟨fun t e he => ?_, hindex.perm ?_⟩
  · rcases s.eq_or_eq_other t with rfl | rfl
    · rw [hown] at he
      rcases OrderedMap.mem_put he with he | ⟨rfl, hne⟩
      · exact hr.level_ok _ e he
      · exact hlevel hne
    · rw [hother] at he
      exact hr.level_ok _ e he
  · refine ((r'.abs.orders_perm s).trans ?_).symm
    rw [queue_abs r' s, queue_abs r' s.other, hown, hother, ordersOf, OrderedMap.flat_put,
      context, queue_abs r s.other]
    exact perm_context ..

end Replace

namespace Linked

variable {r : ReferenceBook} (hr : r.Linked) {s : BookSide} {price : Price}
include hr

theorem bucketed (s : BookSide) :
    (r.levels s).Bucketed Level.orders fun o : OrderView => o.limitPrice :=
  ⟨fun e he => (hr.level_ok s e he).orders_ne_nil, fun e he => (hr.level_ok s e he).limitPrice_eq⟩

theorem limitPrice_of_mem_levelAt {o : OrderView}
    (ho : o ∈ (levelAt (r.levels s) price).orders) : o.limitPrice = price :=
  (hr.bucketed s).key_eq_of_mem_bucket (bucket_eq (r.levels s) price ▸ ho)

theorem levelAt_cases (s : BookSide) (price : Price) :
    (levelAt (r.levels s) price = .new ∧ (r.levels s).find? price = none) ∨
    (r.levels s).find? price = some (levelAt (r.levels s) price) ∧
      LevelOk price (levelAt (r.levels s) price) := by
  unfold levelAt
  cases hf : (r.levels s).find? price with
  | none => exact Or.inl ⟨rfl, rfl⟩
  | some level => exact Or.inr ⟨rfl, hr.level_ok s _ (OrderedMap.mem_of_find?_some hf)⟩

theorem total_levelAt : (levelAt (r.levels s) price).totalQuantity.toNat =
    total (levelAt (r.levels s) price).orders := by
  rcases hr.levelAt_cases s price with ⟨h, -⟩ | ⟨-, h⟩
  · rw [h]
    rfl
  · exact h.total_eq

/-- The aggregate of a level is the total of the priority book at its price. -/
theorem levelTotal_abs : r.abs.levelTotal s price =
    (levelAt (r.levels s) price).totalQuantity.toNat := by
  rw [PriorityBook.levelTotal, queue_abs, (hr.bucketed s).filter_flat, bucket_eq,
    hr.total_levelAt, total]

end Linked

/-! ### Planning -/

section Preview

variable (crosses : Price → Bool) (taker : OrderId)

theorem previewOrders_eq {makers : List OrderView} {plan : MatchPlan} (next : UInt64)
    (hcross : ∀ o ∈ makers, crosses o.limitPrice)
    (hremaining : ∀ o ∈ makers, 0 < o.remainingQuantity.toNat)
    (hpos : 0 < plan.remainingQuantity.units)
    (hcount : plan.tradeCount + plan.remainingQuantity.toNat < 2 ^ 64) :
    previewOrders makers plan =
      let f := fill crosses taker next plan.remainingQuantity makers
      ⟨f.remaining, plan.tradeCount + f.trades.length⟩ := by
  induction makers generalizing plan next with
  | nil => simp [previewOrders, fill]
  | cons maker makers ih =>
    obtain ⟨hmaker, hmakers⟩ := List.forall_mem_cons.mp hcross
    have hne : plan.remainingQuantity.units ≠ 0 := fun h => absurd (h ▸ hpos) (by decide)
    have hgo : ¬ (plan.remainingQuantity.units = 0 ∨ ¬ crosses maker.limitPrice) := by
      simpa [hne] using hmaker
    obtain ⟨hfirst, hothers⟩ := List.forall_mem_cons.mp hremaining
    have hpos' := Quantity.units_pos_iff.mp hpos
    rw [previewOrders, Nat.mod_eq_of_lt (by omega)]
    by_cases hle : maker.remainingQuantity.units ≤ plan.remainingQuantity.units
    · rw [fill_cons_of_le hgo hle]
      simp only [UInt64.min_eq_right_of_le hle]
      split
      · next hz => simp [PriorityBook.fill_of_zero, hz]
      · next hz =>
        have hcount' : plan.tradeCount + 1 + (Quantity.mk (plan.remainingQuantity.units -
            maker.remainingQuantity.units)).toNat < 2 ^ 64 := by
          rw [Quantity.toNat_sub hle]
          omega
        rw [ih (next + 1) hmakers hothers (Quantity.units_pos_iff.mpr (Nat.pos_of_ne_zero
          (mt Quantity.units_eq_zero_iff.mpr hz))) hcount']
        simp only [List.length_cons, Nat.add_assoc, Nat.add_comm 1]
    · have hle' : plan.remainingQuantity.units ≤ maker.remainingQuantity.units :=
        UInt64.le_of_lt (UInt64.not_le.mp hle)
      rw [fill_cons_of_not_le hgo hle]
      simp [UInt64.min_eq_left_of_le hle']

theorem previewLevels_eq {crosses : Price → Price → Bool} {incomingPrice : Price}
    {es : List (Price × Level)} {plan : MatchPlan} (next : UInt64)
    (hok : ∀ e ∈ es, LevelOk e.1 e.2)
    (hremaining : ∀ e ∈ es, ∀ o ∈ e.2.orders, 0 < o.remainingQuantity.toNat)
    (hcount : plan.tradeCount + plan.remainingQuantity.toNat < 2 ^ 64) :
    previewLevels crosses incomingPrice es plan =
      let f := fill (fun price => crosses price incomingPrice) taker next
        plan.remainingQuantity (es.flatMap fun e => e.2.orders)
      ⟨f.remaining, plan.tradeCount + f.trades.length⟩ := by
  induction es generalizing plan next with
  | nil => simp [previewLevels, fill]
  | cons e es ih =>
    obtain ⟨price, level⟩ := e
    obtain ⟨hlevel, hok'⟩ := List.forall_mem_cons.mp hok
    obtain ⟨hfirst, hothers⟩ := List.forall_mem_cons.mp hremaining
    rw [previewLevels, List.flatMap_cons]
    by_cases hstop : plan.remainingQuantity.units = 0 ∨ ¬ crosses price incomingPrice
    · rw [if_pos hstop]
      obtain ⟨o, os, hos⟩ := List.exists_cons_of_ne_nil hlevel.orders_ne_nil
      have hprice : o.limitPrice = price := hlevel.limitPrice_eq o (hos ▸ List.mem_cons_self)
      rw [hos, List.cons_append, fill_cons_of_stop (hprice ▸ hstop)]
      simp
    · have hpos : 0 < plan.remainingQuantity.units := Quantity.units_pos_iff.mpr
        (Nat.pos_of_ne_zero (mt Quantity.units_eq_zero_iff.mpr (not_or.mp hstop).1))
      have hcross : ∀ o ∈ level.orders, crosses o.limitPrice incomingPrice :=
        fun o ho => by rw [hlevel.limitPrice_eq o ho]; exact not_not.mp (not_or.mp hstop).2
      have hlen := (PriorityBook.fill_filling (fun price => crosses price incomingPrice) taker next
        plan.remainingQuantity level.orders).length_add_remaining_le hfirst
      rw [if_neg hstop, previewOrders_eq (fun price => crosses price incomingPrice) taker next
        hcross hfirst hpos hcount, PriorityBook.fill_append hcross]
      generalize fill (fun price => crosses price incomingPrice) taker next
        plan.remainingQuantity level.orders = f at hlen ⊢
      dsimp only
      rw [ih (next + UInt64.ofNat f.trades.length) hok' hothers (by dsimp only; omega)]
      simp only [List.length_append, Nat.add_assoc]

end Preview

/-! ### Matching -/

/-- What the loop has reached. -/
def Matching.progress (m : Matching) : PriorityBook.Progress := ⟨m.book.abs, m.remaining, m.trades⟩

/-- What every iteration keeps on the side that is matched. -/
structure MatchInv (s : BookSide) (m : Matching) : Prop where
  linked : m.book.Linked
  remaining_pos : ∀ o ∈ m.book.abs.queue s, 0 < o.remainingQuantity.toNat

/-- The first level of a map: its orders, and where they stand in the queue of the side. -/
structure Front (r : ReferenceBook) (s : BookSide) (price : Price) (level : Level)
    (maker : OrderView) (others : List OrderView) : Prop where
  front_eq : (r.levels s).front? = some (price, level)
  orders_eq : level.orders = maker :: others
  level_ok : LevelOk price level
  levelAt_eq : levelAt (r.levels s) price = level
  flatBefore_eq : (r.levels s).flatBefore Level.orders price = []

/-- The first level holds the head of the queue. -/
theorem exists_front {r : ReferenceBook} {s : BookSide} (hr : r.Linked) {o : OrderView}
    {os : List OrderView} (h : r.abs.queue s = o :: os) :
    ∃ price level others, r.Front s price level o others ∧
      others ++ (r.levels s).flatAfter Level.orders price = os := by
  rw [queue_abs] at h
  cases hes : (r.levels s).entries with
  | nil =>
    rw [ordersOf, OrderedMap.flat, hes] at h
    cases h
  | cons e es =>
    have hok := hr.level_ok s e (hes ▸ List.mem_cons_self)
    obtain ⟨maker, others, horders⟩ := List.exists_cons_of_ne_nil hok.orders_ne_nil
    have hat : levelAt (r.levels s) e.1 = e.2 := by
      rw [levelAt, OrderedMap.find?_of_entries_cons hes, Option.getD_some]
    have hbefore : (r.levels s).flatBefore Level.orders e.1 = [] := by
      rw [OrderedMap.flatBefore, OrderedMap.before_of_entries_cons hes, List.flatMap_nil]
    rw [ordersOf, OrderedMap.flat_eq _ _ e.1, hbefore, bucket_eq, hat, horders] at h
    obtain ⟨rfl, hos⟩ := List.cons.inj h
    exact ⟨e.1, e.2, others, ⟨by rw [OrderedMap.front?, hes]; rfl, horders, hok, hat, hbefore⟩, hos⟩

namespace Front

variable {r : ReferenceBook} {s : BookSide} {price : Price} {level : Level} {maker : OrderView}
  {others : List OrderView} (h : r.Front s price level maker others)
include h

theorem limitPrice_eq {o : OrderView} (ho : o ∈ maker :: others) : o.limitPrice = price :=
  h.level_ok.limitPrice_eq o (h.orders_eq ▸ ho)

theorem total_eq : level.totalQuantity.toNat = maker.remainingQuantity.toNat + total others := by
  rw [h.level_ok.total_eq, h.orders_eq, PriorityBook.total_cons]

theorem remaining_le_total : maker.remainingQuantity.units ≤ level.totalQuantity.units := by
  rw [Quantity.units_le_iff, h.total_eq]
  exact Nat.le_add_right _ _

theorem isIndex (hr : r.Linked) : IsIndex (fun o : OrderView => o.id) id r.activeOrders
    (maker :: (others ++ r.context s price)) := by
  have := hr.isIndex.perm (r.orders_perm_context s price)
  rwa [h.levelAt_eq, h.orders_eq] at this

theorem queue_put {r' : ReferenceBook} {level' : Level}
    (hown : r'.levels s = (r.levels s).put Level.orders price level') :
    r'.abs.queue s = level'.orders ++ (r.levels s).flatAfter Level.orders price := by
  rw [queue_abs, hown, ordersOf, OrderedMap.flat_put, h.flatBefore_eq, List.nil_append]

theorem queue_eq : r.abs.queue s =
    maker :: (others ++ (r.levels s).flatAfter Level.orders price) := by
  rw [queue_abs, ordersOf, OrderedMap.flat_eq _ _ price, h.flatBefore_eq, bucket_eq, h.levelAt_eq,
    h.orders_eq]
  rfl

end Front

section Step

variable {s : BookSide} (incoming : NewLimitOrder) {price : Price} {level : Level}
  {maker : OrderView} {others : List OrderView} {m : Matching}

/-- The iteration that fills the maker. -/
theorem matchBody_takeAll (hm : MatchInv s m) (hf : m.book.Front s price level maker others)
    (hle : maker.remainingQuantity.units ≤ m.remaining.units) :
    ∃ m', matchBody s incoming price level m = .ok m' ∧ MatchInv s m' ∧
      m'.progress = m.progress.takeAll s incoming maker
        (others ++ (m.book.levels s).flatAfter Level.orders price) := by
  let level' : Level :=
    ⟨others, ⟨level.totalQuantity.units - maker.remainingQuantity.units⟩⟩
  let book : ReferenceBook := { m.book with
    nextTradeId := m.book.nextTradeId + 1
    activeOrders := m.book.activeOrders.erase maker.id }
  let r' : ReferenceBook := book.setLevels s ((m.book.levels s).put Level.orders price level')
  have hown : r'.levels s = (m.book.levels s).put Level.orders price level' :=
    levels_setLevels ..
  have hqueue := hf.queue_put hown
  refine ⟨⟨r', ⟨m.remaining.units - maker.remainingQuantity.units⟩,
    m.trades ++ [m.progress.trade incoming maker maker.remainingQuantity]⟩, ?_, ⟨?_, ?_⟩, ?_⟩
  · unfold matchBody
    rw [hf.orders_eq]
    dsimp only
    rw [UInt64.min_eq_right_of_le hle, UInt64.sub_self, if_pos rfl]
    change _ = Except.ok (Matching.mk (book.setLevels s (OrderedMap.put ..)) _ _)
    rw [OrderedMap.put]
    cases s <;> dsimp only [levels] <;> split <;> rfl
  · refine hm.linked.of_put s price level' hown (by cases s <;> rfl) (fun hne => ⟨hne, ?_, ?_⟩) ?_
    · exact fun o ho => hf.limitPrice_eq (List.mem_cons_of_mem _ ho)
    · rw [Quantity.toNat_sub hf.remaining_le_total, hf.total_eq]
      exact Nat.add_sub_cancel_left _ _
    · rw [show r'.activeOrders = m.book.activeOrders.erase maker.id from
        activeOrders_setLevels ..]
      exact (hf.isIndex hm.linked).erase_head
  · exact fun o ho => hm.remaining_pos o (hf.queue_eq ▸ List.mem_cons_of_mem _ (hqueue ▸ ho))
  · unfold Matching.progress PriorityBook.Progress.takeAll
    rw [← hqueue]
    cases s <;> rfl

/-- The iteration that uses up the incoming quantity, and patches the second copy of the maker. -/
theorem matchBody_takePart (hm : MatchInv s m) (hf : m.book.Front s price level maker others)
    (hlt : m.remaining.units < maker.remainingQuantity.units) :
    ∃ m', matchBody s incoming price level m = .ok m' ∧ MatchInv s m' ∧
      m'.progress = m.progress.takePart s incoming maker
        (others ++ (m.book.levels s).flatAfter Level.orders price) := by
  have hlt' := Quantity.units_lt_iff.mp hlt
  let maker' : OrderView := { maker with
    remainingQuantity := ⟨maker.remainingQuantity.units - m.remaining.units⟩ }
  have hleft : maker'.remainingQuantity.toNat =
      maker.remainingQuantity.toNat - m.remaining.toNat :=
    Quantity.toNat_sub (UInt64.le_of_lt hlt)
  have hne : maker'.remainingQuantity.units ≠ 0 := by
    rw [Ne, Quantity.units_eq_zero_iff, hleft]
    omega
  let level' : Level := ⟨maker' :: others, ⟨level.totalQuantity.units - m.remaining.units⟩⟩
  let book : ReferenceBook := { m.book with
    nextTradeId := m.book.nextTradeId + 1
    activeOrders := m.book.activeOrders.insert maker.id maker' }
  let r' : ReferenceBook := book.setLevels s ((m.book.levels s).put Level.orders price level')
  have hown : r'.levels s = (m.book.levels s).put Level.orders price level' :=
    levels_setLevels ..
  have hqueue : r'.abs.queue s = maker' ::
      (others ++ (m.book.levels s).flatAfter Level.orders price) := hf.queue_put hown
  have hlookup : m.book.activeOrders.lookup maker.id = some maker :=
    ((hf.isIndex hm.linked).lookup_iff maker.id maker).mpr ⟨maker, List.mem_cons_self, rfl, rfl⟩
  refine ⟨⟨r', ⟨0⟩, m.trades ++ [m.progress.trade incoming maker m.remaining]⟩, ?_, ⟨?_, ?_⟩, ?_⟩
  · unfold matchBody
    rw [hf.orders_eq]
    dsimp only
    rw [UInt64.min_eq_left_of_le (UInt64.le_of_lt hlt), if_neg hne, hlookup, UInt64.sub_self]
    change _ = Except.ok (Matching.mk (book.setLevels s (OrderedMap.put ..)) _ _)
    rw [OrderedMap.put]
    cases s <;> rfl
  · refine hm.linked.of_put s price level' hown (by cases s <;> rfl)
      (fun _ => ⟨List.cons_ne_nil _ _, List.forall_mem_cons.mpr ⟨?_, ?_⟩, ?_⟩) ?_
    · exact hf.limitPrice_eq (o := maker) List.mem_cons_self
    · exact fun o ho => hf.limitPrice_eq (List.mem_cons_of_mem _ ho)
    · have := hf.total_eq
      rw [Quantity.toNat_sub (UInt64.le_trans (UInt64.le_of_lt hlt) hf.remaining_le_total),
        PriorityBook.total_cons, hleft]
      omega
    · rw [show r'.activeOrders = m.book.activeOrders.insert maker.id maker' from
        activeOrders_setLevels ..]
      exact (hf.isIndex hm.linked).update_head maker' rfl
  · intro o ho
    rw [hqueue] at ho
    rcases List.mem_cons.mp ho with rfl | ho
    · exact hleft.symm ▸ Nat.sub_pos_of_lt hlt'
    · exact hm.remaining_pos o (hf.queue_eq ▸ List.mem_cons_of_mem _ ho)
  · unfold Matching.progress PriorityBook.Progress.takePart
    change _ = PriorityBook.Progress.mk { m.book.abs.setQueue s (maker' :: _) with
      nextTradeId := m.book.nextTradeId + 1 } _ _
    rw [← hqueue]
    cases s <;> rfl

end Step

/-- `match_buy` and `match_sell` end and compute the fill of the incoming order. -/
theorem matchSide_spec {r : ReferenceBook} {s : BookSide} {incoming : NewLimitOrder}
    (hr : r.Linked) (hpos : ∀ o ∈ r.abs.queue s, 0 < o.remainingQuantity.toNat)
    (hids : IdsAvailable r.nextTradeId ((Matching.progress ⟨r, incoming.quantity, []⟩).fill s
      incoming).trades.length) :
    ∃ m', r.matchSide s s.crosses incoming = .ok m' ∧ MatchInv s m' ∧
      PriorityBook.Progress.Done s incoming (Matching.progress ⟨r, incoming.quantity, []⟩)
        m'.progress := by
  refine PriorityBook.Progress.loop_spec Matching.progress (MatchInv s)
    (matchLoop s s.crosses incoming) (fun n m hm hqueue => ?_)
    (fun n m o os hm hqueue hstop => ?_) (fun n m o os hm hqueue hgo _ => ?_) ⟨hr, hpos⟩ hids
    (Or.inl ?_)
  · have hnone : (m.book.levels s).front? = none := by
      have hqueue : m.book.abs.queue s = [] := hqueue
      rw [queue_abs, ordersOf, OrderedMap.flat, List.flatMap_eq_nil_iff] at hqueue
      rw [OrderedMap.front?, List.head?_eq_none_iff, List.eq_nil_iff_forall_not_mem]
      exact fun e he => (hm.linked.level_ok s e he).orders_ne_nil (hqueue e he)
    rw [matchLoop, hnone]
  · obtain ⟨price, level, others, hf, -⟩ := exists_front hm.linked hqueue
    have hprice : o.limitPrice = price := hf.limitPrice_eq List.mem_cons_self
    rw [matchLoop, hf.front_eq]
    refine if_neg fun hgo => ?_
    rcases hstop with h | h
    · exact absurd (h ▸ hgo.1) (UInt64.lt_irrefl 0)
    · exact h (hprice ▸ hgo.2)
  · obtain ⟨price, level, others, hf, rfl⟩ := exists_front hm.linked hqueue
    have hprice : o.limitPrice = price := hf.limitPrice_eq List.mem_cons_self
    obtain ⟨hne, hcross⟩ := not_or.mp hgo
    have hif : 0 < m.remaining.units ∧ s.crosses price incoming.limitPrice :=
      ⟨Quantity.units_pos_iff.mpr (Nat.pos_of_ne_zero (mt Quantity.units_eq_zero_iff.mpr hne)),
        hprice ▸ not_not.mp hcross⟩
    by_cases hle : o.remainingQuantity.units ≤ m.remaining.units
    · obtain ⟨m', hbody, hm', heq⟩ := matchBody_takeAll incoming hm hf hle
      refine ⟨m', ?_, hm', Or.inl ⟨hle, heq⟩⟩
      rw [matchLoop, hf.front_eq]
      dsimp only
      rw [if_pos hif, hbody]
    · obtain ⟨m', hbody, hm', heq⟩ := matchBody_takePart incoming hm hf
        (UInt64.not_le.mp hle)
      refine ⟨m', ?_, hm', Or.inr ⟨UInt64.not_le.mp hle, heq⟩⟩
      rw [matchLoop, hf.front_eq]
      dsimp only
      rw [if_pos hif, hbody]
  · change (r.abs.queue s).length < _
    rw [queue_abs]
    exact Nat.lt_succ_self _

end ReferenceBook

end MatchingEngine
