import MatchingEngine.OrderBook.Valid
import MatchingEngine.ReferenceBook.Refinement

/-!
# The order book agrees with its oracle

Both books refine the priority book, so a sequence of commands has the same results on both and
leaves them in states that represent the same priority book. The queries only depend on that: an
order is found by its identifier, the number of active orders is the length of the queues, and the
levels are the buckets into which prices divide a queue.

## Main results

* `ReferenceBook.find_eq`, `ReferenceBook.views_eq`: queries read off the priority book.
* `ReferenceBook.run_agrees`: results and queries agree after every sequence of commands.
-/

namespace MatchingEngine

open PriorityBook (total)

namespace ReferenceBook

/-! ### Active orders -/

theorem find_eq {r : ReferenceBook} (hr : r.Inv) (id : OrderId) : r.find id = r.abs.find id := by
  unfold find
  cases hl : r.activeOrders.lookup id with
  | none =>
    refine (List.find?_eq_none.mpr fun o ho heq => ?_).symm
    have := Finmap.lookup_eq_none.mp hl
    exact this (hr.linked.isIndex.mem_iff.mpr ⟨o, ho, of_decide_eq_true heq⟩)
  | some v =>
    obtain ⟨o, ho, rfl, rfl⟩ := (hr.linked.isIndex.lookup_iff id v).mp hl
    exact (hr.wellFormed.find_eq_some ho).symm

theorem activeOrderCount_eq {r : ReferenceBook} (hr : r.Inv) :
    r.activeOrderCount = r.abs.orders.length :=
  hr.linked.isIndex.card_keys

/-! ### Levels -/

/-- The view of a level that holds the given orders. -/
def viewOf (e : Price × List OrderView) : PriceLevelView :=
  ⟨e.1, ⟨UInt64.ofNat (total e.2)⟩, e.2.length⟩

theorem totalQuantity_eq {q : Quantity} {n : ℕ} (h : q.toNat = n) : q = ⟨UInt64.ofNat n⟩ := by
  subst h
  exact congrArg Quantity.mk UInt64.ofNat_toNat.symm

variable {b : OrderBook} {r : ReferenceBook}

/-- Books that represent the same priority book show the same levels. -/
theorem views_eq (hb : b.Linked) (hr : r.Linked) (h : b.abs = r.abs) (s : BookSide) :
    (b.levels s).entries.map
        (fun e => PriceLevelView.mk e.1 e.2.totalQuantity e.2.orders.length) =
      (r.levels s).entries.map
        fun e => PriceLevelView.mk e.1 e.2.totalQuantity e.2.orders.length := by
  have hflat : (b.levels s).flat (fun level => level.orders.map fun n => n.value.view) =
      (r.levels s).flat Level.orders := by
    have hqueue := congrArg (fun p => p.queue s) h
    rw [OrderBook.queue_abs, queue_abs, OrderBook.viewsOf, OrderBook.nodesOf,
      List.map_flatMap] at hqueue
    exact hqueue
  have hbuckets :=
    congrArg (List.map viewOf) ((hb.bucketed_views s).eq_of_flat_eq (hr.bucketed s) hflat)
  rw [List.map_map, List.map_map] at hbuckets
  refine Eq.trans (List.map_congr_left fun e he => ?_) (hbuckets.trans
    (List.map_congr_left fun e he => ?_))
  · have htotal := totalQuantity_eq (hb.level_ok s e he).total_eq
    rw [Function.comp_apply, viewOf, List.length_map, htotal, OrderBook.total, total, List.map_map]
    rfl
  · have htotal := totalQuantity_eq (hr.level_ok s e he).total_eq
    rw [Function.comp_apply, viewOf, htotal]

theorem bestOf_eq (hb : b.Linked) (hr : r.Linked) (h : b.abs = r.abs) (s : BookSide) :
    OrderBook.bestOf (b.levels s) = bestFrom (r.levels s) := by
  have hhead := congrArg (fun vs => vs.head?.map fun v => Quote.mk v.price v.totalQuantity)
    (views_eq hb hr h s)
  rw [List.head?_map, List.head?_map, Option.map_map, Option.map_map] at hhead
  exact hhead

/-- No book has more levels than `max_levels` can be. -/
theorem length_entries_le (hb : b.Inv) (s : BookSide) :
    (b.levels s).entries.length ≤ maxWord.toNat := by
  have hlevels : (b.levels s).entries.length ≤ (OrderBook.nodesOf (b.levels s)).length := by
    have hle := List.length_le_sum_of_one_le ((b.levels s).entries.map fun e => e.2.orders.length)
      (List.forall_mem_map.mpr fun e he =>
        List.length_pos_iff.mpr (hb.linked.level_ok s e he).orders_ne_nil)
    rwa [List.length_map, ← List.length_flatMap] at hle
  have hqueue := b.abs.queue_length_le s
  rw [OrderBook.queue_abs, OrderBook.viewsOf, List.length_map] at hqueue
  have hle := hb.wellFormed.orders_length_le
  have hlt := OrderId.card_lt hb.wellFormed.zero_notMem_seen
  rw [maxWord_toNat]
  omega

theorem depth_eq (hb : b.Inv) (hr : r.Linked) (h : b.abs = r.abs) (side : Side) :
    b.depth side maxWord.toNat = r.depth side := by
  have hfrom (s : BookSide) : OrderBook.depthFrom (b.levels s) maxWord.toNat =
      depthFrom (r.levels s) := by
    rw [OrderBook.depthFrom, List.take_of_length_le (length_entries_le hb s)]
    exact views_eq hb.linked hr h s
  unfold OrderBook.depth depth isValidSide
  by_cases hbuy : side = .buy
  · rw [if_neg (by simp [hbuy, maxWord_toNat]), if_pos hbuy, if_pos hbuy]
    exact hfrom .bids
  · by_cases hsell : side = .sell
    · rw [if_neg (by simp [hsell, maxWord_toNat]), if_neg hbuy, if_neg hbuy, if_pos hsell]
      exact hfrom .asks
    · rw [if_pos (by simp [hbuy, hsell]), if_neg hbuy, if_neg hsell]

/-- A sequence of commands applied to a fresh order book and to a fresh oracle returns on both, with
the same results, and afterwards the best quotes, the depth of both sides without a limit, the
number of active orders and the order found under every identifier agree. -/
theorem run_agrees (commands : List JournalCommand) :
    ∃ results b r, OrderBook.fresh.run commands = .ok (results, b) ∧
      ReferenceBook.fresh.run commands = .ok (results, r) ∧
      b.bestBid = r.bestBid ∧ b.bestAsk = r.bestAsk ∧
      (∀ side, b.depth side maxWord.toNat = r.depth side) ∧
      b.activeOrderCount = r.activeOrderCount ∧ ∀ id, b.find id = .ok (r.find id) := by
  obtain ⟨b, hrun, hb, habs⟩ := OrderBook.run_refines OrderBook.fresh_inv commands
  obtain ⟨r, hrun', hr, habs'⟩ := run_refines fresh_inv commands
  have h : b.abs = r.abs := habs.trans habs'.symm
  refine ⟨_, b, r, hrun, hrun', bestOf_eq hb.linked hr.linked h .bids,
    bestOf_eq hb.linked hr.linked h .asks, depth_eq hb hr.linked h, ?_, fun id => ?_⟩
  · rw [OrderBook.activeOrderCount_eq hb, activeOrderCount_eq hr, h]
  · rw [OrderBook.find_eq hb, find_eq hr, h]

end ReferenceBook

end MatchingEngine
