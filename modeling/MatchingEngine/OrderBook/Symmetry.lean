import MatchingEngine.OrderBook.Refinement
import MatchingEngine.PriorityBook.Mirror

/-!
# Buy and sell are symmetric

The book handles buy and sell orders in branches of their own, with opposite comparators. What it
does in one of them to a command, it does in the other to the mirror of the command. This holds for
the priority book that a book represents, and the orders of a side determine its levels.

## Main results

* `OrderBook.run_mirror_levels`: a mirrored history has mirrored results and leaves mirrored levels.
-/

namespace MatchingEngine

namespace OrderBook

/-- What a level shows: its price, its total, the number of its orders, and the orders from the one
that arrived first. -/
def levelView (e : Price × PriceLevel) : PriceLevelView × List OrderView :=
  (⟨e.1, e.2.totalQuantity, e.2.orders.length⟩, e.2.orders.map fun n => n.value.view)

/-- The mirror of what a level shows. -/
def mirrorView (v : PriceLevelView × List OrderView) : PriceLevelView × List OrderView :=
  ({ v.1 with price := v.1.price.mirror }, v.2.map OrderView.mirror)

variable {b b' : OrderBook}

/-- What a level shows is determined by its orders. -/
def viewOf (e : Price × List OrderView) : PriceLevelView × List OrderView :=
  (⟨e.1, ⟨UInt64.ofNat ((e.2.map fun o => o.remainingQuantity.toNat).sum)⟩, e.2.length⟩, e.2)

theorem levelView_eq (hb : b.Linked) {s : BookSide} {e : Price × PriceLevel}
    (he : e ∈ (b.levels s).entries) :
    levelView e = viewOf (e.1, e.2.orders.map fun n => n.value.view) := by
  have htotal : e.2.totalQuantity = ⟨UInt64.ofNat (total e.2.orders)⟩ := by
    rw [← (hb.level_ok s e he).total_eq]
    exact congrArg Quantity.mk UInt64.ofNat_toNat.symm
  rw [levelView, viewOf, htotal, List.length_map, List.map_map]
  rfl

theorem mirrorView_viewOf (price : Price) (orders : List OrderView) :
    mirrorView (viewOf (price, orders)) = viewOf (price.mirror, orders.map OrderView.mirror) := by
  rw [mirrorView, viewOf, viewOf, List.length_map, List.map_map]
  rfl

/-- The price of a level is valid if the prices of the orders are. -/
theorem ticks_ne_zero_of_mem_entries (hb : b.Linked) (hpriced : b.abs.Priced) {s : BookSide}
    {e : Price × PriceLevel} (he : e ∈ (b.levels s).entries) : e.1.ticks ≠ 0 := by
  obtain ⟨n, hn⟩ := List.exists_mem_of_ne_nil _ (hb.level_ok s e he).orders_ne_nil
  rw [← (hb.level_ok s e he).limitPrice_eq n hn]
  refine hpriced s n.value.view ?_
  rw [queue_abs]
  exact List.mem_map_of_mem (mem_nodesOf.mpr ⟨e, he, hn⟩)

/-- Books that represent mirrored priority books have mirrored levels. -/
theorem levels_mirror (hb : b.Linked) (hb' : b'.Linked) (hpriced : b.abs.Priced)
    (h : b'.abs = b.abs.mirror) (s : BookSide) :
    (b'.levels s.other).entries.map levelView =
      (b.levels s).entries.map fun e => mirrorView (levelView e) := by
  have hlt : ∀ a ∈ (b.levels s).entries, ∀ c ∈ (b.levels s).entries, s.lt a.1 c.1 →
      s.other.lt a.1.mirror c.1.mirror := fun a ha c hc =>
    (BookSide.lt_mirror (ticks_ne_zero_of_mem_entries hb hpriced ha)
      (ticks_ne_zero_of_mem_entries hb hpriced hc)).mpr
  have hflat : (b'.levels s.other).flat (fun level => level.orders.map fun n => n.value.view) =
      ((b.levels s).mapKeys Price.mirror hlt).flat
        fun level => level.orders.map fun n => n.value.view.mirror := by
    have hqueue := congrArg (fun p => p.queue s.other) h
    rw [PriorityBook.queue_mirror, BookSide.other_other, queue_abs, queue_abs, viewsOf, viewsOf,
      List.map_map, nodesOf, nodesOf, List.map_flatMap, List.map_flatMap] at hqueue
    rw [OrderedMap.flat_mapKeys]
    exact hqueue
  have hbucketed : ((b.levels s).mapKeys Price.mirror hlt).Bucketed
      (fun level => level.orders.map fun n => n.value.view.mirror) fun o => o.limitPrice :=
    (hb.bucketed s).mapKeys hlt fun _ => rfl
  have hbuckets := congrArg (List.map viewOf)
    ((hb'.bucketed_views s.other).eq_of_flat_eq hbucketed hflat)
  rw [OrderedMap.mapKeys, List.map_map, List.map_map, List.map_map] at hbuckets
  refine Eq.trans (List.map_congr_left fun e he => ?_) (hbuckets.trans
    (List.map_congr_left fun e he => ?_))
  · rw [levelView_eq hb' he]
    rfl
  · rw [levelView_eq hb he, mirrorView_viewOf, List.map_map]
    rfl

/-- After any history and after its mirror, a fresh book has given mirrored results to every command
and has mirrored levels. -/
theorem run_mirror_levels (commands : List JournalCommand) :
    ∃ results b b', fresh.run commands = .ok (results, b) ∧
      fresh.run (commands.map JournalCommand.mirror) =
        .ok (results.map BatchCommandResult.mirror, b') ∧
      ∀ s, (b'.levels s.other).entries.map levelView =
        (b.levels s).entries.map fun e => mirrorView (levelView e) := by
  obtain ⟨b, hrun, hinv, habs⟩ := run_refines fresh_inv commands
  obtain ⟨b', hrun', hinv', habs'⟩ := run_refines fresh_inv (commands.map JournalCommand.mirror)
  have hmirror := PriorityBook.run_mirror PriorityBook.fresh_wellFormed PriorityBook.priced_fresh
    commands
  have hpriced : b.abs.Priced := by
    rw [habs]
    exact PriorityBook.run_priced PriorityBook.priced_fresh commands
  refine ⟨_, b, b', hrun, ?_, levels_mirror hinv.linked hinv'.linked hpriced ?_⟩
  · rw [hrun']
    exact congrArg (fun r => Except.ok (r.1, b')) hmirror
  · rw [habs', habs]
    exact congrArg Prod.snd hmirror

end OrderBook

end MatchingEngine
