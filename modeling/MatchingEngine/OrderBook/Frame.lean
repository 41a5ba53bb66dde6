import MatchingEngine.OrderBook.History
import MatchingEngine.PriorityBook.Crossing

/-!
# What an accepted order leaves alone

The refinement describes a book by the views of its orders. Here the list nodes themselves are
followed through `match` and `insert_resting_order`: a node that is not traded with keeps its
address and everything it holds, and it keeps its place among the others.

The nodes that `match` leaves are the last ones of those that were there, if one forgets the
remaining quantities (`OrderBook.MatchFrame`), and the remaining quantities are known from the fill.

## Main results

* `OrderBook.Accepted.nodes_other`: the nodes that an accepted order does not trade with.
* `OrderBook.filter_nodes_restOn`: the nodes next to which the residual comes to rest.
-/

namespace MatchingEngine

/-- The remaining quantity is all that a blank node lacks. -/
theorem Node.ext_blank {n n' : Node RestingOrder} (hblank : n.blank = n'.blank)
    (hview : n.value.view = n'.value.view) : n = n' := by
  obtain ⟨address, value⟩ := n
  obtain ⟨address', value'⟩ := n'
  simp only [blank, Node.mk.injEq, RestingOrder.mk.injEq] at hblank
  have hremaining : value.remainingQuantity = value'.remainingQuantity :=
    congrArg OrderView.remainingQuantity hview
  obtain ⟨rfl, hid, hside, hprice, horiginal, -, harrival⟩ := hblank
  exact congrArg _ (by cases value; cases value'; simp_all)

theorem Node.ext_map_blank {ns ns' : List (Node RestingOrder)}
    (hblank : ns.map Node.blank = ns'.map Node.blank)
    (hview : ns.map (fun n => n.value.view) = ns'.map fun n => n.value.view) : ns = ns' := by
  induction ns generalizing ns' with
  | nil => exact (List.map_eq_nil_iff.mp hblank.symm).symm
  | cons n ns ih =>
    cases ns' with
    | nil => cases hblank
    | cons n' ns' =>
      rw [List.map_cons, List.map_cons, List.cons.injEq] at hblank hview
      rw [Node.ext_blank hblank.1 hview.1, ih hblank.2 hview.2]

namespace OrderBook

/-! ### Orders that are not traded with -/

theorem map_makerOrderId_fullFills (taker : OrderId) (next : UInt64) (q : List OrderView) :
    (PriorityBook.fullFills taker next q).map (fun t => t.makerOrderId) = q.map fun o => o.id := by
  induction q generalizing next with
  | nil => rfl
  | cons o q ih => rw [PriorityBook.fullFills, List.map_cons, List.map_cons, ih]

/-- The end of a list is determined by its length. -/
theorem eq_of_suffix_append {α : Type*} {l l₁ l₂ : List α} (h : l <:+ l₁ ++ l₂)
    (hlength : l.length = l₂.length) : l = l₂ := by
  obtain ⟨taken, htaken⟩ := h
  exact List.append_inj_right' htaken hlength

/-- The nodes that are no makers of a fill stay as they are. -/
theorem filter_nodes_of_filling {crosses : Price → Bool} {taker : OrderId} {next : UInt64}
    {quantity : Quantity} {f : PriorityBook.Fill} {ns ns' : List (Node RestingOrder)}
    (hfill : PriorityBook.Filling crosses taker next quantity (ns.map fun n => n.value.view) f)
    (hviews : ns'.map (fun n => n.value.view) = f.rest)
    (hsuffix : ns'.map Node.blank <:+ ns.map Node.blank) :
    ns'.filter (fun n => n.value.id ∉ f.trades.map fun t => t.makerOrderId) =
      ns.filter fun n => n.value.id ∉ f.trades.map fun t => t.makerOrderId := by
  generalize hq : ns.map (fun n => n.value.view) = q at hfill
  have hdrop (ns₁ ns₂ : List (Node RestingOrder)) {ids : List OrderId}
      (h : ∀ n ∈ ns₁, n.value.id ∈ ids) : (ns₁ ++ ns₂).filter (fun n => n.value.id ∉ ids) =
        ns₂.filter fun n => n.value.id ∉ ids := by
    rw [List.filter_append, List.filter_eq_nil_iff.mpr fun n hn => by simpa using h n hn,
      List.nil_append]
  cases hfill with
  | stop filled rest remaining =>
    obtain ⟨ns₁, ns₂, rfl, rfl, rfl⟩ := List.map_eq_append_iff.mp hq
    have hlength := congrArg List.length hviews
    rw [List.length_map, List.length_map] at hlength
    rw [List.map_append] at hsuffix
    have hblank := eq_of_suffix_append hsuffix (by rw [List.length_map, List.length_map, hlength])
    obtain rfl := Node.ext_map_blank hblank hviews
    refine (hdrop ns₁ ns' fun n hn => ?_).symm
    rw [map_makerOrderId_fullFills, List.map_map]
    exact List.mem_map_of_mem hn
  | part filled makers maker executed left =>
    obtain ⟨ns₁, ns₃, rfl, rfl, hns₃⟩ := List.map_eq_append_iff.mp hq
    obtain ⟨n, ns₂, rfl, rfl, rfl⟩ := List.map_eq_cons_iff.mp hns₃
    obtain ⟨n', ns₂', rfl, -, hmakers⟩ := List.map_eq_cons_iff.mp hviews
    have hlength := congrArg List.length hmakers
    rw [List.length_map, List.length_map] at hlength
    rw [List.map_append] at hsuffix
    have hblank := eq_of_suffix_append hsuffix (by simp [hlength])
    rw [List.map_cons, List.map_cons, List.cons.injEq] at hblank
    obtain rfl := Node.ext_map_blank hblank.2 hmakers
    have hid : n'.value.id = n.value.id := congrArg (fun n => n.value.id) hblank.1
    -- the last maker is a maker before and after
    refine (hdrop [n'] ns₂' fun m hm => ?_).trans ((congrArg (List.filter _)
      (List.append_cons ns₁ n ns₂')).trans (hdrop (ns₁ ++ [n]) ns₂' fun m hm => ?_)).symm
    · rw [List.mem_singleton.mp hm, hid]
      simp
    · rw [List.map_append, map_makerOrderId_fullFills, List.map_map]
      rcases List.mem_append.mp hm with hm | hm
      · exact List.mem_append_left _ (List.mem_map_of_mem hm)
      · rw [List.mem_singleton.mp hm]
        simp

namespace Accepted

variable {b : OrderBook} {order : NewLimitOrder} {m : Matching}

/-- What matching leaves alone for an accepted order. -/
theorem frame (h : b.Accepted order m) (hside : order.side = .buy ∨ order.side = .sell) :
    MatchFrame (BookSide.ofSide order.side).other
      { b with seenOrderIds := insert order.id b.seenOrderIds } m.book := by
  have hmatched := h.matched
  rcases hside with hside | hside
  · rw [if_pos hside] at hmatched
    rw [hside]
    exact matchLevels_frame hmatched
  · rw [if_neg (by rw [hside]; decide)] at hmatched
    rw [hside]
    exact matchLevels_frame hmatched

/-- The order's own side is not matched. -/
theorem levels_own (h : b.Accepted order m) (hside : order.side = .buy ∨ order.side = .sell) :
    m.book.levels (.ofSide order.side) = b.levels (.ofSide order.side) := by
  rw [(h.frame hside).levels_eq _ (BookSide.ne_other _)]
  cases BookSide.ofSide order.side <;> rfl

/-- The nodes of the opposite side that the order does not trade with. -/
theorem nodes_other (h : b.Accepted order m) (hside : order.side = .buy ∨ order.side = .sell) :
    (nodesOf (m.book.levels (BookSide.ofSide order.side).other)).filter
        (fun n => n.value.id ∉ m.trades.map fun t => t.makerOrderId) =
      (nodesOf (b.levels (BookSide.ofSide order.side).other)).filter
        fun n => n.value.id ∉ m.trades.map fun t => t.makerOrderId := by
  have hsuffix := (h.frame hside).nodes_suffix
  have hqueue := congrArg (fun p => p.queue (BookSide.ofSide order.side).other) h.abs_eq
  rw [PriorityBook.queue_matched_other, queue_abs] at hqueue
  have hfill : PriorityBook.Filling _ order.id b.abs.nextTradeId order.quantity
    (b.abs.queue (BookSide.ofSide order.side).other) (b.abs.fillFor order) :=
    PriorityBook.fill_filling ..
  rw [queue_abs] at hfill
  rw [h.trades_eq]
  refine filter_nodes_of_filling hfill hqueue ?_
  cases hs : BookSide.ofSide order.side <;> rw [hs] at hsuffix <;> exact hsuffix

end Accepted

/-! ### The residual -/

section RestOn

variable {b : OrderBook} {s : BookSide} {order : NewLimitOrder} {remaining : Quantity}

theorem levels_restOn (hid : order.id ∉ b.activeOrders) : (b.restOn s order remaining).levels s =
    putLevel (b.levels s) order.limitPrice (b.residualLevel s order remaining) := by
  rw [restOn_eq hid]
  cases s <;> rfl

theorem levels_restOn_other (hid : order.id ∉ b.activeOrders) :
    (b.restOn s order remaining).levels s.other = b.levels s.other := by
  rw [restOn_eq hid]
  cases s <;> rfl

/-- The level that the residual of an order is appended to. -/
theorem find?_restOn (hid : order.id ∉ b.activeOrders) :
    ((b.restOn s order remaining).levels s).find? order.limitPrice =
      some (b.residualLevel s order remaining) := by
  rw [levels_restOn hid, putLevel, OrderedMap.find?_put_self, if_neg (by simp [residualLevel])]

/-- Resting an order leaves the other nodes where they are. -/
theorem filter_nodes_restOn (hb : b.Linked) (hid : ∀ n ∈ b.nodes, n.value.id ≠ order.id)
    (ids : List OrderId) (t : BookSide) :
    (nodesOf ((b.restOn s order remaining).levels t)).filter
        (fun n => n.value.id ∉ ids ∧ n.value.id ≠ order.id) =
      (nodesOf (b.levels t)).filter fun n => n.value.id ∉ ids := by
  have hactive := notMem_activeOrders hb hid
  have hold : (nodesOf (b.levels t)).filter (fun n => n.value.id ∉ ids) =
      (nodesOf (b.levels t)).filter fun n => n.value.id ∉ ids ∧ n.value.id ≠ order.id :=
    List.filter_congr fun n hn => by simp [hid n (b.mem_nodes.mpr ⟨t, hn⟩)]
  have hnew : decide ((b.residualNode order remaining).value.id ∉ ids ∧
      (b.residualNode order remaining).value.id ≠ order.id) = false :=
    decide_eq_false fun h => h.2 rfl
  rw [hold]
  rcases s.eq_or_eq_other t with rfl | rfl
  · rw [levels_restOn hactive, nodesOf_putLevel, nodesOf_eq (b.levels t) order.limitPrice,
      residualLevel]
    simp only [List.filter_append, List.filter_cons, hnew, List.filter_nil, List.append_nil,
      Bool.false_eq_true, if_false]
  · rw [levels_restOn_other hactive]

end RestOn

end OrderBook

end MatchingEngine
