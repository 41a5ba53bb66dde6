import MatchingEngine.ReferenceBook.Matching

/-!
# The reference book refines the priority book

From any state that satisfies the invariant, `submit` and `cancel` of the oracle return, keep the
invariant, and agree with the priority book. In particular `at` never throws and no level is found
empty. The linear scan of a cancellation finds the only order with the identifier.

## Main results

* `ReferenceBook.submit_refines`, `ReferenceBook.cancel_refines`, `ReferenceBook.run_refines`.
-/

namespace MatchingEngine

open PriorityBook (fill IdsAvailable total)

namespace ReferenceBook

/-! ### Planning -/

section Plan

variable {r : ReferenceBook} {order : NewLimitOrder}

theorem preview_eq (hr : r.Inv) (s : BookSide) (order : NewLimitOrder) :
    preview (r.levels s) order.limitPrice order.quantity s.crosses =
      let f := fill (fun price => s.crosses price order.limitPrice) order.id r.nextTradeId
        order.quantity (r.abs.queue s)
      ⟨f.remaining, f.trades.length⟩ := by
  have hpos : ∀ e ∈ (r.levels s).entries, ∀ o ∈ e.2.orders, 0 < o.remainingQuantity.toNat := by
    intro e he o ho
    refine hr.wellFormed.remaining_pos s o ?_
    rw [queue_abs]
    exact List.mem_flatMap.mpr ⟨e, he, ho⟩
  have hlt := order.quantity.toNat_lt
  unfold preview
  rw [previewLevels_eq order.id r.nextTradeId (hr.linked.level_ok s) hpos
    (by rwa [Nat.zero_add])]
  dsimp only
  rw [queue_abs, Nat.zero_add]
  rfl

theorem plan_eq (hr : r.Inv) (hside : order.side = .buy ∨ order.side = .sell) :
    (if order.side = .buy then
        preview r.asks order.limitPrice order.quantity fun best limit => best ≤ limit
      else preview r.bids order.limitPrice order.quantity fun best limit => best ≥ limit) =
      ⟨(r.abs.fillFor order).remaining, (r.abs.fillFor order).trades.length⟩ := by
  rw [OrderBook.crosses_asks, OrderBook.crosses_bids]
  have hplan := preview_eq hr (BookSide.ofSide order.side).other order
  rcases hside with h | h <;> rw [PriorityBook.fillFor] <;> rw [h] at hplan ⊢ <;> exact hplan

theorem overflow_iff (hr : r.Linked) (s : BookSide) (price : Price) (q : Quantity) :
    ((r.levels s).find? price).any (fun level => wouldOverflow level.totalQuantity q) = true ↔
      2 ^ 64 ≤ r.abs.levelTotal s price + q.toNat := by
  rw [hr.levelTotal_abs]
  rcases hr.levelAt_cases s price with ⟨hnew, hfind⟩ | ⟨hfind, -⟩
  · rw [hfind, hnew, Level.new, Quantity.toNat_mk, UInt64.toNat_zero, Nat.zero_add]
    exact ⟨fun h => absurd h (by simp), fun h => absurd q.toNat_lt (Nat.not_lt.mpr h)⟩
  · rw [hfind, Option.any_some, OrderBook.wouldOverflow_iff]

theorem wouldOverflowAtRestingLevel_iff (hr : r.Linked)
    (hside : order.side = .buy ∨ order.side = .sell) (q : Quantity) :
    r.wouldOverflowAtRestingLevel order q = true ↔
      2 ^ 64 ≤ r.abs.levelTotal (.ofSide order.side) order.limitPrice + q.toNat := by
  rw [← overflow_iff hr, wouldOverflowAtRestingLevel]
  rcases hside with h | h <;> rw [h] <;> rfl

end Plan

/-! ### Resting a residual -/

section Rest

variable {r : ReferenceBook} {s : BookSide} {order : NewLimitOrder} {remaining : Quantity}

/-- The level that the residual joins. -/
def residualLevel (r : ReferenceBook) (s : BookSide) (order : NewLimitOrder)
    (remaining : Quantity) : Level where
  orders := (levelAt (r.levels s) order.limitPrice).orders ++
    [PriorityBook.residual order remaining]
  totalQuantity :=
    ⟨(levelAt (r.levels s) order.limitPrice).totalQuantity.units + remaining.units⟩

theorem restOn_eq (hid : order.id ∉ r.activeOrders) : r.restOn s order remaining =
    { r.setLevels s ((r.levels s).put Level.orders order.limitPrice
        (r.residualLevel s order remaining)) with
      activeOrders := r.activeOrders.insert order.id (PriorityBook.residual order remaining)
      nextArrivalSequence := r.nextArrivalSequence + 1 } := by
  unfold restOn
  dsimp only
  rw [if_neg hid, OrderedMap.find?_tryEmplace, OrderedMap.insertOrAssign_tryEmplace,
    Option.getD_some, OrderedMap.put, if_neg (by simp [residualLevel])]
  cases s <;> rfl

theorem restOn_spec (hr : r.Linked) (hid : ∀ o ∈ r.abs.orders, o.id ≠ order.id)
    (hs : s = .ofSide order.side)
    (htotal : r.abs.levelTotal s order.limitPrice + remaining.toNat < 2 ^ 64) :
    (r.restOn s order remaining).Linked ∧
      (r.restOn s order remaining).abs = r.abs.rested order remaining := by
  have hactive : order.id ∉ r.activeOrders := fun h => by
    obtain ⟨o, ho, heq⟩ := hr.isIndex.mem_iff.mp h
    exact hid o ho heq
  have hlevel : LevelOk order.limitPrice (r.residualLevel s order remaining) := by
    refine ⟨by simp [residualLevel], fun o ho => ?_, ?_⟩
    · rcases List.mem_append.mp ho with ho | ho
      · exact hr.limitPrice_of_mem_levelAt ho
      · rw [List.mem_singleton.mp ho]
        rfl
    · rw [hr.levelTotal_abs] at htotal
      rw [residualLevel, OrderBook.toNat_add_of_lt htotal, hr.total_levelAt, total, total,
        List.map_append, List.sum_append]
      rfl
  rw [restOn_eq hactive]
  constructor
  · refine hr.of_put s order.limitPrice (r.residualLevel s order remaining) (by cases s <;> rfl)
      (by cases s <;> rfl) (fun _ => hlevel) ?_
    have hindex := (hr.isIndex.insert_head (x := PriorityBook.residual order remaining) hid).perm
      ((r.orders_perm_context s order.limitPrice).cons _)
    refine hindex.perm ?_
    rw [residualLevel, List.append_assoc, List.singleton_append]
    exact List.perm_middle.symm
  · have hqueue : ordersOf ((r.levels s).put Level.orders order.limitPrice
        (r.residualLevel s order remaining)) = PriorityBook.insertByPriority s
          (PriorityBook.residual order remaining) (ordersOf (r.levels s)) := by
      rw [ordersOf, OrderedMap.flat_put, ordersOf, OrderedMap.flat_eq _ _ order.limitPrice,
        bucket_eq, PriorityBook.insertByPriority_append (fun a ha => ?_) (fun a ha => ?_)]
      · simp only [residualLevel, List.append_assoc, List.singleton_append]
      · rcases List.mem_append.mp ha with ha | ha
        · exact asymm ((hr.bucketed s).lt_of_mem_flatBefore ha)
        · rw [hr.limitPrice_of_mem_levelAt ha]
          exact irrefl _
      · exact (hr.bucketed s).lt_of_mem_flatAfter ha
    rw [PriorityBook.rested, ← hs]
    refine PriorityBook.ext_queue (fun t => ?_) ?_ ?_ ?_
    · rw [queue_abs]
      cases s <;> cases t <;> first | exact hqueue | rfl
    all_goals cases s <;> rfl

end Rest

/-! ### Submitting -/

section Submit

variable {r : ReferenceBook} {order : NewLimitOrder}

/-- Recording an identifier does not touch the storage. -/
theorem linked_insert_seen (hr : r.Linked) (id : OrderId) :
    ({ r with seenIds := insert id r.seenIds } : ReferenceBook).Linked where
  level_ok s := by
    cases s
    · exact hr.level_ok .bids
    · exact hr.level_ok .asks
  isIndex := hr.isIndex

/-- The matching part of `submit`. -/
theorem matched_spec (hr : r.Inv) (ha : r.abs.Acceptable order) :
    let r₁ : ReferenceBook := { r with seenIds := insert order.id r.seenIds }
    ∃ m : Matching, (if order.side = .buy then r₁.matchBuy order else r₁.matchSell order) = .ok m ∧
      m.book.Linked ∧ m.remaining = (r.abs.fillFor order).remaining ∧
      m.trades = (r.abs.fillFor order).trades ∧
      m.book.abs = r.abs.matched order (r.abs.fillFor order) := by
  intro r₁
  have hbranch : (if order.side = .buy then r₁.matchBuy order else r₁.matchSell order) =
      r₁.matchSide (BookSide.ofSide order.side).other (BookSide.ofSide order.side).other.crosses
        order := by
    rw [matchBuy, matchSell, OrderBook.crosses_asks, OrderBook.crosses_bids]
    rcases ha.side_valid with h | h <;> rw [h] <;> rfl
  have hpos : ∀ o ∈ r₁.abs.queue (BookSide.ofSide order.side).other,
      0 < o.remainingQuantity.toNat := by
    have := hr.wellFormed.remaining_pos (BookSide.ofSide order.side).other
    cases h : BookSide.ofSide order.side <;> rw [h] at this <;> exact this
  have hids := ha.idsAvailable
  rw [← PriorityBook.Progress.fill_start] at hids
  obtain ⟨m, hm, hinv, hdone⟩ := matchSide_spec (linked_insert_seen hr.linked order.id) hpos hids
  have hmatched := PriorityBook.Progress.Done.matched (p := r.abs) hdone
  exact ⟨m, hbranch.trans hm, hinv.linked, hmatched⟩

/-- What is left after the trades of an accepted order, and after resting its residual. -/
theorem rest_spec {m : Matching} (hr : r.Inv) (ha : r.abs.Acceptable order)
    (hlinked : m.book.Linked) (hremaining : m.remaining = (r.abs.fillFor order).remaining)
    (habs : m.book.abs = r.abs.matched order (r.abs.fillFor order)) :
    (if 0 < m.remaining.units then m.book.rest order m.remaining else m.book).Linked ∧
      (if 0 < m.remaining.units then m.book.rest order m.remaining else m.book).abs =
        r.abs.accept order (r.abs.fillFor order) := by
  rw [PriorityBook.accept, hremaining]
  split
  · next hpos =>
    have hid : ∀ o ∈ m.book.abs.orders, o.id ≠ order.id := by
      intro o ho
      obtain ⟨s, ho⟩ := m.book.abs.mem_orders.mp ho
      exact hr.wellFormed.id_ne_of_mem_matched ha.id_notMem_seen s (habs ▸ ho)
    have hrest : m.book.rest order (r.abs.fillFor order).remaining =
        m.book.restOn (.ofSide order.side) order (r.abs.fillFor order).remaining := by
      rw [rest]
      rcases ha.side_valid with h | h <;> rw [h] <;> rfl
    rw [hrest, ← habs]
    refine restOn_spec hlinked hid rfl ?_
    rw [habs, PriorityBook.levelTotal, PriorityBook.queue_matched]
    exact ha.total_lt hpos
  · exact ⟨hlinked, habs⟩

/-- `submit` rejects what the priority book rejects, and otherwise goes on. -/
theorem submit_eq (hr : r.Inv) (order : NewLimitOrder) : r.submit order =
    match r.abs.rejection order with
    | some reason => .ok (.rejected reason, r)
    | none => r.submitAccepted order := by
  let go : Option RejectionReason → Except Fault (SubmitResult × ReferenceBook)
    | some reason => .ok (.rejected reason, r)
    | none => r.submitAccepted order
  change _ = go (r.abs.rejection order)
  unfold submit PriorityBook.rejection
  simp only [apply_ite go]
  refine ite_congr rfl (fun _ => rfl) fun _ => ?_
  refine ite_congr rfl (fun _ => rfl) fun hside => ?_
  have hside : order.side = .buy ∨ order.side = .sell := by
    simpa [or_iff_not_imp_left] using hside
  refine ite_congr rfl (fun _ => rfl) fun _ => ?_
  refine ite_congr rfl (fun _ => rfl) fun _ => ?_
  refine ite_congr rfl (fun _ => rfl) fun _ => ?_
  rw [plan_eq hr hside]
  refine ite_congr ?_ (fun _ => rfl) fun _ => ?_
  · rw [canIssueTradeIds, canIssueFrom_iff]
    rfl
  refine ite_congr rfl (fun _ => rfl) fun _ => ?_
  refine ite_congr ?_ (fun _ => rfl) fun _ => rfl
  rw [wouldOverflowAtRestingLevel_iff hr.linked hside]

/-- `submit` returns, keeps the invariant, and does what the priority book does. -/
theorem submit_refines (hr : r.Inv) (order : NewLimitOrder) :
    ∃ r', r.submit order = .ok ((r.abs.submit order).1, r') ∧ r'.Inv ∧
      r'.abs = (r.abs.submit order).2 := by
  rw [submit_eq hr]
  cases hrej : r.abs.rejection order with
  | some reason =>
    refine ⟨r, ?_, hr, ?_⟩ <;> simp only [PriorityBook.submit, hrej]
  | none =>
    have ha := PriorityBook.rejection_eq_none_iff.mp hrej
    obtain ⟨m, hm, hlinked, hremaining, htrades, habs⟩ := matched_spec hr ha
    obtain ⟨hlinked', habs'⟩ := rest_spec hr ha hlinked hremaining habs
    rw [PriorityBook.submit_of_acceptable ha]
    refine ⟨_, ?_, ⟨hlinked', habs' ▸ hr.wellFormed.accept ha⟩, habs'⟩
    dsimp only [submitAccepted] at hm ⊢
    rw [hm]
    dsimp only
    rw [hremaining, htrades]
    rfl

end Submit

/-! ### Cancelling -/

section Cancel

variable {r : ReferenceBook} {s : BookSide}

theorem cancelScan_eq_none {id : OrderId} {es : List (Price × Level)}
    (h : ∀ e ∈ es, ∀ o ∈ e.2.orders, o.id ≠ id) : cancelScan id es = none := by
  induction es with
  | nil => rfl
  | cons e es ih =>
    obtain ⟨hhead, htail⟩ := List.forall_mem_cons.mp h
    rw [cancelScan, List.find?_eq_none.mpr (by simpa using hhead)]
    exact ih htail

/-- The scan finds the level of the only order with the identifier. -/
theorem cancelScan_eq {es : List (Price × Level)} {e : Price × Level} {o : OrderView}
    (hnodup : ((es.flatMap fun e => e.2.orders).map fun o => o.id).Nodup) (he : e ∈ es)
    (ho : o ∈ e.2.orders) : cancelScan o.id es =
      some (e.1, ⟨e.2.orders.eraseP fun o' => o'.id = o.id,
        ⟨e.2.totalQuantity.units - o.remainingQuantity.units⟩⟩, o.remainingQuantity) := by
  induction es with
  | nil => simp at he
  | cons e₀ es ih =>
    rw [List.flatMap_cons, List.map_append, List.nodup_append] at hnodup
    obtain ⟨hfirst, hrest, hdisjoint⟩ := hnodup
    rw [cancelScan]
    rcases List.mem_cons.mp he with rfl | he
    · rw [List.find?_key (fun o : OrderView => o.id) hfirst ho]
    · have hmem : o ∈ es.flatMap fun e => e.2.orders := List.mem_flatMap.mpr ⟨e, he, ho⟩
      rw [List.find?_eq_none.mpr]
      · exact ih hrest he
      · intro o' ho' heq
        exact hdisjoint _ (List.mem_map_of_mem ho') _ (List.mem_map_of_mem hmem)
          (of_decide_eq_true heq)

/-- `cancel_from` on a side that has no order with the identifier. -/
theorem cancelFrom_eq_none {id : OrderId} (h : ∀ o ∈ r.abs.queue s, o.id ≠ id) :
    r.cancelFrom s id = none := by
  rw [cancelFrom, cancelScan_eq_none]
  intro e he o ho
  refine h o ?_
  rw [queue_abs]
  exact (OrderedMap.mem_flat _).mpr ⟨e, he, ho⟩

/-- `cancel_from` on the side of a resting order. -/
theorem cancelFrom_spec (hr : r.Inv) {o : OrderView} (ho : o ∈ r.abs.queue s) :
    ∃ r', r.cancelFrom s o.id = some (o.remainingQuantity, r') ∧ r'.Linked ∧
      r'.abs = r.abs.remove o.id := by
  have hown : ((ordersOf (r.levels s)).map fun o => o.id).Nodup := by
    have := ((r.abs.orders_perm s).map fun o => o.id).nodup_iff.mp hr.wellFormed.ids_nodup
    rw [List.map_append, List.nodup_append, queue_abs] at this
    exact this.1
  rw [queue_abs r s] at ho
  obtain ⟨⟨price, level⟩, he, ho'⟩ := (OrderedMap.mem_flat _).mp ho
  have hok : LevelOk price level := hr.linked.level_ok s _ he
  have hat : levelAt (r.levels s) price = level := by
    rw [levelAt, OrderedMap.find?_eq_some_of_mem he, Option.getD_some]
  obtain ⟨os₁, os₂, horders⟩ := List.append_of_mem ho'
  have htotal := hok.total_eq
  rw [horders, total, List.map_append, List.sum_append, List.map_cons, List.sum_cons] at htotal
  have hle : o.remainingQuantity.units ≤ level.totalQuantity.units := by
    rw [Quantity.units_le_iff]
    omega
  have hflat : ordersOf (r.levels s) = ((r.levels s).flatBefore Level.orders price ++ os₁) ++
      o :: (os₂ ++ (r.levels s).flatAfter Level.orders price) := by
    rw [ordersOf, OrderedMap.flat_eq _ _ price, bucket_eq, hat, horders]
    simp
  have herase : level.orders.eraseP (fun o' => o'.id = o.id) = os₁ ++ os₂ := by
    have hsub : (level.orders.map fun o => o.id).Nodup := by
      refine hown.sublist ?_
      rw [ordersOf, OrderedMap.flat_eq _ _ price, bucket_eq, hat]
      exact ((List.sublist_append_right _ _).trans (List.sublist_append_left _ _)).map _
    rw [horders] at hsub ⊢
    exact List.eraseP_key (fun o : OrderView => o.id) hsub
  let level' : Level := ⟨os₁ ++ os₂, ⟨level.totalQuantity.units - o.remainingQuantity.units⟩⟩
  let r' : ReferenceBook := { r.setLevels s ((r.levels s).put Level.orders price level') with
    activeOrders := r.activeOrders.erase o.id }
  have hlevels : r'.levels s = (r.levels s).put Level.orders price level' := by
    cases s <;> rfl
  refine ⟨r', ?_, ?_, ?_⟩
  · rw [cancelFrom, cancelScan_eq hown he ho']
    dsimp only
    rw [herase]
    rfl
  · refine hr.linked.of_put s price level' hlevels (by cases s <;> rfl)
      (fun hne => ⟨hne, ?_, ?_⟩) ?_
    · refine fun o' ho' => hok.limitPrice_eq o' ?_
      rw [horders]
      exact ((List.sublist_cons_self _ _).append_left _).subset ho'
    · rw [Quantity.toNat_sub hle, total, List.map_append, List.sum_append]
      omega
    · have hindex := hr.linked.isIndex.perm (r.orders_perm_context s price)
      rw [hat, horders, List.append_assoc, List.cons_append] at hindex
      refine (hindex.perm List.perm_middle).erase_head.perm ?_
      rw [List.append_assoc]
  · refine hr.wellFormed.eq_remove (s := s) ((queue_abs r s).trans hflat) ?_ (by cases s <;> rfl)
      (by cases s <;> rfl) (by cases s <;> rfl) (by cases s <;> rfl)
    rw [queue_abs, hlevels, ordersOf, OrderedMap.flat_put]
    simp [level']

/-- `cancel` keeps the invariant and does what the priority book does. -/
theorem cancel_refines (hr : r.Inv) (id : OrderId) :
    ∃ r', r.cancel id = ((r.abs.cancel id).1, r') ∧ r'.Inv ∧ r'.abs = (r.abs.cancel id).2 := by
  unfold cancel PriorityBook.cancel
  cases hfind : r.abs.find id with
  | none =>
    have hnone : ∀ s, ∀ o ∈ r.abs.queue s, o.id ≠ id := fun s o ho heq => by
      have := List.find?_eq_none.mp hfind o (r.abs.mem_orders.mpr ⟨s, ho⟩)
      exact this (decide_eq_true heq)
    rw [cancelFrom_eq_none (hnone .bids), cancelFrom_eq_none (hnone .asks)]
    exact ⟨r, rfl, hr, rfl⟩
  | some o =>
    have hid : o.id = id := by simpa using List.find?_some hfind
    obtain ⟨s, ho⟩ := r.abs.mem_orders.mp (List.mem_of_find?_eq_some hfind)
    subst hid
    obtain ⟨r', hcancel, hlinked, habs⟩ := cancelFrom_spec hr ho
    refine ⟨r', ?_, ⟨hlinked, habs ▸ hr.wellFormed.remove o.id⟩, habs⟩
    cases s with
    | bids => rw [hcancel]
    | asks =>
      have hnodup := hr.wellFormed.ids_nodup
      rw [PriorityBook.orders, List.map_append, List.nodup_append] at hnodup
      rw [cancelFrom_eq_none fun o' ho' =>
        hnodup.2.2 _ (List.mem_map_of_mem ho') _ (List.mem_map_of_mem ho), hcancel]

end Cancel

/-! ### Sequences of commands -/

theorem applyCommand_refines {r : ReferenceBook} (hr : r.Inv) (command : JournalCommand) :
    ∃ r', r.applyCommand command = .ok ((r.abs.apply command).1, r') ∧ r'.Inv ∧
      r'.abs = (r.abs.apply command).2 := by
  cases command with
  | submitLimitOrder order =>
    obtain ⟨r', h, hinv, habs⟩ := submit_refines hr order
    exact ⟨r', by rw [applyCommand, h]; rfl, hinv, habs⟩
  | cancelOrder id =>
    obtain ⟨r', h, hinv, habs⟩ := cancel_refines hr id
    exact ⟨r', by rw [applyCommand, h]; rfl, hinv, habs⟩

/-- Every sequence of calls returns, and its results are those of the priority book. -/
theorem run_refines {r : ReferenceBook} (hr : r.Inv) (commands : List JournalCommand) :
    ∃ r', r.run commands = .ok ((r.abs.run commands).1, r') ∧ r'.Inv ∧
      r'.abs = (r.abs.run commands).2 :=
  tryRunAll_simulates (fun _ command h => applyCommand_refines h command) hr commands

end ReferenceBook

end MatchingEngine
