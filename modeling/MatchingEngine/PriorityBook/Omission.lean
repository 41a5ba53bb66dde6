import MatchingEngine.PriorityBook.Commute
import MatchingEngine.PriorityBook.Notices

/-!
# Books without an order

An order that nothing has been traded with only takes up room. Incoming orders pass over it, so a
book from which it is left out gives the same results, as long as no other order is rejected because
the level at its price is full. When the order is cancelled, nothing is left of it but its
identifier.

## Main definitions

* `PriorityBook.Omits`: a book that differs from another one in that an order is missing.

## Main results

* `PriorityBook.fill_eraseP`: a fill that leaves an order alone does not depend on it.
* `PriorityBook.Omits.apply`, `PriorityBook.Omits.run`: the books stay so, with the same results.
-/

namespace MatchingEngine

namespace PriorityBook

/-! ### Fills -/

/-- A fill that leaves an order out of what is left of the queue. -/
def Fill.without (f : Fill) (id : OrderId) : Fill :=
  { f with rest := f.rest.eraseP fun o => o.id = id }

section Fill

variable {s : BookSide} {price : Price} {taker id : OrderId} {next : UInt64} {quantity : Quantity}
  {q : List OrderView}

/-- Behind an order that does not cross, none does. -/
theorem not_crosses_of_head {maker : OrderView} {makers : List OrderView}
    (hq : (maker :: makers).Pairwise fun a b => ¬ s.lt b.limitPrice a.limitPrice)
    (h : ¬ s.crosses maker.limitPrice price) : ∀ o ∈ makers, ¬ s.crosses o.limitPrice price := by
  intro o ho
  have hle := (List.pairwise_cons.mp hq).1 o ho
  rw [BookSide.crosses, decide_eq_true_iff, not_not] at h ⊢
  rcases trichotomous_of s.lt maker.limitPrice o.limitPrice with hlt | heq | hlt
  · exact IsTrans.trans _ _ _ h hlt
  · exact heq ▸ h
  · exact absurd hlt hle

/-- A fill that leaves an order alone does the same without the order. -/
theorem fill_eraseP (hq : q.Pairwise fun a b => ¬ s.lt b.limitPrice a.limitPrice)
    (hfree : ∀ t ∈ (fill (fun p => s.crosses p price) taker next quantity q).trades,
      t.makerOrderId ≠ id) :
    fill (fun p => s.crosses p price) taker next quantity (q.eraseP fun o => o.id = id) =
      (fill (fun p => s.crosses p price) taker next quantity q).without id := by
  induction q generalizing next quantity with
  | nil => rfl
  | cons maker makers ih =>
    by_cases hstop : quantity.units = 0 ∨ ¬ s.crosses maker.limitPrice price
    · rw [fill_cons_of_stop hstop, Fill.without]
      by_cases hid : maker.id = id
      · -- the order is passed over where the fill stops, and nothing behind it crosses
        rw [List.eraseP_cons_of_pos (by simpa using hid)]
        rcases hstop with hzero | hclear
        · exact fill_of_zero hzero
        · have hbehind := not_crosses_of_head hq hclear
          exact fill_of_clear hbehind
      · rw [List.eraseP_cons_of_neg (by simpa using hid), fill_cons_of_stop hstop]
    · by_cases hle : maker.remainingQuantity.units ≤ quantity.units
      · rw [fill_cons_of_le hstop hle] at hfree ⊢
        obtain ⟨hid, hfree⟩ := List.forall_mem_cons.mp hfree
        rw [List.eraseP_cons_of_neg (by simpa using hid), fill_cons_of_le hstop hle,
          ih (List.pairwise_cons.mp hq).2 hfree]
        rfl
      · rw [fill_cons_of_not_le hstop hle] at hfree ⊢
        have hid : maker.id ≠ id := hfree _ (List.mem_singleton.mpr rfl)
        rw [List.eraseP_cons_of_neg (by simpa using hid), fill_cons_of_not_le hstop hle,
          Fill.without, List.eraseP_cons_of_neg (by simpa using hid)]

end Fill

/-! ### Books -/

/-- The second book is the first one without an order, whose identifier it has not seen. -/
structure Omits (id : OrderId) (p p' : PriorityBook) : Prop where
  queue_eq : ∀ s, p'.queue s = (p.queue s).eraseP fun o => o.id = id
  seenOrderIds_eq : p.seenOrderIds = insert id p'.seenOrderIds
  nextTradeId_eq : p'.nextTradeId = p.nextTradeId

section Omits

variable {id : OrderId} {p p' : PriorityBook} {order : NewLimitOrder}

/-- An order that was placed can be left out. -/
theorem omits_place (hp : p.WellFormed) (hnew : order.id ∉ p.seenOrderIds) :
    Omits order.id (p.place order) p where
  queue_eq s := by
    have hnone : ∀ o ∈ p.queue s, ¬ o.id = order.id :=
      fun o ho heq => hnew (heq ▸ hp.ids_seen s o ho)
    rw [queue_place]
    split_ifs with hs
    · obtain ⟨q₁, q₂, hqueue, hinsert, -, -⟩ :=
        exists_insertByPriority_eq s (residual order order.quantity) (hp.sorted s)
      rw [hinsert, List.eraseP_append_right _ fun o ho => ?_, List.eraseP_cons_of_pos ?_]
      · exact hqueue
      · exact decide_eq_true rfl
      · simpa using hnone o (hqueue ▸ List.mem_append_left _ ho)
    · rw [List.eraseP_of_forall_not fun o ho => by simpa using hnone o ho]
  seenOrderIds_eq := seenOrderIds_place
  nextTradeId_eq := nextTradeId_place.symm

/-- If the order is not active, nothing is missing. -/
theorem Omits.queue_eq_of_inactive (h : Omits id p p') (hinactive : ∀ o ∈ p.orders, o.id ≠ id)
    (s : BookSide) : p'.queue s = p.queue s := by
  rw [h.queue_eq, List.eraseP_of_forall_not]
  exact fun o ho => by simpa using hinactive o (p.mem_orders.mpr ⟨s, ho⟩)

theorem WellFormed.id_ne_of_mem_remove (hp : p.WellFormed) {o a : OrderView} (ho : o ∈ p.orders)
    (ha : a ∈ (p.remove o.id).orders) : a.id ≠ o.id := by
  have hnodup := ((hp.orders_perm_remove ho).map fun o => o.id).nodup_iff.mp hp.ids_nodup
  exact fun heq => (List.nodup_cons.mp hnodup).1 (List.mem_map.mpr ⟨a, ha, heq⟩)

/-- Nothing but its identifier is left of an order that was removed. -/
theorem Omits.remove {o : OrderView} (h : Omits o.id p p') (hp : p.WellFormed)
    (ho : o ∈ p.orders) : Omits o.id (p.remove o.id) p' where
  queue_eq s := by
    rw [h.queue_eq, ← queue_remove, List.eraseP_of_forall_not]
    intro a ha
    simpa using hp.id_ne_of_mem_remove ho ((p.remove o.id).mem_orders.mpr ⟨s, ha⟩)
  seenOrderIds_eq := h.seenOrderIds_eq
  nextTradeId_eq := h.nextTradeId_eq

/-- Another order is removed from both books. -/
theorem Omits.remove_other (h : Omits id p p') {id' : OrderId} (hid : id' ≠ id) :
    Omits id (p.remove id') (p'.remove id') where
  queue_eq s := by
    rw [queue_remove, queue_remove, h.queue_eq]
    refine List.eraseP_comm fun a _ => ?_
    by_cases ha : a.id = id
    · exact Or.inr (by simpa [ha] using hid.symm)
    · exact Or.inl (by simpa using ha)
  seenOrderIds_eq := h.seenOrderIds_eq
  nextTradeId_eq := h.nextTradeId_eq

theorem Omits.mem_orders_of (h : Omits id p p') {o : OrderView} (ho : o ∈ p'.orders) :
    o ∈ p.orders := by
  obtain ⟨s, hs⟩ := p'.mem_orders.mp ho
  rw [h.queue_eq] at hs
  exact p.mem_orders.mpr ⟨s, List.mem_of_mem_eraseP hs⟩

theorem Omits.mem_orders_of_ne (h : Omits id p p') {o : OrderView} (ho : o ∈ p.orders)
    (hid : o.id ≠ id) : o ∈ p'.orders := by
  obtain ⟨s, hs⟩ := p.mem_orders.mp ho
  refine p'.mem_orders.mpr ⟨s, ?_⟩
  rw [h.queue_eq]
  exact (List.mem_eraseP_of_neg (by simpa using hid)).mpr hs

theorem Omits.mem_seenOrderIds_iff (h : Omits id p p') {id' : OrderId} (hid : id' ≠ id) :
    id' ∈ p'.seenOrderIds ↔ id' ∈ p.seenOrderIds := by
  rw [h.seenOrderIds_eq, Finset.mem_insert, or_iff_right hid]

theorem Omits.levelTotal_le (h : Omits id p p') (s : BookSide) (price : Price) :
    p'.levelTotal s price ≤ p.levelTotal s price := by
  rw [levelTotal, h.queue_eq]
  exact (Shrinks.of_sublist List.eraseP_sublist).total_le price

theorem Omits.fillFor_eq (h : Omits id p p') (hp : p.WellFormed)
    (hfree : ∀ t ∈ (p.fillFor order).trades, t.makerOrderId ≠ id) :
    p'.fillFor order = (p.fillFor order).without id := by
  rw [fillFor, h.queue_eq, h.nextTradeId_eq]
  exact fill_eraseP (hp.sorted _) hfree

theorem queue_rested (p : PriorityBook) (order : NewLimitOrder) (remaining : Quantity)
    (s : BookSide) : (p.rested order remaining).queue s =
      if s = .ofSide order.side then insertByPriority s (residual order remaining) (p.queue s)
      else p.queue s := by
  unfold rested
  cases s <;> cases BookSide.ofSide order.side <;> rfl

theorem Omits.matched (h : Omits id p p') (f : Fill) :
    Omits id (p.matched order f) (p'.matched order (f.without id)) where
  queue_eq s := by
    rcases (BookSide.ofSide order.side).eq_or_eq_other s with rfl | rfl
    · rw [queue_matched, queue_matched, h.queue_eq]
    · rw [queue_matched_other, queue_matched_other]
      rfl
  seenOrderIds_eq := by
    rw [PriorityBook.matched, h.seenOrderIds_eq, Finset.insert_comm]
    rfl
  nextTradeId_eq := congrArg (· + UInt64.ofNat f.trades.length) h.nextTradeId_eq

theorem Omits.rested (h : Omits id p p') (hp : p.WellFormed) (hid : order.id ≠ id)
    (remaining : Quantity) : Omits id (p.rested order remaining) (p'.rested order remaining) where
  queue_eq s := by
    rw [queue_rested, queue_rested, h.queue_eq]
    split_ifs
    · exact (eraseP_insertByPriority hid (hp.sorted s)).symm
    · rfl
  seenOrderIds_eq := by
    rw [PriorityBook.rested, PriorityBook.rested]
    dsimp only
    rw [seenOrderIds_setQueue, seenOrderIds_setQueue, h.seenOrderIds_eq]
  nextTradeId_eq := by
    rw [PriorityBook.rested, PriorityBook.rested]
    dsimp only
    rw [nextTradeId_setQueue, nextTradeId_setQueue, h.nextTradeId_eq]

theorem Omits.accept (h : Omits id p p') (hp : p.WellFormed) (ha : p.Acceptable order)
    (hid : order.id ≠ id) : Omits id (p.accept order (p.fillFor order))
      (p'.accept order ((p.fillFor order).without id)) := by
  have hmatched : Omits id (p.matched order (p.fillFor order)) _ := h.matched (p.fillFor order)
  rw [PriorityBook.accept, PriorityBook.accept, Fill.without]
  dsimp only
  split_ifs
  · exact hmatched.rested (hp.matched ha.id_ne_zero) hid _
  · exact hmatched

/-- An order that is accepted without trading with the order that is left out is accepted without
it. -/
theorem Omits.acceptable (h : Omits id p p') (hp : p.WellFormed) (ha : p.Acceptable order)
    (hid : order.id ≠ id) (hfree : ∀ t ∈ (p.fillFor order).trades, t.makerOrderId ≠ id)
    (hsequence : order.id ∉ p'.seenOrderIds → p'.nextArrivalSequence ≠ 0) :
    p'.Acceptable order := by
  have hfill := h.fillFor_eq hp hfree
  have hnew := (h.mem_seenOrderIds_iff hid).not.mpr ha.id_notMem_seen
  refine ⟨ha.id_ne_zero, ha.side_valid, ha.price_ne_zero, ha.quantity_ne_zero, hnew, ?_,
    fun _ => hsequence hnew, fun hpos => ?_⟩
  · rw [hfill, h.nextTradeId_eq]
    exact ha.idsAvailable
  · rw [hfill] at hpos ⊢
    exact (Nat.add_le_add_right (h.levelTotal_le _ _) _).trans_lt (ha.total_lt hpos)

/-- An order is rejected for the same reason, unless the order that is left out takes up the room at
its price. -/
theorem Omits.rejection_eq (h : Omits id p p') (hid : order.id ≠ id) {reason : RejectionReason}
    (hr : p.rejection order = some reason)
    (hexhausted : p.rejection order ≠ some .tradeIdExhausted ∧
      p.rejection order ≠ some .sequenceExhausted)
    (hsequence : order.id.value ≠ 0 → order.id ∉ p'.seenOrderIds → p'.nextArrivalSequence ≠ 0)
    (hroom : reason = .quantityOverflow → ∀ o ∈ p.orders, o.id ≠ id) :
    p'.rejection order = some reason := by
  have hseen := h.mem_seenOrderIds_iff hid
  rw [hr] at hexhausted
  rw [rejection] at hr ⊢
  split_ifs at hr with h1 h2 h3 h4 h5 h6 h7 h8 <;> obtain rfl := Option.some.inj hr
  · rw [if_pos h1]
  · rw [if_neg h1, if_pos h2]
  · rw [if_neg h1, if_neg h2, if_pos h3]
  · rw [if_neg h1, if_neg h2, if_neg h3, if_pos h4]
  · rw [if_neg h1, if_neg h2, if_neg h3, if_neg h4, if_pos (hseen.mpr h5)]
  · exact absurd rfl hexhausted.2
  · have hqueue := h.queue_eq_of_inactive (hroom rfl)
    have hfill : p'.fillFor order = p.fillFor order := by
      rw [fillFor, hqueue, h.nextTradeId_eq]
      rfl
    have hnew := hseen.not.mpr h5
    rw [if_neg h1, if_neg h2, if_neg h3, if_neg h4, if_neg hnew, hfill, h.nextTradeId_eq,
      if_neg (not_not.mpr h6), if_neg fun hzero => hsequence h1 hnew hzero.2, levelTotal, hqueue,
      ← levelTotal, if_pos h8]
  · exact absurd rfl hexhausted.1

/-- The books that a run can get to from the empty one. -/
def Reached (p : PriorityBook) : Prop := ∃ commands, (fresh.run commands).2 = p

theorem Reached.wellFormed (h : p.Reached) : p.WellFormed := by
  obtain ⟨commands, rfl⟩ := h
  exact run_wellFormed fresh_wellFormed commands

theorem Reached.apply (h : p.Reached) (command : JournalCommand) : (p.apply command).2.Reached := by
  obtain ⟨commands, rfl⟩ := h
  refine ⟨commands ++ [command], ?_⟩
  rw [run, runAll_append]
  rfl

theorem Reached.accept (h : p.Reached) (ha : p.Acceptable order) :
    (p.accept order (p.fillFor order)).Reached := by
  have happly := h.apply (.submitLimitOrder order)
  rwa [PriorityBook.apply, submit_of_acceptable ha] at happly

theorem Reached.idsAvailable (h : p.Reached) (order : NewLimitOrder) :
    IdsAvailable p.nextTradeId (p.fillFor order).trades.length := by
  obtain ⟨commands, rfl⟩ := h
  exact idsAvailable_of_fresh commands order

theorem Reached.nextArrivalSequence_ne_zero (h : p.Reached) {id : OrderId} (hid : id.value ≠ 0)
    (hnew : id ∉ p.seenOrderIds) : p.nextArrivalSequence ≠ 0 := by
  obtain ⟨commands, rfl⟩ := h
  exact nextArrivalSequence_ne_zero_of_fresh commands hid hnew

/-- A command that is not about the order and does not trade with it has the same result without the
order. -/
theorem Omits.apply (h : Omits id p p') (hp : p.Reached) (hp' : p'.Reached)
    {command : JournalCommand} (hid : command.orderId ≠ id)
    (hfree : ∀ t ∈ Log.tradesOf (p.apply command).1, t.makerOrderId ≠ id)
    (hroom : (p.apply command).1 = .submit (.rejected .quantityOverflow) →
      ∀ o ∈ p.orders, o.id ≠ id) :
    (p'.apply command).1 = (p.apply command).1 ∧
      Omits id (p.apply command).2 (p'.apply command).2 := by
  have hwf := hp.wellFormed
  have hwf' := hp'.wellFormed
  have hexhausted (order : NewLimitOrder) : p.rejection order ≠ some .tradeIdExhausted ∧
      p.rejection order ≠ some .sequenceExhausted := by
    obtain ⟨commands, rfl⟩ := hp
    exact not_exhausted_of_fresh commands order
  have happlied := p.apply_applied command
  generalize p.apply command = applied at hfree hroom happlied ⊢
  obtain ⟨r, q⟩ := applied
  cases happlied with
  | rejected order reason hr =>
    have hr' := h.rejection_eq hid hr (hexhausted order)
      hp'.nextArrivalSequence_ne_zero fun heq => hroom (heq ▸ rfl)
    rw [PriorityBook.apply, submit, hr']
    exact ⟨rfl, h⟩
  | accepted order ha =>
    have ha' := h.acceptable hwf ha hid hfree
      (hp'.nextArrivalSequence_ne_zero ha.id_ne_zero)
    rw [PriorityBook.apply, submit_of_acceptable ha', h.fillFor_eq hwf hfree]
    exact ⟨rfl, h.accept hwf ha hid⟩
  | notFound id' hfind =>
    have hfind' : p'.find id' = none := List.find?_eq_none.mpr fun o ho =>
      List.find?_eq_none.mp hfind o (h.mem_orders_of ho)
    rw [PriorityBook.apply, cancel, hfind']
    exact ⟨rfl, h⟩
  | cancelled o ho =>
    rw [PriorityBook.apply, cancel, hwf'.find_eq_some (h.mem_orders_of_ne ho hid)]
    exact ⟨rfl, h.remove_other hid⟩

theorem WellFormed.id_ne_of_activeQuantity (hp : p.WellFormed) (h : p.activeQuantity id = 0) :
    ∀ o ∈ p.orders, o.id ≠ id := by
  rintro o ho rfl
  obtain ⟨s, hs⟩ := p.mem_orders.mp ho
  rw [hp.activeQuantity_eq_find, hp.find_eq_some ho] at h
  exact (hp.remaining_pos s o hs).ne' h

theorem Omits.retired (h : Omits id p p') (hinactive : ∀ o ∈ p.orders, o.id ≠ id) :
    p.Retired id where
  mem_seen := h.seenOrderIds_eq ▸ Finset.mem_insert_self id _
  active_eq_zero := List.sumAt_eq_zero hinactive

/-- A run of commands that are not about the order and do not trade with it. -/
theorem Omits.run (h : Omits id p p') (hp : p.Reached) (hp' : p'.Reached)
    {commands : List JournalCommand} (hid : ∀ command ∈ commands, command.orderId ≠ id)
    (hfree : ∀ t ∈ (p.log commands).trades, t.makerOrderId ≠ id)
    (hroom : (∀ r ∈ (p.run commands).1, r ≠ .submit (.rejected .quantityOverflow)) ∨
      ∀ o ∈ p.orders, o.id ≠ id) :
    (p'.run commands).1 = (p.run commands).1 ∧
      Omits id (p.run commands).2 (p'.run commands).2 := by
  induction commands generalizing p p' with
  | nil => exact ⟨rfl, h⟩
  | cons command commands ih =>
    obtain ⟨hcommand, hcommands⟩ := List.forall_mem_cons.mp hid
    obtain ⟨hfirst, hrest⟩ := List.forall_mem_append.mp hfree
    have hfirstroom : (p.apply command).1 = .submit (.rejected .quantityOverflow) →
        ∀ o ∈ p.orders, o.id ≠ id := fun heq =>
      hroom.resolve_left fun hroom => hroom _ List.mem_cons_self heq
    obtain ⟨hresult, hnext⟩ := h.apply hp hp' hcommand hfirst hfirstroom
    have hrestroom : (∀ r ∈ ((p.apply command).2.run commands).1,
        r ≠ .submit (.rejected .quantityOverflow)) ∨
        ∀ o ∈ (p.apply command).2.orders, o.id ≠ id := by
      refine hroom.imp (fun hroom r hr => hroom r (List.mem_cons_of_mem _ hr)) fun hinactive => ?_
      have hsilent := (h.retired hinactive).run hp.wellFormed [command]
      exact (hp.apply command).wellFormed.id_ne_of_activeQuantity hsilent.retired.active_eq_zero
    obtain ⟨hresults, hlast⟩ := ih hnext (hp.apply command) (hp'.apply command) hcommands hrest
      hrestroom
    exact ⟨congrArg₂ List.cons hresult hresults, hlast⟩

theorem Reached.run (hp : p.Reached) (commands : List JournalCommand) :
    (p.run commands).2.Reached :=
  runAll_invariant (fun _ command h => h.apply command) hp commands

/-- An accepted order of which everything is cancelled in the end has met nothing, and nothing has
traded with it. -/
theorem Reached.untouched (hp : p.Reached) (ha : p.Acceptable order)
    {commands : List JournalCommand} {o : OrderView}
    (hfind : (((p.accept order (p.fillFor order)).run commands).2).find order.id = some o)
    (hquantity : o.remainingQuantity = order.quantity) :
    p.crossing order = [] ∧ ∀ t ∈ ((p.accept order (p.fillFor order)).log commands).trades,
      t.makerOrderId ≠ order.id := by
  have hwf := hp.wellFormed
  have hwf' := hwf.accept ha
  have hseen : order.id ∈ (p.accept order (p.fillFor order)).seenOrderIds := by
    rw [seenOrderIds_accept]
    exact Finset.mem_insert_self _ _
  have hnone : ((p.accept order (p.fillFor order)).log commands).submittedQuantity order.id = 0 :=
    List.sumAt_eq_zero fun o ho heq => (run_seen hwf' commands).1 o ho (heq ▸ hseen)
  have hlast : ((p.accept order (p.fillFor order)).run commands).2.activeQuantity order.id =
      order.quantity.toNat := by
    rw [(run_wellFormed hwf' commands).activeQuantity_eq_find, hfind, ← hquantity]
    rfl
  -- what was submitted is still there, so nothing was traded on the way
  have hlength : (p.fillFor order).trades.length + (p.fillFor order).remaining.toNat ≤
      order.quantity.toNat := (fill_filling ..).length_add_remaining_le (hwf.remaining_pos _)
  have hbalance := run_conserves hwf' commands order.id
  rw [hwf.activeQuantity_accept_self ha, hnone, hlast] at hbalance
  constructor
  · exact crossing_eq_nil_of_trades_eq_nil hwf ha (List.eq_nil_of_length_eq_zero (by omega))
  · exact fun t ht => (Trade.ne_of_quantity_eq_zero (run_pos hwf' commands).1 (by omega) t ht).2

/-- An order that is accepted, left alone and cancelled as a whole leaves no trace: the commands in
between have the results that they have without it. -/
theorem Reached.run_without (hp : p.Reached) (ha : p.Acceptable order)
    {commands : List JournalCommand} {o : OrderView}
    (hfind : ((p.accept order (p.fillFor order)).run commands).2.find order.id = some o)
    (hquantity : o.remainingQuantity = order.quantity)
    (hid : ∀ command ∈ commands, command.orderId ≠ order.id)
    (hroom : ∀ r ∈ ((p.accept order (p.fillFor order)).run commands).1,
      r ≠ .submit (.rejected .quantityOverflow)) :
    (p.run commands).1 = ((p.accept order (p.fillFor order)).run commands).1 ∧
      Omits order.id (((p.accept order (p.fillFor order)).run commands).2.remove order.id)
        (p.run commands).2 ∧
      ∀ a ∈ (((p.accept order (p.fillFor order)).run commands).2.remove order.id).orders,
        a.id ≠ order.id := by
  obtain ⟨hclear, hfree⟩ := hp.untouched ha hfind hquantity
  have hreached := hp.accept ha
  have hplaced : Omits order.id (p.accept order (p.fillFor order)) p := by
    rw [accept_of_crossing_nil hclear ha.units_pos]
    exact omits_place hp.wellFormed ha.id_notMem_seen
  obtain ⟨hresults, homits⟩ := hplaced.run hreached hp hid hfree (Or.inl hroom)
  have heq : o.id = order.id := by simpa using List.find?_some hfind
  have hmem := List.mem_of_find?_eq_some hfind
  have hwf := (hreached.run commands).wellFormed
  rw [← heq] at homits ⊢
  exact ⟨hresults, homits.remove hwf hmem, fun a ha => hwf.id_ne_of_mem_remove hmem ha⟩

end Omits

end PriorityBook

end MatchingEngine
