import MatchingEngine.Data.KeyedList
import MatchingEngine.PriorityBook.Fill
import Mathlib.Data.Finset.Card

/-!
# The invariant of the priority book

Every operation keeps `PriorityBook.WellFormed`. The argument for a submitted order has two parts.
Filling only shrinks the opposite queue (`PriorityBook.Filling.shrinks`). If a quantity is left, the
queue that remains does not cross the order any more (`PriorityBook.not_crosses_of_mem_rest`),
which is what resting the residual needs.

## Main results

* `PriorityBook.WellFormed.submit`, `PriorityBook.WellFormed.cancel`, `PriorityBook.run_wellFormed`.
-/

namespace MatchingEngine

/-- There are fewer non-zero identifiers than words. -/
theorem OrderId.card_lt {ids : Finset OrderId} (h : ⟨0⟩ ∉ ids) : ids.card < 2 ^ 64 := by
  have hmaps : Set.MapsTo (fun id : OrderId => id.value.toNat) (insert ⟨0⟩ ids : Finset OrderId)
      (Finset.range (2 ^ 64) : Finset ℕ) :=
    fun id _ => Finset.mem_coe.mpr (Finset.mem_range.mpr id.value.toNat_lt)
  have hinj : Set.InjOn (fun id : OrderId => id.value.toNat) (insert ⟨0⟩ ids : Finset OrderId) := by
    rintro ⟨a⟩ - ⟨b⟩ - h
    exact congrArg OrderId.mk (UInt64.toNat_inj.mp h)
  have hcard := Finset.card_le_card_of_injOn _ hmaps hinj
  rw [Finset.card_insert_of_notMem h, Finset.card_range] at hcard
  omega

namespace PriorityBook

/-! ### Reading the two queues -/

section Queue

variable (p : PriorityBook) (s : BookSide) (q : List OrderView)

@[simp] theorem queue_setQueue : (p.setQueue s q).queue s = q := by
  cases s <;> rfl

@[simp] theorem queue_other_setQueue : (p.setQueue s q).queue s.other = p.queue s.other := by
  cases s <;> rfl

@[simp] theorem seenOrderIds_setQueue : (p.setQueue s q).seenOrderIds = p.seenOrderIds := by
  cases s <;> rfl

@[simp] theorem nextArrivalSequence_setQueue :
    (p.setQueue s q).nextArrivalSequence = p.nextArrivalSequence := by
  cases s <;> rfl

@[simp] theorem nextTradeId_setQueue : (p.setQueue s q).nextTradeId = p.nextTradeId := by
  cases s <;> rfl

theorem queue_remove (id : OrderId) :
    (p.remove id).queue s = (p.queue s).eraseP fun o => o.id = id := by
  cases s <;> rfl

theorem orders_perm : p.orders.Perm (p.queue s ++ p.queue s.other) := by
  cases s
  · exact .refl _
  · exact List.perm_append_comm

theorem mem_orders {o : OrderView} : o ∈ p.orders ↔ ∃ s, o ∈ p.queue s := by
  rw [orders, List.mem_append]
  constructor
  · rintro (h | h)
    · exact ⟨.bids, h⟩
    · exact ⟨.asks, h⟩
  · rintro ⟨_ | _, h⟩
    · exact Or.inl h
    · exact Or.inr h

end Queue

/-- Two books with the same queues, identifiers and counters are the same book. -/
theorem ext_queue {p p' : PriorityBook} (hq : ∀ s, p.queue s = p'.queue s)
    (hseen : p.seenOrderIds = p'.seenOrderIds)
    (harrival : p.nextArrivalSequence = p'.nextArrivalSequence)
    (htrade : p.nextTradeId = p'.nextTradeId) : p = p' := by
  obtain ⟨bids, asks, seen, arrival, trade⟩ := p
  obtain ⟨bids', asks', seen', arrival', trade'⟩ := p'
  have hb : bids = bids' := hq .bids
  have ha : asks = asks' := hq .asks
  simp_all

/-! ### Shrinking the queues -/

/-- `o` is `o'`, possibly with a smaller remaining quantity. -/
structure Reduced (o o' : OrderView) : Prop where
  id_eq : o.id = o'.id
  side_eq : o.side = o'.side
  limitPrice_eq : o.limitPrice = o'.limitPrice
  original_eq : o.originalQuantity = o'.originalQuantity
  remaining_le : o.remainingQuantity.toNat ≤ o'.remainingQuantity.toNat
  remaining_pos : 0 < o'.remainingQuantity.toNat → 0 < o.remainingQuantity.toNat

theorem Reduced.refl (o : OrderView) : Reduced o o := ⟨rfl, rfl, rfl, rfl, le_rfl, id⟩

/-- `q'` is what is left of the queue `q` after orders were removed or partly filled. -/
abbrev Shrinks (q' q : List OrderView) : Prop := List.SublistForall₂ Reduced q' q

theorem Shrinks.of_sublist {q' q : List OrderView} (h : q'.Sublist q) : Shrinks q' q :=
  List.sublistForall₂_iff.mpr ⟨q', List.forall₂_same.mpr fun o _ => .refl o, h⟩

section Shrinks

variable {q' q : List OrderView}

/-- What a partial fill does not change is what it was for the orders that are left. -/
theorem Shrinks.map_sublist {β : Type*} {g : OrderView → β}
    (hg : ∀ o o', Reduced o o' → g o = g o') (h : Shrinks q' q) : (q'.map g).Sublist (q.map g) := by
  induction h with
  | nil => exact List.nil_sublist _
  | cons hr _ ih => simpa only [List.map_cons, hg _ _ hr] using ih.cons_cons _
  | cons_right _ ih => exact ih.cons _

theorem Shrinks.map_id_sublist (h : Shrinks q' q) :
    (q'.map fun o => o.id).Sublist (q.map fun o => o.id) :=
  h.map_sublist fun _ _ hr => hr.id_eq

theorem Shrinks.exists_reduced (h : Shrinks q' q) {o : OrderView} (ho : o ∈ q') :
    ∃ o' ∈ q, Reduced o o' := by
  induction h with
  | nil => simp at ho
  | cons hr _ ih =>
    rcases List.mem_cons.mp ho with rfl | ho
    · exact ⟨_, List.mem_cons_self, hr⟩
    · obtain ⟨o', ho', hr'⟩ := ih ho
      exact ⟨o', List.mem_cons_of_mem _ ho', hr'⟩
  | cons_right _ ih =>
    obtain ⟨o', ho', hr'⟩ := ih ho
    exact ⟨o', List.mem_cons_of_mem _ ho', hr'⟩

theorem Shrinks.total_le (h : Shrinks q' q) (price : Price) :
    ((q'.filter fun o => o.limitPrice = price).map fun o => o.remainingQuantity.toNat).sum ≤
      ((q.filter fun o => o.limitPrice = price).map fun o => o.remainingQuantity.toNat).sum := by
  induction h with
  | nil => simp
  | @cons o o' _ _ hr _ ih =>
    have hle := hr.remaining_le
    by_cases hp : o'.limitPrice = price <;> simp [hr.limitPrice_eq, hp] <;> omega
  | @cons_right o' _ _ _ ih =>
    by_cases hp : o'.limitPrice = price <;> simp [hp] <;> omega

theorem Filling.shrinks {crosses : Price → Bool} {taker : OrderId} {next : UInt64}
    {quantity : Quantity} {f : Fill} (h : Filling crosses taker next quantity q f) :
    Shrinks f.rest q := by
  cases h with
  | stop filled rest => exact .of_sublist (List.sublist_append_right _ _)
  | part filled makers maker executed left _ _ _ hleft hsum =>
    refine List.sublistForall₂_iff.mpr ⟨maker :: makers, ?_, List.sublist_append_right _ _⟩
    exact .cons ⟨rfl, rfl, rfl, rfl, by dsimp only; omega, fun _ => hleft⟩
      (List.forall₂_same.mpr fun o _ => .refl o)

end Shrinks

/-- Removing orders, or parts of orders, keeps the book well formed. -/
theorem WellFormed.of_shrinks {p p' : PriorityBook} (hp : p.WellFormed)
    (hq : ∀ s, Shrinks (p'.queue s) (p.queue s)) (hseen : p.seenOrderIds ⊆ p'.seenOrderIds)
    (hzero : ⟨0⟩ ∉ p'.seenOrderIds) : p'.WellFormed where
  side_eq s o ho := by
    obtain ⟨o', ho', hr⟩ := (hq s).exists_reduced ho
    rw [hr.side_eq, hp.side_eq s o' ho']
  remaining_pos s o ho := by
    obtain ⟨o', ho', hr⟩ := (hq s).exists_reduced ho
    exact hr.remaining_pos (hp.remaining_pos s o' ho')
  remaining_le s o ho := by
    obtain ⟨o', ho', hr⟩ := (hq s).exists_reduced ho
    rw [hr.original_eq]
    exact hr.remaining_le.trans (hp.remaining_le s o' ho')
  sorted s := by
    have hs : ((p.queue s).map fun o => o.limitPrice).Pairwise fun a b => ¬ s.lt b a :=
      List.pairwise_map.mpr (hp.sorted s)
    exact List.pairwise_map.mp
      (hs.sublist ((hq s).map_sublist fun _ _ hr => hr.limitPrice_eq))
  uncrossed s o ho o' ho' := by
    obtain ⟨a, ha, hr⟩ := (hq s).exists_reduced ho
    obtain ⟨a', ha', hr'⟩ := (hq s.other).exists_reduced ho'
    rw [hr.limitPrice_eq, hr'.limitPrice_eq]
    exact hp.uncrossed s a ha a' ha'
  ids_nodup := by
    refine hp.ids_nodup.sublist ?_
    rw [orders, orders, List.map_append, List.map_append]
    exact (hq .bids).map_id_sublist.append (hq .asks).map_id_sublist
  ids_seen s o ho := by
    obtain ⟨o', ho', hr⟩ := (hq s).exists_reduced ho
    rw [hr.id_eq]
    exact hseen (hp.ids_seen s o' ho')
  zero_notMem_seen := hzero
  levelTotal_lt s price := ((hq s).total_le price).trans_lt (hp.levelTotal_lt s price)

/-! ### Resting an order -/

section Insert

variable {s : BookSide} {o : OrderView} {q : List OrderView}

theorem insertByPriority_perm : (insertByPriority s o q).Perm (o :: q) :=
  List.perm_orderedInsert _ o q

theorem mem_insertByPriority {a : OrderView} : a ∈ insertByPriority s o q ↔ a = o ∨ a ∈ q := by
  rw [insertByPriority_perm.mem_iff, List.mem_cons]

/-- An order is inserted between those that are at least as good and those that are worse. -/
theorem insertByPriority_append {q' : List OrderView}
    (hq : ∀ a ∈ q, ¬ s.lt o.limitPrice a.limitPrice)
    (hq' : ∀ a ∈ q', s.lt o.limitPrice a.limitPrice) :
    insertByPriority s o (q ++ q') = q ++ o :: q' := by
  induction q with
  | nil =>
    cases q' with
    | nil => rfl
    | cons a q' => exact if_pos (hq' a List.mem_cons_self)
  | cons a q ih =>
    obtain ⟨ha, hq⟩ := List.forall_mem_cons.mp hq
    exact (if_neg ha).trans (congrArg (a :: ·) (ih hq))

/-- The place where an order is inserted. -/
theorem exists_insertByPriority_eq (s : BookSide) (o : OrderView)
    (hq : q.Pairwise fun a b => ¬ s.lt b.limitPrice a.limitPrice) :
    ∃ q₁ q₂, q = q₁ ++ q₂ ∧ insertByPriority s o q = q₁ ++ o :: q₂ ∧
      (∀ a ∈ q₁, ¬ s.lt o.limitPrice a.limitPrice) ∧ ∀ a ∈ q₂, s.lt o.limitPrice a.limitPrice := by
  have hfirst : q.Pairwise fun a b => decide (¬ s.lt o.limitPrice b.limitPrice) = true →
      decide (¬ s.lt o.limitPrice a.limitPrice) = true := by
    refine hq.imp fun {a b} hab hb => ?_
    rw [decide_eq_true_iff] at hb ⊢
    intro hoa
    rcases trichotomous_of s.lt a.limitPrice b.limitPrice with h | h | h
    · exact hb (IsTrans.trans _ _ _ hoa h)
    · exact hb (h ▸ hoa)
    · exact hab h
  have hsplit := List.eq_filter_append_filter_not hfirst
  have hleft : ∀ a ∈ q.filter fun a => decide (¬ s.lt o.limitPrice a.limitPrice),
      ¬ s.lt o.limitPrice a.limitPrice := fun a ha => of_decide_eq_true (List.mem_filter.mp ha).2
  have hright : ∀ a ∈ q.filter fun a => ¬ decide (¬ s.lt o.limitPrice a.limitPrice),
      s.lt o.limitPrice a.limitPrice := fun a ha => by simpa using (List.mem_filter.mp ha).2
  exact ⟨_, _, hsplit, (congrArg _ hsplit).trans (insertByPriority_append hleft hright), hleft,
    hright⟩

theorem insertByPriority_sorted
    (hq : q.Pairwise fun a b => ¬ s.lt b.limitPrice a.limitPrice) :
    (insertByPriority s o q).Pairwise fun a b => ¬ s.lt b.limitPrice a.limitPrice := by
  obtain ⟨q₁, q₂, rfl, hinsert, hbefore, hafter⟩ := exists_insertByPriority_eq s o hq
  obtain ⟨hq₁, hq₂, hq₁₂⟩ := List.pairwise_append.mp hq
  rw [hinsert]
  refine List.pairwise_append.mpr
    ⟨hq₁, List.pairwise_cons.mpr ⟨fun b hb => asymm (hafter b hb), hq₂⟩, fun a ha b hb => ?_⟩
  rcases List.mem_cons.mp hb with rfl | hb
  · exact hbefore a ha
  · exact hq₁₂ a ha b hb

/-- An order adds to the level of its price. -/
theorem levelTotal_of_insert {p p' : PriorityBook}
    (hown : p'.queue s = insertByPriority s o (p.queue s)) (price : Price) :
    p'.levelTotal s price =
      p.levelTotal s price + if o.limitPrice = price then o.remainingQuantity.toNat else 0 := by
  have hsum := ((insertByPriority_perm (s := s) (o := o) (q := p.queue s)).filter
    fun a => a.limitPrice = price).map fun a => a.remainingQuantity.toNat
  rw [levelTotal, hown, hsum.sum_eq, levelTotal]
  by_cases hprice : o.limitPrice = price
  · simp [hprice, Nat.add_comm]
  · simp [hprice]

/-- An order of its own side that crosses nothing can rest in the book. -/
theorem WellFormed.insert {p p' : PriorityBook} (hp : p.WellFormed) (hside : o.side = s.side)
    (hpos : 0 < o.remainingQuantity.toNat)
    (hle : o.remainingQuantity.toNat ≤ o.originalQuantity.toNat)
    (hcross : ∀ o' ∈ p.queue s.other, s.lt o'.limitPrice o.limitPrice)
    (hid : ∀ s, ∀ o' ∈ p.queue s, o'.id ≠ o.id) (hseen : o.id ∈ p.seenOrderIds)
    (htotal : p.levelTotal s o.limitPrice + o.remainingQuantity.toNat < 2 ^ 64)
    (hown : p'.queue s = insertByPriority s o (p.queue s))
    (hother : p'.queue s.other = p.queue s.other) (hseen' : p'.seenOrderIds = p.seenOrderIds) :
    p'.WellFormed := by
  have hmem (t : BookSide) {a : OrderView} (ha : a ∈ p'.queue t) :
      (t = s ∧ a = o) ∨ a ∈ p.queue t := by
    rcases s.eq_or_eq_other t with rfl | rfl
    · rw [hown, mem_insertByPriority] at ha
      exact ha.imp_left fun h => ⟨rfl, h⟩
    · exact Or.inr (hother ▸ ha)
  have hperm : p'.orders.Perm (o :: p.orders) := by
    refine (p'.orders_perm s).trans ?_
    rw [hown, hother]
    exact (insertByPriority_perm.append_right _).trans ((p.orders_perm s).symm.cons o)
  refine
    { side_eq := fun t a ha => ?_
      remaining_pos := fun t a ha => ?_
      remaining_le := fun t a ha => ?_
      sorted := fun t => ?_
      uncrossed := fun t a ha a' ha' => ?_
      ids_nodup := ?_
      ids_seen := fun t a ha => ?_
      zero_notMem_seen := hseen' ▸ hp.zero_notMem_seen
      levelTotal_lt := fun t price => ?_ }
  · rcases hmem t ha with ⟨rfl, rfl⟩ | ha
    · exact hside
    · exact hp.side_eq t a ha
  · rcases hmem t ha with ⟨rfl, rfl⟩ | ha
    · exact hpos
    · exact hp.remaining_pos t a ha
  · rcases hmem t ha with ⟨rfl, rfl⟩ | ha
    · exact hle
    · exact hp.remaining_le t a ha
  · rcases s.eq_or_eq_other t with rfl | rfl
    · rw [hown]
      exact insertByPriority_sorted (hp.sorted t)
    · rw [hother]
      exact hp.sorted _
  · rcases hmem t ha with ⟨rfl, rfl⟩ | ha
    · rcases hmem t.other ha' with ⟨ht, -⟩ | ha'
      · exact absurd ht.symm t.ne_other
      · exact hcross a' ha'
    · rcases hmem t.other ha' with ⟨rfl, rfl⟩ | ha'
      · -- the new order is on the other side: read its clearance backwards
        rw [← BookSide.lt_other]
        exact hcross a (t.other_other.symm ▸ ha)
      · exact hp.uncrossed t a ha a' ha'
  · refine (hperm.map _).nodup_iff.mpr (List.nodup_cons.mpr ⟨?_, hp.ids_nodup⟩)
    rintro hmem'
    obtain ⟨a, ha, heq⟩ := List.mem_map.mp hmem'
    obtain ⟨t, ha⟩ := p.mem_orders.mp ha
    exact hid t a ha heq
  · rw [hseen']
    rcases hmem t ha with ⟨rfl, rfl⟩ | ha
    · exact hseen
    · exact hp.ids_seen t a ha
  · rcases s.eq_or_eq_other t with rfl | rfl
    · rw [levelTotal_of_insert hown]
      split
      · next hprice => exact hprice ▸ htotal
      · exact hp.levelTotal_lt t price
    · rw [levelTotal, hother]
      exact hp.levelTotal_lt _ price

end Insert

/-! ### Operations -/

/-- What it takes for an order to be accepted. -/
structure Acceptable (p : PriorityBook) (order : NewLimitOrder) : Prop where
  id_ne_zero : order.id.value ≠ 0
  side_valid : order.side = .buy ∨ order.side = .sell
  price_ne_zero : order.limitPrice.ticks ≠ 0
  quantity_ne_zero : order.quantity.units ≠ 0
  id_notMem_seen : order.id ∉ p.seenOrderIds
  idsAvailable : IdsAvailable p.nextTradeId (p.fillFor order).trades.length
  sequence_ne_zero : 0 < (p.fillFor order).remaining.units → p.nextArrivalSequence ≠ 0
  total_lt : 0 < (p.fillFor order).remaining.units →
    p.levelTotal (.ofSide order.side) order.limitPrice + (p.fillFor order).remaining.toNat < 2 ^ 64

theorem rejection_eq_none_iff {p : PriorityBook} {order : NewLimitOrder} :
    p.rejection order = none ↔ p.Acceptable order := by
  unfold rejection
  constructor
  · intro h
    split_ifs at h with h1 h2 h3 h4 h5 h6 h7 h8
    exact ⟨h1, by simpa [or_iff_not_imp_left] using h2, h3, h4, h5, h6,
      fun hpos hz => h7 ⟨hpos, hz⟩, fun hpos => Nat.lt_of_not_le fun hle => h8 ⟨hpos, hle⟩⟩
  · rintro ⟨h1, h2, h3, h4, h5, h6, h7, h8⟩
    rw [if_neg h1, if_neg (by simpa [or_iff_not_imp_left] using h2), if_neg h3, if_neg h4,
      if_neg h5, if_neg (not_not.mpr h6), if_neg fun h => h7 h.1 h.2,
      if_neg fun h => absurd (h8 h.1) (Nat.not_lt.mpr h.2)]

theorem submit_of_acceptable {p : PriorityBook} {order : NewLimitOrder} (h : p.Acceptable order) :
    p.submit order = (acceptResult order (p.fillFor order), p.accept order (p.fillFor order)) := by
  rw [submit, rejection_eq_none_iff.mpr h]

/-- When a quantity is left over, no order that is left crosses the incoming one. -/
theorem not_crosses_of_mem_rest {s : BookSide} {price : Price} {taker : OrderId} {next : UInt64}
    {quantity : Quantity} {q : List OrderView}
    (hq : q.Pairwise fun a b => ¬ s.lt b.limitPrice a.limitPrice)
    (hrem : 0 < (fill (fun p => s.crosses p price) taker next quantity q).remaining.units) :
    ∀ o ∈ (fill (fun p => s.crosses p price) taker next quantity q).rest,
      s.lt price o.limitPrice := by
  generalize hf : fill (fun p => s.crosses p price) taker next quantity q = f at hrem ⊢
  cases hf ▸ fill_filling (fun p => s.crosses p price) taker next quantity q with
  | stop filled rest remaining hcross hquantity hend =>
    have hhead := hend.resolve_left fun h => absurd (h ▸ hrem) (by decide)
    have hrest := (List.pairwise_append.mp hq).2.1
    cases rest with
    | nil => simp
    | cons first rest =>
      have hfirst : s.lt price first.limitPrice := by
        simpa [BookSide.crosses] using hhead first rfl
      intro o ho
      rcases List.mem_cons.mp ho with rfl | ho
      · exact hfirst
      · have hle := (List.pairwise_cons.mp hrest).1 o ho
        rcases trichotomous_of s.lt first.limitPrice o.limitPrice with hlt | heq | hgt
        · exact IsTrans.trans _ _ _ hfirst hlt
        · exact heq ▸ hfirst
        · exact absurd hgt hle
  | part => exact absurd hrem (UInt64.lt_irrefl 0)

section Accept

variable {p : PriorityBook} {order : NewLimitOrder}

theorem queue_matched_other (f : Fill) :
    (p.matched order f).queue (BookSide.ofSide order.side).other = f.rest := by
  unfold matched
  cases BookSide.ofSide order.side <;> rfl

theorem queue_matched (f : Fill) : (p.matched order f).queue (BookSide.ofSide order.side) =
    p.queue (BookSide.ofSide order.side) := by
  unfold matched
  cases BookSide.ofSide order.side <;> rfl

/-- The trades of an accepted order only shrink the queues. -/
theorem matched_shrinks (s : BookSide) :
    Shrinks ((p.matched order (p.fillFor order)).queue s) (p.queue s) := by
  rcases (BookSide.ofSide order.side).eq_or_eq_other s with rfl | rfl
  · rw [queue_matched]
    exact .of_sublist (.refl _)
  · rw [queue_matched_other]
    exact (fill_filling ..).shrinks

theorem WellFormed.matched (hp : p.WellFormed) (hid : order.id.value ≠ 0) :
    (p.matched order (p.fillFor order)).WellFormed := by
  refine hp.of_shrinks matched_shrinks (Finset.subset_insert _ _) ?_
  intro hz
  rcases Finset.mem_insert.mp hz with hz | hz
  · exact hid (congrArg OrderId.value hz).symm
  · exact hp.zero_notMem_seen hz

/-- The identifier of a new order is not that of a resting one. -/
theorem WellFormed.id_ne_of_mem_matched (hp : p.WellFormed) (hid : order.id ∉ p.seenOrderIds)
    (s : BookSide) {o : OrderView} (ho : o ∈ (p.matched order (p.fillFor order)).queue s) :
    o.id ≠ order.id := by
  intro heq
  obtain ⟨a, ha, hr⟩ := (matched_shrinks s).exists_reduced ho
  have hseen := hp.ids_seen s a ha
  rw [← hr.id_eq, heq] at hseen
  exact hid hseen

theorem WellFormed.accept (hp : p.WellFormed) (ha : p.Acceptable order) :
    (p.accept order (p.fillFor order)).WellFormed := by
  have hm := hp.matched ha.id_ne_zero
  by_cases hrem : 0 < (p.fillFor order).remaining.units
  · rw [PriorityBook.accept, if_pos hrem]
    refine hm.insert (s := .ofSide order.side) (o := residual order (p.fillFor order).remaining)
      ?_ (Quantity.units_pos_iff.mp hrem) (fill_filling ..).remaining_le ?_ ?_
      (Finset.mem_insert_self _ _) ?_ ?_ ?_ ?_
    · rcases ha.side_valid with h | h <;> simp only [residual, h] <;> rfl
    · intro o' ho'
      rw [queue_matched_other] at ho'
      rw [← BookSide.lt_other]
      exact not_crosses_of_mem_rest (hp.sorted _) hrem o' ho'
    · exact fun s o' ho' => hp.id_ne_of_mem_matched ha.id_notMem_seen s ho'
    · rw [levelTotal, queue_matched]
      exact ha.total_lt hrem
    · rw [rested]
      cases BookSide.ofSide order.side <;> rfl
    · rw [rested]
      cases BookSide.ofSide order.side <;> rfl
    · rw [rested]
      cases BookSide.ofSide order.side <;> rfl
  · rwa [PriorityBook.accept, if_neg hrem]

theorem WellFormed.submit (hp : p.WellFormed) (order : NewLimitOrder) :
    (p.submit order).2.WellFormed := by
  cases hr : p.rejection order with
  | some reason => simpa only [PriorityBook.submit, hr] using hp
  | none =>
    rw [submit_of_acceptable (rejection_eq_none_iff.mp hr)]
    exact hp.accept (rejection_eq_none_iff.mp hr)

theorem WellFormed.remove (hp : p.WellFormed) (id : OrderId) : (p.remove id).WellFormed := by
  refine hp.of_shrinks (fun s => ?_) (Finset.Subset.refl _) hp.zero_notMem_seen
  rw [queue_remove]
  exact .of_sublist List.eraseP_sublist

/-- Identifiers are unique, so removing an order is cutting it out of the queue of its side. -/
theorem WellFormed.eq_remove {p' : PriorityBook} {s : BookSide} {o : OrderView}
    {q₁ q₂ : List OrderView} (hp : p.WellFormed) (hq : p.queue s = q₁ ++ o :: q₂)
    (hown : p'.queue s = q₁ ++ q₂) (hother : p'.queue s.other = p.queue s.other)
    (hseen : p'.seenOrderIds = p.seenOrderIds)
    (harrival : p'.nextArrivalSequence = p.nextArrivalSequence)
    (htrade : p'.nextTradeId = p.nextTradeId) : p' = p.remove o.id := by
  have hnodup := ((p.orders_perm s).map fun o => o.id).nodup_iff.mp hp.ids_nodup
  rw [List.map_append, List.nodup_append, hq] at hnodup
  refine ext_queue (fun t => ?_) hseen harrival htrade
  rw [queue_remove]
  rcases s.eq_or_eq_other t with rfl | rfl
  · rw [hown, hq, List.eraseP_key (fun o : OrderView => o.id) hnodup.1]
  · rw [hother, List.eraseP_of_forall_not]
    intro o' ho' heq
    exact hnodup.2.2 o.id (by simp) o'.id (List.mem_map_of_mem ho') (of_decide_eq_true heq).symm

/-- An active order is found by its identifier. -/
theorem WellFormed.find_eq_some {o : OrderView} (hp : p.WellFormed) (ho : o ∈ p.orders) :
    p.find o.id = some o :=
  List.find?_key (fun o : OrderView => o.id) hp.ids_nodup ho

theorem WellFormed.find_eq_some_iff {id : OrderId} {o : OrderView} (hp : p.WellFormed) :
    p.find id = some o ↔ o ∈ p.orders ∧ o.id = id := by
  constructor
  · intro h
    exact ⟨List.mem_of_find?_eq_some h, by simpa using List.find?_some h⟩
  · rintro ⟨ho, rfl⟩
    exact hp.find_eq_some ho

theorem WellFormed.cancel (hp : p.WellFormed) (id : OrderId) : (p.cancel id).2.WellFormed := by
  cases hf : p.find id with
  | none => simpa only [PriorityBook.cancel, hf] using hp
  | some o => simpa only [PriorityBook.cancel, hf] using hp.remove id

theorem WellFormed.apply (hp : p.WellFormed) :
    (command : JournalCommand) → (p.apply command).2.WellFormed
  | .submitLimitOrder order => hp.submit order
  | .cancelOrder id => hp.cancel id

end Accept

/-! ### Counting -/

theorem WellFormed.orders_length_le {p : PriorityBook} (hp : p.WellFormed) :
    p.orders.length ≤ p.seenOrderIds.card := by
  rw [← List.length_map (fun o : OrderView => o.id), ← List.toFinset_card_of_nodup hp.ids_nodup]
  refine Finset.card_le_card fun id hid => ?_
  obtain ⟨o, ho, rfl⟩ := List.mem_map.mp (List.mem_toFinset.mp hid)
  obtain ⟨s, ho⟩ := p.mem_orders.mp ho
  exact hp.ids_seen s o ho

theorem queue_length_le (p : PriorityBook) (s : BookSide) :
    (p.queue s).length ≤ p.orders.length := by
  rw [(p.orders_perm s).length_eq, List.length_append]
  exact Nat.le_add_right _ _

/-! ### Sequences of commands -/

/-- The invariant holds after every sequence of commands. -/
theorem run_wellFormed {p : PriorityBook} (hp : p.WellFormed) (commands : List JournalCommand) :
    (p.run commands).2.WellFormed :=
  runAll_invariant (fun _ command hp => hp.apply command) hp commands

end PriorityBook

end MatchingEngine
