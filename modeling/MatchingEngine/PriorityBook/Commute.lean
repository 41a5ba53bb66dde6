import MatchingEngine.PriorityBook.Crossing

/-!
# Commands that commute

A command that trades with nobody has an effect of its own on the book: an order that meets nothing
is put behind the orders at its price, and a cancelled order is taken out. Two such commands about
different orders do not see each other, unless both of them put an order at the same price, where
the first one is in front, or at prices that cross, where the second one would have traded.

## Main definitions

* `PriorityBook.Quiet`: a command that is carried out without a trade.
* `JournalCommand.Apart`: two commands that do not see each other.

## Main results

* `PriorityBook.Quiet.effect`: a quiet command stays quiet, with the same result.
* `PriorityBook.effect_comm`, `PriorityBook.run_comm`: two quiet commands commute.
-/

namespace MatchingEngine

/-- The order that a command is about. -/
def JournalCommand.orderId : JournalCommand → OrderId
  | .submitLimitOrder order => order.id
  | .cancelOrder id => id

/-- Two incoming orders are on opposite sides and would trade with each other. -/
def NewLimitOrder.Crosses (o o' : NewLimitOrder) : Prop :=
  o.side = .buy ∧ o'.side = .sell ∧ o'.limitPrice ≤ o.limitPrice ∨
    o.side = .sell ∧ o'.side = .buy ∧ o.limitPrice ≤ o'.limitPrice

/-- Two commands do not both submit orders that would share a level or trade with each other. -/
def JournalCommand.Apart : JournalCommand → JournalCommand → Prop
  | .submitLimitOrder o, .submitLimitOrder o' =>
    ¬ (o.side = o'.side ∧ o.limitPrice = o'.limitPrice) ∧ ¬ o.Crosses o'
  | _, _ => True

theorem NewLimitOrder.Crosses.symm {o o' : NewLimitOrder} (h : o.Crosses o') : o'.Crosses o := by
  rcases h with ⟨hs, hs', hle⟩ | ⟨hs, hs', hle⟩
  · exact Or.inr ⟨hs', hs, hle⟩
  · exact Or.inl ⟨hs', hs, hle⟩

theorem JournalCommand.Apart.symm {c c' : JournalCommand} (h : c.Apart c') : c'.Apart c := by
  match c, c' with
  | .submitLimitOrder o, .submitLimitOrder o' =>
    exact ⟨fun heq => h.1 ⟨heq.1.symm, heq.2.symm⟩, fun hcross => h.2 hcross.symm⟩
  | .submitLimitOrder _, .cancelOrder _ => trivial
  | .cancelOrder _, .submitLimitOrder _ => trivial
  | .cancelOrder _, .cancelOrder _ => trivial

section Apart

variable {o o' : NewLimitOrder}

theorem JournalCommand.Apart.limitPrice_ne
    (h : JournalCommand.Apart (.submitLimitOrder o) (.submitLimitOrder o'))
    (hside : o.side = .buy ∨ o.side = .sell) (hside' : o'.side = .buy ∨ o'.side = .sell)
    (hs : BookSide.ofSide o.side = .ofSide o'.side) : o.limitPrice ≠ o'.limitPrice := by
  rcases hside with hside | hside <;> rcases hside' with hside' | hside'
  · exact fun heq => h.1 ⟨hside.trans hside'.symm, heq⟩
  · rw [hside, hside'] at hs
    cases hs
  · rw [hside, hside'] at hs
    cases hs
  · exact fun heq => h.1 ⟨hside.trans hside'.symm, heq⟩

theorem JournalCommand.Apart.not_crosses
    (h : JournalCommand.Apart (.submitLimitOrder o) (.submitLimitOrder o'))
    (hside : o.side = .buy ∨ o.side = .sell) (hside' : o'.side = .buy ∨ o'.side = .sell)
    (hs : (BookSide.ofSide o'.side).other = .ofSide o.side) :
    ¬ (BookSide.ofSide o'.side).other.crosses o.limitPrice o'.limitPrice := by
  rw [BookSide.crosses, decide_eq_true_iff]
  rcases hside with hside | hside <;> rcases hside' with hside' | hside'
  · rw [hside, hside'] at hs
    cases hs
  · rw [hside']
    exact fun hle => h.2 (Or.inl ⟨hside, hside', not_lt.mp hle⟩)
  · rw [hside']
    exact fun hle => h.2 (Or.inr ⟨hside, hside', not_lt.mp hle⟩)
  · rw [hside, hside'] at hs
    cases hs

end Apart

/-- The result of a submission that was accepted without a trade, or of a cancellation that found
its order. -/
def BatchCommandResult.quiet : BatchCommandResult → Bool
  | .submit r => r.status = .accepted ∧ r.trades = []
  | .cancel r => r.status = .cancelled

namespace PriorityBook

/-! ### Insertions and removals -/

section Insert

variable {s : BookSide} {o o' : OrderView} {q : List OrderView}

/-- Orders at different prices can be inserted in either order. -/
theorem insertByPriority_comm (h : o.limitPrice ≠ o'.limitPrice) :
    insertByPriority s o (insertByPriority s o' q) =
      insertByPriority s o' (insertByPriority s o q) := by
  unfold insertByPriority
  have hasymm : s.lt o.limitPrice o'.limitPrice ↔ ¬ s.lt o'.limitPrice o.limitPrice := by
    constructor
    · exact asymm
    · intro hnot
      exact ((trichotomous_of s.lt _ _).resolve_right fun hor => hor.elim h hnot)
  induction q with
  | nil =>
    by_cases hlt : s.lt o.limitPrice o'.limitPrice
    · simp [hlt, hasymm.mp hlt]
    · simp [hlt, not_not.mp (mt hasymm.mpr hlt)]
  | cons a q ih =>
    by_cases ha : s.lt o.limitPrice a.limitPrice <;> by_cases ha' : s.lt o'.limitPrice a.limitPrice
    · by_cases hlt : s.lt o.limitPrice o'.limitPrice
      · simp [ha, ha', hlt, hasymm.mp hlt]
      · simp [ha, ha', hlt, not_not.mp (mt hasymm.mpr hlt)]
    · have hnot : ¬ s.lt o'.limitPrice o.limitPrice := fun hlt => ha' (IsTrans.trans _ _ _ hlt ha)
      simp [ha, ha', hnot]
    · have hnot : ¬ s.lt o.limitPrice o'.limitPrice := fun hlt => ha (IsTrans.trans _ _ _ hlt ha')
      simp [ha, ha', hnot]
    · simpa [ha, ha'] using ih

/-- Inserting an order commutes with removing another one. -/
theorem eraseP_insertByPriority {id : OrderId} (hid : o.id ≠ id)
    (hq : q.Pairwise fun a b => ¬ s.lt b.limitPrice a.limitPrice) :
    (insertByPriority s o q).eraseP (fun a => a.id = id) =
      insertByPriority s o (q.eraseP fun a => a.id = id) := by
  obtain ⟨q₁, q₂, rfl, hinsert, hbefore, hafter⟩ := exists_insertByPriority_eq s o hq
  rw [hinsert, List.eraseP_append, List.eraseP_append]
  split_ifs with hany
  · rw [insertByPriority_append (fun a ha => hbefore a (List.mem_of_mem_eraseP ha)) hafter]
  · rw [insertByPriority_append hbefore fun a ha => hafter a (List.mem_of_mem_eraseP ha),
      List.eraseP_cons_of_neg (by simpa using hid)]

end Insert

/-! ### The effect of a command without a trade -/

/-- Put an order that meets nothing behind the orders at its price. -/
def place (p : PriorityBook) (order : NewLimitOrder) : PriorityBook :=
  { p with seenOrderIds := insert order.id p.seenOrderIds }.rested order order.quantity

/-- What a command does to a book if it is carried out without a trade. -/
def effect (p : PriorityBook) : JournalCommand → PriorityBook
  | .submitLimitOrder order => p.place order
  | .cancelOrder id => p.remove id

section Place

variable {p : PriorityBook} {order order' : NewLimitOrder}

theorem queue_place (p : PriorityBook) (order : NewLimitOrder) (s : BookSide) :
    (p.place order).queue s =
    if s = .ofSide order.side then insertByPriority s (residual order order.quantity) (p.queue s)
    else p.queue s := by
  unfold place rested
  cases s <;> cases BookSide.ofSide order.side <;> rfl

theorem seenOrderIds_place :
    (p.place order).seenOrderIds = insert order.id p.seenOrderIds :=
  seenOrderIds_setQueue ..

theorem nextTradeId_place : (p.place order).nextTradeId = p.nextTradeId :=
  nextTradeId_setQueue ..

theorem mem_queue_place {s : BookSide} {o : OrderView} : o ∈ (p.place order).queue s ↔
    s = .ofSide order.side ∧ o = residual order order.quantity ∨ o ∈ p.queue s := by
  rw [queue_place]
  split_ifs with hs
  · simp [mem_insertByPriority, hs]
  · simp [hs]

/-- An order that meets nothing is placed. -/
theorem accept_of_crossing_nil (hclear : p.crossing order = []) (hpos : 0 < order.quantity.units) :
    p.accept order (p.fillFor order) = p.place order := by
  rw [fillFor_of_crossing_nil hclear, accept, if_pos hpos]
  refine congrArg (fun p => rested p order order.quantity) (ext_queue (fun s => ?_) rfl ?_ ?_)
  · rcases (BookSide.ofSide order.side).eq_or_eq_other s with rfl | rfl
    · exact queue_matched _
    · exact queue_matched_other _
  · exact nextArrivalSequence_setQueue ..
  · exact UInt64.add_zero _

theorem place_comm (h : BookSide.ofSide order.side = .ofSide order'.side →
      order.limitPrice ≠ order'.limitPrice) :
    (p.place order).place order' = (p.place order').place order := by
  refine ext_queue (fun s => ?_) ?_ rfl ?_
  · simp only [queue_place]
    split_ifs with hs' hs hs
    · exact insertByPriority_comm fun hprice => h (hs.symm.trans hs') hprice.symm
    all_goals rfl
  · simp only [seenOrderIds_place, Finset.insert_comm]
  · simp only [nextTradeId_place]

theorem remove_place_comm (hp : p.WellFormed) {id : OrderId} (hid : order.id ≠ id) :
    (p.place order).remove id = (p.remove id).place order := by
  refine ext_queue (fun s => ?_) ?_ rfl ?_
  · simp only [queue_place, queue_remove]
    split_ifs
    · exact eraseP_insertByPriority hid (hp.sorted s)
    · rfl
  · rw [remove, seenOrderIds_place, seenOrderIds_place]
    rfl
  · rw [remove, nextTradeId_place, nextTradeId_place]
    rfl

theorem remove_comm {id id' : OrderId} (hid : id ≠ id') :
    (p.remove id).remove id' = (p.remove id').remove id := by
  refine ext_queue (fun s => ?_) rfl rfl rfl
  simp only [queue_remove]
  refine List.eraseP_comm fun o _ => ?_
  by_cases h : o.id = id
  · exact Or.inr (by simpa [h] using hid)
  · exact Or.inl (by simpa using h)

end Place

/-! ### Quiet commands -/

/-- The command is carried out on the book without a trade, with the given result. -/
inductive Quiet (p : PriorityBook) : JournalCommand → BatchCommandResult → Prop
  | placed (order : NewLimitOrder) (ha : p.Acceptable order) (hclear : p.crossing order = []) :
      Quiet p (.submitLimitOrder order) (.submit (acceptResult order ⟨[], order.quantity, []⟩))
  | cancelled (o : OrderView) (ho : o ∈ p.orders) :
      Quiet p (.cancelOrder o.id) (.cancel ⟨.cancelled, o.remainingQuantity⟩)

section Quiet

variable {p : PriorityBook} {c c' : JournalCommand} {r r' : BatchCommandResult}

theorem Acceptable.units_pos {order : NewLimitOrder} (ha : p.Acceptable order) :
    0 < order.quantity.units :=
  UInt64.pos_iff_ne_zero.mpr ha.quantity_ne_zero

theorem Quiet.apply_eq (h : p.Quiet c r) (hp : p.WellFormed) : p.apply c = (r, p.effect c) := by
  cases h with
  | placed order ha hclear =>
    rw [apply, submit_of_acceptable ha, accept_of_crossing_nil hclear ha.units_pos,
      fillFor_of_crossing_nil hclear]
    rfl
  | cancelled o ho =>
    rw [apply, cancel, hp.find_eq_some ho]
    rfl

/-- Without a trade, an accepted order has met nothing. -/
theorem crossing_eq_nil_of_trades_eq_nil (hp : p.WellFormed) {order : NewLimitOrder}
    (ha : p.Acceptable order) (h : (p.fillFor order).trades = []) : p.crossing order = [] := by
  have hgreedy : GreedyFill order (p.crossing order) (p.fillFor order).trades := hp.greedyFill
  rw [h] at hgreedy
  rcases hgreedy.exhausted with hlength | htotal
  · exact List.length_eq_zero_iff.mp hlength.symm
  · exact absurd (Quantity.units_eq_zero_iff.mpr htotal.symm) ha.quantity_ne_zero

theorem quiet_of_apply (hp : p.WellFormed) (h : (p.apply c).1.quiet = true) :
    p.Quiet c (p.apply c).1 := by
  have happlied := p.apply_applied c
  generalize p.apply c = applied at h happlied ⊢
  obtain ⟨r, p'⟩ := applied
  cases happlied with
  | rejected order reason =>
    cases h
  | accepted order ha =>
    have htrades : (p.fillFor order).trades = [] := (of_decide_eq_true h).2
    have hclear := crossing_eq_nil_of_trades_eq_nil hp ha htrades
    rw [fillFor_of_crossing_nil hclear]
    exact .placed order ha hclear
  | notFound id =>
    cases h
  | cancelled o ho => exact .cancelled o ho

/-- An order that meets nothing in either of two books is accepted by both, if the second one does
not have more at its price. -/
theorem Acceptable.of_clear {p' : PriorityBook} {order : NewLimitOrder} (ha : p.Acceptable order)
    (hclear : p.crossing order = []) (hclear' : p'.crossing order = [])
    (hseen : order.id ∉ p'.seenOrderIds)
    (hsequence : ∀ id : OrderId, id.value ≠ 0 → id ∉ p'.seenOrderIds → p'.nextArrivalSequence ≠ 0)
    (htotal : p'.levelTotal (.ofSide order.side) order.limitPrice ≤
      p.levelTotal (.ofSide order.side) order.limitPrice) : p'.Acceptable order where
  id_ne_zero := ha.id_ne_zero
  side_valid := ha.side_valid
  price_ne_zero := ha.price_ne_zero
  quantity_ne_zero := ha.quantity_ne_zero
  id_notMem_seen := hseen
  idsAvailable := by
    rw [fillFor_of_crossing_nil hclear']
    exact Or.inl rfl
  sequence_ne_zero _ := hsequence order.id ha.id_ne_zero hseen
  total_lt hpos := by
    have hlt := ha.total_lt
    rw [fillFor_of_crossing_nil hclear'] at hpos ⊢
    rw [fillFor_of_crossing_nil hclear] at hlt
    exact (Nat.add_le_add_right htotal _).trans_lt (hlt hpos)

/-- After an order was placed, another one that is apart from it meets as much as before. -/
theorem crossing_place_eq_nil {order order' : NewLimitOrder} (ha : p.Acceptable order)
    (ha' : p.Acceptable order') (hclear' : p.crossing order' = [])
    (hapart : JournalCommand.Apart (.submitLimitOrder order) (.submitLimitOrder order')) :
    (p.place order).crossing order' = [] := by
  refine List.filter_eq_nil_iff.mpr fun o ho => ?_
  rcases mem_queue_place.mp ho with ⟨hs, rfl⟩ | ho
  · exact hapart.not_crosses ha.side_valid ha'.side_valid hs
  · exact List.filter_eq_nil_iff.mp hclear' o ho

theorem levelTotal_place_eq {order order' : NewLimitOrder} (ha : p.Acceptable order)
    (ha' : p.Acceptable order')
    (hapart : JournalCommand.Apart (.submitLimitOrder order) (.submitLimitOrder order')) :
    (p.place order).levelTotal (.ofSide order'.side) order'.limitPrice =
      p.levelTotal (.ofSide order'.side) order'.limitPrice := by
  have hqueue := p.queue_place order (.ofSide order'.side)
  split_ifs at hqueue with hs
  · have hne := hapart.limitPrice_ne ha.side_valid ha'.side_valid hs.symm
    rw [levelTotal_of_insert hqueue, residual, if_neg hne, Nat.add_zero]
  · rw [levelTotal, hqueue, levelTotal]

theorem crossing_remove_eq_nil {order : NewLimitOrder} (hclear : p.crossing order = [])
    (id : OrderId) : (p.remove id).crossing order = [] := by
  refine List.filter_eq_nil_iff.mpr fun o ho => List.filter_eq_nil_iff.mp hclear o ?_
  rw [queue_remove] at ho
  exact List.mem_of_mem_eraseP ho

theorem levelTotal_remove_le (s : BookSide) (price : Price) (id : OrderId) :
    (p.remove id).levelTotal s price ≤ p.levelTotal s price := by
  rw [levelTotal, queue_remove]
  exact (Shrinks.of_sublist List.eraseP_sublist).total_le price

/-- An order stays in the book when another command is carried out without a trade. -/
theorem mem_orders_effect {o : OrderView} (ho : o ∈ p.orders) (hid : c.orderId ≠ o.id) :
    o ∈ (p.effect c).orders := by
  obtain ⟨s, ho⟩ := p.mem_orders.mp ho
  refine (mem_orders _).mpr ⟨s, ?_⟩
  cases c with
  | submitLimitOrder order => exact mem_queue_place.mpr (Or.inr ho)
  | cancelOrder id =>
    replace hid : id ≠ o.id := hid
    rw [PriorityBook.effect, queue_remove]
    exact (List.mem_eraseP_of_neg (by simpa using Ne.symm hid)).mpr ho

/-- A quiet command stays quiet, with the same result, after another one about another order. -/
theorem Quiet.effect (h' : p.Quiet c' r') (h : p.Quiet c r)
    (hid : c.orderId ≠ c'.orderId) (hapart : c.Apart c')
    (hsequence : ∀ id : OrderId, id.value ≠ 0 → id ∉ (p.effect c).seenOrderIds →
      (p.effect c).nextArrivalSequence ≠ 0) :
    (p.effect c).Quiet c' r' := by
  cases h' with
  | cancelled o' ho' => exact .cancelled o' (mem_orders_effect ho' hid)
  | placed order' ha' hclear' =>
    cases h with
    | placed order ha hclear =>
      have hclear'' := crossing_place_eq_nil ha ha' hclear' hapart
      refine .placed order' (ha'.of_clear hclear' hclear'' ?_ hsequence
        (levelTotal_place_eq ha ha' hapart).le) hclear''
      rw [PriorityBook.effect, seenOrderIds_place, Finset.mem_insert, not_or]
      exact ⟨hid.symm, ha'.id_notMem_seen⟩
    | cancelled o ho =>
      have hclear'' := crossing_remove_eq_nil hclear' o.id
      exact .placed order' (ha'.of_clear hclear' hclear'' ha'.id_notMem_seen hsequence
        (levelTotal_remove_le ..)) hclear''

/-- The effects of two quiet commands about different orders commute. -/
theorem effect_comm (hp : p.WellFormed) (h : p.Quiet c r) (h' : p.Quiet c' r')
    (hid : c.orderId ≠ c'.orderId) (hapart : c.Apart c') :
    (p.effect c).effect c' = (p.effect c').effect c := by
  cases h with
  | placed order ha hclear =>
    cases h' with
    | placed order' ha' hclear' =>
      exact place_comm (hapart.limitPrice_ne ha.side_valid ha'.side_valid)
    | cancelled o' ho' => exact remove_place_comm hp hid
  | cancelled o ho =>
    cases h' with
    | placed order' ha' hclear' => exact (remove_place_comm hp hid.symm).symm
    | cancelled o' ho' => exact remove_comm hid

/-- Two quiet commands about different orders can be run in either order. -/
theorem run_comm (hp : p.WellFormed) (h : p.Quiet c r) (h' : p.Quiet c' r')
    (hid : c.orderId ≠ c'.orderId) (hapart : c.Apart c')
    (hsequence : ∀ c'' r'', p.Quiet c'' r'' → ∀ id : OrderId, id.value ≠ 0 →
      id ∉ (p.effect c'').seenOrderIds → (p.effect c'').nextArrivalSequence ≠ 0) :
    p.run [c, c'] = ([r, r'], (p.effect c).effect c') ∧
      p.run [c', c] = ([r', r], (p.effect c).effect c') := by
  have hrun {c₁ c₂ : JournalCommand} {r₁ r₂ : BatchCommandResult} (h₁ : p.Quiet c₁ r₁)
      (h₂ : (p.effect c₁).Quiet c₂ r₂) :
      p.run [c₁, c₂] = ([r₁, r₂], (p.effect c₁).effect c₂) := by
    have hp' : (p.effect c₁).WellFormed := by
      have happly := hp.apply c₁
      rwa [h₁.apply_eq hp] at happly
    rw [run, runAll, h₁.apply_eq hp, runAll, h₂.apply_eq hp', runAll]
  refine ⟨hrun h (h'.effect h hid hapart (hsequence c r h)), ?_⟩
  rw [effect_comm hp h h' hid hapart]
  exact hrun h' (h.effect h' hid.symm hapart.symm (hsequence c' r' h'))

end Quiet

end PriorityBook

end MatchingEngine
