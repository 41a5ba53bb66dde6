import MatchingEngine.PriorityBook.WellFormed
import Mathlib.Algebra.Group.Basic

/-!
# Mirrored books

Buying and selling are the same up to the order of the prices. The mirror swaps the two sides and
reverses the order of the prices: it takes a price `p` to `2 ^ 64 - p`, and leaves `0`, which is no
valid price, where it is. A book does to the mirror of a command what it does to the command.

## Main definitions

* `Side.mirror`, `Price.mirror`, `JournalCommand.mirror`, `BatchCommandResult.mirror`.
* `PriorityBook.mirror`.

## Main results

* `PriorityBook.run_mirror`: mirrored commands have mirrored results and leave a mirrored book.
-/

namespace MatchingEngine

/-! ### Mirrored values -/

/-- Swap the two valid sides. -/
def Side.mirror (side : Side) : Side :=
  if side = .buy then .sell else if side = .sell then .buy else side

/-- Reverse the order of the valid prices. -/
def Price.mirror (p : Price) : Price := ⟨-p.ticks⟩

def NewLimitOrder.mirror (order : NewLimitOrder) : NewLimitOrder :=
  { order with side := order.side.mirror, limitPrice := order.limitPrice.mirror }

def OrderView.mirror (o : OrderView) : OrderView :=
  { o with side := o.side.mirror, limitPrice := o.limitPrice.mirror }

def Trade.mirror (t : Trade) : Trade := { t with executionPrice := t.executionPrice.mirror }

def SubmitResult.mirror (r : SubmitResult) : SubmitResult :=
  { r with trades := r.trades.map Trade.mirror }

def BatchCommandResult.mirror : BatchCommandResult → BatchCommandResult
  | submit result => .submit result.mirror
  | cancel result => .cancel result

def JournalCommand.mirror : JournalCommand → JournalCommand
  | submitLimitOrder order => .submitLimitOrder order.mirror
  | cancelOrder orderId => .cancelOrder orderId

section Values

/-- The mirror of a valid price, without wrap-around. -/
theorem Price.toNat_mirror {p : Price} (h : p.ticks ≠ 0) :
    p.mirror.ticks.toNat = 2 ^ 64 - p.ticks.toNat := by
  have hlt := p.ticks.toNat_lt
  have hpos : p.ticks.toNat ≠ 0 := fun h0 => h (UInt64.toNat_inj.mp h0)
  have hsize : UInt64.size = 2 ^ 64 := rfl
  rw [Price.mirror, UInt64.toNat_neg, hsize]
  omega

theorem Price.mirror_injective : Function.Injective Price.mirror := by
  rintro ⟨a⟩ ⟨b⟩ h
  rw [Price.mirror, Price.mirror, Price.mk.injEq, UInt64.neg_inj] at h
  exact congrArg Price.mk h

theorem Price.mirror_ticks_eq_zero {p : Price} : p.mirror.ticks = 0 ↔ p.ticks = 0 := by
  rw [Price.mirror, ← UInt64.neg_inj, UInt64.neg_neg, UInt64.neg_zero]

/-- The mirror reverses the order of the valid prices. -/
theorem Price.mirror_lt_mirror {p p' : Price} (h : p.ticks ≠ 0) (h' : p'.ticks ≠ 0) :
    p.mirror < p'.mirror ↔ p' < p := by
  have hlt := p.ticks.toNat_lt
  have hlt' := p'.ticks.toNat_lt
  change p.mirror.ticks.toNat < p'.mirror.ticks.toNat ↔ p'.ticks.toNat < p.ticks.toNat
  rw [Price.toNat_mirror h, Price.toNat_mirror h']
  omega

theorem BookSide.lt_mirror {s : BookSide} {p p' : Price} (h : p.ticks ≠ 0) (h' : p'.ticks ≠ 0) :
    s.other.lt p.mirror p'.mirror ↔ s.lt p p' := by
  cases s with
  | bids => exact Price.mirror_lt_mirror h h'
  | asks => exact Price.mirror_lt_mirror h' h

theorem Side.valid_mirror {side : Side} :
    (side.mirror = .buy ∨ side.mirror = .sell) ↔ (side = .buy ∨ side = .sell) := by
  rw [Side.mirror]
  split_ifs with hbuy hsell
  · simp [hbuy]
  · simp [hsell]
  · exact Iff.rfl

theorem BookSide.ofSide_mirror {side : Side} (h : side = .buy ∨ side = .sell) :
    BookSide.ofSide side.mirror = (BookSide.ofSide side).other := by
  obtain rfl | rfl := h <;> rfl

end Values

namespace PriorityBook

/-! ### Mirrored books -/

/-- Swap the two sides and mirror their orders. -/
def mirror (p : PriorityBook) : PriorityBook :=
  { p with bids := p.asks.map OrderView.mirror, asks := p.bids.map OrderView.mirror }

def Fill.mirror (f : Fill) : Fill where
  trades := f.trades.map Trade.mirror
  remaining := f.remaining
  rest := f.rest.map OrderView.mirror

/-- Every order has a valid price. -/
def Priced (p : PriorityBook) : Prop := ∀ s, ∀ o ∈ p.queue s, o.limitPrice.ticks ≠ 0

section Mirror

variable {p : PriorityBook} {order : NewLimitOrder}

theorem queue_mirror (p : PriorityBook) (s : BookSide) :
    p.mirror.queue s = (p.queue s.other).map OrderView.mirror := by
  cases s <;> rfl

theorem fill_mirror {crosses crosses' : Price → Bool} {taker : OrderId} {next : UInt64}
    {quantity : Quantity} {q : List OrderView}
    (h : ∀ o ∈ q, crosses' o.limitPrice.mirror = crosses o.limitPrice) :
    fill crosses' taker next quantity (q.map OrderView.mirror) =
      (fill crosses taker next quantity q).mirror := by
  induction q generalizing next quantity with
  | nil => rfl
  | cons maker makers ih =>
    obtain ⟨hmaker, hmakers⟩ := List.forall_mem_cons.mp h
    have hcrosses : crosses' maker.mirror.limitPrice = crosses maker.limitPrice := hmaker
    rw [List.map_cons]
    by_cases hstop : quantity.units = 0 ∨ ¬ crosses maker.limitPrice
    · rw [fill_cons_of_stop hstop, fill_cons_of_stop (by rwa [hcrosses])]
      rfl
    · have hstop' : ¬ (quantity.units = 0 ∨ ¬ crosses' maker.mirror.limitPrice) := by
        rwa [hcrosses]
      by_cases hle : maker.remainingQuantity.units ≤ quantity.units
      · rw [fill_cons_of_le hstop hle, fill_cons_of_le hstop' hle]
        dsimp only
        rw [show maker.mirror.remainingQuantity = maker.remainingQuantity from rfl, ih hmakers]
        rfl
      · rw [fill_cons_of_not_le hstop hle, fill_cons_of_not_le hstop' hle]
        rfl

/-- A mirrored order is filled as the order is. -/
theorem fillFor_mirror (hp : p.Priced) (hside : order.side = .buy ∨ order.side = .sell)
    (hprice : order.limitPrice.ticks ≠ 0) :
    p.mirror.fillFor order.mirror = (p.fillFor order).mirror := by
  have hofSide : BookSide.ofSide order.mirror.side = (BookSide.ofSide order.side).other :=
    BookSide.ofSide_mirror hside
  rw [fillFor, fillFor, hofSide, queue_mirror,
    BookSide.other_other (BookSide.ofSide order.side).other]
  refine fill_mirror fun o ho => ?_
  have hlt := BookSide.lt_mirror (s := (BookSide.ofSide order.side).other) hprice (hp _ o ho)
  exact decide_eq_decide.mpr (not_congr hlt)

theorem levelTotal_mirror (s : BookSide) (price : Price) :
    p.mirror.levelTotal s.other price.mirror = p.levelTotal s price := by
  have hfilter : (fun o : OrderView => decide (o.limitPrice = price.mirror)) ∘ OrderView.mirror =
      fun o => decide (o.limitPrice = price) := by
    funext o
    exact decide_eq_decide.mpr Price.mirror_injective.eq_iff
  rw [levelTotal, levelTotal, queue_mirror, BookSide.other_other, List.filter_map, hfilter,
    List.map_map]
  rfl

/-- A mirrored order is rejected for the reason for which the order is. -/
theorem rejection_mirror (hp : p.Priced) : p.mirror.rejection order.mirror = p.rejection order := by
  rw [rejection, rejection]
  refine ite_congr rfl (fun _ => rfl) fun _ => ?_
  refine ite_congr ?_ (fun _ => rfl) fun hside => ?_
  · rw [← not_or, ← not_or]
    exact congrArg Not (propext Side.valid_mirror)
  rw [← not_or, not_not] at hside
  refine ite_congr (propext Price.mirror_ticks_eq_zero) (fun _ => rfl) fun hprice => ?_
  have htotal : p.mirror.levelTotal (.ofSide order.mirror.side) order.mirror.limitPrice =
      p.levelTotal (.ofSide order.side) order.limitPrice := by
    have hofSide : BookSide.ofSide order.mirror.side = (BookSide.ofSide order.side).other :=
      BookSide.ofSide_mirror hside
    rw [hofSide]
    exact levelTotal_mirror _ _
  rw [fillFor_mirror hp hside hprice, htotal, Fill.mirror, List.length_map]
  rfl

theorem matched_mirror (hside : order.side = .buy ∨ order.side = .sell) (f : Fill) :
    p.mirror.matched order.mirror f.mirror = (p.matched order f).mirror := by
  obtain ⟨id, side, price, quantity⟩ := order
  rw [matched, matched, Fill.mirror, List.length_map]
  obtain rfl | rfl := hside <;> rfl

theorem insertByPriority_mirror {s : BookSide} {o : OrderView} {q : List OrderView}
    (ho : o.limitPrice.ticks ≠ 0) (hq : ∀ a ∈ q, a.limitPrice.ticks ≠ 0) :
    insertByPriority s.other o.mirror (q.map OrderView.mirror) =
      (insertByPriority s o q).map OrderView.mirror :=
  (List.map_orderedInsert _ _ _ _ _ (fun a ha => (BookSide.lt_mirror (hq a ha) ho).symm)
    fun a ha => (BookSide.lt_mirror ho (hq a ha)).symm).symm

theorem rested_mirror (hp : p.Priced) (hside : order.side = .buy ∨ order.side = .sell)
    (hprice : order.limitPrice.ticks ≠ 0) (remaining : Quantity) :
    p.mirror.rested order.mirror remaining = (p.rested order remaining).mirror := by
  have hinsert := insertByPriority_mirror (s := BookSide.ofSide order.side)
    (o := residual order remaining) hprice (hp (BookSide.ofSide order.side))
  obtain ⟨id, side, price, quantity⟩ := order
  obtain rfl | rfl := hside
  · exact congrArg (fun q => { p.mirror with
      asks := q, nextArrivalSequence := p.nextArrivalSequence + 1 }) hinsert
  · exact congrArg (fun q => { p.mirror with
      bids := q, nextArrivalSequence := p.nextArrivalSequence + 1 }) hinsert

theorem Priced.matched (hp : p.Priced) (order : NewLimitOrder) :
    (p.matched order (p.fillFor order)).Priced := by
  intro s o ho
  obtain ⟨o', ho', hreduced⟩ := (matched_shrinks s).exists_reduced ho
  rw [hreduced.limitPrice_eq]
  exact hp s o' ho'

theorem accept_mirror (hp : p.Priced) (hside : order.side = .buy ∨ order.side = .sell)
    (hprice : order.limitPrice.ticks ≠ 0) :
    p.mirror.accept order.mirror (p.fillFor order).mirror =
      (p.accept order (p.fillFor order)).mirror := by
  rw [accept, accept, matched_mirror hside]
  change (if 0 < (p.fillFor order).remaining.units then
      (p.matched order (p.fillFor order)).mirror.rested order.mirror (p.fillFor order).remaining
    else (p.matched order (p.fillFor order)).mirror) = _
  rw [rested_mirror (hp.matched order) hside hprice]
  exact (apply_ite mirror _ _ _).symm

theorem submit_mirror (hp : p.Priced) (order : NewLimitOrder) :
    p.mirror.submit order.mirror = ((p.submit order).1.mirror, (p.submit order).2.mirror) := by
  rw [submit, rejection_mirror hp, submit]
  cases hrejection : p.rejection order with
  | some reason => rfl
  | none =>
    have h := rejection_eq_none_iff.mp hrejection
    dsimp only
    rw [fillFor_mirror hp h.side_valid h.price_ne_zero, accept_mirror hp h.side_valid
      h.price_ne_zero]
    rfl

/-- Looking an order up in two lists does not depend on which of them comes first. -/
theorem find?_append_comm {q q' : List OrderView} {id : OrderId}
    (h : ((q ++ q').map fun o => o.id).Nodup) :
    (q ++ q').find? (fun o => o.id = id) = (q' ++ q).find? fun o => o.id = id := by
  rw [List.find?_append, List.find?_append]
  cases hq : q.find? fun o => o.id = id with
  | none => simp
  | some o =>
    cases hq' : q'.find? fun o => o.id = id with
    | none => rfl
    | some o' =>
      rw [List.map_append, List.nodup_append'] at h
      have hid : o.id = id := by simpa using List.find?_some hq
      have hid' : o'.id = id := by simpa using List.find?_some hq'
      refine absurd (List.mem_map_of_mem (List.mem_of_find?_eq_some hq')) (h.2.2 ?_)
      rw [hid', ← hid]
      exact List.mem_map_of_mem (List.mem_of_find?_eq_some hq)

theorem cancel_mirror (hp : p.WellFormed) (id : OrderId) :
    p.mirror.cancel id = ((p.cancel id).1, (p.cancel id).2.mirror) := by
  have hfind : p.mirror.find id = (p.find id).map OrderView.mirror := by
    have horders : p.mirror.orders = (p.asks ++ p.bids).map OrderView.mirror :=
      List.map_append.symm
    rw [find, horders, List.find?_map, find, orders, find?_append_comm hp.ids_nodup]
    rfl
  have hremove : p.mirror.remove id = (p.remove id).mirror := by
    rw [remove, mirror, mirror, remove, List.eraseP_map, List.eraseP_map]
    rfl
  rw [cancel, hfind, hremove, cancel]
  cases p.find id with
  | none => rfl
  | some o => rfl

theorem apply_mirror (hp : p.WellFormed) (hpriced : p.Priced) (command : JournalCommand) :
    p.mirror.apply command.mirror = ((p.apply command).1.mirror, (p.apply command).2.mirror) := by
  cases command with
  | submitLimitOrder order =>
    rw [JournalCommand.mirror, apply, submit_mirror hpriced]
    rfl
  | cancelOrder id =>
    rw [JournalCommand.mirror, apply, cancel_mirror hp]
    rfl

theorem mem_queue_rested {remaining : Quantity} {s : BookSide} {o : OrderView}
    (h : o ∈ (p.rested order remaining).queue s) :
    o = residual order remaining ∨ o ∈ p.queue s := by
  rw [rested] at h
  generalize BookSide.ofSide order.side = t at h
  cases t <;> cases s
  · exact mem_insertByPriority.mp h
  · exact Or.inr h
  · exact Or.inr h
  · exact mem_insertByPriority.mp h

theorem Priced.accept (hp : p.Priced) (hprice : order.limitPrice.ticks ≠ 0) :
    (p.accept order (p.fillFor order)).Priced := by
  have hmatched := hp.matched order
  rw [PriorityBook.accept]
  split_ifs with hremaining
  · intro s o ho
    obtain rfl | ho := mem_queue_rested ho
    · exact hprice
    · exact hmatched s o ho
  · exact hmatched

theorem Priced.apply (hp : p.Priced) (command : JournalCommand) :
    (p.apply command).2.Priced := by
  cases command with
  | submitLimitOrder order =>
    cases hrejection : p.rejection order with
    | some reason => simpa only [PriorityBook.apply, submit, hrejection] using hp
    | none =>
      have h := rejection_eq_none_iff.mp hrejection
      rw [PriorityBook.apply, submit_of_acceptable h]
      exact hp.accept h.price_ne_zero
  | cancelOrder id =>
    cases hfind : p.find id with
    | none => simpa only [PriorityBook.apply, cancel, hfind] using hp
    | some o =>
      have hremoved : (p.remove id).Priced := by
        intro s o ho
        rw [queue_remove] at ho
        exact hp s o (List.mem_of_mem_eraseP ho)
      simpa only [PriorityBook.apply, cancel, hfind] using hremoved

/-- Mirrored commands have mirrored results and leave a mirrored book. -/
theorem run_mirror (hp : p.WellFormed) (hpriced : p.Priced) (commands : List JournalCommand) :
    p.mirror.run (commands.map JournalCommand.mirror) =
      ((p.run commands).1.map BatchCommandResult.mirror, (p.run commands).2.mirror) := by
  induction commands generalizing p with
  | nil => rfl
  | cons command commands ih =>
    have hrest := ih (hp.apply command) (hpriced.apply command)
    rw [run] at hrest
    rw [List.map_cons, run, runAll, apply_mirror hp hpriced, hrest]
    rfl

theorem run_priced (hp : p.Priced) (commands : List JournalCommand) :
    (p.run commands).2.Priced :=
  runAll_invariant (fun _ command hp => hp.apply command) hp commands

theorem priced_fresh : fresh.Priced := by
  intro s o ho
  cases s <;> cases ho

end Mirror

end PriorityBook

end MatchingEngine
