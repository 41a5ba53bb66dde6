import MatchingEngine.PriorityBook.WellFormed

/-!
# The ledger of a run

Every unit of quantity that enters the book with an accepted order leaves it by a trade, as taker
or as maker, or by a cancellation, or is still active. One step keeps this balance for every
identifier (`PriorityBook.Applied.conserves`), and a run adds up its steps.

The entries of the ledger are read off the log of a run: the commands with their results. All sums
are sums of natural numbers.

## Main definitions

* `Log.trades`, `Log.accepted`, `Log.cancelled`: what a log records.
* `PriorityBook.Applied`: the four things that a command can do.
* `PriorityBook.Retired`: an accepted identifier with nothing active.

## Main results

* `PriorityBook.run_conserves`: the balance of every identifier.
* `PriorityBook.run_seen`: an identifier is accepted at most once.
* `PriorityBook.run_pos`: no trade and no cancellation is empty.
* `PriorityBook.run_cancelled`, `PriorityBook.Retired.run`: an identifier is cancelled at most once,
  and nothing happens under it afterwards.
-/

namespace MatchingEngine

open List (sumAt)

/-! ### Logs -/

/-- The quantity that an identifier trades as taker. -/
def Trade.takerQuantity (trades : List Trade) (id : OrderId) : ℕ :=
  sumAt (fun t : Trade => t.takerOrderId) (fun t => t.executionQuantity.toNat) id trades

/-- The quantity that an identifier trades as maker. -/
def Trade.makerQuantity (trades : List Trade) (id : OrderId) : ℕ :=
  sumAt (fun t : Trade => t.makerOrderId) (fun t => t.executionQuantity.toNat) id trades

theorem Trade.takerQuantity_append (trades trades' : List Trade) (id : OrderId) :
    takerQuantity (trades ++ trades') id = takerQuantity trades id + takerQuantity trades' id :=
  List.sumAt_append ..

theorem Trade.makerQuantity_append (trades trades' : List Trade) (id : OrderId) :
    makerQuantity (trades ++ trades') id = makerQuantity trades id + makerQuantity trades' id :=
  List.sumAt_append ..

theorem Trade.takerQuantity_singleton (t : Trade) (id : OrderId) :
    takerQuantity [t] id = if t.takerOrderId = id then t.executionQuantity.toNat else 0 :=
  List.sumAt_cons ..

theorem Trade.makerQuantity_singleton (t : Trade) (id : OrderId) :
    makerQuantity [t] id = if t.makerOrderId = id then t.executionQuantity.toNat else 0 :=
  List.sumAt_cons ..

/-- Trades are not empty, so an identifier that trades nothing is in no trade. -/
theorem Trade.ne_of_quantity_eq_zero {trades : List Trade} {id : OrderId}
    (hpos : ∀ t ∈ trades, 0 < t.executionQuantity.toNat)
    (h : takerQuantity trades id + makerQuantity trades id = 0) :
    ∀ t ∈ trades, t.takerOrderId ≠ id ∧ t.makerOrderId ≠ id := by
  intro t ht
  have hpos := hpos t ht
  constructor
  · rintro rfl
    have hle : _ ≤ takerQuantity trades t.takerOrderId := List.val_le_sumAt ht
    omega
  · rintro rfl
    have hle : _ ≤ makerQuantity trades t.makerOrderId := List.val_le_sumAt ht
    omega

/-- The commands of a run, each with its result. -/
abbrev Log := List (JournalCommand × BatchCommandResult)

namespace Log

/-- The trades of one result. -/
@[simp] def tradesOf : BatchCommandResult → List Trade
  | .submit r => r.trades
  | .cancel _ => []

/-- The order of an accepted submission. -/
@[simp] def acceptedOf : JournalCommand × BatchCommandResult → Option NewLimitOrder
  | (.submitLimitOrder order, .submit r) => if r.status = .accepted then some order else none
  | _ => none

/-- The identifier and the quantity of a successful cancellation. -/
@[simp] def cancelledOf : JournalCommand × BatchCommandResult → Option (OrderId × Quantity)
  | (.cancelOrder id, .cancel r) =>
    if r.status = .cancelled then some (id, r.cancelledQuantity) else none
  | _ => none

/-- All trades, in the order in which they were made. -/
def trades (log : Log) : List Trade := log.flatMap fun e => tradesOf e.2

/-- All accepted orders. -/
def accepted (log : Log) : List NewLimitOrder := log.filterMap acceptedOf

/-- All successful cancellations. -/
def cancelled (log : Log) : List (OrderId × Quantity) := log.filterMap cancelledOf

/-- The quantity submitted under an identifier. -/
def submittedQuantity (log : Log) (id : OrderId) : ℕ :=
  sumAt (fun o : NewLimitOrder => o.id) (fun o => o.quantity.toNat) id log.accepted

/-- The quantity cancelled under an identifier. -/
def cancelledQuantity (log : Log) (id : OrderId) : ℕ :=
  sumAt (fun c : OrderId × Quantity => c.1) (fun c => c.2.toNat) id log.cancelled

section Append

variable (e : JournalCommand × BatchCommandResult) (log log' : Log) (id : OrderId)

@[simp] theorem trades_nil : trades [] = [] := rfl

@[simp] theorem accepted_nil : accepted [] = [] := rfl

@[simp] theorem cancelled_nil : cancelled [] = [] := rfl

@[simp] theorem trades_cons : trades (e :: log) = tradesOf e.2 ++ log.trades := rfl

@[simp] theorem accepted_cons :
    accepted (e :: log) = (acceptedOf e).toList ++ log.accepted := by
  rw [accepted, List.filterMap_cons]
  cases acceptedOf e <;> rfl

@[simp] theorem cancelled_cons :
    cancelled (e :: log) = (cancelledOf e).toList ++ log.cancelled := by
  rw [cancelled, List.filterMap_cons]
  cases cancelledOf e <;> rfl

@[simp] theorem trades_append : trades (log ++ log') = log.trades ++ log'.trades :=
  List.flatMap_append

@[simp] theorem accepted_append : accepted (log ++ log') = log.accepted ++ log'.accepted :=
  List.filterMap_append

@[simp] theorem cancelled_append : cancelled (log ++ log') = log.cancelled ++ log'.cancelled :=
  List.filterMap_append

/-- An identifier that was accepted once was submitted with the quantity of that order. -/
theorem submittedQuantity_eq {order : NewLimitOrder} (horder : order ∈ log.accepted)
    (hnodup : (log.accepted.map fun o => o.id).Nodup) :
    log.submittedQuantity order.id = order.quantity.toNat := by
  obtain ⟨l₁, l₂, hl⟩ := List.append_of_mem horder
  rw [submittedQuantity, hl, List.perm_middle.sumAt_eq, List.sumAt_cons, if_pos rfl,
    List.sumAt_eq_zero, Nat.add_zero]
  rw [hl, (List.perm_middle.map _).nodup_iff, List.map_cons, List.nodup_cons] at hnodup
  exact fun o ho heq => hnodup.1 (List.mem_map.mpr ⟨o, ho, heq⟩)

theorem submittedQuantity_append :
    submittedQuantity (log ++ log') id = log.submittedQuantity id + log'.submittedQuantity id := by
  simp [submittedQuantity]

theorem cancelledQuantity_append :
    cancelledQuantity (log ++ log') id = log.cancelledQuantity id + log'.cancelledQuantity id := by
  simp [cancelledQuantity]

end Append

end Log

namespace PriorityBook

/-! ### What a fill exchanges -/

/-- The quantity that some orders have left under an identifier. -/
def quantityAt (q : List OrderView) (id : OrderId) : ℕ :=
  sumAt (fun o : OrderView => o.id) (fun o => o.remainingQuantity.toNat) id q

/-- The quantity that is active under an identifier. -/
def activeQuantity (p : PriorityBook) (id : OrderId) : ℕ := quantityAt p.orders id

theorem quantityAt_append (q q' : List OrderView) (id : OrderId) :
    quantityAt (q ++ q') id = quantityAt q id + quantityAt q' id :=
  List.sumAt_append ..

theorem quantityAt_cons (o : OrderView) (q : List OrderView) (id : OrderId) :
    quantityAt (o :: q) id = (if o.id = id then o.remainingQuantity.toNat else 0) +
      quantityAt q id :=
  List.sumAt_cons ..

theorem quantityAt_perm {q q' : List OrderView} (h : q.Perm q') (id : OrderId) :
    quantityAt q id = quantityAt q' id :=
  h.sumAt_eq ..

section Filling

variable {crosses : Price → Bool} {taker : OrderId} {next : UInt64} {quantity : Quantity}
  {q : List OrderView} {f : Fill}

theorem makerQuantity_fullFills (next : UInt64) (q : List OrderView) (id : OrderId) :
    Trade.makerQuantity (fullFills taker next q) id = quantityAt q id := by
  unfold Trade.makerQuantity quantityAt
  induction q generalizing next with
  | nil => rfl
  | cons maker makers ih => rw [fullFills, List.sumAt_cons, List.sumAt_cons, ih]

theorem takerQuantity_fullFills (next : UInt64) (q : List OrderView) (id : OrderId) :
    Trade.takerQuantity (fullFills taker next q) id = if taker = id then total q else 0 := by
  unfold Trade.takerQuantity
  induction q generalizing next with
  | nil => simp [fullFills]
  | cons maker makers ih =>
    rw [fullFills, List.sumAt_cons, ih, total_cons]
    split <;> rfl

/-- What the makers lose is what they trade. -/
theorem Filling.maker_conserves (h : Filling crosses taker next quantity q f) (id : OrderId) :
    quantityAt q id = Trade.makerQuantity f.trades id + quantityAt f.rest id := by
  cases h with
  | stop filled rest => rw [makerQuantity_fullFills, quantityAt_append]
  | part filled makers maker executed left _ _ _ _ hsum =>
    simp only [Trade.makerQuantity_append, makerQuantity_fullFills, quantityAt_append,
      quantityAt_cons, Trade.makerQuantity_singleton]
    split <;> omega

/-- What the taker trades, and what is left of it, is what it came with. -/
theorem Filling.taker_conserves (h : Filling crosses taker next quantity q f) (id : OrderId) :
    Trade.takerQuantity f.trades id + (if taker = id then f.remaining.toNat else 0) =
      if taker = id then quantity.toNat else 0 := by
  cases h with
  | stop filled rest remaining _ hquantity =>
    rw [takerQuantity_fullFills]
    dsimp only
    split <;> omega
  | part filled makers maker executed left _ _ _ _ _ hquantity =>
    simp only [Trade.takerQuantity_append, takerQuantity_fullFills, Trade.takerQuantity_singleton,
      Quantity.toNat_mk, UInt64.toNat_zero]
    split <;> omega

theorem Filling.trade_pos (h : Filling crosses taker next quantity q f)
    (hq : ∀ o ∈ q, 0 < o.remainingQuantity.toNat) :
    ∀ t ∈ f.trades, 0 < t.executionQuantity.toNat := by
  have hfull (filled : List OrderView) (hpos : ∀ o ∈ filled, 0 < o.remainingQuantity.toNat)
      (next : UInt64) : ∀ t ∈ fullFills taker next filled, 0 < t.executionQuantity.toNat := by
    induction filled generalizing next with
    | nil => simp [fullFills]
    | cons o os ih =>
      obtain ⟨ho, hos⟩ := List.forall_mem_cons.mp hpos
      exact List.forall_mem_cons.mpr ⟨ho, ih hos (next + 1)⟩
  cases h with
  | stop filled rest => exact hfull filled (fun o ho => hq o (List.mem_append_left _ ho)) next
  | part filled makers maker executed left _ _ hexecuted =>
    intro t ht
    rcases List.mem_append.mp ht with ht | ht
    · exact hfull filled (fun o ho => hq o (List.mem_append_left _ ho)) next t ht
    · rw [List.mem_singleton.mp ht]
      exact hexecuted

end Filling

/-! ### What a command does -/

/-- The four things that a command can do. -/
inductive Applied (p : PriorityBook) : JournalCommand → BatchCommandResult → PriorityBook → Prop
  | rejected (order : NewLimitOrder) (reason : RejectionReason)
      (h : p.rejection order = some reason) :
      Applied p (.submitLimitOrder order) (.submit (.rejected reason)) p
  | accepted (order : NewLimitOrder) (h : p.Acceptable order) :
      Applied p (.submitLimitOrder order) (.submit (acceptResult order (p.fillFor order)))
        (p.accept order (p.fillFor order))
  | notFound (id : OrderId) (h : p.find id = none) :
      Applied p (.cancelOrder id) (.cancel .notFound) p
  | cancelled (o : OrderView) (ho : o ∈ p.orders) :
      Applied p (.cancelOrder o.id) (.cancel ⟨.cancelled, o.remainingQuantity⟩) (p.remove o.id)

theorem apply_applied (p : PriorityBook) (command : JournalCommand) :
    p.Applied command (p.apply command).1 (p.apply command).2 := by
  cases command with
  | submitLimitOrder order =>
    cases hr : p.rejection order with
    | some reason => simpa only [apply, submit, hr] using .rejected order reason hr
    | none =>
      have ha := rejection_eq_none_iff.mp hr
      simpa only [apply, submit, hr] using .accepted order ha
  | cancelOrder id =>
    cases hf : p.find id with
    | none => simpa only [apply, cancel, hf] using .notFound id hf
    | some o =>
      have hid : o.id = id := by simpa using List.find?_some hf
      subst hid
      simpa only [apply, cancel, hf] using .cancelled o (List.mem_of_find?_eq_some hf)

/-! ### The balance -/

section Step

variable {p p' : PriorityBook} {command : JournalCommand} {result : BatchCommandResult}

/-- Removing an active order takes exactly this order out of the book. -/
theorem WellFormed.orders_perm_remove {o : OrderView} (hp : p.WellFormed) (ho : o ∈ p.orders) :
    p.orders.Perm (o :: (p.remove o.id).orders) := by
  obtain ⟨s, hs⟩ := p.mem_orders.mp ho
  obtain ⟨q₁, q₂, hq⟩ := List.append_of_mem hs
  have hremove : p.setQueue s (q₁ ++ q₂) = p.remove o.id :=
    hp.eq_remove hq (queue_setQueue ..) (queue_other_setQueue ..) (seenOrderIds_setQueue ..)
      (nextArrivalSequence_setQueue ..) (nextTradeId_setQueue ..)
  have hperm := (p.setQueue s (q₁ ++ q₂)).orders_perm s
  rw [queue_setQueue, queue_other_setQueue] at hperm
  refine (p.orders_perm s).trans ?_
  rw [← hremove, hq]
  exact (List.perm_middle.append_right _).trans (hperm.symm.cons o)

theorem activeQuantity_eq (s : BookSide) (id : OrderId) :
    p.activeQuantity id = quantityAt (p.queue s) id + quantityAt (p.queue s.other) id := by
  rw [activeQuantity, quantityAt_perm (p.orders_perm s), quantityAt_append]

theorem activeQuantity_matched (order : NewLimitOrder) (f : Fill) (id : OrderId) :
    (p.matched order f).activeQuantity id =
      quantityAt (p.queue (BookSide.ofSide order.side)) id + quantityAt f.rest id := by
  rw [activeQuantity_eq (BookSide.ofSide order.side), queue_matched, queue_matched_other]

/-- Resting an order adds exactly this order to the book. -/
theorem orders_rested_perm (order : NewLimitOrder) (remaining : Quantity) :
    (p.rested order remaining).orders.Perm (residual order remaining :: p.orders) := by
  have hperm := (p.rested order remaining).orders_perm (BookSide.ofSide order.side)
  have hown : (p.rested order remaining).queue (BookSide.ofSide order.side) =
      insertByPriority (BookSide.ofSide order.side) (residual order remaining)
        (p.queue (BookSide.ofSide order.side)) := by
    unfold rested
    cases BookSide.ofSide order.side <;> rfl
  have hother : (p.rested order remaining).queue (BookSide.ofSide order.side).other =
      p.queue (BookSide.ofSide order.side).other := by
    unfold rested
    cases BookSide.ofSide order.side <;> rfl
  rw [hown, hother] at hperm
  exact hperm.trans ((insertByPriority_perm.append_right _).trans ((p.orders_perm _).symm.cons _))

theorem seenOrderIds_accept (order : NewLimitOrder) (f : Fill) :
    (p.accept order f).seenOrderIds = insert order.id p.seenOrderIds := by
  unfold accept rested matched
  split
  · exact seenOrderIds_setQueue ..
  · rfl

/-- What is left of an accepted order rests, also when nothing is left. -/
theorem activeQuantity_accept (order : NewLimitOrder) (f : Fill) (id : OrderId) :
    (p.accept order f).activeQuantity id =
      (if order.id = id then f.remaining.toNat else 0) +
        (p.matched order f).activeQuantity id := by
  by_cases hrem : 0 < f.remaining.units
  · rw [accept, if_pos hrem, activeQuantity, quantityAt_perm (orders_rested_perm ..),
      quantityAt_cons]
    rfl
  · have hzero : f.remaining.toNat = 0 := by
      have := mt Quantity.units_pos_iff.mpr hrem
      omega
    rw [accept, if_neg hrem, hzero]
    simp

/-- One command keeps the balance of every identifier. -/
theorem Applied.conserves (h : p.Applied command result p') (hp : p.WellFormed) (id : OrderId) :
    p.activeQuantity id + Log.submittedQuantity [(command, result)] id =
      Trade.takerQuantity (Log.trades [(command, result)]) id +
        Trade.makerQuantity (Log.trades [(command, result)]) id +
        Log.cancelledQuantity [(command, result)] id + p'.activeQuantity id := by
  unfold Log.submittedQuantity Trade.takerQuantity Trade.makerQuantity Log.cancelledQuantity
  cases h with
  | rejected order reason => simp [SubmitResult.rejected]
  | accepted order ha =>
    have hfill : Filling _ order.id p.nextTradeId order.quantity _ (p.fillFor order) :=
      fill_filling ..
    have hmaker := hfill.maker_conserves id
    have htaker := hfill.taker_conserves id
    unfold Trade.makerQuantity at hmaker
    unfold Trade.takerQuantity at htaker
    rw [activeQuantity_accept, activeQuantity_matched,
      activeQuantity_eq (BookSide.ofSide order.side)]
    simp only [acceptResult, Log.trades_cons, Log.accepted_cons, Log.cancelled_cons, Log.tradesOf,
      Log.acceptedOf, Log.cancelledOf, Log.trades_nil, Log.accepted_nil, Log.cancelled_nil,
      if_pos, Option.toList_some, Option.toList_none, List.append_nil, List.sumAt_cons,
      List.sumAt_nil]
    omega
  | notFound => simp [CancelResult.notFound]
  | cancelled o ho =>
    rw [activeQuantity, quantityAt_perm (hp.orders_perm_remove ho), quantityAt_cons]
    simp [activeQuantity]

/-- An identifier is accepted once: it is new to the book, and the book remembers it. -/
theorem Applied.seen (h : p.Applied command result p') :
    (∀ o ∈ Log.acceptedOf (command, result), o.id ∉ p.seenOrderIds) ∧
      p'.seenOrderIds =
        p.seenOrderIds ∪
          ((Log.acceptedOf (command, result)).toList.map fun o => o.id).toFinset := by
  cases h with
  | rejected => simp [SubmitResult.rejected]
  | accepted order ha =>
    refine ⟨by simpa [acceptResult] using ha.id_notMem_seen, ?_⟩
    rw [seenOrderIds_accept]
    simp [acceptResult]
  | notFound => simp
  | cancelled => simp [remove]

/-- No trade and no cancellation is empty. -/
theorem Applied.pos (h : p.Applied command result p') (hp : p.WellFormed) :
    (∀ t ∈ Log.tradesOf result, 0 < t.executionQuantity.toNat) ∧
      ∀ c ∈ Log.cancelledOf (command, result), 0 < c.2.toNat := by
  cases h with
  | rejected => simp [SubmitResult.rejected]
  | accepted order ha =>
    refine ⟨?_, by simp⟩
    exact (fill_filling ..).trade_pos (hp.remaining_pos _)
  | notFound => simp [CancelResult.notFound]
  | cancelled o ho =>
    obtain ⟨s, hs⟩ := p.mem_orders.mp ho
    simpa using hp.remaining_pos s o hs

end Step

/-! ### Runs -/

section Run

/-- The commands of a run from `p`, each with its result. -/
def log (p : PriorityBook) (commands : List JournalCommand) : Log := runLog apply p commands

variable {p : PriorityBook} (hp : p.WellFormed) (commands : List JournalCommand)

include hp in
/-- Induction on a run from a well-formed book. -/
theorem run_induction {P : PriorityBook → Log → PriorityBook → Prop}
    (hnil : ∀ p : PriorityBook, P p [] p)
    (hcons : ∀ (p p' : PriorityBook) (command : JournalCommand) (log : Log), p.WellFormed →
      P (p.apply command).2 log p' → P p ((command, (p.apply command).1) :: log) p') :
    P p (p.log commands) (p.run commands).2 :=
  runLog_induction (fun _ command hp => hp.apply command) (fun p _ => hnil p)
    (fun p command log p' hp => hcons p p' command log hp) hp commands

include hp in
/-- A run keeps the balance of every identifier. -/
theorem run_conserves (id : OrderId) :
    p.activeQuantity id + (p.log commands).submittedQuantity id =
      Trade.takerQuantity (p.log commands).trades id +
        Trade.makerQuantity (p.log commands).trades id + (p.log commands).cancelledQuantity id +
        (p.run commands).2.activeQuantity id := by
  refine run_induction hp commands (P := fun p log p' =>
    p.activeQuantity id + log.submittedQuantity id =
      Trade.takerQuantity log.trades id + Trade.makerQuantity log.trades id +
        log.cancelledQuantity id + p'.activeQuantity id)
    (fun p => ?_) (fun p p' command log hp ih => ?_)
  · simp [Log.submittedQuantity, Trade.takerQuantity, Trade.makerQuantity, Log.cancelledQuantity]
  · have hstep := (p.apply_applied command).conserves hp id
    rw [← List.singleton_append, Log.submittedQuantity_append, Log.trades_append,
      Trade.takerQuantity_append, Trade.makerQuantity_append, Log.cancelledQuantity_append]
    omega

include hp in
/-- The accepted identifiers of a run are new, are distinct, and are remembered. -/
theorem run_seen :
    (∀ o ∈ (p.log commands).accepted, o.id ∉ p.seenOrderIds) ∧
      ((p.log commands).accepted.map fun o => o.id).Nodup ∧
      (p.run commands).2.seenOrderIds =
        p.seenOrderIds ∪ ((p.log commands).accepted.map fun o => o.id).toFinset := by
  refine run_induction hp commands (P := fun p log p' =>
    (∀ o ∈ log.accepted, o.id ∉ p.seenOrderIds) ∧ (log.accepted.map fun o => o.id).Nodup ∧
      p'.seenOrderIds = p.seenOrderIds ∪ (log.accepted.map fun o => o.id).toFinset)
    (fun p => by simp) (fun p p' command log _ ih => ?_)
  obtain ⟨hnew, hseen⟩ := (p.apply_applied command).seen
  obtain ⟨hnew', hnodup, hseen'⟩ := ih
  rw [hseen] at hnew' hseen'
  simp only [Finset.mem_union, List.mem_toFinset, not_or] at hnew'
  rw [Log.accepted_cons, List.map_append, List.toFinset_append, ← Finset.union_assoc]
  refine ⟨?_, List.nodup_append.mpr ⟨?_, hnodup, ?_⟩, hseen'⟩
  · intro o ho
    rcases List.mem_append.mp ho with ho | ho
    · exact hnew o (Option.mem_toList.mp ho)
    · exact (hnew' o ho).1
  · cases Log.acceptedOf (command, (p.apply command).1) <;> simp
  · rintro a ha b hb rfl
    obtain ⟨o, ho, rfl⟩ := List.mem_map.mp hb
    exact (hnew' o ho).2 ha

include hp in
/-- No trade and no cancellation of a run is empty. -/
theorem run_pos : (∀ t ∈ (p.log commands).trades, 0 < t.executionQuantity.toNat) ∧
    ∀ c ∈ (p.log commands).cancelled, 0 < c.2.toNat := by
  refine run_induction hp commands (P := fun _ log _ =>
    (∀ t ∈ log.trades, 0 < t.executionQuantity.toNat) ∧ ∀ c ∈ log.cancelled, 0 < c.2.toNat)
    (fun p => by simp) (fun p _ command log hp ih => ?_)
  obtain ⟨htrades, hcancelled⟩ := (p.apply_applied command).pos hp
  rw [Log.trades_cons, Log.cancelled_cons, List.forall_mem_append, List.forall_mem_append]
  exact ⟨⟨htrades, ih.1⟩, fun c hc => hcancelled c (Option.mem_toList.mp hc), ih.2⟩

/-! ### Retired identifiers -/

/-- An identifier that was accepted and has nothing active any more. -/
structure Retired (p : PriorityBook) (id : OrderId) : Prop where
  mem_seen : id ∈ p.seenOrderIds
  active_eq_zero : p.activeQuantity id = 0

/-- A log in which nothing happens under an identifier, and which leaves it retired. -/
structure Silent (p' : PriorityBook) (log : Log) (id : OrderId) : Prop where
  retired : p'.Retired id
  no_trade : ∀ t ∈ log.trades, t.takerOrderId ≠ id ∧ t.makerOrderId ≠ id
  no_cancel : ∀ c ∈ log.cancelled, c.1 ≠ id

include hp in
/-- Nothing happens any more under a retired identifier. -/
theorem Retired.run {id : OrderId} (h : p.Retired id) :
    Silent (p.run commands).2 (p.log commands) id := by
  obtain ⟨hnew, -, hseen⟩ := run_seen hp commands
  obtain ⟨htrades, hcancelled⟩ := run_pos hp commands
  have hnone : (p.log commands).submittedQuantity id = 0 :=
    List.sumAt_eq_zero fun o ho heq => hnew o ho (heq ▸ h.mem_seen)
  -- nothing comes in and nothing is active, so nothing goes out
  have hsum := run_conserves hp commands id
  rw [hnone, h.active_eq_zero] at hsum
  refine ⟨⟨by simp [hseen, h.mem_seen], by omega⟩,
    Trade.ne_of_quantity_eq_zero htrades (by omega), ?_⟩
  rintro c hc rfl
  have hle : _ ≤ Log.cancelledQuantity _ c.1 := List.val_le_sumAt hc
  have hpos := hcancelled c hc
  omega

include hp in
/-- Identifiers are unique, so nothing is active under the one of a removed order. -/
theorem WellFormed.activeQuantity_remove {o : OrderView} (ho : o ∈ p.orders) :
    (p.remove o.id).activeQuantity o.id = 0 := by
  have hnodup := ((hp.orders_perm_remove ho).map fun o => o.id).nodup_iff.mp hp.ids_nodup
  refine List.sumAt_eq_zero fun a ha heq => ?_
  exact (List.nodup_cons.mp hnodup).1 (List.mem_map.mpr ⟨a, ha, heq⟩)

include hp in
/-- What is active under an identifier is what `find` reports. -/
theorem WellFormed.activeQuantity_eq_find (id : OrderId) :
    p.activeQuantity id = (p.find id).elim 0 fun o => o.remainingQuantity.toNat := by
  cases hf : p.find id with
  | none =>
    refine List.sumAt_eq_zero fun o ho heq => ?_
    exact List.find?_eq_none.mp hf o ho (decide_eq_true heq)
  | some o =>
    obtain rfl : o.id = id := by simpa using List.find?_some hf
    have ho := List.mem_of_find?_eq_some hf
    have hzero : quantityAt (p.remove o.id).orders o.id = 0 := hp.activeQuantity_remove ho
    rw [activeQuantity, quantityAt_perm (hp.orders_perm_remove ho), quantityAt_cons, if_pos rfl,
      hzero]
    rfl

/-- A cancellation retires its identifier. -/
theorem Applied.retired {p' : PriorityBook} {command : JournalCommand} {result : BatchCommandResult}
    (h : p.Applied command result p') (hp : p.WellFormed) :
    ∀ c ∈ Log.cancelledOf (command, result), p'.Retired c.1 := by
  cases h with
  | rejected => simp
  | accepted => simp
  | notFound => simp [CancelResult.notFound]
  | cancelled o ho =>
    rintro c hc
    obtain rfl : (o.id, o.remainingQuantity) = c := by simpa using hc
    obtain ⟨s, hs⟩ := p.mem_orders.mp ho
    exact ⟨hp.ids_seen s o hs, hp.activeQuantity_remove ho⟩

include hp in
/-- An identifier is cancelled at most once, and it is retired then. -/
theorem run_cancelled : ((p.log commands).cancelled.map Prod.fst).Nodup ∧
    ∀ c ∈ (p.log commands).cancelled, (p.run commands).2.Retired c.1 := by
  induction commands generalizing p with
  | nil => simp [log]
  | cons command commands ih =>
    have hstep := (p.apply_applied command).retired hp
    have hp' := hp.apply command
    obtain ⟨hnodup, hretired⟩ := ih hp'
    have hlog : (p.log (command :: commands)).cancelled =
        (Log.cancelledOf (command, (p.apply command).1)).toList ++
          ((p.apply command).2.log commands).cancelled := Log.cancelled_cons ..
    rw [hlog]
    cases hc : Log.cancelledOf (command, (p.apply command).1) with
    | none => exact ⟨hnodup, hretired⟩
    | some c =>
      have hsilent := (hstep c hc).run hp' commands
      refine ⟨List.nodup_cons.mpr ⟨fun hmem => ?_, hnodup⟩,
        List.forall_mem_cons.mpr ⟨hsilent.retired, hretired⟩⟩
      obtain ⟨c', hc', heq⟩ := List.mem_map.mp hmem
      exact hsilent.no_cancel c' hc' heq

end Run

end PriorityBook

end MatchingEngine
