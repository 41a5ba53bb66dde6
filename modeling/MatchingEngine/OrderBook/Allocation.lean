import MatchingEngine.OrderBook.Frame

/-!
# An allocation of `submit` that throws

`submit` reserves the vector of trades and records the identifier before it changes anything else,
and matching allocates nothing. What is left of the order is put in its level by
`insert_resting_order`, which may have to create the level, and which takes back what it has done
when a later allocation throws. The containers of the standard library leave themselves as they were
when an allocation of theirs throws.

## Main definitions

* `OrderBook.Allocation`, `OrderBook.SubmitOutcome`.
* `OrderBook.insertRestingOrderWith`, `OrderBook.submitWith`: the two functions with one allocation
  that throws, with their handlers.
* `OrderBook.Allocates`: the allocations that a call needs.

## Main results

* `OrderBook.insertRestingOrderWith_eq`: the handlers of `insert_resting_order` restore the book.
* `OrderBook.run_submit_throws`: the book that an exception leaves.
-/

namespace MatchingEngine

namespace OrderBook

/-- The allocations of `submit`. -/
inductive Allocation where
  /-- `trades.reserve`. -/
  | trades
  /-- `seen_order_ids.insert`. -/
  | seenId
  /-- `levels.try_emplace`. -/
  | level
  /-- `level.orders.push_back`. -/
  | listNode
  /-- `active_orders.emplace`. -/
  | indexNode
  deriving DecidableEq, Repr

/-- How a call of `submit` ends, with the book that it leaves. -/
inductive SubmitOutcome where
  | returned (result : SubmitResult) (book : OrderBook)
  | threw (book : OrderBook)

/-! ### The functions with an allocation that throws -/

/-- `OrderBook::Impl::insert_resting_order` when the given allocation throws: an error is the
exception, with the book that the handlers leave. -/
def insertRestingOrderWith (throwing : Option Allocation) (b : OrderBook) (s : BookSide)
    (incoming : NewLimitOrder) (restingQuantity : Quantity) (arrivalSequence : UInt64) :
    Except OrderBook OrderBook :=
  let insertedLevel := ((b.levels s).find? incoming.limitPrice).isNone
  -- `try_emplace` allocates nothing when the level exists
  if throwing = some .level ∧ insertedLevel then .error b
  else
    let levels := (b.levels s).tryEmplace incoming.limitPrice .new
    let level := (levels.find? incoming.limitPrice).getD .new
    let eraseLevel (levels : Levels s) : Levels s :=
      if insertedLevel then levels.erase incoming.limitPrice else levels
    if throwing = some .listNode then .error (b.setLevels s (eraseLevel levels))
    else
      let node : Node RestingOrder :=
        { address := b.nextAddress
          value :=
            { id := incoming.id
              side := incoming.side
              limitPrice := incoming.limitPrice
              originalQuantity := incoming.quantity
              remainingQuantity := restingQuantity
              arrivalSequence := arrivalSequence } }
      let levels := levels.insertOrAssign incoming.limitPrice
        ⟨level.orders ++ [node], level.totalQuantity⟩
      if throwing = some .indexNode then
        -- `pop_back` gives the node back, so its address is free again
        let levels := levels.insertOrAssign incoming.limitPrice
          ⟨(level.orders ++ [node]).dropLast, level.totalQuantity⟩
        .error (b.setLevels s (eraseLevel levels))
      else .ok (b.insertRestingOrder s incoming restingQuantity arrivalSequence)

/-- `submit` once every check has passed, when the given allocation throws. -/
def submitPlannedWith (throwing : Option Allocation) (b : OrderBook) (order : NewLimitOrder)
    (matchPlan : MatchPlan) : Except Abort SubmitOutcome :=
  if throwing = some .trades ∧ 0 < matchPlan.tradeCount then .ok (.threw b)
  else if order.id ∈ b.seenOrderIds then .error .assertion
  else if throwing = some .seenId then .ok (.threw b)
  else
    let b : OrderBook := { b with seenOrderIds := insert order.id b.seenOrderIds }
    let matched :=
      if order.side = .buy then
        b.matchLevels .asks order fun askPrice incomingPrice => askPrice ≤ incomingPrice
      else b.matchLevels .bids order fun bidPrice incomingPrice => bidPrice ≥ incomingPrice
    match matched with
    | .error e => .error e
    | .ok m =>
      if m.remainingQuantity ≠ matchPlan.remainingQuantity ∨
          m.trades.length ≠ matchPlan.tradeCount then .error .assertion
      else
        let rested :=
          if 0 < m.remainingQuantity.units then
            (if order.side = .buy then
              m.book.insertRestingOrderWith throwing .bids order m.remainingQuantity
                m.book.nextArrivalSequence
            else
              m.book.insertRestingOrderWith throwing .asks order m.remainingQuantity
                m.book.nextArrivalSequence).map fun b =>
              { b with nextArrivalSequence := b.nextArrivalSequence + 1 }
          else .ok m.book
        match rested with
        | .error b => .ok (.threw b)
        | .ok b =>
          if ¬ b.invariantsHold then .error .assertion
          else
            .ok (.returned
              { status := .accepted
                rejectionReason := none
                executedQuantity := ⟨order.quantity.units - matchPlan.remainingQuantity.units⟩
                restingQuantity := matchPlan.remainingQuantity
                trades := m.trades } b)

/-- `OrderBook::submit` when the given allocation throws. The checks allocate nothing. -/
def submitWith (throwing : Option Allocation) (b : OrderBook) (order : NewLimitOrder) :
    Except Abort SubmitOutcome :=
  b.submitThen order (fun reason => .ok (.returned (.rejected reason) b))
    (b.submitPlannedWith throwing order)

/-! ### The handlers -/

section Handlers

variable {throwing : Option Allocation} {b : OrderBook}

theorem setLevels_levels (b : OrderBook) (s : BookSide) : b.setLevels s (b.levels s) = b := by
  cases s <;> rfl

/-- Whichever allocation throws, the handlers of `insert_resting_order` restore the book. -/
theorem insertRestingOrderWith_eq (s : BookSide) (incoming : NewLimitOrder)
    (restingQuantity : Quantity) (arrivalSequence : UInt64) :
    b.insertRestingOrderWith throwing s incoming restingQuantity arrivalSequence =
      if throwing = some .level ∧ (b.levels s).find? incoming.limitPrice = none ∨
          throwing = some .listNode ∨ throwing = some .indexNode then .error b
      else .ok (b.insertRestingOrder s incoming restingQuantity arrivalSequence) := by
  unfold insertRestingOrderWith
  by_cases hlevel : throwing = some .level ∧ (b.levels s).find? incoming.limitPrice = none
  · rw [if_pos (by simpa [Option.isNone_iff_eq_none] using hlevel), if_pos (Or.inl hlevel)]
  rw [if_neg (by simpa [Option.isNone_iff_eq_none] using hlevel)]
  by_cases hlist : throwing = some .listNode
  · rw [if_pos (Or.inr (Or.inl hlist))]
    dsimp only
    rw [if_pos hlist, OrderedMap.undo_tryEmplace, setLevels_levels]
  by_cases hindex : throwing = some .indexNode
  · rw [if_pos (Or.inr (Or.inr hindex))]
    dsimp only
    rw [if_neg hlist, if_pos hindex, List.dropLast_concat, OrderedMap.undo_insertOrAssign,
      OrderedMap.undo_tryEmplace, setLevels_levels]
  · dsimp only
    rw [if_neg hlist, if_neg hindex, if_neg (not_or.mpr ⟨hlevel, not_or.mpr ⟨hlist, hindex⟩⟩)]

/-- The residual rests, or an exception leaves the book as matching has left it. -/
theorem rested_eq (throwing : Option Allocation) (order : NewLimitOrder) (m : Matching) :
    (if 0 < m.remainingQuantity.units then
        (if order.side = .buy then
          m.book.insertRestingOrderWith throwing .bids order m.remainingQuantity
            m.book.nextArrivalSequence
        else
          m.book.insertRestingOrderWith throwing .asks order m.remainingQuantity
            m.book.nextArrivalSequence).map fun b =>
          { b with nextArrivalSequence := b.nextArrivalSequence + 1 }
      else .ok m.book) =
    if 0 < m.remainingQuantity.units ∧
        (throwing = some .level ∧
            (m.book.levels (.ofSide order.side)).find? order.limitPrice = none ∨
          throwing = some .listNode ∨ throwing = some .indexNode) then .error m.book
    else .ok (restResidual order m) := by
  unfold restResidual
  by_cases hpos : 0 < m.remainingQuantity.units
  · simp only [hpos, if_true, true_and, insertRestingOrderWith_eq]
    by_cases hside : order.side = .buy
    · rw [show BookSide.ofSide order.side = .bids from if_pos hside, if_pos hside, if_pos hside]
      split_ifs <;> rfl
    · rw [show BookSide.ofSide order.side = .asks from if_neg hside, if_neg hside, if_neg hside]
      split_ifs <;> rfl
  · simp [hpos]

/-- When nothing throws, the call is `submit`. -/
theorem submitWith_none (b : OrderBook) (order : NewLimitOrder) :
    b.submitWith none order = (b.submit order).map fun r => .returned r.1 r.2 := by
  have hplanned (matchPlan : MatchPlan) : b.submitPlannedWith none order matchPlan =
      (b.submitPlanned order matchPlan).map fun r => .returned r.1 r.2 := by
    unfold submitPlannedWith submitPlanned
    simp only [rested_eq, reduceCtorEq, false_and, or_self, and_false, if_false]
    by_cases hseen : order.id ∈ b.seenOrderIds
    · rw [if_pos hseen, if_pos hseen]
      rfl
    rw [if_neg hseen, if_neg hseen]
    generalize (if order.side = .buy then
        ({ b with seenOrderIds := insert order.id b.seenOrderIds } : OrderBook).matchLevels .asks
          order fun askPrice incomingPrice => askPrice ≤ incomingPrice
      else
        ({ b with seenOrderIds := insert order.id b.seenOrderIds } : OrderBook).matchLevels .bids
          order fun bidPrice incomingPrice => bidPrice ≥ incomingPrice) = matched
    cases matched with
    | error e => rfl
    | ok m =>
      dsimp only
      split_ifs <;> rfl
  rw [submit_eq_submitThen, apply_submitThen (Except.map _), submitWith]
  exact congrArg (b.submitThen order _) (funext hplanned)

end Handlers

/-! ### The book that is left -/

/-- The allocations that a call with the given result needs. -/
def Allocates (b : OrderBook) (order : NewLimitOrder) (result : SubmitResult) : Allocation → Prop
  | .trades => 0 < result.trades.length
  | .seenId => True
  | .level => 0 < result.restingQuantity.units ∧
    (b.levels (.ofSide order.side)).find? order.limitPrice = none
  | .listNode => 0 < result.restingQuantity.units
  | .indexNode => 0 < result.restingQuantity.units

instance (b : OrderBook) (order : NewLimitOrder) (result : SubmitResult) :
    DecidablePred (Allocates b order result) := fun a =>
  match a with
  | .trades => inferInstanceAs (Decidable (_ < _))
  | .seenId => inferInstanceAs (Decidable True)
  | .level => inferInstanceAs (Decidable (_ ∧ _))
  | .listNode => inferInstanceAs (Decidable (_ < _))
  | .indexNode => inferInstanceAs (Decidable (_ < _))

/-- The allocation is one of `insert_resting_order`. -/
def Allocation.resting : Allocation → Bool
  | .trades => false
  | .seenId => false
  | .level => true
  | .listNode => true
  | .indexNode => true

section Submit

variable {b : OrderBook} {order : NewLimitOrder} {m : Matching}

/-- The book that matching leaves satisfies the invariant, also before the residual rests. -/
theorem Accepted.inv (h : b.Accepted order m) (hb : b.Inv) (ha : b.abs.Acceptable order) :
    m.book.Inv :=
  ⟨h.linked, h.abs_eq ▸ hb.wellFormed.matched ha.id_ne_zero⟩

/-- The three ways in which an accepted order can end. -/
theorem Accepted.submitPlannedWith_eq (h : b.Accepted order m) (hb : b.Inv)
    (ha : b.abs.Acceptable order) (throwing : Option Allocation) :
    b.submitPlannedWith throwing order
        ⟨(b.abs.fillFor order).remaining, (b.abs.fillFor order).trades.length⟩ =
      if throwing = some .trades ∧ 0 < (b.abs.fillFor order).trades.length ∨
          throwing = some .seenId then .ok (.threw b)
      else if 0 < (b.abs.fillFor order).remaining.units ∧
          (throwing = some .level ∧
              (b.levels (.ofSide order.side)).find? order.limitPrice = none ∨
            throwing = some .listNode ∨ throwing = some .indexNode) then .ok (.threw m.book)
      else .ok (.returned (PriorityBook.acceptResult order (b.abs.fillFor order))
        (restResidual order m)) := by
  have hnew : order.id ∉ b.seenOrderIds := ha.id_notMem_seen
  have hinv := (h.restResidual_refines hb ha).1
  have hmatched := h.matched
  have hplan : ¬ (m.remainingQuantity ≠ (b.abs.fillFor order).remaining ∨
      m.trades.length ≠ (b.abs.fillFor order).trades.length) := by
    simp [h.remaining_eq, h.trades_eq]
  unfold submitPlannedWith
  by_cases htrades : throwing = some .trades ∧ 0 < (b.abs.fillFor order).trades.length
  · rw [if_pos htrades, if_pos (Or.inl htrades)]
  rw [if_neg htrades, if_neg hnew]
  by_cases hseen : throwing = some .seenId
  · rw [if_pos hseen, if_pos (Or.inr hseen)]
  rw [if_neg hseen, if_neg (not_or.mpr ⟨htrades, hseen⟩)]
  dsimp only at hmatched ⊢
  rw [hmatched]
  dsimp only
  rw [if_neg hplan, rested_eq, h.levels_own ha.side_valid, h.remaining_eq, h.trades_eq]
  split_ifs
  · rfl
  · dsimp only
    rw [if_neg (by simp [hinv.invariantsHold])]
    rfl

/-- An accepted order that needs the allocation leaves the book as it was before, or as matching has
left it. -/
theorem Accepted.threw_eq (h : b.Accepted order m) (hb : b.Inv) (ha : b.abs.Acceptable order)
    (a : Allocation) : b.submitPlannedWith (some a) order
        ⟨(b.abs.fillFor order).remaining, (b.abs.fillFor order).trades.length⟩ =
      if Allocates b order (PriorityBook.acceptResult order (b.abs.fillFor order)) a then
        .ok (.threw (if a.resting then m.book else b))
      else .ok (.returned (PriorityBook.acceptResult order (b.abs.fillFor order))
        (restResidual order m)) := by
  rw [h.submitPlannedWith_eq hb ha]
  cases a <;> simp [Allocates, Allocation.resting, PriorityBook.acceptResult]

/-- After any history, for every argument of `submit` and every allocation: if the call needs the
allocation, it throws, and the book that is left passes the representation check. It is the book
before the call, or for an allocation of `insert_resting_order` the book after matching, in which
the identifier is recorded and no sequence number was used. Otherwise the call returns what it
returns. -/
theorem run_submit_throws (commands : List JournalCommand) :
    ∃ results b, fresh.run commands = .ok (results, b) ∧
      ∀ order, ∃ r b', b.submit order = .ok (r, b') ∧
        (r.status = .rejected → ∀ a, b.submitWith (some a) order = .ok (.returned r b')) ∧
        (r.status = .accepted → ∃ m, b.Accepted order m ∧ b' = restResidual order m ∧ ∀ a,
          (¬ Allocates b order r a → b.submitWith (some a) order = .ok (.returned r b')) ∧
          (Allocates b order r a → ∃ left, b.submitWith (some a) order = .ok (.threw left) ∧
            left.invariantsHold = true ∧ (a.resting = false → left = b) ∧
            (a.resting = true → left = m.book ∧
              left.seenOrderIds = insert order.id b.seenOrderIds ∧
              left.nextArrivalSequence = b.nextArrivalSequence))) := by
  obtain ⟨b, hrun, hinv, -⟩ := run_refines fresh_inv commands
  refine ⟨_, b, hrun, fun order => ?_⟩
  have hwith (a : Allocation) := submitThen_eq hinv order
    (fun reason => .ok (.returned (.rejected reason) b)) (b.submitPlannedWith (some a) order)
  rcases submit_cases hinv order with ⟨reason, hr, hsubmit⟩ | ⟨m, ha, hm, hsubmit⟩
  · refine ⟨_, _, hsubmit, fun _ a => ?_, fun h => by cases h⟩
    rw [submitWith, hwith, hr]
  · have hr := PriorityBook.rejection_eq_none_iff.mpr ha
    refine ⟨_, _, hsubmit, (fun h => by cases h), fun _ => ⟨m, hm, rfl, fun a => ?_⟩⟩
    have hthrew := hm.threw_eq hinv ha a
    refine ⟨fun hnot => ?_, fun hneeds => ?_⟩
    · rw [submitWith, hwith, hr, hthrew, if_neg hnot]
    · refine ⟨if a.resting then m.book else b, ?_, ?_, fun hrest => ?_, fun hrest => ?_⟩
      · rw [submitWith, hwith, hr, hthrew, if_pos hneeds]
      · split
        · exact (hm.inv hinv ha).invariantsHold
        · exact hinv.invariantsHold
      · rw [hrest]
        rfl
      · rw [hrest]
        exact ⟨rfl, (hm.frame ha.side_valid).seenOrderIds_eq, hm.nextArrivalSequence_eq⟩

/-- A buy order that takes the only sell order and rests the remainder at a new price needs all five
allocations. -/
theorem submit_throws_everywhere :
    ∃ results b, fresh.run [.submitLimitOrder ⟨⟨1⟩, .sell, ⟨10⟩, ⟨5⟩⟩] = .ok (results, b) ∧
      ∀ a, ∃ left, b.submitWith (some a) ⟨⟨2⟩, .buy, ⟨10⟩, ⟨8⟩⟩ = .ok (.threw left) ∧
        left.invariantsHold = true ∧
        (a.resting = true → left.bids = .empty ∧ left.asks = .empty ∧
          left.seenOrderIds = {⟨1⟩, ⟨2⟩} ∧ left.nextArrivalSequence = 2) := by
  obtain ⟨results, b, hrun, hsubmit⟩ :=
    run_submit_throws [.submitLimitOrder ⟨⟨1⟩, .sell, ⟨10⟩, ⟨5⟩⟩]
  cases hrun
  obtain ⟨r, b', hr, -, haccepted⟩ := hsubmit ⟨⟨2⟩, .buy, ⟨10⟩, ⟨8⟩⟩
  cases hr
  obtain ⟨m, hm, -, hthrows⟩ := haccepted rfl
  cases hm.matched
  refine ⟨_, _, rfl, fun a => ?_⟩
  obtain ⟨left, hleft, hholds, -, hrest⟩ := (hthrows a).2 (by cases a <;> decide)
  refine ⟨left, hleft, hholds, fun hresting => ?_⟩
  obtain ⟨rfl, -, -⟩ := hrest hresting
  exact ⟨rfl, rfl, by decide, rfl⟩

end Submit

end OrderBook

end MatchingEngine
