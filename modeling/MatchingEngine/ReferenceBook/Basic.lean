import MatchingEngine.OrderBook.Basic

/-!
# The reference order book

The state and the operations of `tests/reference_order_book.hpp`, the oracle of the differential
tests. It shares no storage with the order book: a level is a double-ended queue of plain orders,
`activeOrders` holds a second copy of every order that has to be patched on each partial fill,
there are no iterators, and a cancellation scans the levels from the front.

A resting order of the oracle has the fields of an `OrderView`, and is modelled by one. The oracle
does not check its own state, so a step that is undefined or throws is a `ReferenceBook.Fault`.

## Main definitions

* `ReferenceBook`, `ReferenceBook.Level`, `ReferenceBook.Fault`.
* `ReferenceBook.preview`, `ReferenceBook.matchBuy`, `ReferenceBook.matchSell`,
  `ReferenceBook.rest`, `ReferenceBook.cancelFrom`.
* `ReferenceBook.submit`, `ReferenceBook.cancel`, `ReferenceBook.run`, and the queries.
-/

namespace MatchingEngine

/-- `ReferenceOrderBook::PriceLevel`. -/
structure ReferenceBook.Level where
  orders : List OrderView
  totalQuantity : Quantity
  deriving DecidableEq, Repr

/-- A value-initialised level. -/
def ReferenceBook.Level.new : ReferenceBook.Level := ⟨[], ⟨0⟩⟩

/-- `ReferenceOrderBook`. -/
structure ReferenceBook where
  bids : OrderedMap Price ReferenceBook.Level BookSide.bids.lt
  asks : OrderedMap Price ReferenceBook.Level BookSide.asks.lt
  activeOrders : Finmap fun _ : OrderId => OrderView
  seenIds : Finset OrderId
  nextArrivalSequence : UInt64
  nextTradeId : UInt64
  deriving DecidableEq

namespace ReferenceBook

/-- The ways in which an operation of the oracle can stop without a result. -/
inductive Fault where
  /-- `front()` of an empty queue. -/
  | emptyFront
  /-- `std::out_of_range` thrown by `at`. -/
  | outOfRange
  /-- A loop of the model ran out of its bound on the number of iterations. -/
  | fuelExhausted
  deriving DecidableEq, Repr

/-- `BidLevels` and `AskLevels` of the oracle. -/
abbrev Levels (s : BookSide) := OrderedMap Price Level s.lt

/-- A book as its constructor leaves it. -/
def fresh : ReferenceBook := ⟨.empty, .empty, ∅, ∅, 1, 1⟩

/-- The map a reference denotes. -/
def levels (r : ReferenceBook) : (s : BookSide) → Levels s
  | .bids => r.bids
  | .asks => r.asks

/-- Writing through a reference. -/
def setLevels (r : ReferenceBook) : (s : BookSide) → Levels s → ReferenceBook
  | .bids, l => { r with bids := l }
  | .asks, l => { r with asks := l }

/-! ### Planning -/

/-- The inner loop of `preview`. The counter is a `std::size_t`. -/
def previewOrders : List OrderView → MatchPlan → MatchPlan
  | [], plan => plan
  | maker :: makers, plan =>
    let plan : MatchPlan :=
      ⟨⟨plan.remainingQuantity.units -
          min plan.remainingQuantity.units maker.remainingQuantity.units⟩,
        (plan.tradeCount + 1) % 2 ^ 64⟩
    if plan.remainingQuantity.units = 0 then plan else previewOrders makers plan

/-- The outer loop of `preview`. -/
def previewLevels (crosses : Price → Price → Bool) (incomingPrice : Price) :
    List (Price × Level) → MatchPlan → MatchPlan
  | [], plan => plan
  | (price, level) :: rest, plan =>
    if plan.remainingQuantity.units = 0 ∨ ¬ crosses price incomingPrice then plan
    else previewLevels crosses incomingPrice rest (previewOrders level.orders plan)

/-- `preview`. -/
def preview {s : BookSide} (levels : Levels s) (incomingPrice : Price)
    (incomingQuantity : Quantity) (crosses : Price → Price → Bool) : MatchPlan :=
  previewLevels crosses incomingPrice levels.entries ⟨incomingQuantity, 0⟩

/-- `can_issue_trade_ids`: the loop is that of the order book. -/
def canIssueTradeIds (r : ReferenceBook) (tradeCount : ℕ) : Bool :=
  canIssueFrom r.nextTradeId tradeCount

/-- `would_overflow_at_resting_level`. -/
def wouldOverflowAtRestingLevel (r : ReferenceBook) (incoming : NewLimitOrder)
    (remaining : Quantity) : Bool :=
  if incoming.side = .buy then
    (r.bids.find? incoming.limitPrice).any fun level =>
      wouldOverflow level.totalQuantity remaining
  else
    (r.asks.find? incoming.limitPrice).any fun level =>
      wouldOverflow level.totalQuantity remaining

/-! ### Matching -/

/-- What `match_buy` and `match_sell` work on. -/
structure Matching where
  book : ReferenceBook
  remaining : Quantity
  trades : List Trade
  deriving DecidableEq

/-- The body of the loop of `match_buy` and `match_sell`, with `remove_filled_front`, at the first
level of the map. -/
def matchBody (s : BookSide) (incoming : NewLimitOrder) (price : Price) (level : Level)
    (m : Matching) : Except Fault Matching :=
  match level.orders with
  | [] => .error .emptyFront
  | maker :: others =>
    let executed := min m.remaining.units maker.remainingQuantity.units
    let trade : Trade :=
      { id := ⟨m.book.nextTradeId⟩
        makerOrderId := maker.id
        takerOrderId := incoming.id
        executionPrice := maker.limitPrice
        executionQuantity := ⟨executed⟩ }
    let left : Quantity := ⟨maker.remainingQuantity.units - executed⟩
    let total : Quantity := ⟨level.totalQuantity.units - executed⟩
    let book : ReferenceBook := { m.book with nextTradeId := m.book.nextTradeId + 1 }
    let next (book : ReferenceBook) : Matching :=
      ⟨book, ⟨m.remaining.units - executed⟩, m.trades ++ [trade]⟩
    if left.units = 0 then
      let book : ReferenceBook := { book with activeOrders := book.activeOrders.erase maker.id }
      if others.isEmpty then .ok (next (book.setLevels s ((book.levels s).erase price)))
      else .ok (next (book.setLevels s ((book.levels s).insertOrAssign price ⟨others, total⟩)))
    else
      match book.activeOrders.lookup maker.id with
      | none => .error .outOfRange
      | some view =>
        let book : ReferenceBook := { book with
          activeOrders :=
            book.activeOrders.insert maker.id { view with remainingQuantity := left } }
        let maker := { maker with remainingQuantity := left }
        .ok (next (book.setLevels s
          ((book.levels s).insertOrAssign price ⟨maker :: others, total⟩)))

/-- The loop of `match_buy` and `match_sell`, with a bound on its iterations. -/
def matchLoop (s : BookSide) (crosses : Price → Price → Bool) (incoming : NewLimitOrder) :
    ℕ → Matching → Except Fault Matching
  | 0, _ => .error .fuelExhausted
  | fuel + 1, m =>
    match (m.book.levels s).front? with
    | none => .ok m
    | some (price, level) =>
      if 0 < m.remaining.units ∧ crosses price incoming.limitPrice then
        match matchBody s incoming price level m with
        | .error e => .error e
        | .ok m' => matchLoop s crosses incoming fuel m'
      else .ok m

/-- The loop on one side of a book. Each iteration but the last removes an order. -/
def matchSide (r : ReferenceBook) (s : BookSide) (crosses : Price → Price → Bool)
    (incoming : NewLimitOrder) : Except Fault Matching :=
  matchLoop s crosses incoming (((r.levels s).entries.flatMap fun e => e.2.orders).length + 1)
    ⟨r, incoming.quantity, []⟩

/-- `match_buy`. -/
def matchBuy (r : ReferenceBook) (incoming : NewLimitOrder) : Except Fault Matching :=
  r.matchSide .asks (fun askPrice limitPrice => askPrice ≤ limitPrice) incoming

/-- `match_sell`. -/
def matchSell (r : ReferenceBook) (incoming : NewLimitOrder) : Except Fault Matching :=
  r.matchSide .bids (fun bidPrice limitPrice => bidPrice ≥ limitPrice) incoming

/-! ### Resting and cancelling -/

/-- `rest` on one side of a book. -/
def restOn (r : ReferenceBook) (s : BookSide) (incoming : NewLimitOrder) (remaining : Quantity) :
    ReferenceBook :=
  let levels := (r.levels s).tryEmplace incoming.limitPrice .new
  let level := (levels.find? incoming.limitPrice).getD .new
  let order : OrderView :=
    { id := incoming.id
      side := incoming.side
      limitPrice := incoming.limitPrice
      originalQuantity := incoming.quantity
      remainingQuantity := remaining }
  let level : Level := ⟨level.orders ++ [order], ⟨level.totalQuantity.units + remaining.units⟩⟩
  let book := r.setLevels s (levels.insertOrAssign incoming.limitPrice level)
  -- `emplace` keeps the order of an identifier that is already present
  { book with
    activeOrders :=
      if incoming.id ∈ r.activeOrders then r.activeOrders
      else r.activeOrders.insert incoming.id order
    nextArrivalSequence := r.nextArrivalSequence + 1 }

/-- `rest`. -/
def rest (r : ReferenceBook) (incoming : NewLimitOrder) (remaining : Quantity) : ReferenceBook :=
  if incoming.side = .buy then r.restOn .bids incoming remaining
  else r.restOn .asks incoming remaining

/-- The scan of `cancel_from`: the first level with an order of the given identifier, as it is
after the order is erased, and the quantity of the order. -/
def cancelScan (id : OrderId) : List (Price × Level) → Option (Price × Level × Quantity)
  | [] => none
  | (price, level) :: rest =>
    match level.orders.find? fun o => o.id = id with
    | none => cancelScan id rest
    | some order =>
      some (price, ⟨level.orders.eraseP fun o => o.id = id,
        ⟨level.totalQuantity.units - order.remainingQuantity.units⟩⟩, order.remainingQuantity)

/-- `cancel_from`. -/
def cancelFrom (r : ReferenceBook) (s : BookSide) (id : OrderId) :
    Option (Quantity × ReferenceBook) :=
  match cancelScan id (r.levels s).entries with
  | none => none
  | some (price, level, cancelled) =>
    let levels :=
      if level.orders.isEmpty then (r.levels s).erase price
      else (r.levels s).insertOrAssign price level
    some (cancelled, { r.setLevels s levels with activeOrders := r.activeOrders.erase id })

/-! ### Public operations -/

/-- `submit` once every check has passed. -/
def submitAccepted (r : ReferenceBook) (incoming : NewLimitOrder) :
    Except Fault (SubmitResult × ReferenceBook) :=
  let r : ReferenceBook := { r with seenIds := insert incoming.id r.seenIds }
  match if incoming.side = .buy then r.matchBuy incoming else r.matchSell incoming with
  | .error e => .error e
  | .ok m =>
    .ok (
      { status := .accepted
        rejectionReason := none
        executedQuantity := ⟨incoming.quantity.units - m.remaining.units⟩
        restingQuantity := m.remaining
        trades := m.trades },
      if 0 < m.remaining.units then m.book.rest incoming m.remaining else m.book)

/-- `submit`. -/
def submit (r : ReferenceBook) (incoming : NewLimitOrder) :
    Except Fault (SubmitResult × ReferenceBook) :=
  if incoming.id.value = 0 then .ok (.rejected .invalidOrderId, r)
  else if incoming.side ≠ .buy ∧ incoming.side ≠ .sell then .ok (.rejected .invalidSide, r)
  else if incoming.limitPrice.ticks = 0 then .ok (.rejected .invalidPrice, r)
  else if incoming.quantity.units = 0 then .ok (.rejected .invalidQuantity, r)
  else if incoming.id ∈ r.seenIds then .ok (.rejected .duplicateOrderId, r)
  else
    let plan :=
      if incoming.side = .buy then
        preview r.asks incoming.limitPrice incoming.quantity fun best limit => best ≤ limit
      else preview r.bids incoming.limitPrice incoming.quantity fun best limit => best ≥ limit
    if ¬ r.canIssueTradeIds plan.tradeCount then .ok (.rejected .tradeIdExhausted, r)
    else if 0 < plan.remainingQuantity.units ∧ r.nextArrivalSequence = 0 then
      .ok (.rejected .sequenceExhausted, r)
    else if 0 < plan.remainingQuantity.units ∧
        r.wouldOverflowAtRestingLevel incoming plan.remainingQuantity then
      .ok (.rejected .quantityOverflow, r)
    else r.submitAccepted incoming

/-- `cancel`: the bids are scanned first. -/
def cancel (r : ReferenceBook) (id : OrderId) : CancelResult × ReferenceBook :=
  match r.cancelFrom .bids id with
  | some (cancelled, r) => (⟨.cancelled, cancelled⟩, r)
  | none =>
    match r.cancelFrom .asks id with
    | some (cancelled, r) => (⟨.cancelled, cancelled⟩, r)
    | none => (.notFound, r)

/-- `best_from`. -/
def bestFrom {s : BookSide} (levels : Levels s) : Option Quote :=
  levels.front?.map fun e => ⟨e.1, e.2.totalQuantity⟩

/-- `best_bid`. -/
def bestBid (r : ReferenceBook) : Option Quote := bestFrom r.bids

/-- `best_ask`. -/
def bestAsk (r : ReferenceBook) : Option Quote := bestFrom r.asks

/-- `find`. -/
def find (r : ReferenceBook) (id : OrderId) : Option OrderView := r.activeOrders.lookup id

/-- `depth_from`. -/
def depthFrom {s : BookSide} (levels : Levels s) : List PriceLevelView :=
  levels.entries.map fun e => ⟨e.1, e.2.totalQuantity, e.2.orders.length⟩

/-- `depth`. -/
def depth (r : ReferenceBook) (side : Side) : List PriceLevelView :=
  if side = .buy then depthFrom r.bids
  else if side = .sell then depthFrom r.asks
  else []

/-- `active_order_count`. -/
def activeOrderCount (r : ReferenceBook) : ℕ := r.activeOrders.keys.card

/-- A command of either kind. -/
def applyCommand (r : ReferenceBook) :
    JournalCommand → Except Fault (BatchCommandResult × ReferenceBook)
  | .submitLimitOrder order => (r.submit order).map fun x => (.submit x.1, x.2)
  | .cancelOrder id => .ok (.cancel (r.cancel id).1, (r.cancel id).2)

/-- A sequence of calls on one book: the results in order, and the book that is left. -/
def run (r : ReferenceBook) (commands : List JournalCommand) :
    Except Fault (List BatchCommandResult × ReferenceBook) :=
  tryRunAll applyCommand r commands

end ReferenceBook

end MatchingEngine
