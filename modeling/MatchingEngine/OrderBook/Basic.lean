import MatchingEngine.Data.OrderedMap
import MatchingEngine.Data.Run
import MatchingEngine.Types
import Mathlib.Data.Finmap

/-!
# The order book

The state and the operations of `src/order_book.cpp`. A side of the book is an ordered map from
prices to levels, a level holds its orders in a doubly linked list, and `activeOrders` locates
every resting order by its side, its price and an iterator into the list of its level.

An iterator of `std::list` stays valid while other nodes come and go, so it is modelled by the
address of the node it points to. Dereferencing it looks the address up among the nodes of the
book, and a dangling iterator has no such node.

An operation returns `Except Abort`: `Abort` has one constructor for each way in which the program
could stop without returning. The assertions of the source are checks of the model.

## Main definitions

* `RestingOrder`, `PriceLevel`, `OrderLocator`, `OrderBook`.
* `previewMatch`, `OrderBook.canIssueTradeIds`, `OrderBook.matchLevels`,
  `OrderBook.insertRestingOrder`, `OrderBook.cancelRestingOrder`.
* `OrderBook.invariantsHold`: the representation check of the source.
* `OrderBook.submit`, `OrderBook.cancel`, `OrderBook.run`, and the queries.
-/

namespace MatchingEngine

/-- The ways in which an operation can stop without a result. -/
inductive Abort where
  /-- `std::terminate()`. -/
  | terminate
  /-- A failed `assert`. -/
  | assertion
  /-- A dereferenced or erased iterator that does not denote a node of the list. -/
  | danglingIterator
  /-- A loop of the model ran out of its bound on the number of iterations. -/
  | fuelExhausted
  deriving DecidableEq, Repr

/-- `std::numeric_limits<std::uint64_t>::max()`, and of `std::size_t`. -/
def maxWord : UInt64 := 0xFFFFFFFFFFFFFFFF

/-! ### Data -/

/-- `OrderBook::Impl::RestingOrder`. -/
structure RestingOrder where
  id : OrderId
  side : Side
  limitPrice : Price
  originalQuantity : Quantity
  remainingQuantity : Quantity
  arrivalSequence : UInt64
  deriving DecidableEq, Repr

/-- What `find` reports of a resting order. -/
@[simps] def RestingOrder.view (o : RestingOrder) : OrderView where
  id := o.id
  side := o.side
  limitPrice := o.limitPrice
  originalQuantity := o.originalQuantity
  remainingQuantity := o.remainingQuantity

/-- A node of a `std::list`: the address an iterator denotes, and the element. -/
structure Node (α : Type) where
  address : ℕ
  value : α
  deriving DecidableEq, Repr

/-- `OrderBook::Impl::PriceLevel`. -/
structure PriceLevel where
  orders : List (Node RestingOrder)
  totalQuantity : Quantity
  deriving DecidableEq, Repr

/-- A value-initialised level. -/
def PriceLevel.new : PriceLevel := ⟨[], ⟨0⟩⟩

/-- `BidLevels` and `AskLevels`. -/
abbrev Levels (s : BookSide) := OrderedMap Price PriceLevel s.lt

/-- `OrderBook::Impl::OrderLocator`. The iterator `order` is the address of a list node. -/
structure OrderLocator where
  side : Side
  price : Price
  order : ℕ
  deriving DecidableEq, Repr

/-- `OrderBook::Impl`. -/
structure OrderBook where
  bids : Levels .bids
  asks : Levels .asks
  activeOrders : Finmap fun _ : OrderId => OrderLocator
  seenOrderIds : Finset OrderId
  nextArrivalSequence : UInt64
  nextTradeId : UInt64
  /-- The address of the next list node to be allocated. -/
  nextAddress : ℕ
  deriving DecidableEq

namespace OrderBook

/-- A book as its constructor leaves it. -/
def fresh : OrderBook where
  bids := .empty
  asks := .empty
  activeOrders := ∅
  seenOrderIds := ∅
  nextArrivalSequence := 1
  nextTradeId := 1
  nextAddress := 0

/-- The map a reference denotes. -/
def levels (b : OrderBook) : (s : BookSide) → Levels s
  | .bids => b.bids
  | .asks => b.asks

/-- Writing through a reference. -/
def setLevels (b : OrderBook) : (s : BookSide) → Levels s → OrderBook
  | .bids, l => { b with bids := l }
  | .asks, l => { b with asks := l }

/-- The list nodes of one map, level by level. -/
def nodesOf {s : BookSide} (l : Levels s) : List (Node RestingOrder) :=
  l.entries.flatMap fun e => e.2.orders

/-- Every list node of the book. -/
def nodes (b : OrderBook) : List (Node RestingOrder) := nodesOf b.bids ++ nodesOf b.asks

/-- `*it` for an iterator `it`. -/
def deref (b : OrderBook) (address : ℕ) : Except Abort RestingOrder :=
  match b.nodes.find? fun n => n.address = address with
  | some n => .ok n.value
  | none => .error .danglingIterator

end OrderBook

/-! ### Planning -/

/-- `is_valid_side`. -/
def isValidSide (side : Side) : Bool := side = .buy ∨ side = .sell

/-- `would_overflow`. -/
def wouldOverflow (current addition : Quantity) : Bool := maxWord - addition.units < current.units

/-- `OrderBook::Impl::MatchPlan`. -/
structure MatchPlan where
  remainingQuantity : Quantity
  tradeCount : ℕ
  deriving DecidableEq, Repr

/-- The two `return` statements of `preview_match`: the one taken when the trade counter is
saturated, and the one at the end. -/
inductive PreviewReturn where
  | saturated (plan : MatchPlan)
  | completed (plan : MatchPlan)
  deriving DecidableEq, Repr

/-- The plan that is returned, by either statement. -/
def PreviewReturn.plan : PreviewReturn → MatchPlan
  | saturated plan => plan
  | completed plan => plan

/-- The inner loop of `preview_match`, over the makers of one level. -/
def previewOrders : List (Node RestingOrder) → MatchPlan → PreviewReturn
  | [], plan => .completed plan
  | maker :: makers, plan =>
    if plan.tradeCount = maxWord.toNat then .saturated plan
    else
      let executed := min plan.remainingQuantity.units maker.value.remainingQuantity.units
      let plan : MatchPlan := ⟨⟨plan.remainingQuantity.units - executed⟩, plan.tradeCount + 1⟩
      if plan.remainingQuantity.units = 0 then .completed plan
      else previewOrders makers plan

/-- The outer loop of `preview_match`, over the levels of a map. -/
def previewLevels (priceCrosses : Price → Price → Bool) (incomingPrice : Price) :
    List (Price × PriceLevel) → MatchPlan → PreviewReturn
  | [], plan => .completed plan
  | (price, level) :: rest, plan =>
    if 0 < plan.remainingQuantity.units ∧ priceCrosses price incomingPrice then
      match previewOrders level.orders plan with
      | .saturated plan => .saturated plan
      | .completed plan => previewLevels priceCrosses incomingPrice rest plan
    else .completed plan

/-- `OrderBook::Impl::preview_match`. -/
def previewMatch {s : BookSide} (levels : Levels s) (incomingPrice : Price)
    (incomingQuantity : Quantity) (priceCrosses : Price → Price → Bool) : PreviewReturn :=
  previewLevels priceCrosses incomingPrice levels.entries ⟨incomingQuantity, 0⟩

/-- The loop of `can_issue_trade_ids`, from a prospective identifier. -/
def canIssueFrom (prospective : UInt64) : ℕ → Bool
  | 0 => true
  | count + 1 => if prospective = 0 then false else canIssueFrom (prospective + 1) count

namespace OrderBook

/-- `OrderBook::Impl::can_issue_trade_ids`. -/
def canIssueTradeIds (b : OrderBook) (tradeCount : ℕ) : Bool :=
  canIssueFrom b.nextTradeId tradeCount

/-! ### Matching -/

/-- What the loop of `match` works on: the book, and its two reference arguments. -/
structure Matching where
  book : OrderBook
  remainingQuantity : Quantity
  trades : List Trade
  deriving DecidableEq

/-- The body of the loop of `match`, at the first level of the map. -/
def matchBody (s : BookSide) (incoming : NewLimitOrder) (price : Price) (level : PriceLevel)
    (m : Matching) : Except Abort Matching :=
  match level.orders with
  | [] => .error .danglingIterator
  | maker :: others =>
    let executed := min m.remainingQuantity.units maker.value.remainingQuantity.units
    if executed = 0 ∨ level.totalQuantity.units < executed ∨ m.book.nextTradeId = 0 then
      .error .terminate
    else
      let trade : Trade :=
        { id := ⟨m.book.nextTradeId⟩
          makerOrderId := maker.value.id
          takerOrderId := incoming.id
          executionPrice := maker.value.limitPrice
          executionQuantity := ⟨executed⟩ }
      let total : Quantity := ⟨level.totalQuantity.units - executed⟩
      let left : Quantity := ⟨maker.value.remainingQuantity.units - executed⟩
      let book : OrderBook := { m.book with nextTradeId := m.book.nextTradeId + 1 }
      let next (book : OrderBook) : Matching :=
        ⟨book, ⟨m.remainingQuantity.units - executed⟩, m.trades ++ [trade]⟩
      if left.units = 0 then
        if maker.value.id ∉ book.activeOrders then .error .terminate
        else
          let book : OrderBook :=
            { book with activeOrders := book.activeOrders.erase maker.value.id }
          if others.isEmpty then .ok (next (book.setLevels s ((book.levels s).erase price)))
          else .ok (next (book.setLevels s ((book.levels s).insertOrAssign price ⟨others, total⟩)))
      else
        let maker := { maker with value := { maker.value with remainingQuantity := left } }
        .ok (next (book.setLevels s
          ((book.levels s).insertOrAssign price ⟨maker :: others, total⟩)))

/-- The loop of `match`, with a bound on its iterations. -/
def matchLoop (s : BookSide) (priceCrosses : Price → Price → Bool) (incoming : NewLimitOrder) :
    ℕ → Matching → Except Abort Matching
  | 0, _ => .error .fuelExhausted
  | fuel + 1, m =>
    match (m.book.levels s).front? with
    | none => .ok m
    | some (price, level) =>
      if 0 < m.remainingQuantity.units ∧ priceCrosses price incoming.limitPrice then
        match matchBody s incoming price level m with
        | .error e => .error e
        | .ok m' => matchLoop s priceCrosses incoming fuel m'
      else .ok m

/-- `OrderBook::Impl::match`. Each iteration but the last removes an order. -/
def matchLevels (b : OrderBook) (s : BookSide) (incoming : NewLimitOrder)
    (priceCrosses : Price → Price → Bool) : Except Abort Matching :=
  matchLoop s priceCrosses incoming ((nodesOf (b.levels s)).length + 1) ⟨b, incoming.quantity, []⟩

/-! ### Resting and cancelling -/

/-- `OrderBook::Impl::insert_resting_order`. -/
def insertRestingOrder (b : OrderBook) (s : BookSide) (incoming : NewLimitOrder)
    (restingQuantity : Quantity) (arrivalSequence : UInt64) : OrderBook :=
  let levels := (b.levels s).tryEmplace incoming.limitPrice .new
  let level := (levels.find? incoming.limitPrice).getD .new
  let node : Node RestingOrder :=
    { address := b.nextAddress
      value :=
        { id := incoming.id
          side := incoming.side
          limitPrice := incoming.limitPrice
          originalQuantity := incoming.quantity
          remainingQuantity := restingQuantity
          arrivalSequence := arrivalSequence } }
  let level : PriceLevel :=
    ⟨level.orders ++ [node], ⟨level.totalQuantity.units + restingQuantity.units⟩⟩
  let book := b.setLevels s (levels.insertOrAssign incoming.limitPrice level)
  -- `emplace` keeps the locator of an identifier that is already present
  { book with
    activeOrders :=
      if incoming.id ∈ b.activeOrders then b.activeOrders
      else b.activeOrders.insert incoming.id ⟨incoming.side, incoming.limitPrice, node.address⟩
    nextAddress := b.nextAddress + 1 }

/-- `OrderBook::Impl::cancel_resting_order`. -/
def cancelRestingOrder (b : OrderBook) (s : BookSide) (locator : OrderLocator) (id : OrderId) :
    Except Abort (Quantity × OrderBook) :=
  match (b.levels s).find? locator.price with
  | none => .error .terminate
  | some level =>
    match b.deref locator.order with
    | .error e => .error e
    | .ok order =>
      if order.id ≠ id ∨ order.remainingQuantity.units = 0 ∨
          level.totalQuantity.units < order.remainingQuantity.units then
        .error .terminate
      else if ¬ level.orders.any (fun n => n.address = locator.order) then
        .error .danglingIterator
      else
        let total : Quantity := ⟨level.totalQuantity.units - order.remainingQuantity.units⟩
        let orders := level.orders.eraseP fun n => n.address = locator.order
        let levels :=
          if orders.isEmpty then (b.levels s).erase locator.price
          else (b.levels s).insertOrAssign locator.price ⟨orders, total⟩
        .ok (order.remainingQuantity, b.setLevels s levels)

/-! ### The representation check -/

/-- What `check_side` accumulates over both sides. -/
structure CheckState where
  countedOrders : ℕ
  ordersInBook : Finset OrderId

/-- The inner loop of `check_side`, over the orders of one level. `none` is `return false`. -/
def checkOrders (b : OrderBook) (side : Side) (price : Price) :
    List (Node RestingOrder) → Quantity → UInt64 → CheckState → Option (Quantity × CheckState)
  | [], aggregate, _, st => some (aggregate, st)
  | node :: rest, aggregate, previousSequence, st =>
    let order := node.value
    if order.side ≠ side ∨ order.limitPrice ≠ price ∨ order.remainingQuantity.units = 0 ∨
        order.originalQuantity.units = 0 ∨
        order.originalQuantity.units < order.remainingQuantity.units ∨
        order.arrivalSequence = 0 ∨
        (previousSequence ≠ 0 ∧ order.arrivalSequence ≤ previousSequence) ∨
        wouldOverflow aggregate order.remainingQuantity then none
    else
      match b.activeOrders.lookup order.id with
      | none => none
      | some locator =>
        if locator.side ≠ side ∨ locator.price ≠ price ∨ locator.order ≠ node.address ∨
            order.id ∉ b.seenOrderIds ∨ order.id ∈ st.ordersInBook then none
        else
          checkOrders b side price rest ⟨aggregate.units + order.remainingQuantity.units⟩
            order.arrivalSequence ⟨st.countedOrders + 1, insert order.id st.ordersInBook⟩

/-- The outer loop of `check_side`, over the levels of one map. -/
def checkLevels (b : OrderBook) (side : Side) :
    List (Price × PriceLevel) → Option Price → CheckState → Option CheckState
  | [], _, st => some st
  | (price, level) :: rest, previousPrice, st =>
    if level.orders.isEmpty ∨ previousPrice.any (fun previous =>
        (side = .buy ∧ previous ≤ price) ∨ (side = .sell ∧ previous ≥ price)) then none
    else
      match checkOrders b side price level.orders ⟨0⟩ 0 st with
      | none => none
      | some (aggregate, st) =>
        if aggregate ≠ level.totalQuantity then none
        else checkLevels b side rest (some price) st

/-- `OrderBook::Impl::invariants_hold`. -/
def invariantsHold (b : OrderBook) : Bool :=
  match b.bids.front?, b.asks.front? with
  | some bid, some ask => if bid.1 ≥ ask.1 then false else checkSides
  | _, _ => checkSides
where
  checkSides : Bool :=
    match checkLevels b .buy b.bids.entries none ⟨0, ∅⟩ with
    | none => false
    | some st =>
      match checkLevels b .sell b.asks.entries none st with
      | none => false
      | some st => st.countedOrders = b.activeOrders.keys.card

/-! ### Public operations -/

/-- `submit` after matching: a residual quantity rests on the order's own side. -/
def restResidual (order : NewLimitOrder) (m : Matching) : OrderBook :=
  if 0 < m.remainingQuantity.units then
    let b :=
      if order.side = .buy then
        m.book.insertRestingOrder .bids order m.remainingQuantity m.book.nextArrivalSequence
      else m.book.insertRestingOrder .asks order m.remainingQuantity m.book.nextArrivalSequence
    { b with nextArrivalSequence := b.nextArrivalSequence + 1 }
  else m.book

/-- `submit` once every check has passed: from here on the book is mutated. -/
def submitPlanned (b : OrderBook) (order : NewLimitOrder) (matchPlan : MatchPlan) :
    Except Abort (SubmitResult × OrderBook) :=
  if order.id ∈ b.seenOrderIds then .error .assertion
  else
    let b : OrderBook := { b with seenOrderIds := insert order.id b.seenOrderIds }
    let matched :=
      if order.side = .buy then
        b.matchLevels .asks order fun askPrice incomingPrice => askPrice ≤ incomingPrice
      else b.matchLevels .bids order fun bidPrice incomingPrice => bidPrice ≥ incomingPrice
    match matched with
    | .error e => .error e
    | .ok m =>
      if m.remainingQuantity ≠ matchPlan.remainingQuantity ∨
          m.trades.length ≠ matchPlan.tradeCount then .error .assertion
      else if ¬ (restResidual order m).invariantsHold then .error .assertion
      else
        .ok (
          { status := .accepted
            rejectionReason := none
            executedQuantity := ⟨order.quantity.units - matchPlan.remainingQuantity.units⟩
            restingQuantity := matchPlan.remainingQuantity
            trades := m.trades }, restResidual order m)

/-- `OrderBook::submit`. -/
def submit (b : OrderBook) (order : NewLimitOrder) : Except Abort (SubmitResult × OrderBook) :=
  if order.id.value = 0 then .ok (.rejected .invalidOrderId, b)
  else if ¬ isValidSide order.side then .ok (.rejected .invalidSide, b)
  else if order.limitPrice.ticks = 0 then .ok (.rejected .invalidPrice, b)
  else if order.quantity.units = 0 then .ok (.rejected .invalidQuantity, b)
  else if order.id ∈ b.seenOrderIds then .ok (.rejected .duplicateOrderId, b)
  else
    let matchPlan :=
      if order.side = .buy then
        (previewMatch b.asks order.limitPrice order.quantity
          fun askPrice incomingPrice => askPrice ≤ incomingPrice).plan
      else
        (previewMatch b.bids order.limitPrice order.quantity
          fun bidPrice incomingPrice => bidPrice ≥ incomingPrice).plan
    if ¬ b.canIssueTradeIds matchPlan.tradeCount then .ok (.rejected .tradeIdExhausted, b)
    else if 0 < matchPlan.remainingQuantity.units ∧ b.nextArrivalSequence = 0 then
      .ok (.rejected .sequenceExhausted, b)
    else if 0 < matchPlan.remainingQuantity.units ∧
        (if order.side = .buy then
          (b.bids.find? order.limitPrice).any fun level =>
            wouldOverflow level.totalQuantity matchPlan.remainingQuantity
        else
          (b.asks.find? order.limitPrice).any fun level =>
            wouldOverflow level.totalQuantity matchPlan.remainingQuantity) then
      .ok (.rejected .quantityOverflow, b)
    else b.submitPlanned order matchPlan

/-- `OrderBook::cancel`. -/
def cancel (b : OrderBook) (id : OrderId) : Except Abort (CancelResult × OrderBook) :=
  match b.activeOrders.lookup id with
  | none => .ok (.notFound, b)
  | some locator =>
    let removed :=
      if locator.side = .buy then b.cancelRestingOrder .bids locator id
      else b.cancelRestingOrder .asks locator id
    match removed with
    | .error e => .error e
    | .ok (cancelledQuantity, b) =>
      let b : OrderBook := { b with activeOrders := b.activeOrders.erase id }
      if ¬ b.invariantsHold then .error .assertion
      else .ok (⟨.cancelled, cancelledQuantity⟩, b)

/-- The best level of a map as a quote. -/
def bestOf {s : BookSide} (levels : Levels s) : Option Quote :=
  levels.front?.map fun e => ⟨e.1, e.2.totalQuantity⟩

/-- `OrderBook::best_bid`. -/
def bestBid (b : OrderBook) : Option Quote := bestOf b.bids

/-- `OrderBook::best_ask`. -/
def bestAsk (b : OrderBook) : Option Quote := bestOf b.asks

/-- `OrderBook::find`. -/
def find (b : OrderBook) (id : OrderId) : Except Abort (Option OrderView) :=
  match b.activeOrders.lookup id with
  | none => .ok none
  | some locator => (b.deref locator.order).map fun order => some order.view

/-- `OrderBook::Impl::depth_from`. -/
def depthFrom {s : BookSide} (levels : Levels s) (maxLevels : ℕ) : List PriceLevelView :=
  (levels.entries.take maxLevels).map fun e => ⟨e.1, e.2.totalQuantity, e.2.orders.length⟩

/-- `OrderBook::depth`. -/
def depth (b : OrderBook) (side : Side) (maxLevels : ℕ) : List PriceLevelView :=
  if maxLevels = 0 ∨ ¬ isValidSide side then []
  else if side = .buy then depthFrom b.bids maxLevels
  else depthFrom b.asks maxLevels

/-- `OrderBook::active_order_count`. -/
def activeOrderCount (b : OrderBook) : ℕ := b.activeOrders.keys.card

/-- `apply_command`. -/
def applyCommand (b : OrderBook) : JournalCommand → Except Abort (BatchCommandResult × OrderBook)
  | .submitLimitOrder order => (b.submit order).map fun r => (.submit r.1, r.2)
  | .cancelOrder id => (b.cancel id).map fun r => (.cancel r.1, r.2)

/-- A sequence of calls on one book: the results in order, and the book that is left. -/
def run (b : OrderBook) (commands : List JournalCommand) :
    Except Abort (List BatchCommandResult × OrderBook) :=
  tryRunAll applyCommand b commands

end OrderBook

end MatchingEngine
