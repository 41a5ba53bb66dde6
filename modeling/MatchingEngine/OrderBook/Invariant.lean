import MatchingEngine.Data.Buckets
import MatchingEngine.Data.KeyedList
import MatchingEngine.OrderBook.Basic
import MatchingEngine.PriorityBook.WellFormed

/-!
# The invariant of the order book

The representation of a book is correct when its list nodes, the aggregates of its levels and its
index of locators describe the same orders. `OrderBook.Linked` states the part of this that only
concerns the storage; `OrderBook.abs` forgets the storage and keeps the two priority queues, and
what the orders themselves have to satisfy is `PriorityBook.WellFormed` of that.

Every operation of the source changes one level and the index. The effect on one map is described
by splitting its nodes at a price (`OrderBook.nodesOf_eq`) and the effect on the index by
`OrderBook.Indexes`, which relates it to the list of all nodes.

## Main definitions

* `OrderBook.abs`: the priority book that a book represents.
* `OrderBook.Indexes`, `OrderBook.LevelOk`, `OrderBook.Linked`, `OrderBook.Inv`.

## Main results

* `OrderBook.fresh_inv`: a fresh book satisfies the invariant.
* `OrderBook.nodesOf_putLevel`: the nodes of a map after one level was replaced.
-/

namespace MatchingEngine

/-- The locator that `insert_resting_order` stores for a node. -/
def Node.locator (n : Node RestingOrder) : OrderLocator :=
  ⟨n.value.side, n.value.limitPrice, n.address⟩

namespace OrderBook

/-! ### Reading and writing one side -/

section Levels

variable (b : OrderBook) (s : BookSide) (l : Levels s)

@[simp] theorem levels_setLevels : (b.setLevels s l).levels s = l := by
  cases s <;> rfl

@[simp] theorem activeOrders_setLevels : (b.setLevels s l).activeOrders = b.activeOrders := by
  cases s <;> rfl

@[simp] theorem nextArrivalSequence_setLevels :
    (b.setLevels s l).nextArrivalSequence = b.nextArrivalSequence := by
  cases s <;> rfl

@[simp] theorem nextTradeId_setLevels : (b.setLevels s l).nextTradeId = b.nextTradeId := by
  cases s <;> rfl

@[simp] theorem nextAddress_setLevels : (b.setLevels s l).nextAddress = b.nextAddress := by
  cases s <;> rfl

theorem nodes_perm : b.nodes.Perm (nodesOf (b.levels s) ++ nodesOf (b.levels s.other)) := by
  cases s
  · exact .refl _
  · exact List.perm_append_comm

theorem mem_nodes {n : Node RestingOrder} : n ∈ b.nodes ↔ ∃ s, n ∈ nodesOf (b.levels s) := by
  rw [nodes, List.mem_append]
  constructor
  · rintro (h | h)
    · exact ⟨.bids, h⟩
    · exact ⟨.asks, h⟩
  · rintro ⟨_ | _, h⟩
    · exact Or.inl h
    · exact Or.inr h

end Levels

/-! ### The nodes of a map around one price -/

section NodesOf

variable {s : BookSide} (l : Levels s) (price : Price)

/-- The level stored at a price, or an empty one. -/
def levelAt : PriceLevel := (l.find? price).getD .new

/-- The nodes of the levels that are matched before a price. -/
abbrev nodesBefore : List (Node RestingOrder) := l.flatBefore PriceLevel.orders price

/-- The nodes of the levels that are matched after a price. -/
abbrev nodesAfter : List (Node RestingOrder) := l.flatAfter PriceLevel.orders price

theorem bucket_eq : l.bucket PriceLevel.orders price = (levelAt l price).orders := by
  unfold levelAt OrderedMap.bucket
  cases l.find? price <;> rfl

theorem nodesOf_eq :
    nodesOf l = nodesBefore l price ++ (levelAt l price).orders ++ nodesAfter l price :=
  bucket_eq l price ▸ l.flat_eq PriceLevel.orders price

/-- Store a level at a price, or erase the price if no order is left there. -/
abbrev putLevel (level : PriceLevel) : Levels s := l.put PriceLevel.orders price level

variable {l} {price}

theorem nodesOf_putLevel (level : PriceLevel) : nodesOf (putLevel l price level) =
    nodesBefore l price ++ level.orders ++ nodesAfter l price :=
  OrderedMap.flat_put level

theorem mem_nodesOf {n : Node RestingOrder} :
    n ∈ nodesOf l ↔ ∃ e ∈ l.entries, n ∈ e.2.orders :=
  OrderedMap.mem_flat PriceLevel.orders

end NodesOf

/-! ### Abstraction -/

/-- The orders of one map in the order in which they are matched. -/
def viewsOf {s : BookSide} (l : Levels s) : List OrderView := (nodesOf l).map fun n => n.value.view

/-- The priority book that a book represents. -/
def abs (b : OrderBook) : PriorityBook where
  bids := viewsOf b.bids
  asks := viewsOf b.asks
  seenOrderIds := b.seenOrderIds
  nextArrivalSequence := b.nextArrivalSequence
  nextTradeId := b.nextTradeId

theorem queue_abs (b : OrderBook) (s : BookSide) : b.abs.queue s = viewsOf (b.levels s) := by
  cases s <;> rfl

theorem orders_abs (b : OrderBook) : b.abs.orders = b.nodes.map fun n => n.value.view := by
  rw [PriorityBook.orders, nodes, List.map_append]
  rfl

/-! ### The index -/

/-- The index maps the identifiers of the given nodes, and no others, to their locators, and no
two nodes share an address or an identifier. -/
structure Indexes (active : Finmap fun _ : OrderId => OrderLocator)
    (ns : List (Node RestingOrder)) : Prop where
  isIndex : IsIndex (fun n : Node RestingOrder => n.value.id) Node.locator active ns
  addresses_nodup : (ns.map fun n => n.address).Nodup

namespace Indexes

variable {active : Finmap fun _ : OrderId => OrderLocator} {ns ns' : List (Node RestingOrder)}
  {n : Node RestingOrder}

theorem perm (h : Indexes active ns) (hp : ns.Perm ns') : Indexes active ns' :=
  ⟨h.isIndex.perm hp, (hp.map _).nodup_iff.mp h.addresses_nodup⟩

theorem erase_head (h : Indexes active (n :: ns)) : Indexes (active.erase n.value.id) ns :=
  ⟨h.isIndex.erase_head, (List.nodup_cons.mp h.addresses_nodup).2⟩

theorem insert_head (h : Indexes active ns) (haddress : ∀ m ∈ ns, m.address ≠ n.address)
    (hid : ∀ m ∈ ns, m.value.id ≠ n.value.id) :
    Indexes (active.insert n.value.id n.locator) (n :: ns) :=
  ⟨h.isIndex.insert_head hid, List.nodup_cons.mpr ⟨by simpa using haddress, h.addresses_nodup⟩⟩

end Indexes

/-! ### The invariant -/

/-- The quantity resting in a list of nodes, without wrap-around. -/
def total (ns : List (Node RestingOrder)) : ℕ :=
  (ns.map fun n => n.value.remainingQuantity.toNat).sum

@[simp] theorem total_nil : total [] = 0 := rfl

@[simp] theorem total_cons (n : Node RestingOrder) (ns : List (Node RestingOrder)) :
    total (n :: ns) = n.value.remainingQuantity.toNat + total ns := by
  simp [total]

@[simp] theorem total_append (ns ns' : List (Node RestingOrder)) :
    total (ns ++ ns') = total ns + total ns' := by
  simp [total]

/-- A level stored at a price holds orders of that price in order of arrival, and knows their
exact total. -/
structure LevelOk (price : Price) (level : PriceLevel) : Prop where
  orders_ne_nil : level.orders ≠ []
  limitPrice_eq : ∀ n ∈ level.orders, n.value.limitPrice = price
  total_eq : level.totalQuantity.toNat = total level.orders
  arrivals : level.orders.Pairwise fun n n' =>
    n.value.arrivalSequence.toNat < n'.value.arrivalSequence.toNat

/-- The levels, the index and the allocation of list nodes fit together. -/
structure Linked (b : OrderBook) : Prop where
  level_ok : ∀ s, ∀ e ∈ (b.levels s).entries, LevelOk e.1 e.2
  indexes : Indexes b.activeOrders b.nodes
  address_lt : ∀ n ∈ b.nodes, n.address < b.nextAddress
  arrival_pos : ∀ n ∈ b.nodes, 0 < n.value.arrivalSequence.toNat
  arrival_lt : ∀ n ∈ b.nodes, b.nextArrivalSequence ≠ 0 →
    n.value.arrivalSequence.toNat < b.nextArrivalSequence.toNat

/-- The representation invariant: the storage fits together and the orders are those of a
well-formed priority book. -/
structure Inv (b : OrderBook) : Prop where
  linked : b.Linked
  wellFormed : b.abs.WellFormed

theorem fresh_linked : fresh.Linked where
  level_ok s := by cases s <;> simp [levels, fresh]
  indexes := ⟨.empty, .nil⟩
  address_lt := by simp [fresh, nodes, nodesOf]
  arrival_pos := by simp [fresh, nodes, nodesOf]
  arrival_lt := by simp [fresh, nodes, nodesOf]

theorem fresh_inv : fresh.Inv := ⟨fresh_linked, PriorityBook.fresh_wellFormed⟩

/-! ### Replacing one level -/

section Replace

variable {b b' : OrderBook} {s : BookSide} {price : Price} {level : PriceLevel}

/-- The nodes of a book that are not stored at the given price of the given side. -/
def context (b : OrderBook) (s : BookSide) (price : Price) : List (Node RestingOrder) :=
  nodesBefore (b.levels s) price ++ nodesAfter (b.levels s) price ++ nodesOf (b.levels s.other)

theorem perm_context (before orders after other : List (Node RestingOrder)) :
    (before ++ orders ++ after ++ other).Perm (orders ++ (before ++ after ++ other)) := by
  simpa only [List.append_assoc] using
    (List.perm_append_comm : (before ++ orders).Perm (orders ++ before)).append_right
      (after ++ other)

theorem nodes_perm_context (b : OrderBook) (s : BookSide) (price : Price) :
    b.nodes.Perm ((levelAt (b.levels s) price).orders ++ b.context s price) := by
  refine (b.nodes_perm s).trans ?_
  rw [nodesOf_eq (b.levels s) price]
  exact perm_context ..

theorem mem_nodes_of_mem_levelAt {n : Node RestingOrder}
    (hn : n ∈ (levelAt (b.levels s) price).orders) : n ∈ b.nodes :=
  (b.nodes_perm_context s price).mem_iff.mpr (List.mem_append_left _ hn)

theorem nodes_perm_of_putLevel (hown : b'.levels s = putLevel (b.levels s) price level)
    (hother : b'.levels s.other = b.levels s.other) :
    b'.nodes.Perm (level.orders ++ b.context s price) := by
  refine (b'.nodes_perm s).trans ?_
  rw [hown, hother, nodesOf_putLevel]
  exact perm_context ..

theorem viewsOf_eq {s : BookSide} (l : Levels s) (price : Price) : viewsOf l =
    (nodesBefore l price).map (fun n => n.value.view) ++
      (levelAt l price).orders.map (fun n => n.value.view) ++
      (nodesAfter l price).map fun n => n.value.view := by
  rw [viewsOf, nodesOf_eq l price, List.map_append, List.map_append]

theorem viewsOf_putLevel {s : BookSide} (l : Levels s) (price : Price) (level : PriceLevel) :
    viewsOf (putLevel l price level) =
      (nodesBefore l price).map (fun n => n.value.view) ++
        level.orders.map (fun n => n.value.view) ++
        (nodesAfter l price).map fun n => n.value.view := by
  rw [viewsOf, nodesOf_putLevel, List.map_append, List.map_append]

/-- Replacing one level keeps the storage linked if the new level is correct and the index follows
the change. -/
theorem Linked.of_putLevel (hb : b.Linked) (s : BookSide) (price : Price) (level : PriceLevel)
    (hown : b'.levels s = putLevel (b.levels s) price level)
    (hother : b'.levels s.other = b.levels s.other)
    (hlevel : level.orders ≠ [] → LevelOk price level)
    (hindex : Indexes b'.activeOrders (level.orders ++ b.context s price))
    (haddress : ∀ n ∈ level.orders, n.address < b'.nextAddress)
    (hnext : b.nextAddress ≤ b'.nextAddress)
    (hpos : ∀ n ∈ level.orders, 0 < n.value.arrivalSequence.toNat)
    (harrival : ∀ n ∈ level.orders, b'.nextArrivalSequence ≠ 0 →
      n.value.arrivalSequence.toNat < b'.nextArrivalSequence.toNat)
    (hsequence : b'.nextArrivalSequence ≠ 0 → b.nextArrivalSequence ≠ 0 ∧
      b.nextArrivalSequence.toNat ≤ b'.nextArrivalSequence.toNat) : b'.Linked := by
  have hperm := nodes_perm_of_putLevel hown hother
  have hmem {n : Node RestingOrder} (hn : n ∈ b'.nodes) : n ∈ level.orders ∨ n ∈ b.nodes := by
    rcases List.mem_append.mp (hperm.mem_iff.mp hn) with hn | hn
    · exact Or.inl hn
    · exact Or.inr ((b.nodes_perm_context s price).mem_iff.mpr (List.mem_append_right _ hn))
  refine ⟨fun t e he => ?_, hindex.perm hperm.symm, fun n hn => ?_, fun n hn => ?_,
    fun n hn hne => ?_⟩
  · rcases s.eq_or_eq_other t with rfl | rfl
    · rw [hown] at he
      rcases OrderedMap.mem_put he with he | ⟨rfl, hne⟩
      · exact hb.level_ok _ e he
      · exact hlevel hne
    · rw [hother] at he
      exact hb.level_ok _ e he
  · rcases hmem hn with hn | hn
    · exact haddress n hn
    · exact (hb.address_lt n hn).trans_le hnext
  · rcases hmem hn with hn | hn
    · exact hpos n hn
    · exact hb.arrival_pos n hn
  · rcases hmem hn with hn | hn
    · exact harrival n hn hne
    · obtain ⟨hne', hle⟩ := hsequence hne
      exact (hb.arrival_lt n hn hne').trans_le hle

/-- Replacing one level by orders that were there before, possibly partly filled. -/
theorem Linked.of_putLevel_same (hb : b.Linked) (s : BookSide) (price : Price)
    (level : PriceLevel)
    (hown : b'.levels s = putLevel (b.levels s) price level)
    (hother : b'.levels s.other = b.levels s.other)
    (haddress : b'.nextAddress = b.nextAddress)
    (hsequence : b'.nextArrivalSequence = b.nextArrivalSequence)
    (hlevel : level.orders ≠ [] → LevelOk price level)
    (hindex : Indexes b'.activeOrders (level.orders ++ b.context s price))
    (hmem : ∀ n ∈ level.orders, ∃ n' ∈ b.nodes, n.address = n'.address ∧
      n.value.arrivalSequence = n'.value.arrivalSequence) : b'.Linked := by
  refine hb.of_putLevel s price level hown hother hlevel hindex (fun n hn => ?_) haddress.ge
    (fun n hn => ?_) (fun n hn hne => ?_) (hsequence ▸ fun hne => ⟨hne, le_rfl⟩)
  · obtain ⟨n', hn', ha, -⟩ := hmem n hn
    rw [ha, haddress]
    exact hb.address_lt n' hn'
  · obtain ⟨n', hn', -, hs⟩ := hmem n hn
    rw [hs]
    exact hb.arrival_pos n' hn'
  · obtain ⟨n', hn', -, hs⟩ := hmem n hn
    rw [hs, hsequence]
    exact hb.arrival_lt n' hn' (hsequence ▸ hne)

end Replace

/-! ### Levels of a linked book -/

namespace Linked

variable {b : OrderBook} (hb : b.Linked) {s : BookSide} {price : Price}
include hb

theorem levelAt_cases (s : BookSide) (price : Price) :
    (levelAt (b.levels s) price = .new ∧ (b.levels s).find? price = none) ∨
    (b.levels s).find? price = some (levelAt (b.levels s) price) ∧
      LevelOk price (levelAt (b.levels s) price) := by
  unfold levelAt
  cases hf : (b.levels s).find? price with
  | none => exact Or.inl ⟨rfl, rfl⟩
  | some level => exact Or.inr ⟨rfl, hb.level_ok s _ (OrderedMap.mem_of_find?_some hf)⟩

theorem bucketed (s : BookSide) :
    (b.levels s).Bucketed PriceLevel.orders fun n => n.value.limitPrice :=
  ⟨fun e he => (hb.level_ok s e he).orders_ne_nil, fun e he => (hb.level_ok s e he).limitPrice_eq⟩

theorem bucketed_views (s : BookSide) : (b.levels s).Bucketed
    (fun level => level.orders.map fun n => n.value.view) fun o => o.limitPrice := by
  refine ⟨fun e he hnil => ?_, fun e he => List.forall_mem_map.mpr ?_⟩
  · exact (hb.level_ok s e he).orders_ne_nil (List.map_eq_nil_iff.mp hnil)
  · exact (hb.level_ok s e he).limitPrice_eq

theorem limitPrice_of_mem_levelAt {n : Node RestingOrder}
    (hn : n ∈ (levelAt (b.levels s) price).orders) : n.value.limitPrice = price :=
  (hb.bucketed s).key_eq_of_mem_bucket (bucket_eq (b.levels s) price ▸ hn)

theorem total_levelAt : (levelAt (b.levels s) price).totalQuantity.toNat =
    total (levelAt (b.levels s) price).orders := by
  rcases hb.levelAt_cases s price with ⟨h, -⟩ | ⟨-, h⟩
  · rw [h]
    rfl
  · exact h.total_eq

theorem arrivals_levelAt : (levelAt (b.levels s) price).orders.Pairwise fun n n' =>
    n.value.arrivalSequence.toNat < n'.value.arrivalSequence.toNat := by
  rcases hb.levelAt_cases s price with ⟨h, -⟩ | ⟨-, h⟩
  · rw [h]
    exact .nil
  · exact h.arrivals

theorem mem_levelAt {n : Node RestingOrder} (hn : n ∈ nodesOf (b.levels s)) :
    n ∈ (levelAt (b.levels s) n.value.limitPrice).orders :=
  bucket_eq (b.levels s) n.value.limitPrice ▸ (hb.bucketed s).mem_bucket hn

/-- The aggregate of a level is the total of the priority book at its price. -/
theorem levelTotal_abs : b.abs.levelTotal s price =
    (levelAt (b.levels s) price).totalQuantity.toNat := by
  have hfilter : (viewsOf (b.levels s)).filter (fun o => o.limitPrice = price) =
      (levelAt (b.levels s) price).orders.map fun n => n.value.view := by
    rw [viewsOf, List.filter_map, ← bucket_eq, ← (hb.bucketed s).filter_flat price]
    rfl
  rw [PriorityBook.levelTotal, queue_abs, hfilter, List.map_map, hb.total_levelAt]
  rfl

end Linked

end OrderBook

end MatchingEngine
