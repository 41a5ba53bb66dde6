import MatchingEngine.OrderBook.Invariant

/-!
# The representation check

`invariants_hold` runs at the end of every mutating call. It is a loop over the levels and orders
of both sides with a running aggregate, the previous arrival sequence, a count and a set of
identifiers. `OrderBook.RepInvariant` is what it decides, with exact sums, and the invariant of the
book implies it.

## Main definitions

* `OrderBook.OrderOk`, `OrderBook.LevelHolds`, `OrderBook.RepInvariant`.

## Main results

* `OrderBook.checkOrders_iff`, `OrderBook.checkLevels_iff`: what the two loops accept.
* `OrderBook.invariantsHold_iff`: the check decides the representation invariant.
* `OrderBook.Inv.repInvariant`: the invariant implies it.
-/

namespace MatchingEngine

namespace OrderBook

/-- An order that rests at the given price of the given side, and is indexed there. -/
structure OrderOk (b : OrderBook) (s : BookSide) (price : Price) (n : Node RestingOrder) :
    Prop where
  side_eq : n.value.side = s.side
  limitPrice_eq : n.value.limitPrice = price
  remaining_pos : 0 < n.value.remainingQuantity.toNat
  remaining_le : n.value.remainingQuantity.toNat ≤ n.value.originalQuantity.toNat
  arrival_pos : 0 < n.value.arrivalSequence.toNat
  lookup_eq : b.activeOrders.lookup n.value.id = some ⟨s.side, price, n.address⟩
  seen : n.value.id ∈ b.seenOrderIds

/-- A level that is not empty, holds its orders in order of arrival and aggregates them exactly. -/
structure LevelHolds (b : OrderBook) (s : BookSide) (price : Price) (level : PriceLevel) :
    Prop where
  orders_ne_nil : level.orders ≠ []
  orders_ok : ∀ n ∈ level.orders, b.OrderOk s price n
  arrivals : level.orders.Pairwise fun n n' =>
    n.value.arrivalSequence.toNat < n'.value.arrivalSequence.toNat
  total_eq : level.totalQuantity.toNat = total level.orders

/-- The whole representation invariant of a book. -/
structure RepInvariant (b : OrderBook) : Prop where
  best_lt : ∀ bid ∈ b.bids.front?, ∀ ask ∈ b.asks.front?, bid.1 < ask.1
  bids_descending : b.bids.entries.Pairwise fun e e' => e.1 > e'.1
  asks_ascending : b.asks.entries.Pairwise fun e e' => e.1 < e'.1
  levels_hold : ∀ s, ∀ e ∈ (b.levels s).entries, b.LevelHolds s e.1 e.2
  ids_nodup : (b.nodes.map fun n => n.value.id).Nodup
  active_resting : ∀ id ∈ b.activeOrders, ∃ n ∈ b.nodes, n.value.id = id

/-! ### The inner loop -/

section CheckOrders

variable {b : OrderBook} {s : BookSide} {price : Price}

theorem wouldOverflow_iff {current addition : Quantity} :
    wouldOverflow current addition = true ↔ 2 ^ 64 ≤ current.toNat + addition.toNat := by
  have hle : addition.units ≤ maxWord := by
    rw [UInt64.le_iff_toNat_le]
    exact Nat.le_of_lt_succ addition.units.toNat_lt
  rw [wouldOverflow, decide_eq_true_iff, UInt64.lt_iff_toNat_lt, UInt64.toNat_sub_of_le _ _ hle]
  change 2 ^ 64 - 1 - addition.toNat < current.toNat ↔ _
  have := addition.toNat_lt
  omega

theorem toNat_add_of_lt {p q : Quantity} (h : p.toNat + q.toNat < 2 ^ 64) :
    (Quantity.mk (p.units + q.units)).toNat = p.toNat + q.toNat :=
  (UInt64.toNat_add ..).trans (Nat.mod_eq_of_lt h)

/-- One iteration of the inner loop. -/
theorem checkOrders_cons_iff {n : Node RestingOrder} {ns : List (Node RestingOrder)}
    {aggregate : Quantity} {previous : UInt64} {st : CheckState} {r : Quantity × CheckState} :
    checkOrders b s.side price (n :: ns) aggregate previous st = some r ↔
      (b.OrderOk s price n ∧ previous.toNat < n.value.arrivalSequence.toNat ∧
        aggregate.toNat + n.value.remainingQuantity.toNat < 2 ^ 64 ∧
        n.value.id ∉ st.ordersInBook) ∧
      checkOrders b s.side price ns ⟨aggregate.units + n.value.remainingQuantity.units⟩
        n.value.arrivalSequence ⟨st.countedOrders + 1, insert n.value.id st.ordersInBook⟩ =
          some r := by
  rw [checkOrders]
  constructor
  · intro h
    split at h
    · cases h
    · next hok =>
      simp only [not_or, not_not, not_and, Quantity.units_eq_zero_iff, Quantity.units_lt_iff,
        wouldOverflow_iff] at hok
      obtain ⟨h1, h2, h3, -, h5, h6, h7, h8⟩ := hok
      have harrival : 0 < n.value.arrivalSequence.toNat :=
        Nat.pos_of_ne_zero fun h0 => h6 (UInt64.toNat_inj.mp h0)
      cases hl : b.activeOrders.lookup n.value.id with
      | none => rw [hl] at h; cases h
      | some locator =>
        rw [hl] at h
        dsimp only at h
        split at h
        · cases h
        · next hok' =>
          simp only [not_or, not_not] at hok'
          obtain ⟨g1, g2, g3, g4, g5⟩ := hok'
          refine ⟨⟨⟨h1, h2, by omega, by omega, harrival, ?_, g4⟩, ?_, by omega, g5⟩, ?_⟩
          · rw [hl, ← g1, ← g2, ← g3]
          · by_cases hp : previous = 0
            · rwa [hp]
            · exact UInt64.lt_iff_toNat_lt.mp (UInt64.not_le.mp (h7 hp))
          · exact h
  · rintro ⟨⟨hok, hprevious, htotal, hnew⟩, h⟩
    have hpos := hok.remaining_pos
    have hle := hok.remaining_le
    have harrival : n.value.arrivalSequence ≠ 0 := fun h0 => by
      have := hok.arrival_pos
      rw [h0] at this
      exact absurd this (by decide)
    rw [if_neg, hok.lookup_eq]
    · dsimp only
      rw [if_neg]
      · exact h
      · simpa using ⟨hok.seen, hnew⟩
    · simp only [not_or, not_not, not_and, Quantity.units_eq_zero_iff, Quantity.units_lt_iff,
        wouldOverflow_iff]
      exact ⟨hok.side_eq, hok.limitPrice_eq, by omega, by omega, by omega, harrival,
        fun _ => UInt64.not_le.mpr (UInt64.lt_iff_toNat_lt.mpr hprevious), by omega⟩

/-- What the inner loop accepts, and what it accumulates. -/
theorem checkOrders_iff {ns : List (Node RestingOrder)} {aggregate : Quantity} {previous : UInt64}
    {st : CheckState} {aggregate' : Quantity} {st' : CheckState} :
    checkOrders b s.side price ns aggregate previous st = some (aggregate', st') ↔
      (∀ n ∈ ns, b.OrderOk s price n) ∧
      (∀ n ∈ ns, previous.toNat < n.value.arrivalSequence.toNat) ∧
      ns.Pairwise (fun n n' => n.value.arrivalSequence.toNat < n'.value.arrivalSequence.toNat) ∧
      aggregate'.toNat = aggregate.toNat + total ns ∧
      (ns.map fun n => n.value.id).Nodup ∧ (∀ n ∈ ns, n.value.id ∉ st.ordersInBook) ∧
      st' = ⟨st.countedOrders + ns.length,
        st.ordersInBook ∪ (ns.map fun n => n.value.id).toFinset⟩ := by
  induction ns generalizing aggregate previous st with
  | nil => simp [checkOrders, Quantity.toNat_inj, eq_comm]
  | cons n ns ih =>
    rw [checkOrders_cons_iff, ih]
    have hunion : insert n.value.id st.ordersInBook ∪ (ns.map fun n => n.value.id).toFinset =
        st.ordersInBook ∪ ((n :: ns).map fun n => n.value.id).toFinset := by
      rw [List.map_cons, List.toFinset_cons, Finset.insert_union, Finset.union_insert]
    dsimp only
    rw [hunion, List.length_cons, Nat.add_assoc, Nat.add_comm 1]
    simp only [List.forall_mem_cons, List.pairwise_cons, total_cons, List.map_cons,
      List.nodup_cons, List.mem_map, not_exists, not_and, Finset.mem_insert, not_or]
    constructor
    · rintro ⟨⟨hok, hprevious, hlt, hnew⟩, hoks, hlater, hpw, htotal, hnodup, hnews, hst⟩
      rw [toNat_add_of_lt hlt] at htotal
      exact ⟨⟨hok, hoks⟩, ⟨hprevious, fun m hm => hprevious.trans (hlater m hm)⟩, ⟨hlater, hpw⟩,
        by omega, ⟨fun m hm => (hnews m hm).1, hnodup⟩, ⟨hnew, fun m hm => (hnews m hm).2⟩, hst⟩
    · rintro ⟨⟨hok, hoks⟩, ⟨hprevious, -⟩, ⟨hlater, hpw⟩, htotal, ⟨hhead, hnodup⟩, ⟨hnew, hnews⟩,
        hst⟩
      have hlt : aggregate.toNat + n.value.remainingQuantity.toNat < 2 ^ 64 := by
        have := aggregate'.toNat_lt
        omega
      refine ⟨⟨hok, hprevious, hlt, hnew⟩, hoks, hlater, hpw, ?_, hnodup,
        fun m hm => ⟨hhead m hm, hnews m hm⟩, hst⟩
      rw [toNat_add_of_lt hlt]
      omega

end CheckOrders

/-! ### The outer loop -/

section CheckLevels

variable {b : OrderBook} {s : BookSide}

/-- The comparison with the previous price repeats the order of the map. -/
theorem previous_ok {previous : Option Price} {price : Price}
    (h : ∀ p ∈ previous, s.lt p price) : previous.any (fun previous =>
      (s.side = .buy ∧ previous ≤ price) ∨ (s.side = .sell ∧ previous ≥ price)) = false := by
  cases previous with
  | none => rfl
  | some p =>
    have hlt := h p rfl
    cases s
    · simpa [BookSide.side, Side.buy, Side.sell] using show price < p from hlt
    · simpa [BookSide.side, Side.buy, Side.sell] using show p < price from hlt

/-- One iteration of the outer loop. -/
theorem checkLevels_cons_iff {price : Price} {level : PriceLevel} {es : List (Price × PriceLevel)}
    {previous : Option Price} {st st' : CheckState} (h : ∀ p ∈ previous, s.lt p price) :
    checkLevels b s.side ((price, level) :: es) previous st = some st' ↔
      level.orders ≠ [] ∧ ∃ st₁,
        checkOrders b s.side price level.orders ⟨0⟩ 0 st = some (level.totalQuantity, st₁) ∧
        checkLevels b s.side es (some price) st₁ = some st' := by
  rw [checkLevels, previous_ok h]
  cases hns : level.orders with
  | nil => simp
  | cons n ns =>
    rw [if_neg (by simp)]
    cases hcheck : checkOrders b s.side price (n :: ns) ⟨0⟩ 0 st with
    | none => simp
    | some r =>
      obtain ⟨aggregate, st₁⟩ := r
      by_cases hagg : aggregate = level.totalQuantity
      · simp [hagg]
      · simp [hagg]

/-- What the outer loop accepts, and what it accumulates. -/
theorem checkLevels_iff {es : List (Price × PriceLevel)} (previous : Option Price)
    (st st' : CheckState)
    (hsorted : es.Pairwise fun e e' => s.lt e.1 e'.1)
    (hprevious : ∀ price ∈ previous, ∀ e ∈ es, s.lt price e.1) :
    checkLevels b s.side es previous st = some st' ↔
      (∀ e ∈ es, b.LevelHolds s e.1 e.2) ∧
      ((es.flatMap fun e => e.2.orders).map fun n => n.value.id).Nodup ∧
      (∀ n ∈ es.flatMap fun e => e.2.orders, n.value.id ∉ st.ordersInBook) ∧
      st' = ⟨st.countedOrders + (es.flatMap fun e => e.2.orders).length, st.ordersInBook ∪
        ((es.flatMap fun e => e.2.orders).map fun n => n.value.id).toFinset⟩ := by
  induction es generalizing previous st with
  | nil => simp [checkLevels, eq_comm]
  | cons e es ih =>
    obtain ⟨price, level⟩ := e
    obtain ⟨hhead, htail⟩ := List.pairwise_cons.mp hsorted
    have hnext : ∀ p ∈ some price, ∀ e ∈ es, s.lt p e.1 := by
      rintro p hp e he
      rw [← Option.some_inj.mp hp]
      exact hhead e he
    rw [checkLevels_cons_iff fun p hp => hprevious p hp _ List.mem_cons_self]
    simp only [ih _ _ htail hnext, checkOrders_iff, List.flatMap_cons, List.map_append,
      List.nodup_append, List.length_append, List.toFinset_append, List.forall_mem_cons]
    constructor
    · rintro ⟨hne, st₁, ⟨hoks, -, hpw, htotal, hnodup, hnew, rfl⟩, hes, hnodup', hnew', rfl⟩
      simp only [Finset.mem_union, not_or, List.mem_toFinset] at hnew'
      refine ⟨⟨⟨hne, hoks, hpw, by simpa using htotal⟩, hes⟩, ⟨hnodup, hnodup', ?_⟩, ?_, ?_⟩
      · rintro _ hid _ hid' rfl
        obtain ⟨n, hn, rfl⟩ := List.mem_map.mp hid'
        exact (hnew' n hn).2 hid
      · intro n hn
        rcases List.mem_append.mp hn with hn | hn
        · exact hnew n hn
        · exact (hnew' n hn).1
      · rw [Nat.add_assoc, Finset.union_assoc]
    · rintro ⟨⟨hlevel, hes⟩, ⟨hnodup, hnodup', hdisjoint⟩, hnew, rfl⟩
      refine ⟨hlevel.orders_ne_nil, _, ⟨hlevel.orders_ok, ?_, hlevel.arrivals, ?_, hnodup, ?_, rfl⟩,
        hes, hnodup', ?_, ?_⟩
      · exact fun n hn => (hlevel.orders_ok n hn).arrival_pos
      · simpa using hlevel.total_eq
      · exact fun n hn => hnew n (List.mem_append_left _ hn)
      · intro n hn
        rw [Finset.mem_union, not_or, List.mem_toFinset]
        exact ⟨hnew n (List.mem_append_right _ hn), fun hid =>
          hdisjoint _ hid _ (List.mem_map_of_mem hn) rfl⟩
      · rw [Nat.add_assoc, Finset.union_assoc]

end CheckLevels

/-! ### The whole check -/

/-- The order of the maps, and the comparison of the best prices. -/
theorem invariantsHold_eq (b : OrderBook) : b.invariantsHold = true ↔
    (∀ bid ∈ b.bids.front?, ∀ ask ∈ b.asks.front?, bid.1 < ask.1) ∧
      invariantsHold.checkSides b = true := by
  unfold invariantsHold
  cases b.bids.front? with
  | none => simp
  | some bid =>
    cases b.asks.front? with
    | none => simp
    | some ask =>
      by_cases h : bid.1 ≥ ask.1
      · simp [h]
      · simp [h, not_le.mp h]

theorem checkSides_eq (b : OrderBook) : invariantsHold.checkSides b = true ↔
    ∃ st st', checkLevels b .buy b.bids.entries none ⟨0, ∅⟩ = some st ∧
      checkLevels b .sell b.asks.entries none st = some st' ∧
      st'.countedOrders = b.activeOrders.keys.card := by
  unfold invariantsHold.checkSides
  cases checkLevels b .buy b.bids.entries none ⟨0, ∅⟩ with
  | none => simp
  | some st =>
    dsimp only
    cases h : checkLevels b .sell b.asks.entries none st with
    | none => simp [h]
    | some st' => simp [h]

theorem checkSides_iff (b : OrderBook) : invariantsHold.checkSides b = true ↔
    (∀ s, ∀ e ∈ (b.levels s).entries, b.LevelHolds s e.1 e.2) ∧
      (b.nodes.map fun n => n.value.id).Nodup ∧ b.nodes.length = b.activeOrders.keys.card := by
  have hbids (st : CheckState) := checkLevels_iff (b := b) (s := .bids) none ⟨0, ∅⟩ st b.bids.sorted
    (by simp)
  have hasks (st st' : CheckState) := checkLevels_iff (b := b) (s := .asks) none st st'
    b.asks.sorted (by simp)
  rw [checkSides_eq, nodes, List.map_append, List.nodup_append, List.length_append]
  constructor
  · rintro ⟨st, st', h, h', hcount⟩
    obtain ⟨hlevels, hnodup, -, rfl⟩ := (hbids st).mp h
    obtain ⟨hlevels', hnodup', hnew, rfl⟩ := (hasks _ st').mp h'
    refine ⟨fun s => ?_, ⟨hnodup, hnodup', ?_⟩, by simpa only [Nat.zero_add, nodesOf] using hcount⟩
    · cases s
      · exact hlevels
      · exact hlevels'
    · rintro _ hid _ hid' rfl
      obtain ⟨n, hn, rfl⟩ := List.mem_map.mp hid'
      have := hnew n hn
      rw [Finset.empty_union, List.mem_toFinset] at this
      exact this hid
  · rintro ⟨hlevels, ⟨hnodup, hnodup', hdisjoint⟩, hcount⟩
    refine ⟨_, _, (hbids _).mpr ⟨hlevels .bids, hnodup, by simp, rfl⟩,
      (hasks _ _).mpr ⟨hlevels .asks, hnodup', fun n hn => ?_, rfl⟩,
      by simpa only [Nat.zero_add, nodesOf] using hcount⟩
    rw [Finset.empty_union, List.mem_toFinset]
    exact fun hid => hdisjoint _ hid _ (List.mem_map_of_mem hn) rfl

/-- Every resting order is indexed, so counting decides whether anything else is. -/
theorem card_eq_iff {b : OrderBook} (hnodup : (b.nodes.map fun n => n.value.id).Nodup)
    (hmem : ∀ n ∈ b.nodes, n.value.id ∈ b.activeOrders) :
    b.nodes.length = b.activeOrders.keys.card ↔
      ∀ id ∈ b.activeOrders, ∃ n ∈ b.nodes, n.value.id = id := by
  have hsub : (b.nodes.map fun n => n.value.id).toFinset ⊆ b.activeOrders.keys := by
    intro id hid
    obtain ⟨n, hn, rfl⟩ := List.mem_map.mp (List.mem_toFinset.mp hid)
    exact Finmap.mem_keys.mpr (hmem n hn)
  have hcard : (b.nodes.map fun n => n.value.id).toFinset.card = b.nodes.length := by
    rw [List.toFinset_card_of_nodup hnodup, List.length_map]
  rw [← hcard]
  constructor
  · intro h id hid
    have heq := Finset.eq_of_subset_of_card_le hsub h.ge
    have := heq ▸ Finmap.mem_keys.mpr hid
    exact List.mem_map.mp (List.mem_toFinset.mp this)
  · intro h
    refine congrArg Finset.card (Finset.Subset.antisymm hsub fun id hid => ?_)
    exact List.mem_toFinset.mpr (List.mem_map.mpr (h id (Finmap.mem_keys.mp hid)))

/-- `invariants_hold` decides the representation invariant. -/
theorem invariantsHold_iff (b : OrderBook) : b.invariantsHold = true ↔ b.RepInvariant := by
  have hactive (h : ∀ s, ∀ e ∈ (b.levels s).entries, b.LevelHolds s e.1 e.2) :
      ∀ n ∈ b.nodes, n.value.id ∈ b.activeOrders := by
    intro n hn
    obtain ⟨s, hn⟩ := b.mem_nodes.mp hn
    obtain ⟨e, he, hn⟩ := mem_nodesOf.mp hn
    rw [← Finmap.lookup_isSome, ((h s e he).orders_ok n hn).lookup_eq]
    rfl
  rw [invariantsHold_eq, checkSides_iff]
  constructor
  · rintro ⟨hbest, hlevels, hnodup, hcount⟩
    exact ⟨hbest, b.bids.sorted, b.asks.sorted, hlevels, hnodup,
      (card_eq_iff hnodup (hactive hlevels)).mp hcount⟩
  · intro h
    exact ⟨h.best_lt, h.levels_hold, h.ids_nodup,
      (card_eq_iff h.ids_nodup (hactive h.levels_hold)).mpr h.active_resting⟩

/-! ### The invariant of the book implies the check -/

theorem Inv.levelHolds {b : OrderBook} (hb : b.Inv) (s : BookSide) {e : Price × PriceLevel}
    (he : e ∈ (b.levels s).entries) : b.LevelHolds s e.1 e.2 := by
  have hok := hb.linked.level_ok s e he
  refine ⟨hok.orders_ne_nil, fun n hn => ?_, hok.arrivals, hok.total_eq⟩
  have hnode : n ∈ nodesOf (b.levels s) := mem_nodesOf.mpr ⟨e, he, hn⟩
  have hnode' : n ∈ b.nodes := b.mem_nodes.mpr ⟨s, hnode⟩
  have hview : n.value.view ∈ b.abs.queue s := by
    rw [queue_abs]
    exact List.mem_map_of_mem hnode
  have hside : n.value.side = s.side := hb.wellFormed.side_eq s _ hview
  have hprice := hok.limitPrice_eq n hn
  refine ⟨hside, hprice, hb.wellFormed.remaining_pos s _ hview,
    hb.wellFormed.remaining_le s _ hview, hb.linked.arrival_pos n hnode', ?_,
    hb.wellFormed.ids_seen s _ hview⟩
  rw [hb.linked.indexes.isIndex.lookup_iff]
  exact ⟨n, hnode', rfl, by rw [Node.locator, hside, hprice]⟩

theorem Inv.best_lt {b : OrderBook} (hb : b.Inv) :
    ∀ bid ∈ b.bids.front?, ∀ ask ∈ b.asks.front?, bid.1 < ask.1 := by
  intro bid hbid ask hask
  have hmem {s : BookSide} {e : Price × PriceLevel} (he : e ∈ (b.levels s).front?) :
      ∃ o ∈ b.abs.queue s, o.limitPrice = e.1 := by
    have he' : e ∈ (b.levels s).entries := List.mem_of_mem_head? he
    have hok := hb.linked.level_ok s e he'
    obtain ⟨n, ns, hns⟩ := List.exists_cons_of_ne_nil hok.orders_ne_nil
    have hn : n ∈ e.2.orders := hns ▸ List.mem_cons_self
    refine ⟨n.value.view, ?_, hok.limitPrice_eq n hn⟩
    rw [queue_abs]
    exact List.mem_map_of_mem (mem_nodesOf.mpr ⟨e, he', hn⟩)
  obtain ⟨o, ho, hprice⟩ := hmem (s := .bids) hbid
  obtain ⟨o', ho', hprice'⟩ := hmem (s := .asks) hask
  rw [← hprice, ← hprice']
  exact hb.wellFormed.uncrossed .bids o ho o' ho'

/-- The invariant of the book implies the representation invariant. -/
theorem Inv.repInvariant {b : OrderBook} (hb : b.Inv) : b.RepInvariant where
  best_lt := hb.best_lt
  bids_descending := b.bids.sorted
  asks_ascending := b.asks.sorted
  levels_hold s _ he := hb.levelHolds s he
  ids_nodup := hb.linked.indexes.isIndex.keys_nodup
  active_resting _ hid := hb.linked.indexes.isIndex.mem_iff.mp hid

theorem Inv.invariantsHold {b : OrderBook} (hb : b.Inv) : b.invariantsHold = true :=
  b.invariantsHold_iff.mpr hb.repInvariant

end OrderBook

end MatchingEngine
