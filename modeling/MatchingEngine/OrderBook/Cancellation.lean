import MatchingEngine.OrderBook.History

/-!
# What a cancellation changes

`cancel` reaches an order through the locator in the index. Whatever has happened to the level in
the meantime, the locator denotes the node of the order, so that exactly this node leaves its list,
the total of its level goes down by what was left of it, and nothing else changes. The identifier
stays among those that were seen, so that nothing is ever found or accepted under it again.

## Main results

* `OrderBook.nodesOf_without`: all nodes but one stay, in their order.
* `OrderBook.run_cancel`: the effect of a cancellation on the book that any history leaves.
-/

namespace MatchingEngine

/-! ### Identifiers that were accepted -/

namespace PriorityBook

variable {p : PriorityBook}

/-- Why an order with an identifier that was accepted before is rejected. -/
def seenReason (order : NewLimitOrder) : RejectionReason :=
  if order.side ≠ .buy ∧ order.side ≠ .sell then .invalidSide
  else if order.limitPrice.ticks = 0 then .invalidPrice
  else if order.quantity.units = 0 then .invalidQuantity
  else .duplicateOrderId

theorem WellFormed.rejection_of_seen (hp : p.WellFormed) {order : NewLimitOrder}
    (hseen : order.id ∈ p.seenOrderIds) : p.rejection order = some (seenReason order) := by
  have hid : order.id.value ≠ 0 := by
    intro hzero
    refine hp.zero_notMem_seen ?_
    rwa [← hzero]
  rw [rejection, if_neg hid, seenReason]
  split_ifs <;> rfl

/-- Nothing is found under a retired identifier. -/
theorem Retired.find_eq_none {id : OrderId} (h : p.Retired id) (hp : p.WellFormed) :
    p.find id = none := by
  have hactive := hp.activeQuantity_eq_find id
  rw [h.active_eq_zero] at hactive
  cases hfind : p.find id with
  | none => rfl
  | some o =>
    obtain ⟨s, ho⟩ := p.mem_orders.mp (List.mem_of_find?_eq_some hfind)
    have hpos := hp.remaining_pos s o ho
    rw [hfind, Option.elim_some] at hactive
    omega

end PriorityBook

namespace OrderBook

section

variable {b : OrderBook}

theorem cancel_of_find_none (hb : b.Inv) {id : OrderId} (h : b.abs.find id = none) :
    b.cancel id = .ok (.notFound, b) := by
  have hlookup : b.activeOrders.lookup id = none := by
    refine Finmap.lookup_eq_none.mpr fun hmem => ?_
    obtain ⟨n, hn, rfl⟩ := hb.linked.indexes.isIndex.mem_iff.mp hmem
    cases (find_abs hb hn).symm.trans h
  rw [cancel, hlookup]

/-- Once an identifier is retired, it is not found and not accepted, whatever comes next. -/
theorem run_of_retired (hb : b.Inv) {id : OrderId} (h : b.abs.Retired id)
    (commands : List JournalCommand) :
    ∃ results b', b.run commands = .ok (results, b') ∧ b'.cancel id = .ok (.notFound, b') ∧
      ∀ order, order.id = id →
        b'.submit order = .ok (.rejected (PriorityBook.seenReason order), b') := by
  obtain ⟨b', hrun, hinv, habs⟩ := run_refines hb commands
  have hretired := (h.run hb.wellFormed commands).retired
  rw [← habs] at hretired
  refine ⟨_, b', hrun, cancel_of_find_none hinv (hretired.find_eq_none hinv.wellFormed),
    fun order horder => ?_⟩
  rw [submit_eq hinv, hinv.wellFormed.rejection_of_seen (horder ▸ hretired.mem_seen)]

end

/-! ### The book without an order -/

section Without

variable {b : OrderBook} {s : BookSide} {n : Node RestingOrder}
  {ns₁ ns₂ : List (Node RestingOrder)}

theorem levels_without : (b.without s (ns₁ ++ ns₂) n).levels s =
    putLevel (b.levels s) n.value.limitPrice
      (withoutNode (levelAt (b.levels s) n.value.limitPrice) (ns₁ ++ ns₂) n) := by
  cases s <;> rfl

theorem levels_without_other :
    (b.without s (ns₁ ++ ns₂) n).levels s.other = b.levels s.other := by
  cases s <;> rfl

/-- All nodes but one stay, in their order. -/
theorem nodesOf_without (hb : b.Linked)
    (horders : (levelAt (b.levels s) n.value.limitPrice).orders = ns₁ ++ n :: ns₂)
    (t : BookSide) : nodesOf ((b.without s (ns₁ ++ ns₂) n).levels t) =
      (nodesOf (b.levels t)).filter fun m => m.value.id ≠ n.value.id := by
  have hids : ((nodesOf (b.levels s) ++ nodesOf (b.levels s.other)).map
      fun m => m.value.id).Nodup :=
    (hb.indexes.perm (b.nodes_perm s)).isIndex.keys_nodup
  have hnodes : nodesOf (b.levels s) = (nodesBefore (b.levels s) n.value.limitPrice ++ ns₁) ++
      n :: (ns₂ ++ nodesAfter (b.levels s) n.value.limitPrice) := by
    rw [nodesOf_eq (b.levels s) n.value.limitPrice, horders]
    simp
  rw [List.map_append, List.nodup_append, hnodes] at hids
  obtain ⟨hown, -, hother⟩ := hids
  rcases s.eq_or_eq_other t with rfl | rfl
  · rw [levels_without, nodesOf_putLevel, hnodes,
      List.filter_key_ne (fun m : Node RestingOrder => m.value.id) hown]
    simp [withoutNode]
  · rw [levels_without_other, List.filter_eq_self.mpr]
    intro m hm
    exact decide_eq_true fun heq => hother n.value.id (List.mem_map_of_mem (by simp)) m.value.id
      (List.mem_map_of_mem hm) heq.symm

/-- The orders of a level are those of its price. -/
theorem Linked.orders_levelAt (hb : b.Linked) (s : BookSide) (price : Price) :
    (levelAt (b.levels s) price).orders =
      (nodesOf (b.levels s)).filter fun m => m.value.limitPrice = price := by
  rw [← bucket_eq]
  exact ((hb.bucketed s).filter_flat price).symm

theorem orders_without (hb : b.Inv)
    (horders : (levelAt (b.levels s) n.value.limitPrice).orders = ns₁ ++ n :: ns₂)
    (t : BookSide) (price : Price) :
    (levelAt ((b.without s (ns₁ ++ ns₂) n).levels t) price).orders =
      (levelAt (b.levels t) price).orders.filter fun m => m.value.id ≠ n.value.id := by
  rw [(without_inv hb horders).1.linked.orders_levelAt, nodesOf_without hb.linked horders,
    hb.linked.orders_levelAt, List.filter_filter, List.filter_filter]
  exact List.filter_congr fun m _ => Bool.and_comm _ _

/-- Other orders are found as before. -/
theorem find_without (hb : b.Inv)
    (horders : (levelAt (b.levels s) n.value.limitPrice).orders = ns₁ ++ n :: ns₂)
    {id : OrderId} (hid : id ≠ n.value.id) : (b.without s (ns₁ ++ ns₂) n).find id = b.find id := by
  obtain ⟨hinv, habs⟩ := without_inv hb horders
  have hat : n ∈ (levelAt (b.levels s) n.value.limitPrice).orders := by
    rw [horders]
    simp
  have hperm : b.abs.orders.Perm (n.value.view :: (b.without s (ns₁ ++ ns₂) n).abs.orders) := by
    rw [habs]
    exact hb.wellFormed.orders_perm_remove (o := n.value.view)
      (by rw [orders_abs]; exact List.mem_map_of_mem (mem_nodes_of_mem_levelAt hat))
  rw [find_eq hinv, find_eq hb]
  refine congrArg Except.ok (Option.ext fun o => ?_)
  rw [hinv.wellFormed.find_eq_some_iff, hb.wellFormed.find_eq_some_iff, hperm.mem_iff,
    List.mem_cons]
  constructor
  · rintro ⟨ho, rfl⟩
    exact ⟨Or.inr ho, rfl⟩
  · rintro ⟨rfl | ho, rfl⟩
    · exact absurd rfl hid
    · exact ⟨ho, rfl⟩

/-- The level of the order without the order. -/
theorem find?_without (hb : b.Linked)
    (horders : (levelAt (b.levels s) n.value.limitPrice).orders = ns₁ ++ n :: ns₂) :
    ((((b.without s (ns₁ ++ ns₂) n).levels s).find? n.value.limitPrice = none) ↔
        (levelAt (b.levels s) n.value.limitPrice).orders.length = 1) ∧
      ∀ level, ((b.without s (ns₁ ++ ns₂) n).levels s).find? n.value.limitPrice = some level →
        level.totalQuantity.toNat + n.value.remainingQuantity.toNat =
          (levelAt (b.levels s) n.value.limitPrice).totalQuantity.toNat ∧
        level.orders.length + 1 = (levelAt (b.levels s) n.value.limitPrice).orders.length := by
  obtain ⟨-, -, htotal⟩ := hb.level_of_mem horders
  have hle : n.value.remainingQuantity.units ≤
      (levelAt (b.levels s) n.value.limitPrice).totalQuantity.units := by
    rw [Quantity.units_le_iff]
    omega
  have hlength : (levelAt (b.levels s) n.value.limitPrice).orders.length =
      (ns₁ ++ ns₂).length + 1 := by
    rw [horders]
    simp only [List.length_append, List.length_cons]
    omega
  rw [levels_without, putLevel, OrderedMap.find?_put_self, hlength, withoutNode]
  by_cases hempty : (ns₁ ++ ns₂).isEmpty
  · rw [if_pos hempty]
    simp [List.isEmpty_iff.mp hempty]
  · rw [if_neg hempty]
    have hne : (ns₁ ++ ns₂).length ≠ 0 := fun h =>
      hempty (List.isEmpty_iff.mpr (List.eq_nil_of_length_eq_zero h))
    refine ⟨iff_of_false (Option.some_ne_none _) fun h => absurd (Nat.succ.inj h) hne, ?_⟩
    rintro level ⟨⟩
    rw [Quantity.toNat_sub hle]
    exact ⟨by omega, rfl⟩

end Without

/-! ### Histories -/

/-- On the book that any history leaves, cancelling an active order returns and reports what was
left of it. The order is not found any more; all other orders are found as before, and the nodes of
every level are those that were there, in their order, without the node of the order. The other
side and the other levels stay what they were; the total of the level goes down by what was left of
the order and its number of orders by one, and it goes away exactly if the order was alone in it.
The index forgets the order; the identifiers and the counters stay. Whatever comes next, cancelling
the order again finds nothing, and an order with its identifier is rejected, as a duplicate if its
side, its price and its quantity are valid. -/
theorem run_cancel (commands : List JournalCommand) :
    ∃ results b, OrderBook.fresh.run commands = .ok (results, b) ∧
      ∀ x o, b.find x = .ok (some o) →
        ∃ b', b.cancel x = .ok (⟨.cancelled, o.remainingQuantity⟩, b') ∧
          b'.find x = .ok none ∧ (∀ y, y ≠ x → b'.find y = b.find y) ∧
          (∀ s price, (levelAt (b'.levels s) price).orders =
            (levelAt (b.levels s) price).orders.filter fun n => n.value.id ≠ x) ∧
          b'.levels (BookSide.ofSide o.side).other = b.levels (BookSide.ofSide o.side).other ∧
          (∀ price, price ≠ o.limitPrice → (b'.levels (.ofSide o.side)).find? price =
            (b.levels (.ofSide o.side)).find? price) ∧
          (∃ level, (b.levels (.ofSide o.side)).find? o.limitPrice = some level ∧
            ((b'.levels (.ofSide o.side)).find? o.limitPrice = none ↔ level.orders.length = 1) ∧
            ∀ level', (b'.levels (.ofSide o.side)).find? o.limitPrice = some level' →
              level'.totalQuantity.toNat + o.remainingQuantity.toNat =
                level.totalQuantity.toNat ∧
              level'.orders.length + 1 = level.orders.length) ∧
          b'.activeOrders = b.activeOrders.erase x ∧ b'.seenOrderIds = b.seenOrderIds ∧
          b'.nextArrivalSequence = b.nextArrivalSequence ∧ b'.nextTradeId = b.nextTradeId ∧
          ∀ commands', ∃ results' b'', b'.run commands' = .ok (results', b'') ∧
            b''.cancel x = .ok (.notFound, b'') ∧
            ∀ order, order.id = x →
              b''.submit order = .ok (.rejected (PriorityBook.seenReason order), b'') := by
  obtain ⟨results, b, hrun, hb, -⟩ := run_fresh_log commands
  refine ⟨results, b, hrun, fun x o hfind => ?_⟩
  -- the order that is found is that of a node
  rw [find_eq hb, Except.ok.injEq, hb.wellFormed.find_eq_some_iff, orders_abs] at hfind
  obtain ⟨ho, rfl⟩ := hfind
  obtain ⟨n, hn, rfl⟩ := List.mem_map.mp ho
  obtain ⟨s, hs⟩ := b.mem_nodes.mp hn
  obtain ⟨ns₁, ns₂, horders⟩ := List.append_of_mem (hb.linked.mem_levelAt hs)
  have hside : BookSide.ofSide n.value.view.side = s := by
    have hside := hb.wellFormed.side_eq s n.value.view
      (by rw [queue_abs]; exact List.mem_map_of_mem hs)
    rw [hside]
    cases s <;> rfl
  rw [hside]
  obtain ⟨hinv, habs⟩ := without_inv hb horders
  obtain ⟨hlevel, -, -⟩ := hb.linked.level_of_mem horders
  have hretired : (b.without s (ns₁ ++ ns₂) n).abs.Retired n.value.id := by
    have hqueue : n.value.view ∈ b.abs.queue s := by
      rw [queue_abs]
      exact List.mem_map_of_mem hs
    rw [habs]
    exact ⟨hb.wellFormed.ids_seen s n.value.view hqueue, hb.wellFormed.activeQuantity_remove
      (o := n.value.view) (b.abs.mem_orders.mpr ⟨s, hqueue⟩)⟩
  refine ⟨b.without s (ns₁ ++ ns₂) n, cancel_eq hb hs horders, ?_,
    fun y hy => find_without hb horders hy, orders_without hb horders, levels_without_other,
    fun price hprice => ?_, ⟨_, hlevel, find?_without hb.linked horders⟩, rfl, ?_, ?_, ?_,
    run_of_retired hinv hretired⟩
  · rw [find_eq hinv]
    exact congrArg Except.ok (hretired.find_eq_none hinv.wellFormed)
  · rw [levels_without]
    exact OrderedMap.find?_put_of_ne _ hprice
  all_goals cases s <;> rfl

/-- A cancelled identifier is not always reported as a duplicate: the price of an order is checked
before its identifier. -/
theorem cancel_then_invalid_price :
    ∃ results b b', OrderBook.fresh.run [.submitLimitOrder ⟨⟨1⟩, .sell, ⟨10⟩, ⟨5⟩⟩] =
        .ok (results, b) ∧
      b.find ⟨1⟩ = .ok (some ⟨⟨1⟩, .sell, ⟨10⟩, ⟨5⟩, ⟨5⟩⟩) ∧
      b.cancel ⟨1⟩ = .ok (⟨.cancelled, ⟨5⟩⟩, b') ∧
      b'.submit ⟨⟨1⟩, .sell, ⟨0⟩, ⟨5⟩⟩ = .ok (.rejected .invalidPrice, b') ∧
      SubmitResult.rejected .invalidPrice ≠ .rejected .duplicateOrderId :=
  ⟨_, _, _, rfl, rfl, rfl, rfl, by decide⟩

end OrderBook

end MatchingEngine
