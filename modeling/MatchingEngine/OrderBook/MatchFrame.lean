import MatchingEngine.OrderBook.Invariant

/-!
# What matching leaves alone

An iteration of `match` changes the first node of the first level and the index. So the nodes that
are left on its side are the last ones of those that were there, if one forgets the remaining
quantities, and everything else is as it was. This holds of any book.

## Main definitions

* `Node.blank`: a node without its remaining quantity.
* `OrderBook.MatchFrame`: what matching one side leaves alone.

## Main results

* `OrderBook.matchLevels_frame`: `match` leaves alone what a frame says.
* `OrderBook.MatchFrame.linked`: the storage stays linked if the levels and the index are correct.
-/

namespace MatchingEngine

/-- A node without the quantity that is left of its order. -/
def Node.blank (n : Node RestingOrder) : Node RestingOrder :=
  { n with value := { n.value with remainingQuantity := ⟨0⟩ } }

namespace OrderBook

/-- What matching leaves alone: the other side, the identifiers, the arrival sequence and the
addresses, and on its own side the last nodes except for their remaining quantities. -/
structure MatchFrame (s : BookSide) (b b' : OrderBook) : Prop where
  levels_eq : ∀ t, t ≠ s → b'.levels t = b.levels t
  seenOrderIds_eq : b'.seenOrderIds = b.seenOrderIds
  nextArrivalSequence_eq : b'.nextArrivalSequence = b.nextArrivalSequence
  nextAddress_eq : b'.nextAddress = b.nextAddress
  nodes_suffix :
    (nodesOf (b'.levels s)).map Node.blank <:+ (nodesOf (b.levels s)).map Node.blank

theorem MatchFrame.refl (s : BookSide) (b : OrderBook) : MatchFrame s b b :=
  ⟨fun _ _ => rfl, rfl, rfl, rfl, List.suffix_rfl⟩

theorem MatchFrame.trans {s : BookSide} {b b' b'' : OrderBook} (h : MatchFrame s b b')
    (h' : MatchFrame s b' b'') : MatchFrame s b b'' where
  levels_eq t ht := (h'.levels_eq t ht).trans (h.levels_eq t ht)
  seenOrderIds_eq := h'.seenOrderIds_eq.trans h.seenOrderIds_eq
  nextArrivalSequence_eq := h'.nextArrivalSequence_eq.trans h.nextArrivalSequence_eq
  nextAddress_eq := h'.nextAddress_eq.trans h.nextAddress_eq
  nodes_suffix := h'.nodes_suffix.trans h.nodes_suffix

section Match

variable {s : BookSide} {incoming : NewLimitOrder} {price : Price} {level : PriceLevel}
  {m m' : Matching}

/-- Replacing the first level of a map by a part of it. -/
theorem matchFrame_setLevels {b : OrderBook} {l : Levels s} {ns : List (Node RestingOrder)}
    (hfront : (b.levels s).front? = some (price, level))
    (hnodes : nodesOf l = nodesBefore (b.levels s) price ++ ns ++ nodesAfter (b.levels s) price)
    (hsuffix : ns.map Node.blank <:+ level.orders.map Node.blank) :
    MatchFrame s b (b.setLevels s l) := by
  obtain ⟨es, hes⟩ := List.head?_eq_some_iff.mp hfront
  have hbefore : nodesBefore (b.levels s) price = [] := by
    rw [nodesBefore, OrderedMap.flatBefore, OrderedMap.before_of_entries_cons hes, List.flatMap_nil]
  have hat : levelAt (b.levels s) price = level := by
    rw [levelAt, OrderedMap.find?_of_entries_cons hes, Option.getD_some]
  refine ⟨fun t ht => ?_, ?_, nextArrivalSequence_setLevels .., nextAddress_setLevels .., ?_⟩
  · cases s <;> cases t <;> first | rfl | exact absurd rfl ht
  · cases s <;> rfl
  · obtain ⟨taken, htaken⟩ := hsuffix
    rw [levels_setLevels, hnodes, nodesOf_eq (b.levels s) price, hbefore, hat]
    simp only [List.nil_append, List.map_append]
    exact ⟨taken, by rw [← htaken, List.append_assoc]⟩

theorem nodesOf_erase (l : Levels s) : nodesOf (l.erase price) =
    nodesBefore l price ++ [] ++ nodesAfter l price := by
  simp [nodesOf, nodesBefore, nodesAfter, OrderedMap.flatBefore, OrderedMap.flatAfter]

theorem nodesOf_insertOrAssign (l : Levels s) : nodesOf (l.insertOrAssign price level) =
    nodesBefore l price ++ level.orders ++ nodesAfter l price := by
  simp [nodesOf, nodesBefore, nodesAfter, OrderedMap.flatBefore, OrderedMap.flatAfter]

/-- One iteration of `match`. -/
theorem matchBody_frame (hfront : (m.book.levels s).front? = some (price, level))
    (h : matchBody s incoming price level m = .ok m') : MatchFrame s m.book m'.book := by
  -- counting the trade and forgetting a filled maker leaves the levels
  have hcounted (nextTradeId : UInt64) (active : Finmap fun _ : OrderId => OrderLocator) :
      MatchFrame s m.book { m.book with nextTradeId := nextTradeId, activeOrders := active } := by
    refine ⟨fun t _ => by cases t <;> rfl, rfl, rfl, rfl, ?_⟩
    cases s <;> exact List.suffix_rfl
  have hfront' (nextTradeId : UInt64) (active : Finmap fun _ : OrderId => OrderLocator) :
      (({ m.book with nextTradeId := nextTradeId, activeOrders := active } : OrderBook).levels
        s).front? = some (price, level) := by
    rw [← hfront]
    cases s <;> rfl
  unfold matchBody at h
  cases horders : level.orders with
  | nil =>
    rw [horders] at h
    cases h
  | cons maker others =>
    rw [horders] at h
    dsimp only at h
    split_ifs at h with hstop hfilled hactive hlast
    · obtain rfl := Except.ok.inj h
      exact (hcounted _ _).trans
        (matchFrame_setLevels (hfront' _ _) (nodesOf_erase _) List.nil_suffix)
    · obtain rfl := Except.ok.inj h
      refine (hcounted _ _).trans
        (matchFrame_setLevels (hfront' _ _) (nodesOf_insertOrAssign _) ?_)
      rw [horders]
      exact List.suffix_cons _ _
    · obtain rfl := Except.ok.inj h
      refine (hcounted _ m.book.activeOrders).trans
        (matchFrame_setLevels (hfront' _ _) (nodesOf_insertOrAssign _) ?_)
      rw [horders]
      exact List.suffix_rfl

/-- The loop of `match`. -/
theorem matchLoop_frame {priceCrosses : Price → Price → Bool} {fuel : ℕ}
    (h : matchLoop s priceCrosses incoming fuel m = .ok m') : MatchFrame s m.book m'.book := by
  induction fuel generalizing m with
  | zero => cases h
  | succ fuel ih =>
    rw [matchLoop] at h
    cases hfront : (m.book.levels s).front? with
    | none =>
      rw [hfront] at h
      obtain rfl := Except.ok.inj h
      exact .refl s _
    | some e =>
      rw [hfront] at h
      dsimp only at h
      split at h
      · cases hbody : matchBody s incoming e.1 e.2 m with
        | error e =>
          rw [hbody] at h
          cases h
        | ok m₁ =>
          rw [hbody] at h
          exact (matchBody_frame hfront hbody).trans (ih h)
      · obtain rfl := Except.ok.inj h
        exact .refl s _

theorem matchLevels_frame {b : OrderBook} {priceCrosses : Price → Price → Bool}
    (h : b.matchLevels s incoming priceCrosses = .ok m) : MatchFrame s b m.book :=
  matchLoop_frame (m := ⟨b, incoming.quantity, []⟩) h

end Match

/-! ### The storage -/

namespace MatchFrame

variable {s : BookSide} {b b' : OrderBook}

theorem levels_other (h : MatchFrame s b b') : b'.levels s.other = b.levels s.other :=
  h.levels_eq s.other s.ne_other.symm

/-- The nodes that are left, except for their remaining quantities. -/
theorem nodes_sublist (h : MatchFrame s b b') :
    ((nodesOf (b'.levels s) ++ nodesOf (b'.levels s.other)).map Node.blank).Sublist
      ((nodesOf (b.levels s) ++ nodesOf (b.levels s.other)).map Node.blank) := by
  rw [h.levels_other, List.map_append, List.map_append]
  exact h.nodes_suffix.sublist.append_right _

theorem exists_node (h : MatchFrame s b b') {n : Node RestingOrder} (hn : n ∈ b'.nodes) :
    ∃ n' ∈ b.nodes, n'.address = n.address ∧
      n'.value.arrivalSequence = n.value.arrivalSequence := by
  have hmem := h.nodes_sublist.subset (List.mem_map_of_mem ((b'.nodes_perm s).mem_iff.mp hn))
  obtain ⟨n', hn', hblank⟩ := List.mem_map.mp hmem
  exact ⟨n', (b.nodes_perm s).mem_iff.mpr hn', congrArg (fun n => n.address) hblank,
    congrArg (fun n => n.value.arrivalSequence) hblank⟩

theorem addresses_nodup (h : MatchFrame s b b') (hb : (b.nodes.map fun n => n.address).Nodup) :
    (b'.nodes.map fun n => n.address).Nodup := by
  have haddress (ns : List (Node RestingOrder)) :
      ns.map (fun n => n.address) = (ns.map Node.blank).map fun n => n.address := by
    rw [List.map_map]
    rfl
  rw [((b.nodes_perm s).map _).nodup_iff, haddress] at hb
  rw [((b'.nodes_perm s).map _).nodup_iff, haddress]
  exact hb.sublist (h.nodes_sublist.map _)

/-- If matching leaves correct levels and a correct index, the storage stays linked. -/
theorem linked (h : MatchFrame s b b') (hb : b.Linked)
    (hlevels : ∀ e ∈ (b'.levels s).entries, LevelOk e.1 e.2)
    (hindex : IsIndex (fun n : Node RestingOrder => n.value.id) Node.locator b'.activeOrders
      b'.nodes) : b'.Linked where
  level_ok t e he := by
    rcases s.eq_or_eq_other t with rfl | rfl
    · exact hlevels e he
    · rw [h.levels_other] at he
      exact hb.level_ok _ e he
  indexes := ⟨hindex, h.addresses_nodup hb.indexes.addresses_nodup⟩
  address_lt n hn := by
    obtain ⟨n', hn', haddress, -⟩ := h.exists_node hn
    rw [h.nextAddress_eq, ← haddress]
    exact hb.address_lt n' hn'
  arrival_pos n hn := by
    obtain ⟨n', hn', -, harrival⟩ := h.exists_node hn
    rw [← harrival]
    exact hb.arrival_pos n' hn'
  arrival_lt n hn := by
    obtain ⟨n', hn', -, harrival⟩ := h.exists_node hn
    rw [h.nextArrivalSequence_eq, ← harrival]
    exact hb.arrival_lt n' hn'

end MatchFrame

end OrderBook

end MatchingEngine
