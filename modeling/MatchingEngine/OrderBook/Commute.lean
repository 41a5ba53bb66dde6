import MatchingEngine.OrderBook.History
import MatchingEngine.OrderBook.Symmetry
import MatchingEngine.PriorityBook.Commute

/-!
# Commands that commute on a book

Two commands that are carried out without a trade, about different orders that neither share a level
nor cross, have the same results in either order. The books that are left differ in the sequence
numbers that the orders were given on arrival and in the list nodes that hold them, and in nothing
that a later command depends on.

## Main definitions

* `OrderBook.SameButArrival`: two books agree but for sequence numbers and list nodes.

## Main results

* `OrderBook.SameButArrival.of_abs`: books that represent one priority book agree.
* `OrderBook.run_quiet_comm`: quiet commands commute.
-/

namespace MatchingEngine

namespace OrderBook

/-- Two books have the same levels, with the same totals and the same orders in the same places, the
same index, up to the addresses of the list nodes, and the same identifiers and counters. The
sequence numbers that the orders were given on arrival are left open. -/
structure SameButArrival (b b' : OrderBook) : Prop where
  levels_eq : ∀ s, (b'.levels s).entries.map levelView = (b.levels s).entries.map levelView
  locators_eq : ∀ id, (b'.activeOrders.lookup id).map (fun l => (l.side, l.price)) =
    (b.activeOrders.lookup id).map fun l => (l.side, l.price)
  find_eq : ∀ id, b'.find id = b.find id
  seenOrderIds_eq : b'.seenOrderIds = b.seenOrderIds
  nextArrivalSequence_eq : b'.nextArrivalSequence = b.nextArrivalSequence
  nextTradeId_eq : b'.nextTradeId = b.nextTradeId

section Abs

variable {b b' : OrderBook}

/-- What the levels of a side show does not depend on anything but the orders of the side. -/
theorem levels_of_queue (hb : b.Linked) (hb' : b'.Linked) {s : BookSide}
    (h : b'.abs.queue s = b.abs.queue s) :
    (b'.levels s).entries.map levelView = (b.levels s).entries.map levelView := by
  have hflat : (b'.levels s).flat (fun level => level.orders.map fun n => n.value.view) =
      (b.levels s).flat fun level => level.orders.map fun n => n.value.view := by
    rwa [queue_abs, queue_abs, viewsOf, viewsOf, nodesOf, nodesOf, List.map_flatMap,
      List.map_flatMap] at h
  have hviews {b : OrderBook} (hb : b.Linked) :
      (b.levels s).entries.map levelView =
        ((b.levels s).entries.map fun e =>
          (e.1, e.2.orders.map fun n => n.value.view)).map viewOf := by
    rw [List.map_map]
    refine List.map_congr_left fun e he => ?_
    rw [levelView_eq hb he]
    rfl
  rw [hviews hb', hviews hb, (hb'.bucketed_views s).eq_of_flat_eq (hb.bucketed_views s) hflat]

/-- The index knows the side and the price of every active order. -/
theorem lookup_of_abs (hb : b.Inv) (id : OrderId) :
    (b.activeOrders.lookup id).map (fun l => (l.side, l.price)) =
      (b.abs.find id).map fun o => (o.side, o.limitPrice) := by
  cases hlookup : b.activeOrders.lookup id with
  | none =>
    rw [find_abs_eq_none hb hlookup]
    rfl
  | some locator =>
    obtain ⟨n, hn, rfl, rfl⟩ := (hb.linked.indexes.isIndex.lookup_iff id locator).mp hlookup
    rw [find_abs hb hn]
    rfl

/-- Books that represent one priority book agree but for sequence numbers and list nodes. -/
theorem SameButArrival.of_abs (hb : b.Inv) (hb' : b'.Inv) (h : b'.abs = b.abs) :
    b.SameButArrival b' where
  levels_eq s := levels_of_queue hb.linked hb'.linked (congrArg (fun p => p.queue s) h)
  locators_eq id := by rw [lookup_of_abs hb', lookup_of_abs hb, h]
  find_eq id := by rw [OrderBook.find_eq hb', OrderBook.find_eq hb, h]
  seenOrderIds_eq := congrArg PriorityBook.seenOrderIds h
  nextArrivalSequence_eq := congrArg PriorityBook.nextArrivalSequence h
  nextTradeId_eq := congrArg PriorityBook.nextTradeId h

end Abs

/-- After any history, two commands about different orders that would each be carried out without a
trade, and that do not both submit orders to one level or orders that cross, have the results that
they have alone, in either order. The two books that are left agree but for sequence numbers and
list nodes, and they stay so, with the same results, whatever comes next. -/
theorem run_quiet_comm (commands : List JournalCommand) :
    ∃ results b, fresh.run commands = .ok (results, b) ∧
      ∀ c c' r r' b₁ b₁', b.applyCommand c = .ok (r, b₁) → r.quiet = true →
        b.applyCommand c' = .ok (r', b₁') → r'.quiet = true →
        c.orderId ≠ c'.orderId → c.Apart c' →
        ∃ b₂ b₂', b.run [c, c'] = .ok ([r, r'], b₂) ∧ b.run [c', c] = .ok ([r', r], b₂') ∧
          b₂.SameButArrival b₂' ∧
          ∀ further, ∃ results' b₃ b₃', b₂.run further = .ok (results', b₃) ∧
            b₂'.run further = .ok (results', b₃') ∧ b₃.SameButArrival b₃' := by
  obtain ⟨b, hrun, hinv, habs⟩ := run_refines fresh_inv commands
  refine ⟨_, b, hrun, fun c c' r r' b₁ b₁' hc hr hc' hr' hid hapart => ?_⟩
  have hquiet {c : JournalCommand} {r : BatchCommandResult} {b₁ : OrderBook}
      (hc : b.applyCommand c = .ok (r, b₁)) (hr : r.quiet = true) : b.abs.Quiet c r := by
    obtain ⟨b₁', hc', -, -⟩ := applyCommand_refines hinv c
    obtain ⟨rfl, -⟩ := Prod.mk.inj (Except.ok.inj (hc.symm.trans hc'))
    exact PriorityBook.quiet_of_apply hinv.wellFormed hr
  -- the book after one more command has a history as well
  have hsequence : ∀ c r, b.abs.Quiet c r → ∀ id : OrderId, id.value ≠ 0 →
      id ∉ (b.abs.effect c).seenOrderIds → (b.abs.effect c).nextArrivalSequence ≠ 0 := by
    intro c r h id hid hnew
    have hlast : (PriorityBook.fresh.run (commands ++ [c])).2 = b.abs.effect c := by
      have hfirst : (PriorityBook.fresh.run commands).2 = b.abs := habs.symm
      rw [PriorityBook.run, runAll_append, ← PriorityBook.run, hfirst, runAll,
        h.apply_eq hinv.wellFormed, runAll]
    rw [← hlast] at hnew ⊢
    exact PriorityBook.nextArrivalSequence_ne_zero_of_fresh _ hid hnew
  obtain ⟨hboth, hboth'⟩ := PriorityBook.run_comm hinv.wellFormed (hquiet hc hr) (hquiet hc' hr')
    hid hapart hsequence
  obtain ⟨b₂, hrun₂, hinv₂, habs₂⟩ := run_refines hinv [c, c']
  obtain ⟨b₂', hrun₂', hinv₂', habs₂'⟩ := run_refines hinv [c', c]
  rw [hboth] at hrun₂ habs₂
  rw [hboth'] at hrun₂' habs₂'
  have heq : b₂'.abs = b₂.abs := habs₂'.trans habs₂.symm
  refine ⟨b₂, b₂', hrun₂, hrun₂', .of_abs hinv₂ hinv₂' heq, fun further => ?_⟩
  obtain ⟨b₃, hrun₃, hinv₃, habs₃⟩ := run_refines hinv₂ further
  obtain ⟨b₃', hrun₃', hinv₃', habs₃'⟩ := run_refines hinv₂' further
  rw [heq] at hrun₃' habs₃'
  exact ⟨_, b₃, b₃', hrun₃, hrun₃', .of_abs hinv₃ hinv₃' (habs₃'.trans habs₃.symm)⟩

/-- A buy order below the only sell order, and the cancellation of the sell order. -/
theorem quiet_buy_and_cancel :
    ∃ results b, fresh.run [.submitLimitOrder ⟨⟨1⟩, .sell, ⟨10⟩, ⟨5⟩⟩] = .ok (results, b) ∧
      ∃ r r' b₂ b₂', b.run [.submitLimitOrder ⟨⟨2⟩, .buy, ⟨9⟩, ⟨3⟩⟩, .cancelOrder ⟨1⟩] =
          .ok ([r, r'], b₂) ∧
        b.run [.cancelOrder ⟨1⟩, .submitLimitOrder ⟨⟨2⟩, .buy, ⟨9⟩, ⟨3⟩⟩] = .ok ([r', r], b₂') ∧
        b₂.SameButArrival b₂' := by
  obtain ⟨results, b, hrun, hcomm⟩ :=
    run_quiet_comm [.submitLimitOrder ⟨⟨1⟩, .sell, ⟨10⟩, ⟨5⟩⟩]
  cases hrun
  obtain ⟨b₂, b₂', hrun₂, hrun₂', hsame, -⟩ :=
    hcomm (.submitLimitOrder ⟨⟨2⟩, .buy, ⟨9⟩, ⟨3⟩⟩) (.cancelOrder ⟨1⟩) _ _ _ _ rfl rfl rfl rfl
      (by decide) trivial
  exact ⟨_, _, rfl, _, _, b₂, b₂', hrun₂, hrun₂', hsame⟩

end OrderBook

end MatchingEngine
