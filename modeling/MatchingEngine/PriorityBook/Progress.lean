import MatchingEngine.PriorityBook.WellFormed

/-!
# Filling step by step

A loop that matches an incoming order takes one order from the head of a queue in each iteration.
`PriorityBook.Progress` is what such a loop has reached: the book, the quantity that is left and
the trades so far. An iteration either fills the first order (`Progress.takeAll`) or uses up the
quantity (`Progress.takePart`), and a loop whose iterations do this computes the fill.

The rule is stated for any loop over states of any type that have a progress, so it does not depend
on how a book is stored.

## Main definitions

* `PriorityBook.Progress`, `PriorityBook.Progress.takeAll`, `PriorityBook.Progress.takePart`.
* `PriorityBook.Progress.Done`: the progress at the end of the fill.
* `PriorityBook.Progress.start`: the progress at the beginning.

## Main results

* `PriorityBook.Progress.loop_spec`: a loop with these iterations ends and computes the fill.
* `PriorityBook.Progress.Done.matched`: for an accepted order, this is what the priority book does.
-/

namespace MatchingEngine

namespace PriorityBook

/-- What a matching loop has reached. -/
structure Progress where
  book : PriorityBook
  remaining : Quantity
  trades : List Trade

namespace Progress

variable (s : BookSide) (incoming : NewLimitOrder)

/-- The fill that is left to do. -/
def fill (m : Progress) : Fill :=
  PriorityBook.fill (fun price => s.crosses price incoming.limitPrice) incoming.id
    m.book.nextTradeId m.remaining (m.book.queue s)

/-- The first order of the queue does not trade, or there is nothing left to trade. -/
def Stops (m : Progress) (maker : OrderView) : Prop :=
  m.remaining.units = 0 ∨ ¬ s.crosses maker.limitPrice incoming.limitPrice

/-- The trade with the first order of the queue. -/
def trade (m : Progress) (maker : OrderView) (executed : Quantity) : Trade :=
  ⟨⟨m.book.nextTradeId⟩, maker.id, incoming.id, maker.limitPrice, executed⟩

/-- Fill the first order of the queue. -/
def takeAll (m : Progress) (maker : OrderView) (makers : List OrderView) : Progress where
  book := { m.book.setQueue s makers with nextTradeId := m.book.nextTradeId + 1 }
  remaining := ⟨m.remaining.units - maker.remainingQuantity.units⟩
  trades := m.trades ++ [m.trade incoming maker maker.remainingQuantity]

/-- Use up the quantity on a part of the first order of the queue. -/
def takePart (m : Progress) (maker : OrderView) (makers : List OrderView) : Progress where
  book := { m.book.setQueue s ({ maker with
      remainingQuantity := ⟨maker.remainingQuantity.units - m.remaining.units⟩ } :: makers) with
    nextTradeId := m.book.nextTradeId + 1 }
  remaining := ⟨0⟩
  trades := m.trades ++ [m.trade incoming maker m.remaining]

/-- The end of the fill: its trades are made, and the queue is what it left. -/
structure Done (m m' : Progress) : Prop where
  remaining_eq : m'.remaining = (m.fill s incoming).remaining
  trades_eq : m'.trades = m.trades ++ (m.fill s incoming).trades
  book_eq : m'.book =
    { m.book.setQueue s (m.fill s incoming).rest with
      nextTradeId := m.book.nextTradeId + UInt64.ofNat (m.fill s incoming).trades.length }

variable {s} {incoming} {m m' : Progress} {maker : OrderView} {makers : List OrderView}

/-- Nothing is left to do. -/
theorem Done.refl (h : m.fill s incoming = ⟨[], m.remaining, m.book.queue s⟩) :
    Done s incoming m m := by
  refine ⟨by rw [h], by rw [h, List.append_nil], ?_⟩
  rw [h]
  cases s <;> simp [setQueue, queue]

theorem Done.of_queue_nil (h : m.book.queue s = []) : Done s incoming m m :=
  .refl (by rw [fill, h]; rfl)

theorem Done.of_stops (h : m.book.queue s = maker :: makers) (hstop : Stops s incoming m maker) :
    Done s incoming m m := by
  refine .refl ?_
  rw [fill, h]
  exact fill_cons_of_stop hstop

/-- One step, and then the rest of the fill. -/
private theorem Done.of_fill_eq {m₁ : Progress} {t : Trade} (h : Done s incoming m₁ m')
    (hfill : m.fill s incoming = ⟨t :: (m₁.fill s incoming).trades,
      (m₁.fill s incoming).remaining, (m₁.fill s incoming).rest⟩)
    (htrades : m₁.trades = m.trades ++ [t]) {q : List OrderView}
    (hbook : m₁.book = { m.book.setQueue s q with nextTradeId := m.book.nextTradeId + 1 }) :
    Done s incoming m m' := by
  refine ⟨?_, ?_, ?_⟩
  · rw [h.remaining_eq, hfill]
  · rw [h.trades_eq, htrades, hfill, List.append_assoc, List.singleton_append]
  · rw [h.book_eq, hbook, hfill, List.length_cons, UInt64.ofNat_add, UInt64.add_assoc,
      UInt64.add_comm 1]
    cases s <;> rfl

theorem queue_takeAll : (m.takeAll s incoming maker makers).book.queue s = makers :=
  queue_setQueue m.book s makers

theorem queue_takePart : (m.takePart s incoming maker makers).book.queue s =
    { maker with remainingQuantity :=
        ⟨maker.remainingQuantity.units - m.remaining.units⟩ } :: makers :=
  queue_setQueue m.book s _

theorem fill_of_takeAll (hqueue : m.book.queue s = maker :: makers)
    (hgo : ¬ Stops s incoming m maker)
    (hle : maker.remainingQuantity.units ≤ m.remaining.units) :
    let f := (m.takeAll s incoming maker makers).fill s incoming
    m.fill s incoming =
      ⟨m.trade incoming maker maker.remainingQuantity :: f.trades, f.remaining, f.rest⟩ := by
  dsimp only
  rw [fill, hqueue, fill, queue_takeAll]
  exact fill_cons_of_le hgo hle

theorem fill_of_takePart (hqueue : m.book.queue s = maker :: makers)
    (hgo : ¬ Stops s incoming m maker)
    (hlt : m.remaining.units < maker.remainingQuantity.units) :
    let f := (m.takePart s incoming maker makers).fill s incoming
    m.fill s incoming = ⟨m.trade incoming maker m.remaining :: f.trades, f.remaining, f.rest⟩ := by
  have hrest : (m.takePart s incoming maker makers).fill s incoming =
      ⟨[], ⟨0⟩, (m.takePart s incoming maker makers).book.queue s⟩ := fill_of_zero rfl
  dsimp only
  rw [hrest, queue_takePart, fill, hqueue]
  exact fill_cons_of_not_le hgo (UInt64.not_le.mpr hlt)

theorem trades_ne_nil (hqueue : m.book.queue s = maker :: makers)
    (hgo : ¬ Stops s incoming m maker) : (m.fill s incoming).trades ≠ [] := by
  rw [fill, hqueue]
  exact fill_trades_ne_nil hgo

/-- The rule for a matching loop. It stops where the fill stops; where the fill goes on, an
iteration takes the first order, completely or in part, and keeps what `Good` says about the
state. The bound on the iterations exceeds the number of orders, until the quantity is used up. -/
theorem loop_spec {σ ε : Type*} (progress : σ → Progress) (Good : σ → Prop)
    (loop : ℕ → σ → Except ε σ)
    (hnil : ∀ n m, Good m → (progress m).book.queue s = [] → loop (n + 1) m = .ok m)
    (hstop : ∀ n m maker makers, Good m → (progress m).book.queue s = maker :: makers →
      Stops s incoming (progress m) maker → loop (n + 1) m = .ok m)
    (hstep : ∀ n m maker makers, Good m → (progress m).book.queue s = maker :: makers →
      ¬ Stops s incoming (progress m) maker → (progress m).book.nextTradeId ≠ 0 →
      ∃ m', loop (n + 1) m = loop n m' ∧ Good m' ∧
        (maker.remainingQuantity.units ≤ (progress m).remaining.units ∧
            progress m' = (progress m).takeAll s incoming maker makers ∨
          (progress m).remaining.units < maker.remainingQuantity.units ∧
            progress m' = (progress m).takePart s incoming maker makers))
    {n : ℕ} {m : σ} (hgood : Good m)
    (hids : IdsAvailable (progress m).book.nextTradeId
      ((progress m).fill s incoming).trades.length)
    (hfuel : ((progress m).book.queue s).length < n ∨
      (progress m).remaining.units = 0 ∧ 0 < n) :
    ∃ m', loop n m = .ok m' ∧ Good m' ∧ Done s incoming (progress m) (progress m') := by
  induction n generalizing m with
  | zero => omega
  | succ n ih =>
    cases hqueue : (progress m).book.queue s with
    | nil => exact ⟨m, hnil n m hgood hqueue, hgood, .of_queue_nil hqueue⟩
    | cons maker makers =>
      by_cases hgo : Stops s incoming (progress m) maker
      · exact ⟨m, hstop n m maker makers hgood hqueue hgo, hgood, .of_stops hqueue hgo⟩
      · obtain ⟨t, ts, hts⟩ := List.exists_cons_of_ne_nil (trades_ne_nil hqueue hgo)
        rw [hts, List.length_cons] at hids
        obtain ⟨m₁, hloop, hgood₁, htake⟩ := hstep n m maker makers hgood hqueue hgo hids.of_succ.1
        have hlt := hfuel.resolve_right fun h => hgo (Or.inl h.1)
        rw [hqueue, List.length_cons] at hlt
        rw [hloop]
        rcases htake with ⟨hle, heq⟩ | ⟨hlt', heq⟩
        · have hfill := fill_of_takeAll hqueue hgo hle
          rw [← heq] at hfill
          rw [hfill, List.cons.injEq] at hts
          have hids₁ : IdsAvailable (progress m₁).book.nextTradeId
              ((progress m₁).fill s incoming).trades.length := by
            rw [hts.2, heq]
            exact hids.of_succ.2
          obtain ⟨m', hrun, hgood', hdone⟩ := ih hgood₁ hids₁
            (Or.inl (by rw [heq, queue_takeAll]; omega))
          exact ⟨m', hrun, hgood', hdone.of_fill_eq hfill (by rw [heq]; rfl) (by rw [heq]; rfl)⟩
        · have hfill := fill_of_takePart hqueue hgo hlt'
          rw [← heq] at hfill
          have hzero : (progress m₁).remaining.units = 0 := by
            rw [heq]
            rfl
          have hids₁ : IdsAvailable (progress m₁).book.nextTradeId
              ((progress m₁).fill s incoming).trades.length := by
            rw [fill, fill_of_zero hzero]
            exact Or.inl rfl
          obtain ⟨m', hrun, hgood', hdone⟩ := ih hgood₁ hids₁ (Or.inr ⟨hzero, by omega⟩)
          exact ⟨m', hrun, hgood', hdone.of_fill_eq hfill (by rw [heq]; rfl) (by rw [heq]; rfl)⟩

/-- The progress with which the loop for an accepted order starts: its identifier is recorded. -/
def start (p : PriorityBook) (order : NewLimitOrder) : Progress :=
  ⟨{ p with seenOrderIds := insert order.id p.seenOrderIds }, order.quantity, []⟩

theorem fill_start (p : PriorityBook) (order : NewLimitOrder) :
    (start p order).fill (BookSide.ofSide order.side).other order = p.fillFor order := by
  unfold fill start fillFor
  cases BookSide.ofSide order.side <;> rfl

/-- The end of the loop for an accepted order. -/
theorem Done.matched {p : PriorityBook} {order : NewLimitOrder}
    (h : Done (BookSide.ofSide order.side).other order (start p order) m') :
    m'.remaining = (p.fillFor order).remaining ∧ m'.trades = (p.fillFor order).trades ∧
      m'.book = p.matched order (p.fillFor order) := by
  have hbook := h.book_eq
  rw [fill_start] at hbook
  refine ⟨by rw [h.remaining_eq, fill_start], by rw [h.trades_eq, fill_start]; rfl, ?_⟩
  rw [hbook, PriorityBook.matched]
  unfold start
  cases BookSide.ofSide order.side <;> rfl

end Progress

end PriorityBook

end MatchingEngine
