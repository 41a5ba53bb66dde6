import MatchingEngine.PriorityBook.Ledger

/-!
# Counting trades, orders and identifiers

A trade completes an order, and so does a cancellation, so that a book can make no more trades
than orders were accepted. An identifier is accepted at most once and is not `0`, so fewer than
`2 ^ 64` orders are accepted, and the two counters of a book that started empty never run out.

## Main definitions

* `PriorityBook.Counted`: what a log says about the counters and the number of active orders.

## Main results

* `PriorityBook.run_counted`: every run is counted.
* `PriorityBook.idsAvailable_of_fresh`, `PriorityBook.not_exhausted_of_fresh`: after a run from the
  empty book there are trade identifiers for every order, and no order is rejected because a
  counter is exhausted.
-/

namespace MatchingEngine

namespace PriorityBook

/-! ### Fills -/

section Filling

variable {crosses : Price → Bool} {taker : OrderId} {next : UInt64} {quantity : Quantity}
  {q : List OrderView} {f : Fill}

/-- The identifiers `next`, `next + 1`, … of a number of trades. -/
def issued (next : UInt64) (count : ℕ) : List TradeId :=
  (List.range count).map fun k => ⟨next + UInt64.ofNat k⟩

@[simp] theorem issued_zero (next : UInt64) : issued next 0 = [] := rfl

theorem issued_add (next : UInt64) (m n : ℕ) :
    issued next (m + n) = issued next m ++ issued (next + UInt64.ofNat m) n := by
  simp only [issued, List.range_add, List.map_append, List.map_map, Function.comp_def,
    UInt64.ofNat_add, UInt64.add_assoc]

@[simp] theorem issued_one (next : UInt64) : issued next 1 = [⟨next⟩] := by
  simp [issued]

theorem ids_fullFills (next : UInt64) (q : List OrderView) :
    (fullFills taker next q).map (fun t => t.id) = issued next q.length := by
  induction q generalizing next with
  | nil => rfl
  | cons maker makers ih =>
    rw [fullFills, List.map_cons, ih, List.length_cons, Nat.add_comm, issued_add]
    simp

/-- The trades of a fill are numbered one after the other. -/
theorem Filling.ids (h : Filling crosses taker next quantity q f) :
    f.trades.map (fun t => t.id) = issued next f.trades.length := by
  cases h with
  | stop filled rest => rw [ids_fullFills, length_fullFills]
  | part filled makers maker executed =>
    rw [List.map_append, ids_fullFills, List.length_append, length_fullFills, List.length_singleton,
      issued_add, issued_one]
    rfl

/-- Every trade of a fill completes a maker, except that the last one may complete the taker. -/
theorem Filling.count_le (h : Filling crosses taker next quantity q f) :
    f.trades.length + f.rest.length + (if 0 < f.remaining.units then 1 else 0) ≤ q.length + 1 := by
  cases h with
  | stop filled rest remaining =>
    simp only [length_fullFills, List.length_append]
    split <;> omega
  | part filled makers maker =>
    simp only [List.length_append, length_fullFills, List.length_cons, List.length_nil,
      UInt64.lt_irrefl, if_false]
    omega

end Filling

/-! ### Steps -/

/-- What the log of a run from `p` to `p'` says about the numbers of trades, cancellations and
orders, and about the counters. -/
structure Counted (p : PriorityBook) (log : Log) (p' : PriorityBook) : Prop where
  count_le : log.trades.length + p'.orders.length + log.cancelled.length ≤
    log.accepted.length + p.orders.length
  ids_eq : log.trades.map (fun t => t.id) = issued p.nextTradeId log.trades.length
  nextTradeId_eq : p'.nextTradeId = p.nextTradeId + UInt64.ofNat log.trades.length
  nextArrivalSequence_eq : ∃ n ≤ log.accepted.length,
    p'.nextArrivalSequence = p.nextArrivalSequence + UInt64.ofNat n

theorem Counted.nil (p : PriorityBook) : Counted p [] p where
  count_le := by simp
  ids_eq := rfl
  nextTradeId_eq := by simp
  nextArrivalSequence_eq := ⟨0, by simp⟩

theorem Counted.append {p p' p'' : PriorityBook} {log log' : Log} (h : Counted p log p')
    (h' : Counted p' log' p'') : Counted p (log ++ log') p'' where
  count_le := by
    have hle := h.count_le
    have hle' := h'.count_le
    simp only [Log.trades_append, Log.cancelled_append, Log.accepted_append, List.length_append]
    omega
  ids_eq := by
    rw [Log.trades_append, List.map_append, List.length_append, issued_add, h.ids_eq, h'.ids_eq,
      h.nextTradeId_eq]
  nextTradeId_eq := by
    rw [h'.nextTradeId_eq, h.nextTradeId_eq, Log.trades_append, List.length_append,
      UInt64.ofNat_add, UInt64.add_assoc]
  nextArrivalSequence_eq := by
    obtain ⟨n, hn, heq⟩ := h.nextArrivalSequence_eq
    obtain ⟨n', hn', heq'⟩ := h'.nextArrivalSequence_eq
    refine ⟨n + n', ?_, by rw [heq', heq, UInt64.ofNat_add, UInt64.add_assoc]⟩
    rw [Log.accepted_append, List.length_append]
    omega

section Accept

variable (p : PriorityBook) (order : NewLimitOrder) (f : Fill)

theorem length_orders_accept : (p.accept order f).orders.length =
    (p.queue (BookSide.ofSide order.side)).length + f.rest.length +
      (if 0 < f.remaining.units then 1 else 0) := by
  have hmatched : (p.matched order f).orders.length =
      (p.queue (BookSide.ofSide order.side)).length + f.rest.length := by
    rw [((p.matched order f).orders_perm (BookSide.ofSide order.side)).length_eq,
      List.length_append, queue_matched, queue_matched_other]
  unfold accept
  split
  · rw [(orders_rested_perm order f.remaining).length_eq, List.length_cons, hmatched]
  · exact hmatched

theorem nextTradeId_accept :
    (p.accept order f).nextTradeId = p.nextTradeId + UInt64.ofNat f.trades.length := by
  unfold accept rested matched
  split
  · exact nextTradeId_setQueue ..
  · rfl

theorem nextArrivalSequence_accept : (p.accept order f).nextArrivalSequence =
    p.nextArrivalSequence + UInt64.ofNat (if 0 < f.remaining.units then 1 else 0) := by
  unfold accept rested matched
  split
  · exact congrArg (· + 1) (nextArrivalSequence_setQueue ..)
  · exact (nextArrivalSequence_setQueue ..).trans (UInt64.add_zero _).symm

end Accept

theorem Applied.counted {p p' : PriorityBook} {command : JournalCommand}
    {result : BatchCommandResult} (h : p.Applied command result p') (hp : p.WellFormed) :
    Counted p [(command, result)] p' := by
  cases h with
  | rejected => exact ⟨by simp [SubmitResult.rejected], by simp [SubmitResult.rejected],
      by simp [SubmitResult.rejected], 0, by simp⟩
  | accepted order ha =>
    have hfill : Filling _ order.id p.nextTradeId order.quantity _ (p.fillFor order) :=
      fill_filling ..
    have htrades : Log.trades [(.submitLimitOrder order,
        .submit (acceptResult order (p.fillFor order)))] = (p.fillFor order).trades :=
      List.append_nil _
    refine ⟨?_, ?_, ?_, ?_⟩
    · have hle := hfill.count_le
      rw [htrades, length_orders_accept, (p.orders_perm (BookSide.ofSide order.side)).length_eq,
        List.length_append]
      simp only [acceptResult, Log.cancelled_cons, Log.accepted_cons, Log.cancelledOf,
        Log.acceptedOf, Log.cancelled_nil, Log.accepted_nil, if_pos, Option.toList_some,
        Option.toList_none, List.append_nil, List.length_nil, List.length_singleton]
      omega
    · rw [htrades, hfill.ids]
    · rw [htrades, nextTradeId_accept]
    · refine ⟨_, ?_, nextArrivalSequence_accept ..⟩
      simp only [acceptResult, Log.accepted_cons, Log.acceptedOf, if_pos, Option.toList_some,
        Log.accepted_nil, List.append_nil, List.length_singleton]
      split <;> omega
  | notFound => exact ⟨by simp [CancelResult.notFound], by simp, by simp, 0, by simp⟩
  | cancelled o ho =>
    refine ⟨?_, by simp, by simp [remove], 0, by simp [remove]⟩
    rw [(hp.orders_perm_remove ho).length_eq]
    simp

/-! ### Runs -/

theorem run_counted {p : PriorityBook} (hp : p.WellFormed) (commands : List JournalCommand) :
    Counted p (p.log commands) (p.run commands).2 :=
  run_induction hp commands Counted.nil fun p _ command _ hp ih =>
    ((p.apply_applied command).counted hp).append ih

section Fresh

variable (commands : List JournalCommand)

/-- As many identifiers are remembered as orders were accepted. -/
theorem card_seen_of_fresh :
    (fresh.run commands).2.seenOrderIds.card = (fresh.log commands).accepted.length := by
  obtain ⟨-, hnodup, hseen⟩ := run_seen fresh_wellFormed commands
  have hempty : fresh.seenOrderIds = ∅ := rfl
  rw [hseen, hempty, Finset.empty_union, List.toFinset_card_of_nodup hnodup, List.length_map]

theorem length_accepted_lt : (fresh.log commands).accepted.length < 2 ^ 64 := by
  rw [← card_seen_of_fresh]
  exact OrderId.card_lt (run_wellFormed fresh_wellFormed commands).zero_notMem_seen

theorem count_le_of_fresh :
    (fresh.log commands).trades.length + (fresh.run commands).2.orders.length +
      (fresh.log commands).cancelled.length ≤ (fresh.log commands).accepted.length :=
  (run_counted fresh_wellFormed commands).count_le

/-- The trades of a run are numbered from `1` on, without wrap-around. -/
theorem tradeIds_of_fresh : (fresh.log commands).trades.map (fun t => t.id.value.toNat) =
    List.range' 1 (fresh.log commands).trades.length := by
  have hlt := length_accepted_lt commands
  have hle := count_le_of_fresh commands
  have hids := congrArg (List.map fun id : TradeId => id.value.toNat)
    (run_counted fresh_wellFormed commands).ids_eq
  rw [List.map_map, issued, List.map_map] at hids
  refine hids.trans ?_
  rw [List.range'_eq_map_range]
  refine List.map_congr_left fun k hk => ?_
  have hk := List.mem_range.mp hk
  have hone : fresh.nextTradeId.toNat = 1 := rfl
  rw [Function.comp_apply, UInt64.toNat_add, UInt64.toNat_ofNat', hone]
  omega

/-- There are identifiers for as many trades as there are active orders. -/
theorem nextTradeId_add_lt {k : ℕ} (hk : k < (fresh.run commands).2.orders.length) :
    (fresh.run commands).2.nextTradeId.toNat + k < 2 ^ 64 ∧
      (fresh.run commands).2.nextTradeId ≠ 0 := by
  have hlt := length_accepted_lt commands
  have hle := count_le_of_fresh commands
  have hone : fresh.nextTradeId.toNat = 1 := rfl
  have hnext := congrArg UInt64.toNat (run_counted fresh_wellFormed commands).nextTradeId_eq
  rw [UInt64.toNat_add, UInt64.toNat_ofNat', hone] at hnext
  refine ⟨by omega, fun hzero => ?_⟩
  rw [hzero, UInt64.toNat_zero] at hnext
  omega

theorem nextTradeId_add_ne_zero {k : ℕ} (hk : k < (fresh.run commands).2.orders.length) :
    (fresh.run commands).2.nextTradeId + UInt64.ofNat k ≠ 0 := by
  obtain ⟨hlt, hne⟩ := nextTradeId_add_lt commands hk
  intro hzero
  have hsum := congrArg UInt64.toNat hzero
  rw [UInt64.toNat_add, UInt64.toNat_ofNat', UInt64.toNat_zero] at hsum
  have hpos : (fresh.run commands).2.nextTradeId.toNat ≠ 0 := fun h => hne (UInt64.toNat_inj.mp h)
  omega

theorem length_fill_le (p : PriorityBook) (order : NewLimitOrder) :
    (p.fillFor order).trades.length ≤ p.orders.length :=
  (fill_filling ..).length_le.trans (p.queue_length_le _)

theorem idsAvailable_of_fresh (order : NewLimitOrder) :
    IdsAvailable (fresh.run commands).2.nextTradeId
      ((fresh.run commands).2.fillFor order).trades.length := by
  have hle := length_fill_le (fresh.run commands).2 order
  rcases Nat.eq_zero_or_pos ((fresh.run commands).2.fillFor order).trades.length with hz | hpos
  · exact Or.inl hz
  · have hroom := nextTradeId_add_lt commands
      (k := ((fresh.run commands).2.fillFor order).trades.length - 1) (by omega)
    exact Or.inr ⟨hroom.2, by omega⟩

/-- While a new identifier can come in, the arrival sequence has not wrapped around. -/
theorem nextArrivalSequence_ne_zero_of_fresh {id : OrderId} (hid : id.value ≠ 0)
    (hnew : id ∉ (fresh.run commands).2.seenOrderIds) :
    (fresh.run commands).2.nextArrivalSequence ≠ 0 := by
  have hz := (run_wellFormed fresh_wellFormed commands).zero_notMem_seen
  have hcard : (insert id (fresh.run commands).2.seenOrderIds).card < 2 ^ 64 := by
    refine OrderId.card_lt (Finset.mem_insert.not.mpr (not_or.mpr ⟨fun h => ?_, hz⟩))
    exact hid (congrArg OrderId.value h).symm
  rw [Finset.card_insert_of_notMem hnew, card_seen_of_fresh] at hcard
  obtain ⟨n, hn, heq⟩ := (run_counted fresh_wellFormed commands).nextArrivalSequence_eq
  have hone : fresh.nextArrivalSequence.toNat = 1 := rfl
  have heq := congrArg UInt64.toNat heq
  rw [UInt64.toNat_add, UInt64.toNat_ofNat', hone] at heq
  intro hzero
  rw [hzero, UInt64.toNat_zero] at heq
  omega

/-- No order is rejected because a counter is exhausted. -/
theorem not_exhausted_of_fresh (order : NewLimitOrder) :
    (fresh.run commands).2.rejection order ≠ some .tradeIdExhausted ∧
      (fresh.run commands).2.rejection order ≠ some .sequenceExhausted := by
  have hids := idsAvailable_of_fresh commands order
  have hsequence : order.id.value ≠ 0 → order.id ∉ (fresh.run commands).2.seenOrderIds → _ :=
    nextArrivalSequence_ne_zero_of_fresh commands
  constructor
  · intro h
    unfold rejection at h
    split_ifs at h <;> cases h
  · intro h
    unfold rejection at h
    split_ifs at h with h1 h2 h3 h4 h5 h6 h7 <;> cases h
    exact hsequence h1 h5 h6.2

theorem result_not_exhausted {command : JournalCommand} {r : SubmitResult}
    (h : (command, .submit r) ∈ fresh.log commands) :
    r.rejectionReason ≠ some .tradeIdExhausted ∧ r.rejectionReason ≠ some .sequenceExhausted := by
  obtain ⟨commands₁, heq⟩ := exists_of_mem_runLog h
  have happlied := (fresh.run commands₁).2.apply_applied command
  generalize ((fresh.run commands₁).2.apply command).2 = p' at happlied
  rw [run, ← heq] at happlied
  cases happlied with
  | rejected order reason hreason =>
    have hnot := not_exhausted_of_fresh commands₁ order
    rw [run, hreason] at hnot
    exact hnot
  | accepted => simp [acceptResult]

end Fresh

end PriorityBook

end MatchingEngine
