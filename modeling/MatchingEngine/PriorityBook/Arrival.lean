import MatchingEngine.PriorityBook.Crossing

/-!
# Time priority

At equal prices the orders of a queue stand in the order in which they were accepted. Nothing in a
book compares times: an order is inserted behind those of its price when it is accepted, and after
that orders only leave the queue. `PriorityBook.Aged` compares the queues with the list of all
identifiers that were accepted so far, and every command keeps it.

## Main definitions

* `PriorityBook.Before`: price-time priority.
* `PriorityBook.Aged`: the queues are in the order of priority.

## Main results

* `PriorityBook.Applied.aged`: one command keeps the order of priority.
* `PriorityBook.run_before`: after every run the queues are in the order of priority.
-/

namespace MatchingEngine

namespace PriorityBook

/-- An order of a side is to be matched before another one: its price is better, or the prices are
equal and its identifier comes first in the given list. -/
def Before (s : BookSide) (ids : List OrderId) (a a' : OrderView) : Prop :=
  s.lt a.limitPrice a'.limitPrice ∨
    a.limitPrice = a'.limitPrice ∧ ids.idxOf a.id < ids.idxOf a'.id

instance (s : BookSide) (ids : List OrderId) : DecidableRel (Before s ids) :=
  fun _ _ => inferInstanceAs (Decidable (_ ∨ _))

theorem Before.asymm {s : BookSide} {ids : List OrderId} {a a' : OrderView}
    (h : Before s ids a a') : ¬ Before s ids a' a := by
  rintro (hlt' | ⟨heq', hidx'⟩)
  · rcases h with hlt | ⟨heq, -⟩
    · exact irrefl _ (IsTrans.trans _ _ _ hlt hlt')
    · exact irrefl _ (heq ▸ hlt')
  · rcases h with hlt | ⟨-, hidx⟩
    · exact irrefl _ (heq' ▸ hlt)
    · omega

/-- The queues are in the order of priority, for the given list of all accepted identifiers. -/
structure Aged (ids : List OrderId) (p : PriorityBook) : Prop where
  mem_ids : ∀ s, ∀ o ∈ p.queue s, o.id ∈ ids
  ids_seen : ∀ id ∈ ids, id ∈ p.seenOrderIds
  before : ∀ s, (p.queue s).Pairwise (Before s ids)

section Aged

variable {ids : List OrderId} {p p' : PriorityBook} {order : NewLimitOrder}

theorem fresh_aged : Aged [] fresh where
  mem_ids s := by cases s <;> simp [queue, fresh]
  ids_seen := by simp
  before s := by cases s <;> simp [queue, fresh]

/-- Orders leave a queue without changing the order of the others. -/
theorem Aged.of_shrinks (h : Aged ids p) (hq : ∀ s, Shrinks (p'.queue s) (p.queue s))
    (hseen : p.seenOrderIds ⊆ p'.seenOrderIds) : Aged ids p' where
  mem_ids s o ho := by
    obtain ⟨o', ho', hr⟩ := (hq s).exists_reduced ho
    rw [hr.id_eq]
    exact h.mem_ids s o' ho'
  ids_seen id hid := hseen (h.ids_seen id hid)
  before s := by
    -- priority only depends on what a partial fill keeps
    let key (o : OrderView) : Price × OrderId := (o.limitPrice, o.id)
    let before (x y : Price × OrderId) : Prop :=
      s.lt x.1 y.1 ∨ x.1 = y.1 ∧ ids.idxOf x.2 < ids.idxOf y.2
    have hmap : ((p.queue s).map key).Pairwise before := List.pairwise_map.mpr (h.before s)
    have hsublist : ((p'.queue s).map key).Sublist ((p.queue s).map key) :=
      (hq s).map_sublist fun o o' hr => Prod.ext hr.limitPrice_eq hr.id_eq
    have hleft := hmap.sublist hsublist
    rw [List.pairwise_map] at hleft
    exact hleft

/-- Identifiers that are accepted later do not change the order of those before. -/
theorem Before.append {s : BookSide} {a a' : OrderView} (h : Before s ids a a') (ha : a.id ∈ ids)
    (ha' : a'.id ∈ ids) (ids' : List OrderId) : Before s (ids ++ ids') a a' := by
  rw [Before, List.idxOf_append_of_mem ha, List.idxOf_append_of_mem ha']
  exact h

theorem Aged.append (h : Aged ids p) (id : OrderId) (hid : id ∈ p.seenOrderIds) :
    Aged (ids ++ [id]) p where
  mem_ids s o ho := List.mem_append_left _ (h.mem_ids s o ho)
  ids_seen id' hid' := by
    rcases List.mem_append.mp hid' with hid' | hid'
    · exact h.ids_seen id' hid'
    · exact List.mem_singleton.mp hid' ▸ hid
  before s := (h.before s).imp_of_mem fun ha ha' hbefore =>
    hbefore.append (h.mem_ids s _ ha) (h.mem_ids s _ ha') [id]

/-- A new order goes behind all orders of its price, which were accepted before it. -/
theorem Aged.insert {s : BookSide} {o : OrderView} (h : Aged ids p) (hp : p.WellFormed)
    (hid : o.id ∉ ids) (hseen : o.id ∈ p.seenOrderIds)
    (hown : p'.queue s = insertByPriority s o (p.queue s))
    (hother : p'.queue s.other = p.queue s.other) (hseen' : p'.seenOrderIds = p.seenOrderIds) :
    Aged (ids ++ [o.id]) p' := by
  have happend := h.append o.id hseen
  refine ⟨fun t a ha => ?_, fun id hid => hseen' ▸ happend.ids_seen id hid, fun t => ?_⟩
  · rcases s.eq_or_eq_other t with rfl | rfl
    · rw [hown, mem_insertByPriority] at ha
      rcases ha with rfl | ha
      · exact List.mem_append_right _ List.mem_cons_self
      · exact happend.mem_ids t a ha
    · rw [hother] at ha
      exact happend.mem_ids _ a ha
  · rcases s.eq_or_eq_other t with rfl | rfl
    · obtain ⟨q₁, q₂, hq, hinsert, hbefore, hafter⟩ := exists_insertByPriority_eq t o (hp.sorted t)
      have hold := happend.before t
      rw [hq, List.pairwise_append] at hold
      obtain ⟨hq₁, hq₂, hq₁₂⟩ := hold
      rw [hown, hinsert]
      refine List.pairwise_append.mpr
        ⟨hq₁, List.pairwise_cons.mpr ⟨fun a ha => Or.inl (hafter a ha), hq₂⟩, fun a ha a' ha' => ?_⟩
      rcases List.mem_cons.mp ha' with rfl | ha'
      · rcases trichotomous_of t.lt a.limitPrice a'.limitPrice with hlt | heq | hgt
        · exact Or.inl hlt
        · have hmem : a.id ∈ ids := h.mem_ids t a (hq ▸ List.mem_append_left _ ha)
          refine Or.inr ⟨heq, ?_⟩
          rw [List.idxOf_append_of_mem hmem, List.idxOf_append_of_notMem hid]
          exact (List.idxOf_lt_length_of_mem hmem).trans_le (Nat.le_add_right _ _)
        · exact absurd hgt (hbefore a ha)
      · exact hq₁₂ a ha a' ha'
    · rw [hother]
      exact happend.before _

theorem Aged.accept (h : Aged ids p) (hp : p.WellFormed) (ha : p.Acceptable order) :
    Aged (ids ++ [order.id]) (p.accept order (p.fillFor order)) := by
  have hm : Aged ids (p.matched order (p.fillFor order)) :=
    h.of_shrinks matched_shrinks (Finset.subset_insert _ _)
  have hseen : order.id ∈ (p.matched order (p.fillFor order)).seenOrderIds :=
    Finset.mem_insert_self _ _
  by_cases hrem : 0 < (p.fillFor order).remaining.units
  · rw [PriorityBook.accept, if_pos hrem]
    refine hm.insert (hp.matched ha.id_ne_zero) (s := .ofSide order.side)
      (o := residual order (p.fillFor order).remaining) (fun hid => ?_) hseen ?_ ?_ ?_
    · exact ha.id_notMem_seen (h.ids_seen _ hid)
    all_goals
      rw [rested]
      cases BookSide.ofSide order.side <;> rfl
  · rw [PriorityBook.accept, if_neg hrem]
    exact hm.append order.id hseen

/-- One command keeps the order of priority. -/
theorem Applied.aged {command : JournalCommand} {result : BatchCommandResult}
    (happlied : p.Applied command result p') (hp : p.WellFormed) (h : Aged ids p) :
    Aged (ids ++ (Log.accepted [(command, result)]).map fun o => o.id) p' := by
  cases happlied with
  | rejected order reason => simpa [SubmitResult.rejected] using h
  | accepted order ha => simpa [acceptResult] using h.accept hp ha
  | notFound => simpa using h
  | cancelled o ho =>
    rw [Log.accepted_cons, Log.accepted_nil]
    simp only [Log.acceptedOf, Option.toList_none, List.append_nil, List.map_nil]
    refine h.of_shrinks (fun s => ?_) (Finset.Subset.refl _)
    rw [queue_remove]
    exact .of_sublist List.eraseP_sublist

end Aged

/-- A run keeps the order of priority. -/
theorem run_aged {ids : List OrderId} {p : PriorityBook} (hp : p.WellFormed) (h : Aged ids p)
    (commands : List JournalCommand) :
    Aged (ids ++ (p.log commands).accepted.map fun o => o.id) (p.run commands).2 := by
  refine run_induction hp commands (P := fun p log p' => ∀ ids, Aged ids p →
    Aged (ids ++ log.accepted.map fun o => o.id) p') (fun p ids h => by simpa using h)
    (fun p p' command log hp ih ids h => ?_) ids h
  have hrest := ih _ ((p.apply_applied command).aged hp h)
  rw [List.append_assoc, ← List.map_append, ← Log.accepted_append] at hrest
  exact hrest

/-- After every run on an empty book the queues are in the order of price and acceptance. -/
theorem run_before (commands : List JournalCommand) (s : BookSide) :
    ((fresh.run commands).2.queue s).Pairwise
      (Before s ((fresh.log commands).accepted.map fun o => o.id)) :=
  (run_aged fresh_wellFormed fresh_aged commands).before s

end PriorityBook

end MatchingEngine
