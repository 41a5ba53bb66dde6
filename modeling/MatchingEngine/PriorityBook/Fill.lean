import MatchingEngine.PriorityBook.Basic
import Mathlib.Tactic.Common

/-!
# What a fill does

Filling an incoming quantity takes complete orders from the head of a queue. Then it stops, either
because the quantity is used up or because the next order does not cross, or it takes the last of
the quantity from a part of the next order. `PriorityBook.Filling` says this with the trades that
are made, and the other facts about a fill follow from it by cases.

## Main definitions

* `PriorityBook.fullFills`: the trades that fill a list of orders completely.
* `PriorityBook.Filling`: the two ways in which a fill ends.

## Main results

* `PriorityBook.fill_filling`: every fill ends in one of the two ways.
* `PriorityBook.fill_append`: a fill goes through the parts of a queue one after the other.
-/

namespace MatchingEngine

namespace PriorityBook

section Fill

variable {crosses : Price → Bool} {taker : OrderId}

/-! ### One step -/

theorem fill_cons_of_stop {next : UInt64} {quantity : Quantity} {maker : OrderView}
    {makers : List OrderView} (h : quantity.units = 0 ∨ ¬ crosses maker.limitPrice) :
    fill crosses taker next quantity (maker :: makers) = ⟨[], quantity, maker :: makers⟩ := by
  rw [fill, if_pos h]

theorem fill_cons_of_le {next : UInt64} {quantity : Quantity} {maker : OrderView}
    {makers : List OrderView} (h : ¬ (quantity.units = 0 ∨ ¬ crosses maker.limitPrice))
    (hle : maker.remainingQuantity.units ≤ quantity.units) :
    fill crosses taker next quantity (maker :: makers) =
      let f := fill crosses taker (next + 1)
        ⟨quantity.units - maker.remainingQuantity.units⟩ makers
      ⟨⟨⟨next⟩, maker.id, taker, maker.limitPrice, maker.remainingQuantity⟩ :: f.trades,
        f.remaining, f.rest⟩ := by
  rw [fill, if_neg h, if_pos hle]

theorem fill_cons_of_not_le {next : UInt64} {quantity : Quantity} {maker : OrderView}
    {makers : List OrderView} (h : ¬ (quantity.units = 0 ∨ ¬ crosses maker.limitPrice))
    (hle : ¬ maker.remainingQuantity.units ≤ quantity.units) :
    fill crosses taker next quantity (maker :: makers) =
      ⟨[⟨⟨next⟩, maker.id, taker, maker.limitPrice, quantity⟩], ⟨0⟩,
        { maker with
          remainingQuantity := ⟨maker.remainingQuantity.units - quantity.units⟩ } :: makers⟩ := by
  rw [fill, if_neg h, if_neg hle]

theorem fill_of_zero {next : UInt64} {quantity : Quantity} {q : List OrderView}
    (h : quantity.units = 0) : fill crosses taker next quantity q = ⟨[], quantity, q⟩ := by
  cases q with
  | nil => rfl
  | cons maker makers => exact fill_cons_of_stop (Or.inl h)

theorem fill_trades_ne_nil {next : UInt64} {quantity : Quantity} {maker : OrderView}
    {makers : List OrderView} (h : ¬ (quantity.units = 0 ∨ ¬ crosses maker.limitPrice)) :
    (fill crosses taker next quantity (maker :: makers)).trades ≠ [] := by
  by_cases hle : maker.remainingQuantity.units ≤ quantity.units
  · rw [fill_cons_of_le h hle]
    exact List.cons_ne_nil _ _
  · rw [fill_cons_of_not_le h hle]
    exact List.cons_ne_nil _ _

/-- A fill goes through the first part of a queue and then through the second. -/
theorem fill_append {next : UInt64} {quantity : Quantity} {q q' : List OrderView}
    (hq : ∀ o ∈ q, crosses o.limitPrice) :
    fill crosses taker next quantity (q ++ q') =
      let f := fill crosses taker next quantity q
      let f' := fill crosses taker (next + UInt64.ofNat f.trades.length) f.remaining q'
      ⟨f.trades ++ f'.trades, f'.remaining, f.rest ++ f'.rest⟩ := by
  induction q generalizing next quantity with
  | nil => simp [fill]
  | cons maker makers ih =>
    obtain ⟨hmaker, hmakers⟩ := List.forall_mem_cons.mp hq
    by_cases hz : quantity.units = 0
    · simp [fill_of_zero hz]
    · have hgo : ¬ (quantity.units = 0 ∨ ¬ crosses maker.limitPrice) := by simp [hz, hmaker]
      by_cases hle : maker.remainingQuantity.units ≤ quantity.units
      · rw [List.cons_append, fill_cons_of_le hgo hle, fill_cons_of_le hgo hle]
        simp only [ih hmakers, List.cons_append, List.length_cons, UInt64.ofNat_add,
          UInt64.add_assoc, UInt64.reduceOfNat, UInt64.add_comm 1]
      · rw [List.cons_append, fill_cons_of_not_le hgo hle, fill_cons_of_not_le hgo hle]
        simp [fill_of_zero]

/-! ### The whole fill -/

/-- The quantity of a list of orders, without wrap-around. -/
def total (q : List OrderView) : ℕ := (q.map fun o => o.remainingQuantity.toNat).sum

@[simp] theorem total_nil : total [] = 0 := rfl

@[simp] theorem total_cons (o : OrderView) (q : List OrderView) :
    total (o :: q) = o.remainingQuantity.toNat + total q := by
  simp [total]

theorem length_le_total {q : List OrderView} (h : ∀ o ∈ q, 0 < o.remainingQuantity.toNat) :
    q.length ≤ total q := by
  have hle := List.length_le_sum_of_one_le (q.map fun o => o.remainingQuantity.toNat)
    (List.forall_mem_map.mpr h)
  rwa [List.length_map] at hle

/-- The trades that fill the given orders completely, one after the other. -/
def fullFills (taker : OrderId) : UInt64 → List OrderView → List Trade
  | _, [] => []
  | next, maker :: makers =>
    ⟨⟨next⟩, maker.id, taker, maker.limitPrice, maker.remainingQuantity⟩ ::
      fullFills taker (next + 1) makers

@[simp] theorem length_fullFills (next : UInt64) (q : List OrderView) :
    (fullFills taker next q).length = q.length := by
  induction q generalizing next with
  | nil => rfl
  | cons maker makers ih => rw [fullFills, List.length_cons, List.length_cons, ih]

/-- How a fill of `quantity` from a queue ends: it fills some orders completely and stops, or it
then takes a part of the next one. -/
inductive Filling (crosses : Price → Bool) (taker : OrderId) (next : UInt64)
    (quantity : Quantity) : List OrderView → Fill → Prop
  | stop (filled rest : List OrderView) (remaining : Quantity)
      (hcross : ∀ o ∈ filled, crosses o.limitPrice)
      (hquantity : quantity.toNat = total filled + remaining.toNat)
      (hend : remaining.units = 0 ∨ ∀ o ∈ rest.head?, ¬ crosses o.limitPrice) :
      Filling crosses taker next quantity (filled ++ rest)
        ⟨fullFills taker next filled, remaining, rest⟩
  | part (filled makers : List OrderView) (maker : OrderView) (executed left : Quantity)
      (hcross : ∀ o ∈ filled, crosses o.limitPrice) (hmaker : crosses maker.limitPrice)
      (hexecuted : 0 < executed.toNat) (hleft : 0 < left.toNat)
      (hsum : executed.toNat + left.toNat = maker.remainingQuantity.toNat)
      (hquantity : quantity.toNat = total filled + executed.toNat) :
      Filling crosses taker next quantity (filled ++ maker :: makers)
        ⟨fullFills taker next filled ++
            [⟨⟨next + UInt64.ofNat filled.length⟩, maker.id, taker, maker.limitPrice, executed⟩],
          ⟨0⟩, { maker with remainingQuantity := left } :: makers⟩

/-- Filling one more order in front. -/
theorem Filling.cons {next : UInt64} {quantity left : Quantity} {maker : OrderView}
    {q : List OrderView} {f : Fill} (h : Filling crosses taker (next + 1) left q f)
    (hmaker : crosses maker.limitPrice)
    (hleft : quantity.toNat = maker.remainingQuantity.toNat + left.toNat) :
    Filling crosses taker next quantity (maker :: q)
      ⟨⟨⟨next⟩, maker.id, taker, maker.limitPrice, maker.remainingQuantity⟩ :: f.trades,
        f.remaining, f.rest⟩ := by
  cases h with
  | stop filled rest remaining hcross hquantity hend =>
    exact .stop (maker :: filled) rest remaining (List.forall_mem_cons.mpr ⟨hmaker, hcross⟩)
      (by rw [total_cons]; omega) hend
  | part filled makers maker' executed left' hcross hmaker' hexecuted hleft' hsum hquantity =>
    have hnext : next + 1 + UInt64.ofNat filled.length =
        next + UInt64.ofNat (maker :: filled).length := by
      rw [List.length_cons, UInt64.ofNat_add, UInt64.add_assoc, UInt64.add_comm 1]
      rfl
    rw [hnext]
    exact .part (maker :: filled) makers maker' executed left'
      (List.forall_mem_cons.mpr ⟨hmaker, hcross⟩) hmaker' hexecuted hleft' hsum
      (by rw [total_cons]; omega)

variable (crosses) (taker)

theorem fill_filling (next : UInt64) (quantity : Quantity) (q : List OrderView) :
    Filling crosses taker next quantity q (fill crosses taker next quantity q) := by
  induction q generalizing next quantity with
  | nil => exact .stop [] [] quantity (by simp) (by simp) (by simp)
  | cons maker makers ih =>
    by_cases hstop : quantity.units = 0 ∨ ¬ crosses maker.limitPrice
    · rw [fill_cons_of_stop hstop]
      exact .stop [] (maker :: makers) quantity (by simp) (by simp) (by simpa using hstop)
    · have hcross : crosses maker.limitPrice = true := by simpa using (not_or.mp hstop).2
      by_cases hle : maker.remainingQuantity.units ≤ quantity.units
      · rw [fill_cons_of_le hstop hle]
        have hle' := Quantity.units_le_iff.mp hle
        exact (ih (next + 1) _).cons hcross (by rw [Quantity.toNat_sub hle]; omega)
      · rw [fill_cons_of_not_le hstop hle]
        have hlt := Nat.lt_of_not_le (mt Quantity.units_le_iff.mpr hle)
        have hpos : 0 < quantity.toNat :=
          Nat.pos_of_ne_zero (mt Quantity.units_eq_zero_iff.mpr (not_or.mp hstop).1)
        have hleft := Quantity.toNat_sub (Quantity.units_le_iff.mpr hlt.le)
        have hpart : Filling crosses taker next quantity ([] ++ maker :: makers) _ :=
          .part [] makers maker quantity ⟨maker.remainingQuantity.units - quantity.units⟩ (by simp)
            hcross hpos (by omega) (by omega) (by simp)
        simpa [fullFills] using hpart

variable {crosses} {taker} {next : UInt64} {quantity : Quantity} {q : List OrderView} {f : Fill}

/-- Every trade of a fill has a maker of its own. -/
theorem Filling.length_le (h : Filling crosses taker next quantity q f) :
    f.trades.length ≤ q.length := by
  cases h <;> simp

theorem Filling.remaining_le (h : Filling crosses taker next quantity q f) :
    f.remaining.toNat ≤ quantity.toNat := by
  cases h with
  | stop filled rest remaining hcross hquantity hend => simp [hquantity]
  | part => simp

/-- Every trade takes at least one unit. -/
theorem Filling.length_add_remaining_le (h : Filling crosses taker next quantity q f)
    (hpos : ∀ o ∈ q, 0 < o.remainingQuantity.toNat) :
    f.trades.length + f.remaining.toNat ≤ quantity.toNat := by
  cases h with
  | stop filled rest remaining hcross hquantity hend =>
    have hle := length_le_total fun o ho => hpos o (List.mem_append_left _ ho)
    rw [length_fullFills]
    dsimp only
    omega
  | part filled makers maker executed left hcross hmaker hexecuted hleft hsum hquantity =>
    have hle := length_le_total fun o ho => hpos o (List.mem_append_left _ ho)
    simp only [List.length_append, length_fullFills, List.length_singleton, Quantity.toNat_mk,
      UInt64.toNat_zero]
    omega

end Fill

/-! ### Trade identifiers -/

theorem IdsAvailable.of_succ {next : UInt64} {count : ℕ}
    (h : IdsAvailable next (count + 1)) : next ≠ 0 ∧ IdsAvailable (next + 1) count := by
  obtain h | ⟨hne, hle⟩ := h
  · exact absurd h (Nat.succ_ne_zero count)
  · refine ⟨hne, ?_⟩
    rcases Nat.eq_zero_or_pos count with hz | hpos
    · exact Or.inl hz
    · have hadd : (next + 1).toNat = next.toNat + 1 := by
        rw [UInt64.toNat_add, UInt64.toNat_one]
        exact Nat.mod_eq_of_lt (by omega)
      refine Or.inr ⟨fun hzero => ?_, by omega⟩
      rw [hzero, UInt64.toNat_zero] at hadd
      omega

theorem IdsAvailable.succ {next : UInt64} {count : ℕ} (hne : next ≠ 0)
    (h : IdsAvailable (next + 1) count) : IdsAvailable next (count + 1) := by
  have hlt := next.toNat_lt
  refine Or.inr ⟨hne, ?_⟩
  obtain rfl | ⟨hne', hle⟩ := h
  · omega
  · have hadd : (next + 1).toNat = (next.toNat + 1) % 2 ^ 64 := UInt64.toNat_add ..
    have hne'' : (next + 1).toNat ≠ 0 := fun h0 => hne' (UInt64.toNat_inj.mp h0)
    omega

end PriorityBook

end MatchingEngine
