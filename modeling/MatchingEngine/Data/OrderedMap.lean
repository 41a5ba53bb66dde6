import Mathlib.Order.RelClasses
import Mathlib.Order.Lattice
import Mathlib.Data.List.Basic

/-!
# Ordered associative containers

An ordered map keeps its entries in a list that is strictly sorted by a comparator `lt`. Iterating
over the container is reading the list from its head, so `front?` is the entry with the least key.
The comparator is a parameter: a container sorted by `(· < ·)` lists its keys from the smallest,
one sorted by `(· > ·)` from the largest.

A key `k` splits the entries into those before it, those after it, and the entry of `k` itself if
there is one. Every operation on `k` is stated with this split.

## Main definitions

* `OrderedMap`: the entries together with the proof that they are sorted.
* `OrderedMap.find?`, `OrderedMap.front?`: lookup and the first entry.
* `OrderedMap.insertOrAssign`, `OrderedMap.tryEmplace`, `OrderedMap.erase`.

## Main results

* `OrderedMap.entries_eq_of_find?_some`, `OrderedMap.entries_eq_of_find?_none`: the split of the
  entries at a key.
* `OrderedMap.before_of_entries_cons`: nothing is before the first key.
* `OrderedMap.insertOrAssign_tryEmplace`: emplacing a key and then assigning to it.
-/

/-- The entries of an ordered container, strictly sorted by `lt`. -/
@[ext] structure OrderedMap (κ ν : Type*) (lt : κ → κ → Prop) where
  entries : List (κ × ν)
  sorted : entries.Pairwise fun a b => lt a.1 b.1

namespace OrderedMap

variable {κ ν : Type*} {lt : κ → κ → Prop}

/-- The container with no entry. -/
def empty : OrderedMap κ ν lt := ⟨[], .nil⟩

@[simp] theorem entries_empty : (empty : OrderedMap κ ν lt).entries = [] := rfl

instance [DecidableEq κ] [DecidableEq ν] : DecidableEq (OrderedMap κ ν lt) := fun m m' =>
  decidable_of_iff (m.entries = m'.entries) OrderedMap.ext_iff.symm

/-- The first entry, `*begin()`, if the container is not empty. -/
def front? (m : OrderedMap κ ν lt) : Option (κ × ν) := m.entries.head?

/-- The value stored under a key. -/
def find? [DecidableEq κ] (m : OrderedMap κ ν lt) (k : κ) : Option ν :=
  (m.entries.find? fun e => e.1 = k).map Prod.snd

variable [DecidableRel lt]

/-- The entries whose keys come before `k`. -/
def before (m : OrderedMap κ ν lt) (k : κ) : List (κ × ν) := m.entries.filter fun e => lt e.1 k

/-- The entries whose keys come after `k`. -/
def after (m : OrderedMap κ ν lt) (k : κ) : List (κ × ν) := m.entries.filter fun e => lt k e.1

theorem mem_before {m : OrderedMap κ ν lt} {k : κ} {e : κ × ν} :
    e ∈ m.before k ↔ e ∈ m.entries ∧ lt e.1 k := by
  simp [before]

theorem mem_after {m : OrderedMap κ ν lt} {k : κ} {e : κ × ν} :
    e ∈ m.after k ↔ e ∈ m.entries ∧ lt k e.1 := by
  simp [after]

theorem before_sublist (m : OrderedMap κ ν lt) (k : κ) : (m.before k).Sublist m.entries :=
  List.filter_sublist

theorem after_sublist (m : OrderedMap κ ν lt) (k : κ) : (m.after k).Sublist m.entries :=
  List.filter_sublist

variable [IsStrictTotalOrder κ lt]

theorem lt_of_mem_before_of_mem_after {m : OrderedMap κ ν lt} {k : κ} {a b : κ × ν}
    (ha : a ∈ m.before k) (hb : b ∈ m.after k) : lt a.1 b.1 :=
  IsTrans.trans _ _ _ (mem_before.mp ha).2 (mem_after.mp hb).2

/-- Store `v` under `k`, replacing the value that was there. -/
def insertOrAssign (m : OrderedMap κ ν lt) (k : κ) (v : ν) : OrderedMap κ ν lt where
  entries := m.before k ++ (k, v) :: m.after k
  sorted := by
    refine List.pairwise_append.mpr ⟨m.sorted.sublist (m.before_sublist k), ?_, ?_⟩
    · exact List.pairwise_cons.mpr
        ⟨fun b hb => (mem_after.mp hb).2, m.sorted.sublist (m.after_sublist k)⟩
    · intro a ha b hb
      rcases List.mem_cons.mp hb with rfl | hb
      · exact (mem_before.mp ha).2
      · exact lt_of_mem_before_of_mem_after ha hb

/-- Remove the entry of `k`, if there is one. -/
def erase (m : OrderedMap κ ν lt) (k : κ) : OrderedMap κ ν lt where
  entries := m.before k ++ m.after k
  sorted := List.pairwise_append.mpr ⟨m.sorted.sublist (m.before_sublist k),
    m.sorted.sublist (m.after_sublist k), fun _ ha _ hb => lt_of_mem_before_of_mem_after ha hb⟩

@[simp] theorem entries_insertOrAssign (m : OrderedMap κ ν lt) (k : κ) (v : ν) :
    (m.insertOrAssign k v).entries = m.before k ++ (k, v) :: m.after k := rfl

@[simp] theorem entries_erase (m : OrderedMap κ ν lt) (k : κ) :
    (m.erase k).entries = m.before k ++ m.after k := rfl

omit [DecidableRel lt] in
private theorem ne_of_lt' {a b : κ} (h : lt a b) : a ≠ b := fun hab =>
  irrefl (r := lt) b (hab ▸ h)

/-- A sorted list is its part before `k`, its part at `k` and its part after `k`. -/
private theorem split_sorted [DecidableEq κ] (k : κ) (es : List (κ × ν))
    (hs : es.Pairwise fun a b => lt a.1 b.1) :
    es = es.filter (fun e => lt e.1 k) ++
      (es.find? fun e => e.1 = k).toList ++ es.filter fun e => lt k e.1 := by
  induction es with
  | nil => rfl
  | cons e es ih =>
    obtain ⟨hhead, htail⟩ := List.pairwise_cons.mp hs
    have ih := ih htail
    rcases trichotomous_of lt e.1 k with hlt | heq | hgt
    · have hne : e.1 ≠ k := ne_of_lt' hlt
      have hng : ¬ lt k e.1 := asymm hlt
      simpa [hlt, hne, hng] using ih
    · -- every later key comes after `k`, so nothing is before it
      subst heq
      have hirr : ¬ lt e.1 e.1 := irrefl _
      have hbefore : es.filter (fun a => lt a.1 e.1) = [] := by
        simpa using fun a b hab => asymm (hhead (a, b) hab)
      have hafter : es.filter (fun a => lt e.1 a.1) = es := by
        simpa using fun a b hab => hhead (a, b) hab
      simp [hirr, hbefore, hafter]
    · have hafter : ∀ a ∈ es, lt k a.1 := fun a ha => IsTrans.trans _ _ _ hgt (hhead a ha)
      have hbefore : es.filter (fun a => lt a.1 k) = [] := by
        simpa using fun a b hab => asymm (hafter (a, b) hab)
      have hfind : es.find? (fun a => a.1 = k) = none := by
        simpa using fun a b hab => (ne_of_lt' (hafter (a, b) hab)).symm
      have hall : es.filter (fun a => lt k a.1) = es := by
        simpa using fun a b hab => hafter (a, b) hab
      have hne : e.1 ≠ k := (ne_of_lt' hgt).symm
      have hng : ¬ lt e.1 k := asymm hgt
      simp [hgt, hne, hng, hbefore, hfind, hall]

section Find

variable [DecidableEq κ] {m : OrderedMap κ ν lt} {k : κ} {v : ν}

/-- The entries around a key that is present. -/
theorem entries_eq_of_find?_some (h : m.find? k = some v) :
    m.entries = m.before k ++ (k, v) :: m.after k := by
  have hs := split_sorted k m.entries m.sorted
  obtain ⟨e, he, rfl⟩ := Option.map_eq_some_iff.mp h
  have hk : e.1 = k := by simpa using List.find?_some he
  rw [he] at hs
  simpa [before, after, ← hk] using hs

/-- The entries around a key that is absent. -/
theorem entries_eq_of_find?_none (h : m.find? k = none) :
    m.entries = m.before k ++ m.after k := by
  have hs := split_sorted k m.entries m.sorted
  rw [Option.map_eq_none_iff.mp h] at hs
  simpa [before, after] using hs

theorem mem_of_find?_some (h : m.find? k = some v) : (k, v) ∈ m.entries := by
  rw [entries_eq_of_find?_some h]
  simp

theorem find?_eq_some_of_mem (h : (k, v) ∈ m.entries) : m.find? k = some v := by
  cases hf : m.find? k with
  | none =>
    rw [entries_eq_of_find?_none hf, List.mem_append, mem_before, mem_after] at h
    rcases h with ⟨-, h⟩ | ⟨-, h⟩ <;> exact absurd rfl (ne_of_lt' h)
  | some w =>
    rw [entries_eq_of_find?_some hf, List.mem_append, List.mem_cons, mem_before, mem_after] at h
    rcases h with ⟨-, h⟩ | h | ⟨-, h⟩
    · exact absurd rfl (ne_of_lt' h)
    · exact congrArg some (Prod.ext_iff.mp h).2.symm
    · exact absurd rfl (ne_of_lt' h)

theorem find?_eq_some_iff : m.find? k = some v ↔ (k, v) ∈ m.entries :=
  ⟨mem_of_find?_some, find?_eq_some_of_mem⟩

theorem find?_of_entries_cons {es : List (κ × ν)} (h : m.entries = (k, v) :: es) :
    m.find? k = some v :=
  find?_eq_some_of_mem (h ▸ List.mem_cons_self)

omit [DecidableEq κ] in
theorem before_of_entries_cons {es : List (κ × ν)} (h : m.entries = (k, v) :: es) :
    m.before k = [] := by
  have hs := m.sorted
  rw [h, List.pairwise_cons] at hs
  have hirr : ¬ lt k k := irrefl _
  simpa [before, h, hirr] using fun a b hab => asymm (hs.1 (a, b) hab)

omit [DecidableEq κ] in
/-- The entries of other keys are before or after. -/
theorem mem_before_or_mem_after {e : κ × ν} (hne : e.1 ≠ k) :
    e ∈ m.before k ∨ e ∈ m.after k ↔ e ∈ m.entries := by
  rw [mem_before, mem_after, ← and_or_left, and_iff_left_iff_imp]
  exact fun _ => (trichotomous_of lt e.1 k).imp_right fun h => h.resolve_left hne

theorem find?_insertOrAssign_self (m : OrderedMap κ ν lt) (k : κ) (v : ν) :
    (m.insertOrAssign k v).find? k = some v :=
  find?_eq_some_of_mem (by simp)

theorem find?_insertOrAssign_of_ne {k' : κ} (hne : k' ≠ k) :
    (m.insertOrAssign k v).find? k' = m.find? k' := by
  refine Option.ext fun w => ?_
  rw [find?_eq_some_iff, find?_eq_some_iff, entries_insertOrAssign,
    ← mem_before_or_mem_after (m := m) hne]
  simp [hne]

theorem find?_erase_self (m : OrderedMap κ ν lt) (k : κ) : (m.erase k).find? k = none := by
  refine Option.eq_none_iff_forall_ne_some.mpr fun v hv => ?_
  rw [find?_eq_some_iff, entries_erase, List.mem_append, mem_before, mem_after] at hv
  rcases hv with ⟨-, h⟩ | ⟨-, h⟩ <;> exact absurd rfl (ne_of_lt' h)

theorem find?_erase_of_ne {k' : κ} (hne : k' ≠ k) : (m.erase k).find? k' = m.find? k' := by
  refine Option.ext fun w => ?_
  rw [find?_eq_some_iff, find?_eq_some_iff, entries_erase, List.mem_append,
    mem_before_or_mem_after (m := m) hne]

end Find

/-- Store `v` under `k` unless the key is already present. -/
def tryEmplace [DecidableEq κ] (m : OrderedMap κ ν lt) (k : κ) (v : ν) : OrderedMap κ ν lt :=
  match m.find? k with
  | some _ => m
  | none => m.insertOrAssign k v

theorem before_insertOrAssign (m : OrderedMap κ ν lt) (k : κ) (v : ν) :
    (m.insertOrAssign k v).before k = m.before k := by
  have hirr : ¬ lt k k := irrefl _
  have hafter : (m.after k).filter (fun e => lt e.1 k) = [] := by
    simpa using fun a b hab => asymm (mem_after.mp hab).2
  simp only [before, entries_insertOrAssign] at hafter ⊢
  simp [hirr, hafter]

theorem after_insertOrAssign (m : OrderedMap κ ν lt) (k : κ) (v : ν) :
    (m.insertOrAssign k v).after k = m.after k := by
  have hirr : ¬ lt k k := irrefl _
  have hbefore : (m.before k).filter (fun e => lt k e.1) = [] := by
    simpa using fun a b hab => asymm (mem_before.mp hab).2
  simp only [after, entries_insertOrAssign] at hbefore ⊢
  simp [hirr, hbefore]

theorem erase_insertOrAssign (m : OrderedMap κ ν lt) (k : κ) (v : ν) :
    (m.insertOrAssign k v).erase k = m.erase k := by
  ext1
  simp only [entries_erase, before_insertOrAssign, after_insertOrAssign]

theorem insertOrAssign_insertOrAssign (m : OrderedMap κ ν lt) (k : κ) (v w : ν) :
    (m.insertOrAssign k v).insertOrAssign k w = m.insertOrAssign k w := by
  ext1
  simp only [entries_insertOrAssign, before_insertOrAssign, after_insertOrAssign]

theorem insertOrAssign_of_find?_some [DecidableEq κ] {m : OrderedMap κ ν lt} {k : κ} {v : ν}
    (h : m.find? k = some v) : m.insertOrAssign k v = m :=
  OrderedMap.ext (entries_eq_of_find?_some h).symm

theorem erase_of_find?_none [DecidableEq κ] {m : OrderedMap κ ν lt} {k : κ}
    (h : m.find? k = none) : m.erase k = m :=
  OrderedMap.ext (entries_eq_of_find?_none h).symm

/-- Assigning after an emplacement leaves no trace of the emplaced value. -/
theorem insertOrAssign_tryEmplace [DecidableEq κ] (m : OrderedMap κ ν lt) (k : κ) (v w : ν) :
    (m.tryEmplace k v).insertOrAssign k w = m.insertOrAssign k w := by
  unfold tryEmplace
  split
  · rfl
  · exact insertOrAssign_insertOrAssign ..

theorem find?_tryEmplace [DecidableEq κ] (m : OrderedMap κ ν lt) (k : κ) (v : ν) :
    (m.tryEmplace k v).find? k = some ((m.find? k).getD v) := by
  unfold tryEmplace
  split
  · next w h => rw [h, Option.getD_some]
  · next h =>
    rw [h, Option.getD_none]
    exact find?_insertOrAssign_self ..

/-- Erasing the key again if it was absent undoes an emplacement. -/
theorem undo_tryEmplace [DecidableEq κ] (m : OrderedMap κ ν lt) (k : κ) (v : ν) :
    (if (m.find? k).isNone then (m.tryEmplace k v).erase k else m.tryEmplace k v) = m := by
  unfold tryEmplace
  cases hfind : m.find? k with
  | none =>
    rw [if_pos (by rfl), erase_insertOrAssign]
    exact erase_of_find?_none hfind
  | some w => exact if_neg (by simp)

/-- Assigning the value of an emplacement again undoes an assignment. -/
theorem undo_insertOrAssign [DecidableEq κ] (m : OrderedMap κ ν lt) (k : κ) (v w : ν) :
    ((m.tryEmplace k v).insertOrAssign k w).insertOrAssign k
      (((m.tryEmplace k v).find? k).getD v) = m.tryEmplace k v := by
  rw [insertOrAssign_insertOrAssign]
  refine insertOrAssign_of_find?_some ?_
  rw [find?_tryEmplace, Option.getD_some]

end OrderedMap
