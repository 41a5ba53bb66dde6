import Mathlib.Algebra.BigOperators.Group.List.Basic
import Mathlib.Algebra.Ring.Nat
import Mathlib.Data.Finmap
import Mathlib.Data.List.Nodup

/-!
# Lists with distinct keys

A list whose elements carry distinct keys behaves like a map from keys to elements: a search by key
finds the element with that key, and erasing by key removes exactly that element.

An index of such a list is a finite map from the keys to some value of the elements. Changes of the
list and of the index go together: an element is removed and its key erased, an element is added
and its key inserted, an element is replaced and its value updated.

## Main definitions

* `List.sumAt`: the sum of the values of the elements with a given key.
* `IsIndex`: a finite map holds the values of the elements of a list under their keys.

## Main results

* `List.eq_filter_append_filter_not`: the two parts of a list in which what is selected comes first.
* `List.find?_key`, `List.eraseP_key`: searching and erasing by key.
* `IsIndex.card_keys`: the index counts the elements.
* `IsIndex.erase_head`, `IsIndex.insert_head`, `IsIndex.replace_head`, `IsIndex.update_head`: the
  changes that keep an index.
-/

namespace List

/-- A list in which what is selected comes first is its two parts. -/
theorem eq_filter_append_filter_not {α : Type*} {select : α → Bool} {l : List α}
    (h : l.Pairwise fun a b => select b = true → select a = true) :
    l = l.filter select ++ l.filter fun a => ¬ select a := by
  induction l with
  | nil => rfl
  | cons a l ih =>
    obtain ⟨ha, hl⟩ := pairwise_cons.mp h
    by_cases hsel : select a = true
    · simpa [hsel] using ih hl
    · have hnone : l.filter select = [] :=
        filter_eq_nil_iff.mpr fun b hb hsel' => hsel (ha b hb hsel')
      have hall : l.filter (fun b => ¬ select b) = l :=
        filter_eq_self.mpr fun b hb => by simpa using fun h => hsel (ha b hb h)
      rw [filter_cons_of_neg hsel, hnone, nil_append,
        filter_cons_of_pos (by simpa using hsel), hall]

variable {α κ : Type*} [DecidableEq κ] (key : α → κ)

/-- The element with a given key is found. -/
theorem find?_key {l : List α} (h : (l.map key).Nodup) {x : α} (hx : x ∈ l) :
    l.find? (fun y => key y = key x) = some x := by
  obtain ⟨l₁, l₂, rfl⟩ := append_of_mem hx
  have hbefore : ∀ y ∈ l₁, key y ≠ key x := by
    rw [map_append, map_cons, nodup_append] at h
    exact fun y hy => h.2.2 _ (mem_map_of_mem hy) _ mem_cons_self
  rw [find?_append, find?_eq_none.mpr (by simpa using hbefore)]
  simp

/-- The element with a given key is erased, and nothing else. -/
theorem eraseP_key {l₁ l₂ : List α} {x : α} (h : ((l₁ ++ x :: l₂).map key).Nodup) :
    (l₁ ++ x :: l₂).eraseP (fun y => key y = key x) = l₁ ++ l₂ := by
  have hbefore : ∀ y ∈ l₁, key y ≠ key x := by
    rw [map_append, map_cons, nodup_append] at h
    exact fun y hy => h.2.2 _ (mem_map_of_mem hy) _ mem_cons_self
  rw [eraseP_append_right _ (by simpa using hbefore), eraseP_cons_of_pos (by simp)]

/-- Only the element with a given key is filtered out. -/
theorem filter_key_ne {l₁ l₂ : List α} {x : α} (h : ((l₁ ++ x :: l₂).map key).Nodup) :
    (l₁ ++ x :: l₂).filter (fun y => key y ≠ key x) = l₁ ++ l₂ := by
  rw [map_append, map_cons, nodup_append, nodup_cons] at h
  obtain ⟨-, ⟨hafter, -⟩, hbefore⟩ := h
  have hl₁ : ∀ y ∈ l₁, key y ≠ key x :=
    fun y hy => hbefore _ (mem_map_of_mem hy) _ mem_cons_self
  have hl₂ : ∀ y ∈ l₂, key y ≠ key x := fun y hy heq => hafter (mem_map.mpr ⟨y, hy, heq⟩)
  rw [filter_append, filter_cons_of_neg (by simp), filter_eq_self.mpr (by simpa using hl₁),
    filter_eq_self.mpr (by simpa using hl₂)]

theorem length_filter_key_le_one {l : List α} (h : (l.map key).Nodup) (k : κ) :
    (l.filter fun x => key x = k).length ≤ 1 := by
  have hle := nodup_iff_count_le_one.mp h k
  rwa [count, countP_map, countP_eq_length_filter] at hle

/-- The sum of the values of the elements with a given key. Keys need not be distinct. -/
def sumAt (val : α → ℕ) (k : κ) (l : List α) : ℕ := ((l.filter fun x => key x = k).map val).sum

section SumAt

variable (val : α → ℕ) (k : κ)

@[simp] theorem sumAt_nil : sumAt key val k [] = 0 := rfl

@[simp] theorem sumAt_cons (x : α) (l : List α) :
    sumAt key val k (x :: l) = (if key x = k then val x else 0) + sumAt key val k l := by
  unfold sumAt
  split <;> simp [*]

@[simp] theorem sumAt_append (l l' : List α) :
    sumAt key val k (l ++ l') = sumAt key val k l + sumAt key val k l' := by
  simp [sumAt]

theorem Perm.sumAt_eq {l l' : List α} (h : l.Perm l') : sumAt key val k l = sumAt key val k l' :=
  ((h.filter _).map val).sum_eq

variable {key} {val} {k}

theorem sumAt_eq_zero {l : List α} (h : ∀ x ∈ l, key x ≠ k) : sumAt key val k l = 0 := by
  rw [sumAt, filter_eq_nil_iff.mpr (by simpa using h), map_nil, sum_nil]

theorem val_le_sumAt {l : List α} {x : α} (hx : x ∈ l) : val x ≤ sumAt key val (key x) l := by
  obtain ⟨l₁, l₂, rfl⟩ := append_of_mem hx
  rw [sumAt_append, sumAt_cons, if_pos rfl]
  omega

end SumAt

end List

/-- The finite map `m` holds the values of the elements of `l` under their keys, which are
distinct, and nothing else. -/
structure IsIndex {α κ β : Type*} [DecidableEq κ] (key : α → κ) (val : α → β)
    (m : Finmap fun _ : κ => β) (l : List α) : Prop where
  keys_nodup : (l.map key).Nodup
  lookup_iff : ∀ k v, m.lookup k = some v ↔ ∃ x ∈ l, key x = k ∧ val x = v

namespace IsIndex

variable {α κ β : Type*} [DecidableEq κ] {key : α → κ} {val : α → β}
  {m : Finmap fun _ : κ => β} {l l' : List α} {x x' : α}

theorem empty : IsIndex key val ∅ [] := ⟨.nil, by simp⟩

theorem perm (h : IsIndex key val m l) (hp : l.Perm l') : IsIndex key val m l' where
  keys_nodup := (hp.map _).nodup_iff.mp h.keys_nodup
  lookup_iff k v := by simpa only [hp.mem_iff] using h.lookup_iff k v

theorem mem_iff (h : IsIndex key val m l) {k : κ} : k ∈ m ↔ ∃ x ∈ l, key x = k := by
  rw [← Finmap.lookup_isSome, Option.isSome_iff_exists]
  constructor
  · rintro ⟨v, hv⟩
    obtain ⟨x, hx, hk, -⟩ := (h.lookup_iff k v).mp hv
    exact ⟨x, hx, hk⟩
  · rintro ⟨x, hx, hk⟩
    exact ⟨val x, (h.lookup_iff k _).mpr ⟨x, hx, hk, rfl⟩⟩

/-- Every element is counted once. -/
theorem card_keys (h : IsIndex key val m l) : m.keys.card = l.length := by
  have hkeys : m.keys = (l.map key).toFinset := by
    ext k
    rw [Finmap.mem_keys, h.mem_iff, List.mem_toFinset, List.mem_map]
  rw [hkeys, List.toFinset_card_of_nodup h.keys_nodup, List.length_map]

theorem key_ne_of_mem_tail (h : IsIndex key val m (x :: l)) : ∀ y ∈ l, key y ≠ key x :=
  fun y hy heq => (List.nodup_cons.mp h.keys_nodup).1 (List.mem_map.mpr ⟨y, hy, heq⟩)

/-- Remove an element and erase its key. -/
theorem erase_head (h : IsIndex key val m (x :: l)) : IsIndex key val (m.erase (key x)) l where
  keys_nodup := (List.nodup_cons.mp h.keys_nodup).2
  lookup_iff k v := by
    by_cases hk : k = key x
    · subst hk
      rw [Finmap.lookup_erase]
      simpa using fun y hy heq => absurd heq (h.key_ne_of_mem_tail y hy)
    · rw [Finmap.lookup_erase_ne hk, h.lookup_iff]
      simp [Ne.symm hk]

/-- Insert a value under the key of the first element, which no other element has. -/
private theorem lookup_insert_iff (h : ∀ k v, k ≠ key x →
      (m.lookup k = some v ↔ ∃ y ∈ l, key y = k ∧ val y = v))
    (hkey : ∀ y ∈ l, key y ≠ key x) (k : κ) (v : β) :
    (m.insert (key x) (val x)).lookup k = some v ↔ ∃ y ∈ x :: l, key y = k ∧ val y = v := by
  by_cases heq : k = key x
  · subst heq
    rw [Finmap.lookup_insert, Option.some_inj]
    constructor
    · rintro rfl
      exact ⟨x, List.mem_cons_self, rfl, rfl⟩
    · rintro ⟨y, hy, hyk, rfl⟩
      rcases List.mem_cons.mp hy with rfl | hy
      · rfl
      · exact absurd hyk (hkey y hy)
  · rw [Finmap.lookup_insert_of_ne _ heq, h k v heq]
    simp [Ne.symm heq]

/-- Add an element with a new key. -/
theorem insert_head (h : IsIndex key val m l) (hkey : ∀ y ∈ l, key y ≠ key x) :
    IsIndex key val (m.insert (key x) (val x)) (x :: l) where
  keys_nodup := List.nodup_cons.mpr ⟨by simpa using hkey, h.keys_nodup⟩
  lookup_iff := lookup_insert_iff (fun k v _ => h.lookup_iff k v) hkey

/-- Replace an element by one with the same key, and update its value. -/
theorem update_head (h : IsIndex key val m (x :: l)) (x' : α) (hkey : key x' = key x) :
    IsIndex key val (m.insert (key x') (val x')) (x' :: l) where
  keys_nodup := by simpa only [List.map_cons, hkey] using h.keys_nodup
  lookup_iff := by
    refine lookup_insert_iff (fun k v hk => ?_) (hkey ▸ h.key_ne_of_mem_tail)
    rw [h.lookup_iff]
    simp [Ne.symm (hkey ▸ hk)]

/-- Replace an element by one with the same key and the same value. -/
theorem replace_head (h : IsIndex key val m (x :: l)) (hkey : key x' = key x)
    (hval : val x' = val x) : IsIndex key val m (x' :: l) where
  keys_nodup := by simpa only [List.map_cons, hkey] using h.keys_nodup
  lookup_iff k v := by
    rw [h.lookup_iff]
    simp only [List.mem_cons, exists_eq_or_imp, hkey, hval]

end IsIndex
