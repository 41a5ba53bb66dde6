import MatchingEngine.Data.OrderedMap

/-!
# Ordered maps of buckets

A container whose values hold lists of items, each item under its own key, stores one flat list:
the items of the first key, then those of the second, and so on. An operation on the bucket of a
key acts on the segment of the flat list that belongs to the key.

When every item is stored under its own key and no bucket is empty, the flat list determines the
buckets. Two containers with different values that store the same flat list are therefore divided
into the same buckets.

## Main definitions

* `OrderedMap.flat`, `OrderedMap.flatBefore`, `OrderedMap.flatAfter`, `OrderedMap.bucket`.
* `OrderedMap.put`: replace a bucket, or erase its key when nothing is left.
* `OrderedMap.Bucketed`: no bucket is empty, and every item is stored under its own key.
* `OrderedMap.mapKeys`: the same values under other keys.

## Main results

* `OrderedMap.flat_eq`, `OrderedMap.flat_put`: the flat list around a key.
* `OrderedMap.find?_put_self`, `OrderedMap.find?_put_of_ne`: the buckets after one was replaced.
* `OrderedMap.Bucketed.filter_flat`: the items of a key are those of its bucket.
* `OrderedMap.Bucketed.eq_of_flat_eq`: the flat list determines the buckets.
-/

namespace OrderedMap

variable {κ ν α : Type*} {lt : κ → κ → Prop} (items : ν → List α)

/-- All items, bucket by bucket. -/
def flat (m : OrderedMap κ ν lt) : List α := m.entries.flatMap fun e => items e.2

theorem mem_flat {m : OrderedMap κ ν lt} {x : α} :
    x ∈ m.flat items ↔ ∃ e ∈ m.entries, x ∈ items e.2 := by
  rw [flat, List.mem_flatMap]

section Split

variable [DecidableRel lt] (m : OrderedMap κ ν lt) (k : κ)

/-- The items whose keys come before `k`. -/
def flatBefore : List α := (m.before k).flatMap fun e => items e.2

/-- The items whose keys come after `k`. -/
def flatAfter : List α := (m.after k).flatMap fun e => items e.2

/-- The items stored under `k`. -/
def bucket [DecidableEq κ] : List α := ((m.find? k).map items).getD []

variable [IsStrictTotalOrder κ lt]

theorem flat_eq [DecidableEq κ] :
    m.flat items = m.flatBefore items k ++ m.bucket items k ++ m.flatAfter items k := by
  unfold flat flatBefore flatAfter bucket
  cases hf : m.find? k with
  | none =>
    rw [entries_eq_of_find?_none hf]
    simp
  | some v =>
    rw [entries_eq_of_find?_some hf]
    simp

/-- Store a value under a key, or erase the key if the value has no item. -/
def put (v : ν) : OrderedMap κ ν lt :=
  if (items v).isEmpty then m.erase k else m.insertOrAssign k v

variable {m} {k} {items}

theorem flat_put (v : ν) :
    (m.put items k v).flat items = m.flatBefore items k ++ items v ++ m.flatAfter items k := by
  unfold put
  split
  · next h => simp [flat, flatBefore, flatAfter, List.isEmpty_iff.mp h]
  · simp [flat, flatBefore, flatAfter]

theorem find?_put_self [DecidableEq κ] (v : ν) :
    (m.put items k v).find? k = if (items v).isEmpty then none else some v := by
  unfold put
  split
  · exact find?_erase_self ..
  · exact find?_insertOrAssign_self ..

theorem find?_put_of_ne [DecidableEq κ] {k' : κ} (v : ν) (hne : k' ≠ k) :
    (m.put items k v).find? k' = m.find? k' := by
  unfold put
  split
  · exact find?_erase_of_ne hne
  · exact find?_insertOrAssign_of_ne hne

theorem mem_put {v : ν} {e : κ × ν} (h : e ∈ (m.put items k v).entries) :
    e ∈ m.entries ∨ e = (k, v) ∧ items v ≠ [] := by
  unfold put at h
  split at h
  · rw [entries_erase, List.mem_append, mem_before, mem_after] at h
    exact Or.inl (h.elim And.left And.left)
  · next hne =>
    rw [entries_insertOrAssign, List.mem_append, List.mem_cons, mem_before, mem_after] at h
    rcases h with h | h | h
    · exact Or.inl h.1
    · exact Or.inr ⟨h, fun hnil => hne (List.isEmpty_iff.mpr hnil)⟩
    · exact Or.inl h.1

end Split

/-! ### Items under their own keys -/

/-- No bucket is empty, and every item is stored under its own key. -/
structure Bucketed (key : α → κ) (m : OrderedMap κ ν lt) : Prop where
  items_ne_nil : ∀ e ∈ m.entries, items e.2 ≠ []
  key_eq : ∀ e ∈ m.entries, ∀ x ∈ items e.2, key x = e.1

namespace Bucketed

variable {items} {key : α → κ} {m : OrderedMap κ ν lt} [DecidableRel lt]

theorem lt_of_mem_flatBefore (h : m.Bucketed items key) {k : κ} {x : α}
    (hx : x ∈ m.flatBefore items k) : lt (key x) k := by
  obtain ⟨e, he, hx⟩ := List.mem_flatMap.mp hx
  obtain ⟨he, hlt⟩ := mem_before.mp he
  rwa [h.key_eq e he x hx]

theorem lt_of_mem_flatAfter (h : m.Bucketed items key) {k : κ} {x : α}
    (hx : x ∈ m.flatAfter items k) : lt k (key x) := by
  obtain ⟨e, he, hx⟩ := List.mem_flatMap.mp hx
  obtain ⟨he, hlt⟩ := mem_after.mp he
  rwa [h.key_eq e he x hx]

variable [DecidableEq κ] [IsStrictTotalOrder κ lt]

theorem key_eq_of_mem_bucket (h : m.Bucketed items key) {k : κ} {x : α}
    (hx : x ∈ m.bucket items k) : key x = k := by
  unfold bucket at hx
  cases hf : m.find? k with
  | none => simp [hf] at hx
  | some v =>
    rw [hf] at hx
    exact h.key_eq (k, v) (mem_of_find?_some hf) x hx

theorem mem_bucket (h : m.Bucketed items key) {x : α} (hx : x ∈ m.flat items) :
    x ∈ m.bucket items (key x) := by
  rw [m.flat_eq items (key x), List.mem_append, List.mem_append] at hx
  rcases hx with (hx | hx) | hx
  · exact absurd (h.lt_of_mem_flatBefore hx) (irrefl _)
  · exact hx
  · exact absurd (h.lt_of_mem_flatAfter hx) (irrefl _)

/-- The items of a key, wherever they are in the flat list, are those of its bucket. -/
theorem filter_flat (h : m.Bucketed items key) (k : κ) :
    (m.flat items).filter (fun x => key x = k) = m.bucket items k := by
  have hbefore : (m.flatBefore items k).filter (fun x => key x = k) = [] :=
    List.filter_eq_nil_iff.mpr fun x hx heq => by
      have hlt := h.lt_of_mem_flatBefore hx
      rw [of_decide_eq_true heq] at hlt
      exact irrefl _ hlt
  have hafter : (m.flatAfter items k).filter (fun x => key x = k) = [] :=
    List.filter_eq_nil_iff.mpr fun x hx heq => by
      have hlt := h.lt_of_mem_flatAfter hx
      rw [of_decide_eq_true heq] at hlt
      exact irrefl _ hlt
  have hat : (m.bucket items k).filter (fun x => key x = k) = m.bucket items k :=
    List.filter_eq_self.mpr fun x hx => by simpa using h.key_eq_of_mem_bucket hx
  rw [m.flat_eq items k, List.filter_append, List.filter_append, hbefore, hafter, hat,
    List.nil_append, List.append_nil]

end Bucketed

/-- The first bucket of a sorted list of buckets holds all items of its key. -/
private theorem filter_flatMap_cons {key : α → κ} [DecidableEq κ] [IsStrictTotalOrder κ lt]
    {e : κ × List α} {es : List (κ × List α)} (hs : (e :: es).Pairwise fun a b => lt a.1 b.1)
    (hkey : ∀ a ∈ e :: es, ∀ x ∈ a.2, key x = a.1) :
    ((e :: es).flatMap Prod.snd).filter (fun x => key x = e.1) = e.2 := by
  obtain ⟨hlt, -⟩ := List.pairwise_cons.mp hs
  obtain ⟨hhead, htail⟩ := List.forall_mem_cons.mp hkey
  rw [List.flatMap_cons, List.filter_append, List.filter_eq_self.mpr, List.filter_eq_nil_iff.mpr,
    List.append_nil]
  · intro x hx heq
    obtain ⟨a, ha, hx⟩ := List.mem_flatMap.mp hx
    have hlt := hlt a ha
    rw [← htail a ha x hx, of_decide_eq_true heq] at hlt
    exact irrefl _ hlt
  · exact fun x hx => decide_eq_true (hhead x hx)

/-- Sorted buckets are determined by their concatenation. -/
private theorem eq_of_flatMap_eq (key : α → κ) [DecidableEq κ] [IsStrictTotalOrder κ lt]
    {es es' : List (κ × List α)} (hs : es.Pairwise fun a b => lt a.1 b.1)
    (hs' : es'.Pairwise fun a b => lt a.1 b.1) (hne : ∀ e ∈ es, e.2 ≠ [])
    (hne' : ∀ e ∈ es', e.2 ≠ []) (hkey : ∀ e ∈ es, ∀ x ∈ e.2, key x = e.1)
    (hkey' : ∀ e ∈ es', ∀ x ∈ e.2, key x = e.1)
    (h : es.flatMap Prod.snd = es'.flatMap Prod.snd) : es = es' := by
  induction es generalizing es' with
  | nil =>
    cases es' with
    | nil => rfl
    | cons e' es' => exact absurd (List.append_eq_nil_iff.mp h.symm).1 (hne' e' List.mem_cons_self)
  | cons e es ih =>
    cases es' with
    | nil => exact absurd (List.append_eq_nil_iff.mp h).1 (hne e List.mem_cons_self)
    | cons e' es' =>
      have hfst : e.1 = e'.1 := by
        obtain ⟨x, xs, hx⟩ := List.exists_cons_of_ne_nil (hne e List.mem_cons_self)
        obtain ⟨x', xs', hx'⟩ := List.exists_cons_of_ne_nil (hne' e' List.mem_cons_self)
        rw [List.flatMap_cons, List.flatMap_cons, hx, hx', List.cons_append, List.cons_append,
          List.cons.injEq] at h
        rw [← hkey e List.mem_cons_self x (by simp [hx]),
          ← hkey' e' List.mem_cons_self x' (by simp [hx']), h.1]
      have hsnd : e.2 = e'.2 := by
        rw [← filter_flatMap_cons hs hkey, ← filter_flatMap_cons hs' hkey', h, hfst]
      have htail : es.flatMap Prod.snd = es'.flatMap Prod.snd := by
        rw [List.flatMap_cons, List.flatMap_cons, hsnd] at h
        exact List.append_cancel_left h
      rw [Prod.ext hfst hsnd, ih (List.pairwise_cons.mp hs).2 (List.pairwise_cons.mp hs').2
        (List.forall_mem_cons.mp hne).2 (List.forall_mem_cons.mp hne').2
        (List.forall_mem_cons.mp hkey).2 (List.forall_mem_cons.mp hkey').2 htail]

/-- The flat list determines the buckets, whatever else the values hold. -/
theorem Bucketed.eq_of_flat_eq {ν' : Type*} {items} {items' : ν' → List α} {key : α → κ}
    {m : OrderedMap κ ν lt} {m' : OrderedMap κ ν' lt} [DecidableEq κ] [IsStrictTotalOrder κ lt]
    (h : m.Bucketed items key) (h' : m'.Bucketed items' key)
    (hflat : m.flat items = m'.flat items') :
    m.entries.map (fun e => (e.1, items e.2)) = m'.entries.map fun e => (e.1, items' e.2) := by
  refine eq_of_flatMap_eq key (List.pairwise_map.mpr m.sorted) (List.pairwise_map.mpr m'.sorted)
    ?_ ?_ ?_ ?_ ?_
  · exact List.forall_mem_map.mpr h.items_ne_nil
  · exact List.forall_mem_map.mpr h'.items_ne_nil
  · exact List.forall_mem_map.mpr h.key_eq
  · exact List.forall_mem_map.mpr h'.key_eq
  · rw [List.flatMap_map, List.flatMap_map]
    exact hflat

/-! ### Other keys -/

section MapKeys

variable {κ' : Type*} {lt' : κ' → κ' → Prop} {f : κ → κ'} {m : OrderedMap κ ν lt}
  (hf : ∀ a ∈ m.entries, ∀ b ∈ m.entries, lt a.1 b.1 → lt' (f a.1) (f b.1))

/-- The same values under other keys that are in the same order. -/
def mapKeys (f : κ → κ') (m : OrderedMap κ ν lt)
    (hf : ∀ a ∈ m.entries, ∀ b ∈ m.entries, lt a.1 b.1 → lt' (f a.1) (f b.1)) :
    OrderedMap κ' ν lt' where
  entries := m.entries.map fun e => (f e.1, e.2)
  sorted := List.pairwise_map.mpr (m.sorted.imp_of_mem fun ha hb h => hf _ ha _ hb h)

theorem flat_mapKeys : (m.mapKeys f hf).flat items = m.flat items :=
  List.flatMap_map ..

/-- Items that are relabelled as their keys are stay under their own keys. -/
theorem Bucketed.mapKeys {β : Type*} {items} {key : α → κ} {g : α → β} {key' : β → κ'}
    (h : m.Bucketed items key) (hg : ∀ x, key' (g x) = f (key x)) :
    (m.mapKeys f hf).Bucketed (fun v => (items v).map g) key' where
  items_ne_nil := List.forall_mem_map.mpr fun e he hnil =>
    h.items_ne_nil e he (List.map_eq_nil_iff.mp hnil)
  key_eq := List.forall_mem_map.mpr fun e he => List.forall_mem_map.mpr fun x hx => by
    rw [hg, h.key_eq e he x hx]

end MapKeys

end OrderedMap
