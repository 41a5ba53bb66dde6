import Mathlib.Data.List.Basic
import Mathlib.Data.Nat.Digits.Defs
import Mathlib.Tactic.Linarith
import Mathlib.Tactic.Ring
import Mathlib.Tactic.TypeStar

/-!
# Byte strings

Slices of a list, and the big-endian reading and writing of numbers.

## Main definitions

* `List.slice`: a number of elements from an offset on.
* `List.overwrite`: a list with a part of it replaced.
* `BigEndian.ofBytes`, `BigEndian.toBytes`: the number that a byte string denotes, and the byte
  string of a given length that denotes a number.

## Main results

* `List.slice_append_of_le`, `List.slice_middle`, `List.take_add_slice`.
* `List.slice_overwrite_within`, `List.slice_overwrite_before`, `List.slice_overwrite_after`.
* `BigEndian.ofBytes_toBytes`, `BigEndian.toBytes_ofBytes`: reading and writing are inverse.
-/

namespace List

variable {α : Type*}

/-- The `count` elements of a list from an offset on, as far as there are. -/
def slice (l : List α) (offset count : ℕ) : List α := (l.drop offset).take count

theorem length_slice {l : List α} {offset count : ℕ} (h : offset + count ≤ l.length) :
    (l.slice offset count).length = count := by
  rw [slice, length_take, length_drop]
  omega

theorem take_add_slice (l : List α) (offset count : ℕ) :
    l.take (offset + count) = l.take offset ++ l.slice offset count :=
  take_add

theorem slice_add (l : List α) (offset m n : ℕ) :
    l.slice offset (m + n) = l.slice offset m ++ l.slice (offset + m) n := by
  rw [slice, slice, slice, take_add, drop_drop]

theorem slice_append_of_le {l l' : List α} {offset count : ℕ} (h : offset + count ≤ l.length) :
    (l ++ l').slice offset count = l.slice offset count := by
  rw [slice, slice, drop_append_of_le_length (by omega), take_append_of_le_length]
  rw [length_drop]
  omega

theorem slice_append_right (l l' : List α) (offset count : ℕ) :
    (l ++ l').slice (l.length + offset) count = l'.slice offset count := by
  rw [slice, slice, drop_append, drop_eq_nil_of_le (Nat.le_add_right _ _), nil_append,
    Nat.add_sub_cancel_left]

/-- A part of a concatenation. -/
theorem slice_middle {a b c : List α} {offset count : ℕ} (ha : a.length = offset)
    (hb : b.length = count) : (a ++ b ++ c).slice offset count = b := by
  subst ha hb
  rw [slice_append_of_le (by rw [length_append])]
  exact (slice_append_right a b 0 b.length).trans (take_length)

theorem slice_take_of_le {l : List α} {offset count n : ℕ} (h : offset + count ≤ n) :
    (l.take n).slice offset count = l.slice offset count := by
  rw [slice, slice, drop_take, take_take, Nat.min_eq_left (by omega)]

theorem slice_eq_map_range {l : List α} {offset count : ℕ} (h : offset + count ≤ l.length)
    (d : α) : l.slice offset count = (range count).map fun i => l.getD (offset + i) d := by
  refine ext_getElem (by rw [length_slice h, length_map, length_range]) fun i hi _ => ?_
  rw [length_slice h] at hi
  have hlt : offset + i < l.length := by omega
  simp only [slice, getElem_take, getElem_drop, getElem_map, getElem_range,
    getD_eq_getElem?_getD, getElem?_eq_getElem hlt, Option.getD_some]

theorem modify_append_right (l l' : List α) (i : ℕ) (f : α → α) :
    (l ++ l').modify (l.length + i) f = l ++ l'.modify i f := by
  rw [modify_eq_take_drop, modify_eq_take_drop, take_length_add_append, drop_length_add_append,
    append_assoc]

/-! ### Overwriting -/

/-- Replace a part of a list by another one of the same length. -/
def overwrite (l : List α) (offset : ℕ) (burst : List α) : List α :=
  l.take offset ++ burst ++ l.drop (offset + burst.length)

section Overwrite

variable {l l' burst : List α} {offset o n : ℕ}

theorem length_overwrite (h : offset + burst.length ≤ l.length) :
    (l.overwrite offset burst).length = l.length := by
  rw [overwrite, length_append, length_append, length_take, length_drop]
  omega

theorem overwrite_append_of_le (h : offset + burst.length ≤ l.length) :
    (l ++ l').overwrite offset burst = l.overwrite offset burst ++ l' := by
  rw [overwrite, overwrite, take_append_of_le_length (by omega), drop_append_of_le_length h,
    append_assoc _ _ l']

theorem overwrite_append_right (l l' : List α) (offset : ℕ) (burst : List α) :
    (l ++ l').overwrite (l.length + offset) burst = l ++ l'.overwrite offset burst := by
  rw [overwrite, overwrite, take_length_add_append, Nat.add_assoc, drop_append,
    drop_eq_nil_of_le (Nat.le_add_right _ _), nil_append, Nat.add_sub_cancel_left, append_assoc,
    append_assoc, append_assoc]

theorem split_slice (l : List α) (offset count : ℕ) :
    l = l.take offset ++ l.slice offset count ++ l.drop (offset + count) := by
  rw [← take_add_slice, take_append_drop]

/-- Overwriting within a slice. -/
theorem overwrite_within (h : o + n ≤ l.length) (ho : o ≤ offset)
    (hn : offset + burst.length ≤ o + n) : l.overwrite offset burst =
      l.take o ++ (l.slice o n).overwrite (offset - o) burst ++ l.drop (o + n) := by
  have hlen : (l.take o).length = o := length_take_of_le (by omega)
  have hslice : (l.slice o n ++ l.drop (o + n)).overwrite (offset - o) burst =
      (l.slice o n).overwrite (offset - o) burst ++ l.drop (o + n) :=
    overwrite_append_of_le (by rw [length_slice h]; omega)
  calc l.overwrite offset burst
      = (l.take o ++ (l.slice o n ++ l.drop (o + n))).overwrite
          ((l.take o).length + (offset - o)) burst := by
        rw [← append_assoc, ← split_slice, hlen, Nat.add_sub_cancel' ho]
    _ = l.take o ++ (l.slice o n).overwrite (offset - o) burst ++ l.drop (o + n) := by
        rw [overwrite_append_right, hslice, append_assoc]

theorem slice_overwrite_within (h : o + n ≤ l.length) (ho : o ≤ offset)
    (hn : offset + burst.length ≤ o + n) :
    (l.overwrite offset burst).slice o n = (l.slice o n).overwrite (offset - o) burst := by
  rw [overwrite_within h ho hn]
  refine slice_middle (length_take_of_le (by omega)) ?_
  rw [length_overwrite (by rw [length_slice h]; omega), length_slice h]

/-- What is overwritten within a slice changes the slice or nothing. -/
theorem overwrite_eq_of_slice (h : o + n ≤ l.length) (ho : o ≤ offset)
    (hn : offset + burst.length ≤ o + n)
    (heq : (l.overwrite offset burst).slice o n = l.slice o n) : l.overwrite offset burst = l := by
  rw [slice_overwrite_within h ho hn] at heq
  rw [overwrite_within h ho hn, heq, ← split_slice]

theorem slice_overwrite_before (h : offset + burst.length ≤ l.length) (ho : o + n ≤ offset) :
    (l.overwrite offset burst).slice o n = l.slice o n := by
  rw [overwrite, append_assoc, slice_append_of_le (by rw [length_take_of_le (by omega)]; exact ho),
    slice_take_of_le ho]

theorem slice_overwrite_after (h : offset + burst.length ≤ l.length)
    (ho : offset + burst.length ≤ o) : (l.overwrite offset burst).slice o n = l.slice o n := by
  have hlen : (l.take offset ++ burst).length = offset + burst.length := by
    rw [length_append, length_take_of_le (by omega)]
  obtain ⟨k, rfl⟩ := Nat.exists_eq_add_of_le ho
  have hright := slice_append_right (l.take offset ++ burst) (l.drop (offset + burst.length)) k n
  rw [hlen] at hright
  rw [overwrite, hright, slice, slice, drop_drop]

end Overwrite

end List

namespace BigEndian

/-- The number that a byte string denotes, the most significant byte first. -/
def ofBytes (bs : List UInt8) : ℕ := bs.foldl (fun n b => n * 256 + b.toNat) 0

/-- The byte string of the given length that denotes a number, modulo what fits. -/
def toBytes : ℕ → ℕ → List UInt8
  | 0, _ => []
  | n + 1, v => UInt8.ofNat (v / 256 ^ n) :: toBytes n v

@[simp] theorem length_toBytes (n v : ℕ) : (toBytes n v).length = n := by
  induction n with
  | zero => rfl
  | succ n ih => rw [toBytes, List.length_cons, ih]

@[simp] theorem ofBytes_nil : ofBytes [] = 0 := rfl

theorem foldl_eq (n : ℕ) (bs : List UInt8) :
    bs.foldl (fun n b => n * 256 + b.toNat) n = n * 256 ^ bs.length + ofBytes bs := by
  induction bs generalizing n with
  | nil => simp [ofBytes]
  | cons b bs ih =>
    rw [ofBytes, List.foldl_cons, List.foldl_cons, ih, ih, List.length_cons]
    ring

theorem ofBytes_cons (b : UInt8) (bs : List UInt8) :
    ofBytes (b :: bs) = b.toNat * 256 ^ bs.length + ofBytes bs := by
  rw [ofBytes, List.foldl_cons, foldl_eq, Nat.zero_mul, Nat.zero_add]

theorem ofBytes_lt (bs : List UInt8) : ofBytes bs < 256 ^ bs.length := by
  induction bs with
  | nil => simp
  | cons b bs ih =>
    have hb := b.toNat_lt
    rw [ofBytes_cons, List.length_cons, pow_succ]
    calc b.toNat * 256 ^ bs.length + ofBytes bs
        < b.toNat * 256 ^ bs.length + 256 ^ bs.length := Nat.add_lt_add_left ih _
      _ = (b.toNat + 1) * 256 ^ bs.length := by ring
      _ ≤ 256 * 256 ^ bs.length := Nat.mul_le_mul_right _ (by omega)
      _ = 256 ^ bs.length * 256 := Nat.mul_comm _ _

/-- A loop that reads a byte string into a machine word, one byte in each step, if the word is wide
enough. -/
theorem toNat_foldl {α : Type*} (toNat : α → ℕ) (step : α → UInt8 → α) (limit : ℕ)
    (hstep : ∀ v b, (toNat v + 1) * 256 ≤ limit → toNat (step v b) = toNat v * 256 + b.toNat)
    (v : α) (bs : List UInt8) (h : (toNat v + 1) * 256 ^ bs.length ≤ limit) :
    toNat (bs.foldl step v) = toNat v * 256 ^ bs.length + ofBytes bs := by
  induction bs generalizing v with
  | nil => simp
  | cons b bs ih =>
    have hb := b.toNat_lt
    rw [List.length_cons, pow_succ] at h
    have hpos : 0 < 256 ^ bs.length := Nat.pow_pos (by decide)
    have hone := hstep v b (by nlinarith)
    rw [List.foldl_cons, ih (step v b) (by rw [hone]; nlinarith), hone, ofBytes_cons,
      List.length_cons]
    ring

/-- Reading what was written. -/
theorem ofBytes_toBytes (n v : ℕ) : ofBytes (toBytes n v) = v % 256 ^ n := by
  induction n with
  | zero => simp [toBytes, Nat.mod_one]
  | succ n ih =>
    have hmod : v % 256 ^ (n + 1) = v % 256 ^ n + 256 ^ n * (v / 256 ^ n % 256) := by
      rw [pow_succ, Nat.mod_mul]
    rw [toBytes, ofBytes_cons, length_toBytes, ih, UInt8.toNat_ofNat', hmod]
    ring

/-- A byte string is determined by its length and the number that it denotes. -/
theorem ofBytes_injective {bs bs' : List UInt8} (hlen : bs.length = bs'.length)
    (h : ofBytes bs = ofBytes bs') : bs = bs' := by
  induction bs generalizing bs' with
  | nil => exact (List.length_eq_zero_iff.mp hlen.symm).symm
  | cons b bs ih =>
    obtain _ | ⟨b', bs'⟩ := bs'
    · simp at hlen
    · have hlen : bs.length = bs'.length := Nat.succ_inj.mp hlen
      rw [ofBytes_cons, ofBytes_cons, hlen] at h
      have hlt := ofBytes_lt bs
      have hlt' := ofBytes_lt bs'
      rw [hlen] at hlt
      have hdiv := congrArg (· / 256 ^ bs'.length) h
      have hmod := congrArg (· % 256 ^ bs'.length) h
      have hpos : 0 < 256 ^ bs'.length := Nat.pow_pos (by decide)
      simp only [Nat.mul_comm _ (256 ^ bs'.length), Nat.mul_add_div hpos, Nat.mul_add_mod,
        Nat.div_eq_of_lt hlt, Nat.div_eq_of_lt hlt', Nat.mod_eq_of_lt hlt, Nat.mod_eq_of_lt hlt',
        Nat.add_zero] at hdiv hmod
      rw [UInt8.toNat_inj.mp hdiv, ih hlen hmod]

theorem toBytes_injective {n v v' : ℕ} (hv : v < 256 ^ n) (hv' : v' < 256 ^ n)
    (h : toBytes n v = toBytes n v') : v = v' := by
  have hof := congrArg ofBytes h
  rwa [ofBytes_toBytes, ofBytes_toBytes, Nat.mod_eq_of_lt hv, Nat.mod_eq_of_lt hv'] at hof

/-- Writing what was read. -/
theorem toBytes_ofBytes (bs : List UInt8) : toBytes bs.length (ofBytes bs) = bs :=
  ofBytes_injective (length_toBytes _ _) <| by
    rw [ofBytes_toBytes, Nat.mod_eq_of_lt (ofBytes_lt bs)]

end BigEndian
