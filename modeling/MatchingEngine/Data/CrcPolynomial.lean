import MatchingEngine.Data.Crc
import Mathlib.Algebra.CharP.Two
import Mathlib.Algebra.Field.ZMod
import Mathlib.RingTheory.AdjoinRoot

/-!
# Cyclic redundancy checks as polynomial division

A bit string is a polynomial over the field with two elements, its first bit being the highest
coefficient. A reflected register, read from its lowest bit, is a remainder: a shift multiplies it
by `X` and subtracts the generator where the degree reaches the width. So feeding a byte string is
division with remainder of the bit string in which every byte is read from its lowest bit.

## Main definitions

* `Crc.ofBits`: the polynomial of a bit string.
* `Crc.lowFirst`, `Crc.highFirst`: the bits of a word.
* `Crc.generator`: the polynomial that a word names.
* `Crc.message`: the bit string of a byte string.
* `Crc.remainder`: the remainder of a message with an initial register.
* `Crc.register`: the word of a remainder.

## Main results

* `Crc.ofBits_shift`: a shift is one step of the division.
* `Crc.register_remainder`: a byte string leaves the remainder in the register.
-/

open Polynomial

namespace Crc

/-! ### Bit strings -/

/-- The polynomial of a bit string, the first bit being the highest coefficient. -/
noncomputable def ofBits : List Bool → (ZMod 2)[X]
  | [] => 0
  | b :: bits => C (b.toNat : ZMod 2) * X ^ bits.length + ofBits bits

theorem ofBits_append (bits bits' : List Bool) :
    ofBits (bits ++ bits') = X ^ bits'.length * ofBits bits + ofBits bits' := by
  induction bits with
  | nil => simp [ofBits]
  | cons b bits ih =>
    rw [List.cons_append, ofBits, ih, ofBits, List.length_append, pow_add]
    ring

theorem ofBits_replicate_false (n : ℕ) : ofBits (List.replicate n false) = 0 := by
  induction n with
  | zero => rfl
  | succ n ih => simp [List.replicate_succ, ofBits, ih]

theorem toNat_xor (a b : Bool) : ((a ^^ b).toNat : ZMod 2) = a.toNat + b.toNat := by
  cases a <;> cases b <;> rfl

theorem ofBits_map_xor {ι : Type*} (l : List ι) (f g : ι → Bool) :
    ofBits (l.map fun i => f i ^^ g i) = ofBits (l.map f) + ofBits (l.map g) := by
  induction l with
  | nil => simp [ofBits]
  | cons i l ih =>
    simp only [List.map_cons, ofBits, ih, toNat_xor, C_add, List.length_map]
    ring

theorem degree_ofBits_lt (bits : List Bool) : (ofBits bits).degree < bits.length := by
  induction bits with
  | nil => simp [ofBits]
  | cons b bits ih =>
    rw [ofBits, List.length_cons]
    refine (degree_add_le _ _).trans_lt (max_lt ?_ (ih.trans ?_))
    · exact (degree_C_mul_X_pow_le _ _).trans_lt (by exact_mod_cast Nat.lt_succ_self _)
    · exact_mod_cast Nat.lt_succ_self _

theorem coeff_ofBits (bits : List Bool) {i : ℕ} (hi : i < bits.length) :
    (ofBits bits).coeff (bits.length - 1 - i) = (bits[i].toNat : ZMod 2) := by
  induction bits generalizing i with
  | nil => exact absurd hi (Nat.not_lt_zero i)
  | cons b bits ih =>
    rw [ofBits, coeff_add, coeff_C_mul_X_pow]
    obtain _ | i := i
    · have hdegree := coeff_eq_zero_of_degree_lt (degree_ofBits_lt bits)
      simp [hdegree]
    · have hi : i < bits.length := Nat.succ_lt_succ_iff.mp hi
      have hne : (b :: bits).length - 1 - (i + 1) ≠ bits.length := by
        rw [List.length_cons]
        omega
      have hindex : (b :: bits).length - 1 - (i + 1) = bits.length - 1 - i := by
        rw [List.length_cons]
        omega
      rw [if_neg hne, zero_add, hindex, ih hi]
      rfl

/-! ### Words -/

section Words

variable {w : ℕ}

/-- The bits of a word, the lowest first. -/
def lowFirst (v : BitVec w) : List Bool := (List.range w).map v.getLsbD

/-- The bits of a word, the highest first. -/
def highFirst (v : BitVec w) : List Bool := (lowFirst v).reverse

@[simp] theorem length_lowFirst (v : BitVec w) : (lowFirst v).length = w := by
  simp [lowFirst]

theorem ofBits_lowFirst_xor (a b : BitVec w) :
    ofBits (lowFirst (a ^^^ b)) = ofBits (lowFirst a) + ofBits (lowFirst b) := by
  have hxor : (a ^^^ b).getLsbD = fun i => a.getLsbD i ^^ b.getLsbD i := by
    funext i
    exact BitVec.getLsbD_xor
  rw [lowFirst, hxor, ofBits_map_xor]
  rfl

/-- A byte in the low part of a word stands in its highest coefficients. -/
theorem ofBits_lowFirst_setWidth {n : ℕ} (v : BitVec n) (k : ℕ) :
    ofBits (lowFirst (v.setWidth (n + k))) = X ^ k * ofBits (lowFirst v) := by
  have hbits : lowFirst (v.setWidth (n + k)) = lowFirst v ++ List.replicate k false := by
    rw [lowFirst, List.range_add, List.map_append, List.map_map]
    congr 1
    · refine List.map_congr_left fun i hi => ?_
      have := List.mem_range.mp hi
      rw [BitVec.getLsbD_setWidth, decide_eq_true (by omega), Bool.true_and]
    · refine List.eq_replicate_iff.mpr ⟨by simp, fun b hb => ?_⟩
      obtain ⟨i, -, rfl⟩ := List.mem_map.mp hb
      rw [Function.comp_apply, BitVec.getLsbD_setWidth, BitVec.getLsbD_of_ge v _ (by omega),
        Bool.and_false]
  rw [hbits, ofBits_append, ofBits_replicate_false, List.length_replicate, add_zero]

/-- The word of a remainder: its lowest bit is the highest coefficient. -/
noncomputable def register (w : ℕ) (p : (ZMod 2)[X]) : BitVec w :=
  (BitVec.ofBoolListLE ((List.range w).map fun i => decide (p.coeff (w - 1 - i) = 1))).setWidth w

theorem getLsbD_register (p : (ZMod 2)[X]) {i : ℕ} (hi : i < w) :
    (register w p).getLsbD i = decide (p.coeff (w - 1 - i) = 1) := by
  rw [register, BitVec.getLsbD_setWidth, decide_eq_true hi, Bool.true_and,
    BitVec.getLsbD_ofBoolListLE, List.getD_eq_getElem?_getD]
  simp [hi]

theorem coeff_ofBits_lowFirst (v : BitVec w) {i : ℕ} (hi : i < w) :
    (ofBits (lowFirst v)).coeff (w - 1 - i) = ((v.getLsbD i).toNat : ZMod 2) := by
  have hcoeff := coeff_ofBits (lowFirst v) (i := i) (by rwa [length_lowFirst])
  simp only [length_lowFirst] at hcoeff
  rw [hcoeff]
  simp only [lowFirst, List.getElem_map, List.getElem_range]

theorem register_ofBits (v : BitVec w) : register w (ofBits (lowFirst v)) = v := by
  refine BitVec.eq_of_getLsbD_eq fun i hi => ?_
  rw [getLsbD_register _ hi, coeff_ofBits_lowFirst v hi]
  cases v.getLsbD i <;> decide

end Words

/-! ### Division -/

section Division

variable {w : ℕ}

/-- The polynomial of degree `w` whose other coefficients are the bits of a word. -/
noncomputable def generator (normal : BitVec w) : (ZMod 2)[X] :=
  X ^ w + ofBits (highFirst normal)

theorem degree_tail_lt (normal : BitVec w) : (ofBits (highFirst normal)).degree < w := by
  have hdegree := degree_ofBits_lt (highFirst normal)
  rwa [highFirst, List.length_reverse, length_lowFirst] at hdegree

theorem generator_monic (normal : BitVec w) : (generator normal).Monic :=
  monic_X_pow_add (degree_tail_lt normal)

theorem degree_generator (normal : BitVec w) : (generator normal).degree = w := by
  rw [generator, degree_add_eq_left_of_degree_lt, degree_X_pow]
  rw [degree_X_pow]
  exact degree_tail_lt normal

/-- The remainder of a message that is followed by as many zeros as the initial register has bits,
and in which the initial register is added to the first bits. -/
noncomputable def remainder (g : (ZMod 2)[X]) (initial message : List Bool) : (ZMod 2)[X] :=
  (X ^ message.length * ofBits initial + X ^ initial.length * ofBits message) %ₘ g

/-- Moving a word down by a bit multiplies its polynomial by `X`, up to the bit that falls out. -/
theorem X_mul_ofBits_lowFirst (hw : 0 < w) (c : BitVec w) :
    X * ofBits (lowFirst c) =
      C ((c.getLsbD 0).toNat : ZMod 2) * X ^ w + ofBits (lowFirst (c >>> 1)) := by
  obtain ⟨n, rfl⟩ := Nat.exists_eq_add_one.mpr hw
  let rest := (List.range n).map fun i => c.getLsbD (i + 1)
  have hlow : lowFirst c = c.getLsbD 0 :: rest := by
    rw [lowFirst, List.range_succ_eq_map, List.map_cons, List.map_map]
    rfl
  have hdown : lowFirst (c >>> 1) = rest ++ [false] := by
    rw [lowFirst, List.range_succ, List.map_append]
    simp [rest, Nat.add_comm 1]
  rw [hlow, hdown, ofBits_append, ofBits, List.length_map, List.length_range]
  simp only [ofBits, List.length_singleton, Bool.toNat_false, Nat.cast_zero, C_0]
  ring

variable {poly normal : BitVec w}

/-- One step of the division: multiply by `X`, and subtract the generator if the degree reaches the
width. -/
theorem ofBits_shift (hw : 0 < w) (hpoly : lowFirst poly = highFirst normal) (c : BitVec w) :
    ofBits (lowFirst (shift poly c)) =
      X * ofBits (lowFirst c) + C ((c.getLsbD 0).toNat : ZMod 2) * generator normal := by
  rw [X_mul_ofBits_lowFirst hw, shift]
  cases c.getLsbD 0
  · simp
  · have hcancel : (X ^ w + X ^ w : (ZMod 2)[X]) = 0 := CharTwo.add_self_eq_zero _
    rw [if_pos rfl, ofBits_lowFirst_xor, hpoly, generator, Bool.toNat_true, Nat.cast_one, C_1]
    linear_combination -hcancel

/-- Modulo the generator, a shift is multiplication by `X`. -/
theorem mk_iterate_shift (hw : 0 < w) (hpoly : lowFirst poly = highFirst normal) (n : ℕ)
    (c : BitVec w) :
    AdjoinRoot.mk (generator normal) (ofBits (lowFirst ((shift poly)^[n] c))) =
      AdjoinRoot.mk (generator normal) (X ^ n * ofBits (lowFirst c)) := by
  induction n generalizing c with
  | zero => simp
  | succ n ih =>
    rw [Function.iterate_succ_apply, ih, ofBits_shift hw hpoly]
    simp only [map_mul, map_add, AdjoinRoot.mk_self, mul_zero, add_zero, pow_succ]
    ring

/-- A byte enters at the highest coefficients and is then moved up by its length. -/
theorem mk_feed (hw : 8 ≤ w) (hpoly : lowFirst poly = highFirst normal) (c : BitVec w)
    (b : UInt8) :
    AdjoinRoot.mk (generator normal) (ofBits (lowFirst (feed poly c b))) =
      AdjoinRoot.mk (generator normal)
        (X ^ 8 * ofBits (lowFirst c) + X ^ w * ofBits (lowFirst b.toBitVec)) := by
  obtain ⟨k, rfl⟩ := Nat.exists_eq_add_of_le hw
  rw [feed, mk_iterate_shift (by omega) hpoly, ofBits_lowFirst_xor, ofBits_lowFirst_setWidth]
  refine congrArg _ ?_
  ring

/-- The bit string of a byte string, every byte being read from its lowest bit. -/
def message (bytes : List UInt8) : List Bool := bytes.flatMap fun b => lowFirst b.toBitVec

theorem mk_update (hw : 8 ≤ w) (hpoly : lowFirst poly = highFirst normal) (c : BitVec w)
    (bytes : List UInt8) :
    AdjoinRoot.mk (generator normal) (ofBits (lowFirst (update poly c bytes))) =
      AdjoinRoot.mk (generator normal)
        (X ^ (message bytes).length * ofBits (lowFirst c) + X ^ w * ofBits (message bytes)) := by
  induction bytes generalizing c with
  | nil => simp [message, ofBits]
  | cons b bytes ih =>
    have hmessage : message (b :: bytes) = lowFirst b.toBitVec ++ message bytes := rfl
    rw [update_cons, ih, map_add, map_mul, mk_feed hw hpoly, ← map_mul, ← map_add, hmessage,
      List.length_append, length_lowFirst, ofBits_append]
    refine congrArg _ ?_
    ring

/-- A byte string leaves in the register the remainder of its bit string. -/
theorem register_remainder (hw : 8 ≤ w) (hpoly : lowFirst poly = highFirst normal) (c : BitVec w)
    (bytes : List UInt8) :
    register w (remainder (generator normal) (lowFirst c) (message bytes)) =
      update poly c bytes := by
  have hdvd := AdjoinRoot.mk_eq_mk.mp (mk_update hw hpoly c bytes)
  have hdegree : (ofBits (lowFirst (update poly c bytes))).degree < (generator normal).degree := by
    have := degree_ofBits_lt (lowFirst (update poly c bytes))
    rwa [length_lowFirst, ← degree_generator normal] at this
  have hself := (modByMonic_eq_self_iff (generator_monic normal)).mpr hdegree
  rw [remainder, length_lowFirst, ← modByMonic_eq_of_dvd_sub (generator_monic normal) hdvd, hself,
    register_ofBits]

end Division

end Crc
