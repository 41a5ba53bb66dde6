import MatchingEngine.Data.Bytes
import Mathlib.Data.Fintype.EquivFin
import Mathlib.Data.List.Basic
import Mathlib.Logic.Function.Iterate

/-!
# Cyclic redundancy checks

The reflected shift register of a cyclic redundancy check, of any width and with any polynomial. A
shift is linear, and if the polynomial has its highest bit it loses nothing. A burst that fits into
the register is the same as one word added to it, so two byte strings that differ in such a burst
leave different registers.

## Main definitions

* `Crc.shift`, `Crc.feed`, `Crc.update`: one bit, one byte, a byte string.
* `Crc.word`: a byte string as a word, the first byte in the lowest place.

## Main results

* `Crc.update_eq_iterate`: a burst is one word followed by shifts.
* `Crc.update_burst_ne`: a burst is detected.
* `Crc.exists_update_eq`: every checksum can be completed.
-/

namespace Crc

variable {w : ℕ}

/-- One shift of the register. -/
def shift (poly c : BitVec w) : BitVec w :=
  if c.getLsbD 0 then (c >>> 1) ^^^ poly else c >>> 1

/-- One byte. -/
def feed (poly c : BitVec w) (b : UInt8) : BitVec w :=
  (shift poly)^[8] (c ^^^ b.toBitVec.setWidth w)

/-- A byte string. -/
def update (poly c : BitVec w) (bs : List UInt8) : BitVec w := bs.foldl (feed poly) c

@[simp] theorem update_nil (poly c : BitVec w) : update poly c [] = c := rfl

@[simp] theorem update_cons (poly c : BitVec w) (b : UInt8) (bs : List UInt8) :
    update poly c (b :: bs) = update poly (feed poly c b) bs := rfl

theorem update_append (poly c : BitVec w) (bs bs' : List UInt8) :
    update poly c (bs ++ bs') = update poly (update poly c bs) bs' :=
  List.foldl_append

/-! ### Shifts -/

theorem shift_xor (poly a b : BitVec w) :
    shift poly (a ^^^ b) = shift poly a ^^^ shift poly b := by
  have hcancel (x y : BitVec w) : x ^^^ poly ^^^ (y ^^^ poly) = x ^^^ y := by
    rw [BitVec.xor_comm y poly, BitVec.xor_assoc, ← BitVec.xor_assoc poly, BitVec.xor_self,
      BitVec.zero_xor]
  simp only [shift, BitVec.getLsbD_xor, BitVec.ushiftRight_xor_distrib]
  rcases Bool.eq_false_or_eq_true (a.getLsbD 0) with ha | ha <;>
    rcases Bool.eq_false_or_eq_true (b.getLsbD 0) with hb | hb <;>
    simp only [ha, hb, Bool.xor_self, Bool.xor_false, Bool.false_xor, Bool.false_eq_true, if_true,
      if_false, hcancel]
  · rw [BitVec.xor_assoc, BitVec.xor_comm (b >>> 1), ← BitVec.xor_assoc]
  · rw [BitVec.xor_assoc]

/-- The highest bit after a shift is the lowest bit before it, so nothing is lost. -/
theorem shift_eq_zero {poly c : BitVec w} (hw : 0 < w) (hpoly : poly.getLsbD (w - 1) = true)
    (h : shift poly c = 0) : c = 0 := by
  have hlow : c.getLsbD 0 = false := by
    by_contra hlow
    rw [shift, if_pos (by simpa using hlow)] at h
    have hbit := congrArg (BitVec.getLsbD · (w - 1)) h
    have hout : c.getLsbD (1 + (w - 1)) = false := BitVec.getLsbD_of_ge _ _ (by omega)
    simp [hpoly, hout] at hbit
  rw [shift, hlow, if_neg Bool.false_ne_true] at h
  refine BitVec.eq_of_getLsbD_eq fun i hi => ?_
  obtain _ | i := i
  · simpa using hlow
  · have hbit := congrArg (BitVec.getLsbD · i) h
    simpa [Nat.add_comm] using hbit

theorem shift_injective {poly : BitVec w} (hw : 0 < w) (hpoly : poly.getLsbD (w - 1) = true) :
    Function.Injective (shift poly) := by
  intro a b h
  have hzero : shift poly (a ^^^ b) = 0 := by rw [shift_xor, h, BitVec.xor_self]; rfl
  have hxor := shift_eq_zero hw hpoly hzero
  exact BitVec.xor_eq_zero_iff.mp hxor

theorem iterate_shift_xor (poly : BitVec w) (n : ℕ) (a b : BitVec w) :
    (shift poly)^[n] (a ^^^ b) = (shift poly)^[n] a ^^^ (shift poly)^[n] b := by
  induction n generalizing a b with
  | zero => rfl
  | succ n ih => simp only [Function.iterate_succ_apply, shift_xor, ih]

/-- While the low bits are clear, shifting only moves the register down. -/
theorem iterate_shift_of_low (poly : BitVec w) {n : ℕ} {c : BitVec w}
    (h : ∀ i < n, c.getLsbD i = false) : (shift poly)^[n] c = c >>> n := by
  induction n generalizing c with
  | zero => simp
  | succ n ih =>
    rw [Function.iterate_succ_apply, shift, h 0 (Nat.succ_pos n), if_neg Bool.false_ne_true, ih,
      ← BitVec.shiftRight_add, Nat.add_comm]
    intro i hi
    rw [BitVec.getLsbD_ushiftRight, Nat.add_comm]
    exact h (i + 1) (by omega)

/-! ### Bursts -/

/-- A byte string as a word, the first byte in the lowest place. -/
def word : List UInt8 → BitVec w
  | [] => 0
  | b :: bs => b.toBitVec.setWidth w ^^^ (word bs <<< 8)

theorem getLsbD_word_of_le (bs : List UInt8) {i : ℕ} (h : 8 * bs.length ≤ i) :
    (word bs : BitVec w).getLsbD i = false := by
  induction bs generalizing i with
  | nil => exact BitVec.getLsbD_zero
  | cons b bs ih =>
    rw [List.length_cons] at h
    have hb : b.toBitVec.getLsbD i = false := BitVec.getLsbD_of_ge _ _ (by omega)
    simp [word, hb, ih (i := i - 8) (by omega)]

theorem getLsbD_word_cons_low (b : UInt8) (bs : List UInt8) {i : ℕ} (hi : i < 8) (hw : i < w) :
    (word (b :: bs) : BitVec w).getLsbD i = b.toBitVec.getLsbD i := by
  simp [word, hi, hw]

theorem getLsbD_word_cons_high (b : UInt8) (bs : List UInt8) {i : ℕ} (hw : i + 8 < w) :
    (word (b :: bs) : BitVec w).getLsbD (i + 8) = (word bs : BitVec w).getLsbD i := by
  have hb : b.toBitVec.getLsbD (i + 8) = false := BitVec.getLsbD_of_ge _ _ (by omega)
  have hlow : ¬ i + 8 < 8 := by omega
  simp only [word, BitVec.getLsbD_xor, BitVec.getLsbD_setWidth, hb, BitVec.getLsbD_shiftLeft, hw,
    hlow, Nat.add_sub_cancel, decide_true, decide_false, Bool.and_false, Bool.not_false,
    Bool.true_and, Bool.false_xor]

/-- A byte string that fits is determined by its length and its word. -/
theorem word_injective {bs bs' : List UInt8} (hlen : bs.length = bs'.length)
    (hfit : 8 * bs.length ≤ w) (h : (word bs : BitVec w) = word bs') : bs = bs' := by
  induction bs generalizing bs' with
  | nil => exact (List.length_eq_zero_iff.mp hlen.symm).symm
  | cons b bs ih =>
    obtain _ | ⟨b', bs'⟩ := bs'
    · simp at hlen
    · have hlen : bs.length = bs'.length := Nat.succ_inj.mp hlen
      rw [List.length_cons] at hfit
      have hb : b = b' := by
        refine UInt8.toBitVec_inj.mp (BitVec.eq_of_getLsbD_eq fun i hi => ?_)
        rw [← getLsbD_word_cons_low b bs hi (by omega : i < w), h,
          getLsbD_word_cons_low b' bs' hi (by omega)]
      have hbs : (word bs : BitVec w) = word bs' := by
        refine BitVec.eq_of_getLsbD_eq fun i _ => ?_
        by_cases hi : i + 8 < w
        · rw [← getLsbD_word_cons_high b bs hi, h, getLsbD_word_cons_high b' bs' hi]
        · rw [getLsbD_word_of_le bs (by omega), getLsbD_word_of_le bs' (by omega)]
      rw [hb, ih hlen (by omega) hbs]

/-- Every word that a number of bytes can hold is the word of that many bytes. -/
theorem exists_word_eq {n : ℕ} {v : BitVec w} (h : ∀ i, 8 * n ≤ i → v.getLsbD i = false) :
    ∃ bs : List UInt8, bs.length = n ∧ word bs = v := by
  induction n generalizing v with
  | zero =>
    refine ⟨[], rfl, BitVec.eq_of_getLsbD_eq fun i _ => ?_⟩
    rw [h i (Nat.zero_le i)]
    exact BitVec.getLsbD_zero
  | succ n ih =>
    obtain ⟨bs, hlen, hword⟩ := ih (v := v >>> 8) fun i hi => by
      rw [BitVec.getLsbD_ushiftRight]
      exact h (8 + i) (by omega)
    refine ⟨⟨v.setWidth 8⟩ :: bs, by rw [List.length_cons, hlen], ?_⟩
    refine BitVec.eq_of_getLsbD_eq fun i hi => ?_
    by_cases hlow : i < 8
    · rw [getLsbD_word_cons_low _ _ hlow hi]
      simp [hlow]
    · obtain ⟨j, rfl⟩ := Nat.exists_eq_add_of_le' (Nat.le_of_not_lt hlow)
      rw [getLsbD_word_cons_high _ _ hi, hword, BitVec.getLsbD_ushiftRight, Nat.add_comm]

/-- A word in the low part is what is left, after eight shifts, of the word eight places up. -/
theorem iterate_shift_shiftLeft (poly : BitVec w) {c : BitVec w}
    (h : ∀ i, w ≤ i + 8 → c.getLsbD i = false) : (shift poly)^[8] (c <<< 8) = c := by
  rw [iterate_shift_of_low poly (by intro i hi; simp [hi])]
  refine BitVec.eq_of_getLsbD_eq fun i hi => ?_
  have hlow : ¬ i + 8 < 8 := by omega
  rw [BitVec.getLsbD_ushiftRight, Nat.add_comm 8, BitVec.getLsbD_shiftLeft, Nat.add_sub_cancel]
  by_cases hlt : i + 8 < w
  · simp only [hlt, hlow, decide_true, decide_false, Bool.not_false, Bool.true_and]
  · simp only [hlt, decide_false, Bool.false_and, h i (by omega)]

/-- Feeding a byte string that fits into the register is adding its word and shifting. -/
theorem update_eq_iterate (poly c : BitVec w) {bs : List UInt8} (hfit : 8 * bs.length ≤ w) :
    update poly c bs = (shift poly)^[8 * bs.length] (c ^^^ word bs) := by
  induction bs generalizing c with
  | nil => simp [word]
  | cons b bs ih =>
    rw [List.length_cons] at hfit
    have hword : (shift poly)^[8] (word bs <<< 8) = (word bs : BitVec w) :=
      iterate_shift_shiftLeft poly fun i hi => getLsbD_word_of_le bs (by omega)
    rw [update_cons, ih _ (by omega), feed]
    nth_rewrite 1 [← hword]
    rw [← iterate_shift_xor, ← Function.iterate_add_apply, List.length_cons, word,
      BitVec.xor_assoc]
    rfl

theorem update_injective {poly : BitVec w} (hw : 0 < w) (hpoly : poly.getLsbD (w - 1) = true)
    (bs : List UInt8) : Function.Injective fun c => update poly c bs := by
  induction bs with
  | nil => exact fun _ _ h => h
  | cons b bs ih =>
    intro c c' h
    have hfeed : feed poly c b = feed poly c' b := ih h
    exact (BitVec.xor_left_inj _).mp ((shift_injective hw hpoly).iterate 8 hfeed)

/-- Bytes that fill the register can bring it to any value. -/
theorem exists_update_eq {poly : BitVec w} (hw : 0 < w) (hpoly : poly.getLsbD (w - 1) = true)
    {n : ℕ} (hn : 8 * n = w) (c v : BitVec w) :
    ∃ bs : List UInt8, bs.length = n ∧ update poly c bs = v := by
  have : Finite (BitVec w) := Finite.of_injective BitVec.toFin fun _ _ h => BitVec.eq_of_toFin_eq h
  have hsurjective := Finite.surjective_of_injective ((shift_injective hw hpoly).iterate (8 * n))
  obtain ⟨u, hu⟩ := hsurjective v
  obtain ⟨bs, hlen, hword⟩ := exists_word_eq (n := n) (v := c ^^^ u) fun i hi =>
    BitVec.getLsbD_of_ge _ _ (hn ▸ hi)
  refine ⟨bs, hlen, ?_⟩
  rw [update_eq_iterate poly c (by rw [hlen, hn]), hlen, hword, ← BitVec.xor_assoc,
    BitVec.xor_self, BitVec.zero_xor, hu]

/-- Two byte strings that differ only in a burst that fits into the register leave different
registers. -/
theorem update_burst_ne {poly : BitVec w} (hw : 0 < w) (hpoly : poly.getLsbD (w - 1) = true)
    (c : BitVec w) (before after : List UInt8) {burst burst' : List UInt8}
    (hlen : burst.length = burst'.length) (hfit : 8 * burst.length ≤ w) (hne : burst ≠ burst') :
    update poly c (before ++ burst ++ after) ≠ update poly c (before ++ burst' ++ after) := by
  intro h
  simp only [update_append] at h
  have hburst := update_injective hw hpoly after h
  have hfit' : 8 * burst'.length ≤ w := hlen ▸ hfit
  rw [update_eq_iterate poly (update poly c before) hfit,
    update_eq_iterate poly (update poly c before) hfit', ← hlen] at hburst
  have hword := (shift_injective hw hpoly).iterate _ hburst
  exact hne (word_injective hlen hfit ((BitVec.xor_right_inj _).mp hword))

/-- Overwriting a part that fits into the register changes the register or nothing. -/
theorem overwrite_eq_of_update {poly : BitVec w} (hw : 0 < w)
    (hpoly : poly.getLsbD (w - 1) = true) {c : BitVec w} {bs burst : List UInt8} {offset : ℕ}
    (hlen : offset + burst.length ≤ bs.length) (hfit : 8 * burst.length ≤ w)
    (h : update poly c (bs.overwrite offset burst) = update poly c bs) :
    bs.overwrite offset burst = bs := by
  by_contra hne
  have hsplit := bs.split_slice offset burst.length
  refine update_burst_ne hw hpoly c (bs.take offset) (bs.drop (offset + burst.length))
    (List.length_slice hlen).symm hfit (fun heq => hne ?_) (h.trans (congrArg _ hsplit))
  rw [List.overwrite, heq, List.length_slice hlen, ← hsplit]

end Crc
