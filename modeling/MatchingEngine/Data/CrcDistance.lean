import MatchingEngine.Data.Bytes
import MatchingEngine.Data.CrcPolynomial

/-!
# The distance of a cyclic redundancy check

Two messages with their check words differ in at least four bits, if the generator has an even
number of terms and the power of `X` that is one lies beyond their length. For the difference is a
multiple of the generator, so it has an even number of terms, and it is not the sum of two powers.

## Main definitions

* `Crc.weight`: the number of bits of a word that are set.
* `Crc.distance`: the number of bits in which two byte strings differ.
* `Crc.one`: the word whose polynomial is one.

## Main results

* `Crc.count_eq_zero_of_dvd`: a multiple of the generator has no terms, or at least four.
* `Crc.eq_of_distance_le`: messages that differ in at most three bits, those of the check words
  included, are equal.
-/

open Polynomial

namespace Crc

/-! ### Weights -/

section Weight

variable {w : ℕ}

/-- The number of bits that are set. -/
def weight (v : BitVec w) : ℕ := (lowFirst v).count true

theorem weight_eq_zero_iff {v : BitVec w} : weight v = 0 ↔ v = 0 := by
  rw [weight, List.count_eq_zero]
  refine ⟨fun h => BitVec.eq_of_getLsbD_eq fun i hi => ?_, ?_⟩
  · have hbit : v.getLsbD i ≠ true := fun hbit =>
      h (List.mem_map.mpr ⟨i, List.mem_range.mpr hi, hbit⟩)
    rw [Bool.eq_false_iff.mpr hbit]
    exact BitVec.getLsbD_zero.symm
  · rintro rfl
    simp [lowFirst]

/-- The number of bits in which two byte strings differ. -/
def distance (bs bs' : List UInt8) : ℕ :=
  (List.zipWith (fun b b' => weight (b ^^^ b').toBitVec) bs bs').sum

theorem distance_append {a a' : List UInt8} (h : a.length = a'.length) (b b' : List UInt8) :
    distance (a ++ b) (a' ++ b') = distance a a' + distance b b' := by
  rw [distance, List.zipWith_append h, List.sum_append]
  rfl

theorem distance_drop (bs bs' : List UInt8) (offset count next : ℕ) (h : offset + count = next) :
    distance (bs.drop offset) (bs'.drop offset) =
      distance (bs.slice offset count) (bs'.slice offset count) +
        distance (bs.drop next) (bs'.drop next) := by
  rw [distance, ← List.take_append_drop count (List.zipWith _ _ _), List.sum_append,
    List.take_zipWith, List.drop_zipWith, List.drop_drop, List.drop_drop, h]
  rfl

theorem distance_take_add_drop (bs bs' : List UInt8) (count : ℕ) :
    distance bs bs' = distance (bs.take count) (bs'.take count) +
      distance (bs.drop count) (bs'.drop count) :=
  distance_drop bs bs' 0 count count (Nat.zero_add count)

theorem distance_self (bs : List UInt8) : distance bs bs = 0 := by
  induction bs with
  | nil => rfl
  | cons b bs ih =>
    rw [distance, List.zipWith_cons_cons, List.sum_cons, ← distance, ih, UInt8.xor_self]
    rfl

theorem eq_of_distance_eq_zero {bs bs' : List UInt8} (hlen : bs.length = bs'.length)
    (h : distance bs bs' = 0) : bs = bs' := by
  induction bs generalizing bs' with
  | nil => exact (List.length_eq_zero_iff.mp hlen.symm).symm
  | cons b bs ih =>
    obtain _ | ⟨b', bs'⟩ := bs'
    · exact absurd hlen (Nat.succ_ne_zero _)
    rw [distance, List.zipWith_cons_cons, List.sum_cons, Nat.add_eq_zero_iff] at h
    have hxor : b ^^^ b' = 0 := UInt8.toBitVec_inj.mp (weight_eq_zero_iff.mp h.1)
    rw [UInt8.xor_eq_zero_iff.mp hxor, ih (Nat.succ.inj hlen) h.2]

/-- The bits of numbers are counted in their bytes. -/
theorem distance_toBytes (n v v' : ℕ) :
    distance (BigEndian.toBytes n v) (BigEndian.toBytes n v') =
      ((List.range (8 * n)).map fun i => v.testBit i ^^ v'.testBit i).count true := by
  induction n with
  | zero => rfl
  | succ n ih =>
    have hbyte : lowFirst (UInt8.ofNat (v / 256 ^ n) ^^^ UInt8.ofNat (v' / 256 ^ n)).toBitVec =
        (List.range 8).map fun i => v.testBit (8 * n + i) ^^ v'.testBit (8 * n + i) := by
      have hbit (v : ℕ) {i : ℕ} (hi : i < 8) :
          (UInt8.ofNat (v / 256 ^ n)).toBitVec.getLsbD i = v.testBit (8 * n + i) := by
        have hpow : 256 ^ n = 2 ^ (8 * n) := (pow_mul 2 8 n).symm
        rw [UInt8.toBitVec_ofNat', BitVec.getLsbD_ofNat, decide_eq_true hi, Bool.true_and, hpow,
          Nat.testBit_div_two_pow, Nat.add_comm]
      refine List.map_congr_left fun i hi => ?_
      have hi := List.mem_range.mp hi
      rw [UInt8.toBitVec_xor, BitVec.getLsbD_xor, hbit v hi, hbit v' hi]
    rw [BigEndian.toBytes, BigEndian.toBytes, distance, List.zipWith_cons_cons, List.sum_cons,
      ← distance, ih, weight, hbyte, Nat.mul_succ, List.range_add, List.map_append,
      List.count_append, List.map_map, Nat.add_comm]
    rfl

/-- The check words of messages are compared byte by byte. -/
theorem distance_toBytes_toNat {n : ℕ} (v v' : BitVec (8 * n)) :
    distance (BigEndian.toBytes n v.toNat) (BigEndian.toBytes n v'.toNat) = weight (v ^^^ v') := by
  rw [distance_toBytes, weight, lowFirst]
  refine congrArg _ (List.map_congr_left fun i _ => ?_)
  rw [BitVec.getLsbD_xor]
  rfl

end Weight

/-! ### Multiples of a generator -/

section Terms

theorem eval_one_ofBits (bits : List Bool) : (ofBits bits).eval 1 = (bits.count true : ZMod 2) := by
  induction bits with
  | nil => simp [ofBits]
  | cons b bits ih =>
    rw [ofBits, eval_add, ih, eval_C_mul, eval_X_pow, one_pow, mul_one]
    cases b <;> simp [add_comm]

theorem ofBits_of_count_eq_zero (bits : List Bool) (h : bits.count true = 0) : ofBits bits = 0 := by
  have hfalse : bits = List.replicate bits.length false :=
    List.eq_replicate_iff.mpr ⟨rfl, fun b hb => Bool.eq_false_iff.mpr fun heq =>
      List.count_eq_zero.mp h (heq ▸ hb)⟩
  rw [hfalse, ofBits_replicate_false]

theorem exists_power_of_count (bits : List Bool) (h : bits.count true = 1) :
    ∃ i < bits.length, ofBits bits = X ^ i := by
  induction bits with
  | nil => cases h
  | cons b bits ih =>
    cases b with
    | false =>
      obtain ⟨i, hi, hbits⟩ := ih (by simpa using h)
      exact ⟨i, Nat.lt_succ_of_lt hi, by simp [ofBits, hbits]⟩
    | true =>
      have hzero := ofBits_of_count_eq_zero bits (by simpa using h)
      exact ⟨bits.length, Nat.lt_succ_self _, by simp [ofBits, hzero]⟩

theorem exists_powers_of_count (bits : List Bool) (h : bits.count true = 2) :
    ∃ i j, i < j ∧ j < bits.length ∧ ofBits bits = X ^ j + X ^ i := by
  induction bits with
  | nil => cases h
  | cons b bits ih =>
    cases b with
    | false =>
      obtain ⟨i, j, hij, hj, hbits⟩ := ih (by simpa using h)
      exact ⟨i, j, hij, Nat.lt_succ_of_lt hj, by simp [ofBits, hbits]⟩
    | true =>
      obtain ⟨i, hi, hbits⟩ := exists_power_of_count bits (by simpa using h)
      exact ⟨i, bits.length, hi, Nat.lt_succ_self _, by simp [ofBits, hbits]⟩

variable {g : (ZMod 2)[X]} {n : ℕ}

/-- If the generator has an even number of terms and a constant term, and `X` has a large order, a
multiple of it has no terms or at least four. -/
theorem count_eq_zero_of_dvd (heven : g.eval 1 = 0) (hconst : g.coeff 0 ≠ 0)
    (horder : ∀ k, 0 < k → k < n → ¬ g ∣ X ^ k + 1) {bits : List Bool} (hlen : bits.length ≤ n)
    (hcount : bits.count true ≤ 3) (hdvd : g ∣ ofBits bits) : bits.count true = 0 := by
  -- the number of terms is even, as one is a root of the generator
  have hroot : ((bits.count true : ℕ) : ZMod 2) = 0 := by
    obtain ⟨q, hq⟩ := hdvd
    rw [← eval_one_ofBits, hq, eval_mul, heven, zero_mul]
  have hdiv : 2 ∣ bits.count true := (ZMod.natCast_eq_zero_iff _ 2).mp hroot
  by_contra hne
  obtain ⟨i, j, hij, hj, hbits⟩ := exists_powers_of_count bits (by omega)
  -- two terms are a power of `X` times a sum with one
  have hfactor : (X ^ j + X ^ i : (ZMod 2)[X]) = X ^ i * (X ^ (j - i) + 1) := by
    rw [mul_add, ← pow_add, Nat.add_sub_cancel' hij.le, mul_one]
  have hcoprime : IsCoprime g (X ^ i) := by
    refine IsCoprime.pow_right (IsCoprime.symm ?_)
    exact irreducible_X.coprime_iff_not_dvd.mpr (mt X_dvd_iff.mp hconst)
  rw [hbits, hfactor] at hdvd
  exact horder (j - i) (by omega) (by omega) (hcoprime.dvd_of_dvd_mul_left hdvd)

end Terms

/-! ### Words -/

section Words

variable {w : ℕ} {poly normal : BitVec w}

/-- The word whose polynomial is one. -/
def one : BitVec w := BitVec.twoPow w (w - 1)

theorem ofBits_lowFirst_one (hw : 0 < w) : ofBits (lowFirst (one : BitVec w)) = 1 := by
  obtain ⟨n, rfl⟩ := Nat.exists_eq_add_one.mpr hw
  have hlow : lowFirst (one : BitVec (n + 1)) = List.replicate n false ++ [true] := by
    rw [lowFirst, List.range_succ, List.map_append]
    congr 1
    · refine List.eq_replicate_iff.mpr ⟨by simp, fun b hb => ?_⟩
      obtain ⟨i, hi, rfl⟩ := List.mem_map.mp hb
      have := List.mem_range.mp hi
      rw [one, BitVec.getLsbD_twoPow, decide_eq_false (p := _ = i) (by omega), Bool.and_false]
    · simp [one]
  rw [hlow, ofBits_append, ofBits_replicate_false]
  simp [ofBits]

theorem eval_one_generator (hodd : Odd (weight normal)) : (generator normal).eval 1 = 0 := by
  have hcount : (highFirst normal).count true = weight normal := List.count_reverse
  rw [generator, eval_add, eval_X_pow, one_pow, eval_one_ofBits, hcount,
    (ZMod.natCast_eq_one_iff_odd).mpr hodd]
  rfl

theorem coeff_zero_generator (hw : 0 < w) (hlow : normal.getLsbD 0 = true) :
    (generator normal).coeff 0 ≠ 0 := by
  have hlength : (highFirst normal).length = w := by
    rw [highFirst, List.length_reverse, length_lowFirst]
  have hcoeff := coeff_ofBits (highFirst normal) (i := w - 1) (by omega)
  have hbit : (highFirst normal)[w - 1] = true := by
    simp [highFirst, lowFirst, hlow]
  rw [hbit, hlength, Nat.sub_self] at hcoeff
  rw [generator, coeff_add, hcoeff, coeff_X_pow, if_neg hw.ne, zero_add]
  decide

/-- Words are remainders: they are equal if their polynomials are congruent. -/
theorem eq_of_mk_eq (normal : BitVec w) {a b : BitVec w}
    (h : AdjoinRoot.mk (generator normal) (ofBits (lowFirst a)) =
      AdjoinRoot.mk (generator normal) (ofBits (lowFirst b))) : a = b := by
  have hself (c : BitVec w) : ofBits (lowFirst c) %ₘ generator normal = ofBits (lowFirst c) := by
    refine (modByMonic_eq_self_iff (generator_monic normal)).mpr ?_
    have hdegree := degree_ofBits_lt (lowFirst c)
    rwa [length_lowFirst, ← degree_generator normal] at hdegree
  have hbits := modByMonic_eq_of_dvd_sub (generator_monic normal) (AdjoinRoot.mk_eq_mk.mp h)
  rw [hself, hself] at hbits
  rw [← register_ofBits a, hbits, register_ofBits]

/-- A power of `X` is one only where the shifts of one return to it. -/
theorem not_dvd_of_iterate_ne (hw : 0 < w) (hpoly : lowFirst poly = highFirst normal) {k : ℕ}
    (hne : (shift poly)^[k] one ≠ one) : ¬ generator normal ∣ X ^ k + 1 := by
  intro hdvd
  refine hne (eq_of_mk_eq normal ?_)
  rw [mk_iterate_shift hw hpoly, ofBits_lowFirst_one hw, mul_one]
  exact AdjoinRoot.mk_eq_mk.mpr (by rwa [CharTwo.sub_eq_add])

end Words

/-! ### Messages -/

section Messages

variable {bytes bytes' : List UInt8}

theorem length_message (bytes : List UInt8) : (message bytes).length = 8 * bytes.length := by
  induction bytes with
  | nil => rfl
  | cons b bytes ih =>
    rw [message, List.flatMap_cons, List.length_append, length_lowFirst, ← message, ih,
      List.length_cons]
    omega

/-- The difference of two messages is the message of the difference. -/
theorem ofBits_message_xor (hlen : bytes.length = bytes'.length) :
    ofBits (message (List.zipWith (· ^^^ ·) bytes bytes')) =
      ofBits (message bytes) + ofBits (message bytes') := by
  induction bytes generalizing bytes' with
  | nil =>
    obtain rfl := List.length_eq_zero_iff.mp hlen.symm
    simp [message, ofBits]
  | cons b bytes ih =>
    obtain _ | ⟨b', bytes'⟩ := bytes'
    · exact absurd hlen (Nat.succ_ne_zero _)
    have htail := Nat.succ.inj hlen
    have hlength : (List.zipWith (· ^^^ ·) bytes bytes').length = bytes.length := by
      rw [List.length_zipWith, ← htail, Nat.min_self]
    have hcons (b : UInt8) (bytes : List UInt8) :
        message (b :: bytes) = lowFirst b.toBitVec ++ message bytes := rfl
    rw [List.zipWith_cons_cons, hcons, hcons, hcons, ofBits_append, ofBits_append, ofBits_append,
      ih htail, UInt8.toBitVec_xor, ofBits_lowFirst_xor, length_message, length_message,
      length_message, hlength, ← htail]
    ring

theorem count_message_xor (bytes bytes' : List UInt8) :
    (message (List.zipWith (· ^^^ ·) bytes bytes')).count true = distance bytes bytes' := by
  rw [message, List.count_flatMap, List.map_zipWith]
  rfl

variable {w n : ℕ} {poly normal : BitVec w}

/-- The difference of two messages with their check words is a multiple of the generator. -/
theorem dvd_ofBits_xor (hw : 8 ≤ w) (hpoly : lowFirst poly = highFirst normal) (c : BitVec w)
    (hlen : bytes.length = bytes'.length) :
    generator normal ∣ ofBits (message (List.zipWith (· ^^^ ·) bytes bytes') ++
      lowFirst (update poly c bytes ^^^ update poly c bytes')) := by
  have hsame : (message bytes).length = (message bytes').length := by
    rw [length_message, length_message, hlen]
  rw [ofBits_append, length_lowFirst, ofBits_message_xor hlen, ofBits_lowFirst_xor,
    ← AdjoinRoot.mk_eq_zero, map_add, map_add, mk_update hw hpoly, mk_update hw hpoly, ← map_add,
    ← map_add, hsame]
  have htwo : (2 : (ZMod 2)[X]) = 0 := CharTwo.two_eq_zero
  refine (congrArg _ ?_).trans (map_zero _)
  linear_combination (X ^ w * ofBits (message bytes) + X ^ w * ofBits (message bytes') +
    X ^ (message bytes').length * ofBits (lowFirst c)) * htwo

/-- Two messages of the same length are equal if they and their check words differ in at most three
bits. -/
theorem eq_of_distance_le (hw : 8 ≤ w) (hpoly : lowFirst poly = highFirst normal)
    (hodd : Odd (weight normal)) (hlow : normal.getLsbD 0 = true)
    (horder : ∀ k, 0 < k → k < n → (shift poly)^[k] one ≠ one) (c : BitVec w)
    (hlen : bytes.length = bytes'.length) (hfit : 8 * bytes.length + w ≤ n)
    (h : distance bytes bytes' + weight (update poly c bytes ^^^ update poly c bytes') ≤ 3) :
    bytes = bytes' := by
  have hpos : 0 < w := by omega
  have hcount := count_eq_zero_of_dvd (n := n) (eval_one_generator hodd)
    (coeff_zero_generator hpos hlow)
    (fun k hk hkn => not_dvd_of_iterate_ne hpos hpoly (horder k hk hkn))
    (by
      rw [List.length_append, length_message, length_lowFirst, List.length_zipWith, ← hlen,
        Nat.min_self]
      exact hfit)
    (by rwa [List.count_append, count_message_xor])
    (dvd_ofBits_xor hw hpoly c hlen)
  rw [List.count_append, count_message_xor, Nat.add_eq_zero_iff] at hcount
  exact eq_of_distance_eq_zero hlen hcount.1

end Messages

end Crc
