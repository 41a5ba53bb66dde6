import Mathlib.Data.Nat.Notation
import Mathlib.Data.List.Basic

/-!
# Decoders of a prefix

A decoder that looks at the beginning of a list, and says what it has found and how much of the list
that is, or that it needs more of the list, or that there is no hope. Such a decoder is sound if
what follows does not matter once it has decided, and if what it has found is not empty. A reader of
a stream can then call it with what has arrived so far, and a reader of a file with a window of it.

A decoder that must be given the whole of one item is made from it by a check of the size.

## Main definitions

* `PrefixDecoder`: the laws of such a decoder.
* `ExactDecoder`: a decoder that accepts what an encoder writes, and nothing behind it.

## Main results

* `PrefixDecoder.decode_take_of_lt`: a part of what is decoded is incomplete.
* `PrefixDecoder.decode_take`: a window that is never incomplete is enough.
* `ExactDecoder.of_size`: the check of the size gives such a decoder.
-/

/-- The laws of a decoder that may need more of a list. -/
structure PrefixDecoder {α ε δ : Type*} (decode : List α → Except ε δ) (incomplete : ε)
    (consumed : δ → ℕ) : Prop where
  append_eq : ∀ l rest, decode l ≠ .error incomplete → decode (l ++ rest) = decode l
  consumed_pos : ∀ l d, decode l = .ok d → 0 < consumed d
  consumed_le : ∀ l d, decode l = .ok d → consumed d ≤ l.length

namespace PrefixDecoder

variable {α ε δ : Type*} {decode : List α → Except ε δ} {incomplete : ε} {consumed : δ → ℕ}

/-- A part of what is decoded is incomplete. -/
theorem decode_take_of_lt (h : PrefixDecoder decode incomplete consumed) {l : List α} {d : δ}
    (hdecode : decode l = .ok d) {n : ℕ} (hn : n < consumed d) :
    decode (l.take n) = .error incomplete := by
  by_contra hne
  have happend := h.append_eq (l.take n) (l.drop n) hne
  rw [List.take_append_drop, hdecode] at happend
  have hle := h.consumed_le _ _ happend.symm
  rw [List.length_take] at hle
  omega

/-- A window in which nothing is incomplete shows all that the decoder needs. -/
theorem decode_take (h : PrefixDecoder decode incomplete consumed) {m : ℕ}
    (hm : ∀ l, decode l = .error incomplete → l.length < m) (l : List α) :
    decode (l.take m) = decode l := by
  by_cases hne : decode (l.take m) = .error incomplete
  · have hlength := hm _ hne
    rw [List.length_take] at hlength
    rw [List.take_of_length_le (by omega)]
  · have happend := h.append_eq (l.take m) (l.drop m) hne
    rwa [List.take_append_drop, eq_comm] at happend

end PrefixDecoder

/-- A decoder accepts the lists that an encoder writes, and tells those that have more behind them
from all others. -/
structure ExactDecoder {α ε δ μ : Type*} (encodes : μ → List α → Prop)
    (decode : List α → Except ε δ) (item : δ → μ) (consumed : δ → ℕ) (trailing : ε) : Prop where
  ok_iff : ∀ l d, decode l = .ok d ↔ consumed d = l.length ∧ encodes (item d) l
  trailing_iff : ∀ l, decode l = .error trailing ↔
    ∃ m written rest, encodes m written ∧ rest ≠ [] ∧ l = written ++ rest

namespace ExactDecoder

variable {α ε δ μ : Type*} {encodes : μ → List α → Prop} {exact : List α → Except ε δ}
  {item : δ → μ} {consumed : δ → ℕ} {trailing : ε}

/-- A decoder that reads back what an encoder has written, whatever follows it, becomes exact if it
is made to fail unless it has used up all of the list. -/
theorem of_size (decode : List α → Except ε δ)
    (hexact : ∀ l, exact l = (decode l).bind fun d =>
      if consumed d ≠ l.length then .error trailing else .ok d)
    (hread : ∀ d written rest, encodes (item d) written → consumed d = written.length →
      decode (written ++ rest) = .ok d)
    (hmake : ∀ m n, ∃ d, item d = m ∧ consumed d = n)
    (hwritten : ∀ l d, decode l = .ok d →
      consumed d ≤ l.length ∧ encodes (item d) (l.take (consumed d)))
    (hne : ∀ l, decode l ≠ .error trailing) :
    ExactDecoder encodes exact item consumed trailing where
  ok_iff l d := by
    rw [hexact]
    constructor
    · intro h
      cases hdecode : decode l with
      | error e => cases hdecode ▸ h
      | ok d' =>
        rw [hdecode, Except.bind] at h
        split_ifs at h with hsize
        obtain rfl := Except.ok.inj h
        have hencodes := (hwritten l d' hdecode).2
        rw [not_not.mp hsize, List.take_length] at hencodes
        exact ⟨not_not.mp hsize, hencodes⟩
    · rintro ⟨hsize, hencodes⟩
      have hdecode := hread d l [] hencodes hsize
      rw [List.append_nil] at hdecode
      rw [hdecode, Except.bind, if_neg (not_not.mpr hsize)]
  trailing_iff l := by
    rw [hexact]
    constructor
    · intro h
      cases hdecode : decode l with
      | error e =>
        rw [hdecode] at h
        exact absurd (hdecode.trans h) (hne l)
      | ok d =>
        rw [hdecode, Except.bind] at h
        split_ifs at h with hsize
        obtain ⟨hle, hencodes⟩ := hwritten l d hdecode
        refine ⟨item d, _, l.drop (consumed d), hencodes, fun hnil => hsize ?_,
          (List.take_append_drop _ _).symm⟩
        exact Nat.le_antisymm hle (List.drop_eq_nil_iff.mp hnil)
    · rintro ⟨m, written, rest, hencodes, hrest, rfl⟩
      obtain ⟨d, rfl, hsize⟩ := hmake m written.length
      have hpos := List.length_pos_of_ne_nil hrest
      rw [hread d written rest hencodes hsize, Except.bind,
        if_pos (by rw [List.length_append]; omega)]

end ExactDecoder
