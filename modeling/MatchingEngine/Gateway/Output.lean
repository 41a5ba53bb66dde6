import Mathlib.Algebra.Ring.Nat
import Mathlib.Data.List.Basic

/-!
# The output of a connection

The buffer of `src/connection.hpp` between the responses of a connection and its socket. What
`send` comes to is given by a list of results, behind which the socket would block.

## Main definitions

* `ConnectionOutputBuffer`, `ConnectionOutputBuffer.append`, `ConnectionOutputBuffer.flush`.

## Main results

* `ConnectionOutputBuffer.pending_append`: what is appended comes behind what is pending.
* `ConnectionOutputBuffer.flush_pending`: what is sent and what is pending after it was pending.
-/

namespace MatchingEngine

inductive OutputFlushResult where
  | drained
  | wouldBlock
  | fatal
  deriving DecidableEq, Repr

/-- What a call of `send` comes to. -/
inductive SendResult where
  | sent (count : ℕ)
  | interrupted
  | wouldBlock
  | failed
  deriving DecidableEq, Repr

structure ConnectionOutputBuffer where
  bytes : List UInt8
  offset : ℕ
  offset_le : offset ≤ bytes.length

namespace ConnectionOutputBuffer

/-- A buffer as its constructor leaves it. -/
def empty : ConnectionOutputBuffer := ⟨[], 0, Nat.zero_le _⟩

def pendingSize (b : ConnectionOutputBuffer) : ℕ := b.bytes.length - b.offset

/-- The bytes from `bytes_.data() + offset_` on. -/
def pending (b : ConnectionOutputBuffer) : List UInt8 := b.bytes.drop b.offset

def isEmpty (b : ConnectionOutputBuffer) : Bool := b.pendingSize = 0

def clear (_ : ConnectionOutputBuffer) : ConnectionOutputBuffer := empty

def compact (b : ConnectionOutputBuffer) : ConnectionOutputBuffer :=
  if b.offset = 0 then b
  else if b.offset = b.bytes.length then b.clear
  else ⟨b.bytes.drop b.offset, 0, Nat.zero_le _⟩

/-- The buffer with the bytes, or nothing if they would exceed the limit. -/
def append (b : ConnectionOutputBuffer) (bytes : List UInt8) (maximumPendingBytes : ℕ) :
    Option ConnectionOutputBuffer :=
  if b.pendingSize > maximumPendingBytes ∨
      bytes.length > maximumPendingBytes - b.pendingSize then none
  else some
    { bytes := b.compact.bytes ++ bytes
      offset := b.compact.offset
      offset_le := by
        rw [List.length_append]
        exact Nat.le_add_right_of_le b.compact.offset_le }

/-- The buffer after `count` bytes were sent. -/
def advance (b : ConnectionOutputBuffer) (count : ℕ) (h : count ≤ b.pendingSize) :
    ConnectionOutputBuffer where
  bytes := b.bytes
  offset := b.offset + count
  offset_le := by
    have := b.offset_le
    rw [pendingSize] at h
    omega

/-- The result of `flush`, the bytes that the socket has accepted and the buffer that is left. A
count above what was handed to `send` stands for all of it. -/
def flush : ConnectionOutputBuffer → List SendResult →
    OutputFlushResult × List UInt8 × ConnectionOutputBuffer
  | b, [] => if b.isEmpty then (.drained, [], b) else (.wouldBlock, [], b)
  | b, result :: results =>
    if b.isEmpty then (.drained, [], b)
    else
      match result with
      | .sent count =>
        if count = 0 then (.fatal, [], b)
        else if h : count ≤ b.pendingSize then
          if (b.advance count h).isEmpty then
            (.drained, b.pending.take count, (b.advance count h).clear)
          else
            let r := flush (b.advance count h) results
            (r.1, b.pending.take count ++ r.2.1, r.2.2)
        else (.fatal, b.pending, b)
      | .interrupted => flush b results
      | .wouldBlock => (.wouldBlock, [], b)
      | .failed => (.fatal, [], b)

@[simp] theorem pending_empty : empty.pending = [] := rfl

@[simp] theorem pending_clear (b : ConnectionOutputBuffer) : b.clear.pending = [] := rfl

@[simp] theorem pending_compact (b : ConnectionOutputBuffer) : b.compact.pending = b.pending := by
  unfold compact
  split_ifs with hzero hall
  · rfl
  · rw [pending_clear, pending, hall, List.drop_length]
  · rfl

@[simp] theorem pending_advance {b : ConnectionOutputBuffer} {count : ℕ}
    (h : count ≤ b.pendingSize) : (b.advance count h).pending = b.pending.drop count := by
  rw [pending, pending, List.drop_drop]
  rfl

theorem isEmpty_iff {b : ConnectionOutputBuffer} : b.isEmpty = true ↔ b.pending = [] := by
  rw [isEmpty, decide_eq_true_iff, pending, List.drop_eq_nil_iff, pendingSize,
    Nat.sub_eq_zero_iff_le]

theorem pending_append {b b' : ConnectionOutputBuffer} {bytes : List UInt8} {maximum : ℕ}
    (h : b.append bytes maximum = some b') : b'.pending = b.pending ++ bytes := by
  rw [append] at h
  split_ifs at h
  cases h
  rw [← pending_compact b, pending, pending, List.drop_append_of_le_length b.compact.offset_le]

/-- Unless `flush` reports an error, it sends some of the pending bytes and leaves the others. -/
theorem flush_pending (b : ConnectionOutputBuffer) (results : List SendResult) :
    (b.flush results).2.1 <+: b.pending ∧ ((b.flush results).1 ≠ .fatal →
      (b.flush results).2.1 ++ (b.flush results).2.2.pending = b.pending) := by
  fun_induction flush b results with
  | case1 | case2 | case3 | case4 | case9 | case10 => exact ⟨List.nil_prefix, fun _ => rfl⟩
  | case5 b results hne count hpos h hempty =>
    have hdrop := isEmpty_iff.mp hempty
    rw [pending_advance] at hdrop
    refine ⟨List.take_prefix .., fun _ => ?_⟩
    rw [pending_clear, ← hdrop, List.take_append_drop]
  | case6 b results hne count hpos h hleft r ih =>
    rw [pending_advance] at ih
    obtain ⟨hbegins, hrest⟩ := ih
    have hsplit := List.take_append_drop count b.pending
    have hmore := (List.prefix_append_right_inj (b.pending.take count)).mpr hbegins
    rw [hsplit] at hmore
    refine ⟨hmore, fun hfatal => ?_⟩
    rw [List.append_assoc, hrest hfatal, hsplit]
  | case7 b => exact ⟨List.prefix_refl _, fun h => absurd rfl h⟩
  | case8 b results hne ih => exact ih

/-- A socket that takes all of a buffer gets it. -/
theorem flush_all (bytes : List UInt8) :
    ((ConnectionOutputBuffer.mk bytes 0 (Nat.zero_le _)).flush [.sent bytes.length]).2.1 =
      bytes := by
  rw [flush]
  by_cases hnil : bytes = []
  · simp [hnil, isEmpty, pendingSize]
  · simp [hnil, isEmpty, pendingSize, advance, pending]

end ConnectionOutputBuffer

end MatchingEngine
