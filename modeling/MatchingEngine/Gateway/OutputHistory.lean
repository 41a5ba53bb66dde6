import MatchingEngine.Gateway.Output

/-!
# What a connection has been sent

The buffer of a connection over any sequence of calls. Beside the buffer stand the bytes that
`send` has reported as sent and what was appended, both since the buffer was last cleared. However
short the writes are and wherever the buffer is compacted, no byte is lost, repeated or moved.

## Main definitions

* `SendsWithin`: `send` never reports more than it was given.
* `OutputHistory`, `OutputHistory.Reached`: a buffer with its history, after any calls.

## Main results

* `OutputHistory.sent_append_pending`: what was sent and what is pending was appended.
-/

namespace MatchingEngine

/-- No result of `send` counts more bytes than are pending when it is called. The results after
the end of the loop are not looked at. -/
def SendsWithin : ℕ → List SendResult → Prop
  | pending, .sent count :: results =>
    pending = 0 ∨ count = 0 ∨ count ≤ pending ∧ SendsWithin (pending - count) results
  | pending, .interrupted :: results => SendsWithin pending results
  | _, _ => True

namespace ConnectionOutputBuffer

theorem length_pending (b : ConnectionOutputBuffer) : b.pending.length = b.pendingSize :=
  List.length_drop

theorem pendingSize_advance {b : ConnectionOutputBuffer} {count : ℕ} (h : count ≤ b.pendingSize) :
    (b.advance count h).pendingSize = b.pendingSize - count := by
  rw [← length_pending, pending_advance, List.length_drop, length_pending]

theorem append_eq_none_iff (b : ConnectionOutputBuffer) (bytes : List UInt8) (maximum : ℕ) :
    b.append bytes maximum = none ↔ maximum < b.pendingSize + bytes.length := by
  rw [append]
  by_cases h : b.pendingSize > maximum ∨ bytes.length > maximum - b.pendingSize
  · rw [if_pos h]
    exact iff_of_true rfl (by omega)
  · rw [if_neg h]
    exact iff_of_false (Option.some_ne_none _) (by omega)

theorem pendingSize_append {b b' : ConnectionOutputBuffer} {bytes : List UInt8} {maximum : ℕ}
    (h : b.append bytes maximum = some b') : b'.pendingSize ≤ maximum := by
  have hfits := (append_eq_none_iff b bytes maximum).not.mp (by rw [h]; exact Option.some_ne_none _)
  rw [← length_pending, pending_append h, List.length_append, length_pending]
  omega

/-- With results that `send` can have, also after an error, `flush` has sent some of the pending
bytes and left the others. -/
theorem flush_sendsWithin (b : ConnectionOutputBuffer) (results : List SendResult)
    (h : SendsWithin b.pendingSize results) :
    (b.flush results).2.1 ++ (b.flush results).2.2.pending = b.pending := by
  fun_induction flush b results with
  | case1 | case2 | case3 | case4 | case9 | case10 => rfl
  | case5 b results hne count hpos hle hempty =>
    have hdrop := isEmpty_iff.mp hempty
    rw [pending_advance] at hdrop
    rw [pending_clear, ← hdrop, List.take_append_drop]
  | case6 b results hne count hpos hle hleft r ih =>
    rw [isEmpty, decide_eq_true_iff] at hne
    obtain ⟨-, hrest⟩ := (h.resolve_left hne).resolve_left hpos
    rw [← pendingSize_advance hle] at hrest
    rw [List.append_assoc, ih hrest, pending_advance, List.take_append_drop]
  | case7 b results hne count hpos hover =>
    rw [isEmpty, decide_eq_true_iff] at hne
    exact absurd ((h.resolve_left hne).resolve_left hpos).1 hover
  | case8 b results hne ih => exact ih h

end ConnectionOutputBuffer

/-- A buffer with what was sent and appended since it was last cleared. What was appended stands
with the limit of the call. -/
structure OutputHistory where
  buffer : ConnectionOutputBuffer
  sent : List UInt8
  appended : List (List UInt8 × ℕ)

namespace OutputHistory

def start : OutputHistory := ⟨.empty, [], []⟩

/-- A call of `append`, which may be refused. -/
def append (h : OutputHistory) (bytes : List UInt8) (maximumPendingBytes : ℕ) : OutputHistory :=
  match h.buffer.append bytes maximumPendingBytes with
  | none => h
  | some buffer => ⟨buffer, h.sent, h.appended ++ [(bytes, maximumPendingBytes)]⟩

/-- A call of `flush`, in which `send` comes to the results. -/
def flush (h : OutputHistory) (results : List SendResult) : OutputHistory :=
  ⟨(h.buffer.flush results).2.2, h.sent ++ (h.buffer.flush results).2.1, h.appended⟩

/-- A call of `clear`, with which a new history begins. -/
def clear (h : OutputHistory) : OutputHistory := ⟨h.buffer.clear, [], []⟩

/-- All that was appended, in its order. -/
def appendedBytes (h : OutputHistory) : List UInt8 := h.appended.flatMap Prod.fst

/-- The largest limit with which something was appended. -/
def largestLimit (h : OutputHistory) : ℕ := (h.appended.map Prod.snd).foldl max 0

/-- The histories of the sequences of calls. -/
inductive Reached : OutputHistory → Prop
  | start : Reached start
  | append {h : OutputHistory} (bytes : List UInt8) (maximumPendingBytes : ℕ) :
    Reached h → Reached (h.append bytes maximumPendingBytes)
  | flush {h : OutputHistory} (results : List SendResult) :
    SendsWithin h.buffer.pendingSize results → Reached h → Reached (h.flush results)
  | clear {h : OutputHistory} : Reached h → Reached h.clear

variable {h : OutputHistory}

theorem largestLimit_append (h : OutputHistory) (buffer : ConnectionOutputBuffer)
    (bytes : List UInt8) (maximum : ℕ) :
    (OutputHistory.mk buffer h.sent (h.appended ++ [(bytes, maximum)])).largestLimit =
      max h.largestLimit maximum := by
  simp [largestLimit, List.foldl_append]

/-- No byte is lost or repeated. -/
theorem Reached.sent_eq (hr : Reached h) : h.sent ++ h.buffer.pending = h.appendedBytes := by
  induction hr with
  | start => rfl
  | @append h bytes maximum _ ih =>
    rw [OutputHistory.append]
    cases happend : h.buffer.append bytes maximum with
    | none => exact ih
    | some buffer =>
      dsimp only
      rw [ConnectionOutputBuffer.pending_append happend, ← List.append_assoc, ih]
      simp [appendedBytes]
  | flush results hwithin _ ih =>
    rw [OutputHistory.flush]
    dsimp only
    rw [List.append_assoc, ConnectionOutputBuffer.flush_sendsWithin _ _ hwithin]
    exact ih
  | clear => rfl

/-- What is pending was within a limit when it was appended, and has only become less. -/
theorem Reached.pendingSize_le (hr : Reached h) : h.buffer.pendingSize ≤ h.largestLimit := by
  induction hr with
  | start => exact Nat.le_refl 0
  | @append h bytes maximum _ ih =>
    rw [OutputHistory.append]
    cases happend : h.buffer.append bytes maximum with
    | none => exact ih
    | some buffer =>
      dsimp only
      rw [largestLimit_append]
      exact Nat.le_trans (ConnectionOutputBuffer.pendingSize_append happend) (Nat.le_max_right ..)
  | @flush h results hwithin _ ih =>
    have hlen := congrArg List.length (ConnectionOutputBuffer.flush_sendsWithin _ _ hwithin)
    rw [List.length_append, ConnectionOutputBuffer.length_pending,
      ConnectionOutputBuffer.length_pending] at hlen
    exact Nat.le_trans (Nat.le_of_add_left_le (Nat.le_of_eq hlen)) ih
  | clear => exact Nat.le_refl 0

/-- After any calls of `append`, `flush` and `clear`, with any results of `send`: what was sent
since the buffer was last cleared, followed by what is pending, is what was appended since then;
no more is pending than the largest limit allows; the offset lies in the buffer; and an append that
is refused, because it would exceed its limit, changes nothing. -/
theorem sent_append_pending (hr : Reached h) :
    h.sent ++ h.buffer.pending = h.appendedBytes ∧
    h.buffer.pendingSize ≤ h.largestLimit ∧
    h.buffer.offset ≤ h.buffer.bytes.length ∧
    ∀ bytes maximum,
      (h.buffer.append bytes maximum = none ↔
        maximum < h.buffer.pendingSize + bytes.length) ∧
      (h.buffer.append bytes maximum = none → h.append bytes maximum = h) := by
  refine ⟨hr.sent_eq, hr.pendingSize_le, h.buffer.offset_le, fun bytes maximum =>
    ⟨ConnectionOutputBuffer.append_eq_none_iff .., fun hrefused => ?_⟩⟩
  rw [OutputHistory.append, hrefused]

/-- Of three bytes `send` takes two, after it was interrupted and before it would block. Two more
fit behind the third, and then no other. -/
theorem sent_append_pending_short :
    let h := ((start.append [1, 2, 3] 4).flush [.interrupted, .sent 2, .wouldBlock]).append
      [4, 5] 3
    h.sent = [1, 2] ∧ h.buffer.pending = [3, 4, 5] ∧ h.append [6] 3 = h ∧
      h.sent ++ h.buffer.pending = h.appendedBytes := by
  have hsize : (start.append [1, 2, 3] 4).buffer.pendingSize = 3 := rfl
  have hsends : SendsWithin (start.append [1, 2, 3] 4).buffer.pendingSize
      [.interrupted, .sent 2, .wouldBlock] := by
    rw [hsize]
    simp [SendsWithin]
  have hr := Reached.append [4, 5] 3 (.flush _ hsends (.append [1, 2, 3] 4 .start))
  obtain ⟨hsent, -, -, hrefused⟩ := sent_append_pending hr
  exact ⟨rfl, rfl, (hrefused [6] 3).2 rfl, hsent⟩

end OutputHistory

end MatchingEngine
