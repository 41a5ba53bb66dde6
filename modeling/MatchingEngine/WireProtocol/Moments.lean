import MatchingEngine.WireProtocol.Parser

/-!
# The stream parser from moment to moment

A call of `feed`, step by step: the conditions of its two loops, the cutting off of the buffer and
the appending are control points of a machine, whose state also records which bytes were accepted
and which messages were found. The buffer is cut off only when the cursor has passed the half of
it or the buffer has the size of the limit. Where it is not, less stands before the cursor than is
unread, so the buffer never has more than twice the size of the limit.

## Main definitions

* `FeedPhase`, `Feeding`: where a call stands, and what it has done.
* `Feeding.call`, `Feeding.next`: the beginning of a call and its next step.
* `Moment`: the moments of a parser, over any sequence of calls.

## Main results

* `Feeding.reaches_feed`: the steps of a call end, in what `feed` returns.
* `Moment.bounded`: the bounds of the buffer at every moment, and what is unread.
-/

namespace MatchingEngine

/-- Where a call of `feed` stands. The bytes are those of the call that are still to be consumed. -/
inductive FeedPhase where
  /-- There is no call. -/
  | idle
  /-- At the condition of the loop of `process_available`. -/
  | processing (rest : List UInt8)
  /-- At the condition of the loop of `feed`. -/
  | looping (rest : List UInt8)
  /-- In that loop, after `compact_if_needed`. -/
  | compacted (rest : List UInt8)
  deriving DecidableEq, Repr

/-- A parser in the course of its calls, with the bytes that were accepted and the messages that
were found. -/
structure Feeding where
  phase : FeedPhase
  parser : ClientStreamParser
  accepted : List UInt8
  messages : List (WireEnvelope ClientMessage)

namespace Feeding

/-- A new parser. -/
def start (maximumBufferedBytes : ℕ) : Feeding := ⟨.idle, .ofLimit maximumBufferedBytes, [], []⟩

/-- The beginning of a call, which returns at once after a failure. -/
def call (m : Feeding) (bytes : List UInt8) : Feeding :=
  if m.parser.failure.isSome then m else { m with phase := .processing bytes }

/-- The next step of a call. -/
def next (m : Feeding) : Feeding :=
  match m.phase with
  | .idle => m
  | .processing rest =>
    if m.parser.failure.isNone ∧ m.parser.readCursor < m.parser.buffer.length then
      match h : decodeClientFramePrefix m.parser.unread with
      | .error e =>
        if e = .truncatedInput then { m with phase := .looping rest }
        else { m with phase := .idle, parser := { m.parser with failure := some e } }
      | .ok frame =>
        { m with
          parser := m.parser.advance frame.bytesConsumed (WireProtocol.bytesConsumed_bounds h).2
          messages := m.messages ++ [frame.envelope] }
    else if m.parser.failure.isSome then { m with phase := .idle }
    else { m with phase := .looping rest }
  | .looping rest =>
    { m with
      phase := if 0 < rest.length then .compacted rest else .idle
      parser := m.parser.compactIfNeeded }
  | .compacted rest =>
    if m.parser.bufferedSize = m.parser.maximumBufferedBytes then
      { m with phase := .idle, parser := { m.parser with failure := some .bufferLimitExceeded } }
    else
      { m with
        phase := .processing (rest.drop (m.parser.appendCount rest))
        parser := m.parser.append rest
        accepted := m.accepted ++ rest.take (m.parser.appendCount rest) }

/-! ### The steps of a call -/

/-- Some steps lead from one moment to another. -/
def Reaches (m m' : Feeding) : Prop := ∃ n, next^[n] m = m'

theorem Reaches.refl (m : Feeding) : Reaches m m := ⟨0, rfl⟩

theorem Reaches.trans {m m' m'' : Feeding} (h : Reaches m m') (h' : Reaches m' m'') :
    Reaches m m'' := by
  obtain ⟨n, rfl⟩ := h
  obtain ⟨n', rfl⟩ := h'
  exact ⟨n' + n, Function.iterate_add_apply ..⟩

/-- One step, and then others. -/
theorem Reaches.step {m m' m'' : Feeding} (h : m.next = m') (h' : Reaches m' m'') :
    Reaches m m'' :=
  .trans ⟨1, h⟩ h'

section Processing

variable {p : ClientStreamParser} {rest accepted : List UInt8}
  {messages : List (WireEnvelope ClientMessage)}

theorem next_processing_nil (hfailure : p.failure = none) (h : p.unread = []) :
    next ⟨.processing rest, p, accepted, messages⟩ = ⟨.looping rest, p, accepted, messages⟩ := by
  have hcursor : ¬ p.readCursor < p.buffer.length := not_lt.mpr (List.drop_eq_nil_iff.mp h)
  rw [next]
  dsimp only
  rw [if_neg fun hloop => hcursor hloop.2, if_neg (by simp [hfailure])]

theorem next_processing_error {e : WireCodecError} (hfailure : p.failure = none)
    (hne : p.unread ≠ []) (h : decodeClientFramePrefix p.unread = .error e) :
    next ⟨.processing rest, p, accepted, messages⟩ =
      if e = .truncatedInput then ⟨.looping rest, p, accepted, messages⟩
      else ⟨.idle, { p with failure := some e }, accepted, messages⟩ := by
  have hlt : p.readCursor < p.buffer.length := by
    rwa [Ne, ClientStreamParser.unread, List.drop_eq_nil_iff, not_le] at hne
  rw [next]
  dsimp only
  rw [if_pos ⟨Option.isNone_iff_eq_none.mpr hfailure, hlt⟩]
  split
  · next h' =>
    obtain rfl := Except.error.inj (h.symm.trans h')
    rfl
  · next h' => cases h.symm.trans h'

theorem next_processing_ok {d : DecodedFrame ClientMessage} (hfailure : p.failure = none)
    (h : decodeClientFramePrefix p.unread = .ok d) :
    next ⟨.processing rest, p, accepted, messages⟩ =
      ⟨.processing rest, p.advance d.bytesConsumed (WireProtocol.bytesConsumed_bounds h).2,
        accepted, messages ++ [d.envelope]⟩ := by
  obtain ⟨hpos, hle⟩ := WireProtocol.bytesConsumed_bounds h
  have hlt : p.readCursor < p.buffer.length := by
    rw [p.length_unread, ClientStreamParser.bufferedSize] at hle
    omega
  rw [next]
  dsimp only
  rw [if_pos ⟨Option.isNone_iff_eq_none.mpr hfailure, hlt⟩]
  split
  · next h' => cases h.symm.trans h'
  · next h' =>
    obtain rfl := Except.ok.inj (h.symm.trans h')
    rfl

/-- The loop of `process_available` ends, in what `processLoop` returns. -/
theorem reaches_processLoop {fuel : ℕ} (hfuel : p.bufferedSize ≤ fuel)
    (hfailure : p.failure = none) (rest accepted : List UInt8)
    (messages : List (WireEnvelope ClientMessage)) (result : ClientParseFeedResult) :
    let out := ClientStreamParser.processLoop fuel p result
    Reaches ⟨.processing rest, p, accepted, messages ++ result.messages⟩
      ⟨if out.2.failure.isSome then .idle else .looping rest, out.2, accepted,
        messages ++ out.1.messages⟩ := by
  dsimp only
  induction fuel generalizing p result with
  | zero =>
    have hnil : p.unread = [] :=
      List.eq_nil_of_length_eq_zero (p.length_unread.trans (Nat.le_zero.mp hfuel))
    rw [ClientStreamParser.processLoop_nil _ _ hnil, hfailure]
    exact .step (next_processing_nil hfailure hnil) (.refl _)
  | succ fuel ih =>
    by_cases hnil : p.unread = []
    · rw [ClientStreamParser.processLoop_nil _ _ hnil, hfailure]
      exact .step (next_processing_nil hfailure hnil) (.refl _)
    cases hdecode : decodeClientFramePrefix p.unread with
    | error e =>
      refine .step (next_processing_error hfailure hnil hdecode) ?_
      rw [ClientStreamParser.processLoop_error hfuel hfailure hdecode]
      by_cases he : e = .truncatedInput
      · rw [if_pos he, if_pos he, hfailure]
        exact .refl _
      · rw [if_neg he, if_neg he]
        exact .refl _
    | ok d =>
      have hsize := ClientStreamParser.length_unread_advance hdecode
      simp only [ClientStreamParser.length_unread] at hsize
      refine .step (next_processing_ok hfailure hdecode) ?_
      rw [ClientStreamParser.processLoop_ok hfailure hdecode, List.append_assoc]
      exact ih (Nat.le_of_lt_succ (hsize.trans_le hfuel)) hfailure
        { result with messages := result.messages ++ [d.envelope] }

end Processing

section Looping

variable {p : ClientStreamParser} {bytes : List UInt8} (accepted : List UInt8)
  (messages : List (WireEnvelope ClientMessage))

theorem next_looping_of_ne_nil (hne : bytes ≠ []) : next ⟨.looping bytes, p, accepted, messages⟩ =
    ⟨.compacted bytes, p.compactIfNeeded, accepted, messages⟩ := by
  rw [next]
  dsimp only
  rw [if_pos (List.length_pos_of_ne_nil hne)]

/-- An iteration of the loop of `feed` for which there is room. -/
theorem reaches_append (hfailure : p.failure = none)
    (hroom : p.bufferedSize ≠ p.maximumBufferedBytes) (result : ClientParseFeedResult) :
    let out := (p.append bytes).processAvailable result
    Reaches ⟨.compacted bytes, p, accepted, messages ++ result.messages⟩
      ⟨if out.2.failure.isSome then .idle else .looping (bytes.drop (p.appendCount bytes)), out.2,
        accepted ++ bytes.take (p.appendCount bytes), messages ++ out.1.messages⟩ :=
  .step (if_neg hroom) (reaches_processLoop (p := p.append bytes) (Nat.le_refl _) hfailure
    (bytes.drop (p.appendCount bytes)) _ messages result)

/-- The loop of `feed` ends, in what `feedLoop` returns. Unless the parser fails, all bytes are
accepted. -/
theorem reaches_feedLoop {fuel : ℕ} (hfuel : bytes.length ≤ fuel) (hfailure : p.failure = none)
    (result : ClientParseFeedResult) :
    let out := ClientStreamParser.feedLoop fuel p result bytes
    ∃ count, Reaches ⟨.looping bytes, p, accepted, messages ++ result.messages⟩
        ⟨.idle, out.2, accepted ++ bytes.take count, messages ++ out.1.messages⟩ ∧
      (out.2.failure = none → bytes.length ≤ count) := by
  dsimp only
  induction fuel generalizing p result bytes accepted with
  | zero =>
    obtain rfl := List.eq_nil_of_length_eq_zero (Nat.le_zero.mp hfuel)
    refine ⟨0, .step rfl ?_, fun _ => Nat.le_refl 0⟩
    rw [List.take_nil, List.append_nil]
    exact .refl _
  | succ fuel ih =>
    obtain rfl | hne := eq_or_ne bytes []
    · refine ⟨0, .step rfl ?_, fun _ => Nat.le_refl 0⟩
      rw [ClientStreamParser.feedLoop_nil, List.take_nil, List.append_nil]
      exact .refl _
    have hcompact := next_looping_of_ne_nil (p := p) accepted (messages ++ result.messages) hne
    have hfailure' := p.compactIfNeeded_spec.2.2.trans hfailure
    rw [ClientStreamParser.feedLoop, if_pos (List.length_pos_of_ne_nil hne)]
    generalize p.compactIfNeeded = p at hcompact hfailure' ⊢
    dsimp only
    by_cases hfull : p.bufferedSize = p.maximumBufferedBytes
    · refine ⟨0, .step hcompact (.step (if_pos hfull) ?_), ?_⟩
      · rw [if_pos hfull, List.take_zero, List.append_nil]
        exact .refl _
      · rw [if_pos hfull]
        exact fun h => absurd h (Option.some_ne_none _)
    have hprocess := Reaches.step hcompact
      (reaches_append accepted messages hfailure' hfull result)
    rw [if_neg hfull]
    generalize (p.append bytes).processAvailable result = out at hprocess ⊢
    obtain ⟨result, p'⟩ := out
    dsimp only at hprocess ⊢
    cases hfail : p'.failure with
    | some e =>
      rw [hfail] at hprocess
      exact ⟨_, hprocess, fun h => absurd (hfail.symm.trans h) (Option.some_ne_none e)⟩
    | none =>
      have hlength : (bytes.drop (p.appendCount bytes)).length ≤ fuel := by
        have := p.bufferedSize_le
        have := List.length_pos_of_ne_nil hne
        rw [List.length_drop, ClientStreamParser.appendCount]
        omega
      obtain ⟨count, hrest, hall⟩ := ih (accepted ++ bytes.take (p.appendCount bytes)) hlength hfail
        result
      rw [hfail] at hprocess
      refine ⟨p.appendCount bytes + count, hprocess.trans ?_, fun h => ?_⟩
      · rw [List.take_add, ← List.append_assoc]
        exact hrest
      · have := hall h
        rw [List.length_drop] at this
        omega

end Looping

/-- A call ends, in what `feed` returns. -/
theorem reaches_feed (m : Feeding) (hidle : m.phase = .idle) (bytes : List UInt8) :
    let out := m.parser.feed bytes
    ∃ count, Reaches (m.call bytes)
        ⟨.idle, out.2, m.accepted ++ bytes.take count, m.messages ++ out.1.messages⟩ ∧
      (out.2.failure = none → bytes.length ≤ count) := by
  dsimp only
  obtain ⟨phase, p, accepted, messages⟩ := m
  obtain rfl : phase = .idle := hidle
  rw [call, ClientStreamParser.feed]
  dsimp only
  cases hfailure : p.failure with
  | some e =>
    refine ⟨0, ?_, fun h => absurd (hfailure.symm.trans h) (Option.some_ne_none e)⟩
    rw [if_pos Option.isSome_some, if_pos Option.isSome_some, List.take_zero, List.append_nil,
      List.append_nil]
    exact .refl _
  | none =>
    rw [if_neg (by decide), if_neg (by decide)]
    have hprocess := reaches_processLoop (Nat.le_refl _) hfailure bytes accepted messages {}
    rw [← ClientStreamParser.processAvailable] at hprocess
    generalize p.processAvailable {} = out at hprocess ⊢
    obtain ⟨result, p'⟩ := out
    dsimp only at hprocess ⊢
    rw [List.append_nil] at hprocess
    cases hfail : p'.failure with
    | some e =>
      rw [hfail] at hprocess
      refine ⟨0, ?_, fun h => absurd (hfail.symm.trans h) (Option.some_ne_none e)⟩
      rw [List.take_zero, List.append_nil]
      exact hprocess
    | none =>
      obtain ⟨count, hloop, hall⟩ := reaches_feedLoop accepted messages (Nat.le_refl bytes.length)
        hfail result
      rw [hfail] at hprocess
      exact ⟨count, hprocess.trans hloop, hall⟩

/-- Wherever a call stands, its steps come to the end of the call. -/
def Ends (m : Feeding) : Prop := ∃ n, (next^[n] m).phase = .idle

theorem Reaches.ends {m m' : Feeding} (h : Reaches m m') (h' : m'.Ends) : m.Ends := by
  obtain ⟨n, rfl⟩ := h
  obtain ⟨n', hidle⟩ := h'
  exact ⟨n' + n, by rwa [Function.iterate_add_apply]⟩

section Ends

variable {p : ClientStreamParser} (hfailure : p.failure = none) (rest accepted : List UInt8)
  (messages : List (WireEnvelope ClientMessage))

include hfailure

theorem ends_looping : Ends ⟨.looping rest, p, accepted, messages⟩ := by
  obtain ⟨_, hreaches, -⟩ := reaches_feedLoop accepted messages (Nat.le_refl rest.length) hfailure
    {}
  rw [List.append_nil] at hreaches
  exact hreaches.ends ⟨0, rfl⟩

theorem ends_processing : Ends ⟨.processing rest, p, accepted, messages⟩ := by
  have hreaches := reaches_processLoop (Nat.le_refl _) hfailure rest accepted messages {}
  dsimp only at hreaches
  rw [List.append_nil] at hreaches
  generalize ClientStreamParser.processLoop _ p {} = out at hreaches
  refine hreaches.ends ?_
  cases hfail : out.2.failure with
  | some e => exact ⟨0, rfl⟩
  | none => exact ends_looping hfail rest accepted _

theorem ends_compacted : Ends ⟨.compacted rest, p, accepted, messages⟩ := by
  by_cases hfull : p.bufferedSize = p.maximumBufferedBytes
  · exact Reaches.ends ⟨1, if_pos hfull⟩ ⟨0, rfl⟩
  · exact Reaches.ends ⟨1, if_neg hfull⟩ (ends_processing (p := p.append rest) hfailure ..)

end Ends

/-! ### What holds at every moment -/

/-- A frame that is decoded stands at the beginning of what was unread. -/
theorem unread_eq_frame_append {p : ClientStreamParser} {d : DecodedFrame ClientMessage}
    (h : decodeClientFramePrefix p.unread = .ok d) :
    ∃ bytes, encodeClientFrame d.envelope = .ok bytes ∧ p.unread =
      bytes ++ (p.advance d.bytesConsumed (WireProtocol.bytesConsumed_bounds h).2).unread := by
  obtain ⟨-, -, htake⟩ := WireProtocol.clientCodec.eq_frame_of_decodeFramePrefix h
  refine ⟨_, WireProtocol.encodeClientFrame_eq d.envelope, ?_⟩
  rw [ClientStreamParser.unread_advance, ← htake, List.take_append_drop]

/-- What is kept before the cursor, after the buffer was cut off or not, is not more than what is
unread. -/
theorem compactIfNeeded_bounds (p : ClientStreamParser) :
    p.compactIfNeeded.buffer.length ≤ p.buffer.length ∧
      p.compactIfNeeded.readCursor ≤ p.compactIfNeeded.bufferedSize := by
  rw [ClientStreamParser.compactIfNeeded]
  split_ifs with hzero hend hhalf
  · exact ⟨Nat.le_refl _, by omega⟩
  · exact ⟨Nat.zero_le _, Nat.zero_le _⟩
  · refine ⟨?_, Nat.zero_le _⟩
    rw [List.length_drop]
    omega
  · refine ⟨Nat.le_refl _, ?_⟩
    rw [ClientStreamParser.bufferedSize]
    omega

/-- The invariant of a parser in the course of its calls. -/
structure Sound (maximum : ℕ) (m : Feeding) : Prop where
  maximum_eq : m.parser.maximumBufferedBytes = maximum
  failure_eq : m.phase ≠ .idle → m.parser.failure = none
  length_le : m.parser.buffer.length ≤ 2 * maximum
  cursor_le : ∀ rest, m.phase = .compacted rest → m.parser.readCursor ≤ maximum
  accepted_eq : ∃ frames,
    List.Forall₂ (fun envelope bytes => encodeClientFrame envelope = .ok bytes) m.messages frames ∧
      m.accepted = frames.flatten ++ m.parser.unread

namespace Sound

variable {maximum : ℕ} {m : Feeding}

theorem start (maximum : ℕ) : Sound maximum (start maximum) where
  maximum_eq := rfl
  failure_eq _ := rfl
  length_le := Nat.zero_le _
  cursor_le _ _ := Nat.zero_le _
  accepted_eq := ⟨[], .nil, rfl⟩

theorem ends (hm : Sound maximum m) : m.Ends := by
  obtain ⟨phase, p, accepted, messages⟩ := m
  cases phase with
  | idle => exact ⟨0, rfl⟩
  | processing rest => exact ends_processing (hm.failure_eq (by simp)) rest accepted messages
  | looping rest => exact ends_looping (hm.failure_eq (by simp)) rest accepted messages
  | compacted rest => exact ends_compacted (hm.failure_eq (by simp)) rest accepted messages

theorem call (hm : Sound maximum m) (bytes : List UInt8) : Sound maximum (m.call bytes) := by
  rw [Feeding.call]
  split_ifs with hfailure
  · exact hm
  · exact ⟨hm.maximum_eq, fun _ => Option.not_isSome_iff_eq_none.mp hfailure, hm.length_le,
      by rintro _ ⟨⟩, hm.accepted_eq⟩

section Next

variable {p : ClientStreamParser} {rest accepted : List UInt8}
  {messages : List (WireEnvelope ClientMessage)}

theorem next_processing (hm : Sound maximum ⟨.processing rest, p, accepted, messages⟩) :
    Sound maximum (Feeding.next ⟨.processing rest, p, accepted, messages⟩) := by
  have hfailure : p.failure = none := hm.failure_eq (by simp)
  by_cases hnil : p.unread = []
  · rw [next_processing_nil hfailure hnil]
    exact ⟨hm.maximum_eq, fun _ => hfailure, hm.length_le, by rintro _ ⟨⟩, hm.accepted_eq⟩
  cases hdecode : decodeClientFramePrefix p.unread with
  | error e =>
    rw [next_processing_error hfailure hnil hdecode]
    split_ifs with he
    · exact ⟨hm.maximum_eq, fun _ => hfailure, hm.length_le, by rintro _ ⟨⟩, hm.accepted_eq⟩
    · exact ⟨hm.maximum_eq, fun h => absurd rfl h, hm.length_le, by rintro _ ⟨⟩, hm.accepted_eq⟩
  | ok d =>
    obtain ⟨frames, hframes, haccepted⟩ := hm.accepted_eq
    obtain ⟨bytes, hencode, hunread⟩ := unread_eq_frame_append hdecode
    rw [next_processing_ok hfailure hdecode]
    refine ⟨hm.maximum_eq, fun _ => hfailure, hm.length_le, by rintro _ ⟨⟩, frames ++ [bytes],
      List.rel_append hframes (.cons hencode .nil), ?_⟩
    rw [List.flatten_append, List.flatten_singleton, List.append_assoc]
    exact haccepted.trans (congrArg _ hunread)

theorem next_looping (hm : Sound maximum ⟨.looping rest, p, accepted, messages⟩) :
    Sound maximum (Feeding.next ⟨.looping rest, p, accepted, messages⟩) := by
  obtain ⟨hunread, hmaximum, hfailure⟩ := p.compactIfNeeded_spec
  obtain ⟨hshorter, hcursor⟩ := compactIfNeeded_bounds p
  obtain ⟨frames, hframes, haccepted⟩ := hm.accepted_eq
  have hsize := p.compactIfNeeded.bufferedSize_le
  rw [hmaximum, hm.maximum_eq] at hsize
  refine ⟨hmaximum.trans hm.maximum_eq, fun _ => hfailure.trans (hm.failure_eq (by simp)),
    hshorter.trans hm.length_le, fun _ _ => hcursor.trans hsize, frames, hframes, ?_⟩
  exact haccepted.trans (congrArg _ hunread.symm)

/-- What is before the cursor and what is unread are each within the limit. -/
theorem next_compacted (hm : Sound maximum ⟨.compacted rest, p, accepted, messages⟩) :
    Sound maximum (Feeding.next ⟨.compacted rest, p, accepted, messages⟩) := by
  rw [Feeding.next]
  dsimp only
  split_ifs with hfull
  · exact ⟨hm.maximum_eq, fun h => absurd rfl h, hm.length_le, by rintro _ ⟨⟩, hm.accepted_eq⟩
  · obtain ⟨frames, hframes, haccepted⟩ := hm.accepted_eq
    have hcursor : p.readCursor ≤ maximum := hm.cursor_le rest rfl
    have hmaximum : p.maximumBufferedBytes = maximum := hm.maximum_eq
    have hunread := (p.append rest).unread_le
    refine ⟨hmaximum, fun _ => hm.failure_eq (by simp), ?_, by rintro _ ⟨⟩, frames, hframes, ?_⟩
    · dsimp only [ClientStreamParser.append] at hunread ⊢
      omega
    · rw [ClientStreamParser.unread_append, ← List.append_assoc]
      exact congrArg (· ++ _) haccepted

end Next

theorem next (hm : Sound maximum m) : Sound maximum m.next := by
  obtain ⟨phase, p, accepted, messages⟩ := m
  cases phase with
  | idle => exact hm
  | processing rest => exact hm.next_processing
  | looping rest => exact hm.next_looping
  | compacted rest => exact hm.next_compacted

end Sound

end Feeding

/-- The moments of a parser: a call can begin when there is none, and every step of it leads to
another moment. -/
inductive Moment (maximum : ℕ) : Feeding → Prop
  | start : Moment maximum (.start maximum)
  | call {m : Feeding} (bytes : List UInt8) :
    m.phase = .idle → Moment maximum m → Moment maximum (m.call bytes)
  | next {m : Feeding} : Moment maximum m → Moment maximum m.next

namespace Moment

variable {maximum : ℕ} {m : Feeding}

theorem sound (hm : Moment maximum m) : m.Sound maximum := by
  induction hm with
  | start => exact .start maximum
  | call bytes _ _ ih => exact ih.call bytes
  | next _ ih => exact ih.next

/-- At every moment of any sequence of calls the cursor lies in the buffer, at most as many bytes
as the limit are unread, and the buffer has at most twice that size; what is unread is what the
frames of the messages leave of the bytes accepted so far; and the call comes to its end, which is
what `feed` returns. -/
theorem bounded (hm : Moment maximum m) :
    m.parser.readCursor ≤ m.parser.buffer.length ∧
    m.parser.buffer.length - m.parser.readCursor ≤ maximum ∧
    m.parser.buffer.length ≤ 2 * maximum ∧
    (∃ frames,
      List.Forall₂ (fun envelope bytes => encodeClientFrame envelope = .ok bytes) m.messages
        frames ∧
      m.accepted = frames.flatten ++ m.parser.unread) ∧
    (∃ n, (Feeding.next^[n] m).phase = .idle) ∧
    (m.phase = .idle → ∀ bytes, ∃ n count,
      Feeding.next^[n] (m.call bytes) =
        ⟨.idle, (m.parser.feed bytes).2, m.accepted ++ bytes.take count,
          m.messages ++ (m.parser.feed bytes).1.messages⟩ ∧
      ((m.parser.feed bytes).2.failure = none → bytes.length ≤ count)) := by
  have hsound := hm.sound
  have hunread := m.parser.unread_le
  rw [hsound.maximum_eq] at hunread
  refine ⟨m.parser.cursor_le, hunread, hsound.length_le, hsound.accepted_eq, hsound.ends, ?_⟩
  intro hidle bytes
  obtain ⟨count, ⟨n, hn⟩, hall⟩ := m.reaches_feed hidle bytes
  exact ⟨n, count, hn, hall⟩

/-- With a limit of three bytes, three of four are in the buffer when the last one is still to be
consumed. -/
theorem bounded_three :
    let m := ((Feeding.start 3).call [0x4D, 0x45, 0x58, 0x47]).next.next.next
    m.phase = .processing [0x47] ∧ m.accepted = [0x4D, 0x45, 0x58] ∧
      m.parser.buffer.length ≤ 2 * 3 ∧ ∃ n, (Feeding.next^[n] m).phase = .idle := by
  have hm : Moment 3 ((Feeding.start 3).call [0x4D, 0x45, 0x58, 0x47]).next.next.next :=
    .next (.next (.next (.call _ rfl .start)))
  obtain ⟨-, -, hlength, -, hends, -⟩ := bounded hm
  exact ⟨by decide, by decide, hlength, hends⟩

end Moment

end MatchingEngine
