import MatchingEngine.Data.Run
import MatchingEngine.WireProtocol.Codec

/-!
# The stream parser

`ClientStreamParser` cuts the bytes of a connection into frames. It appends what it is fed to a
buffer with a limit, decodes as many frames as there are, and moves a cursor over what it has
decoded; the buffer is cut off before the cursor only now and then.

The parser is compared with a reader that takes one byte at a time and has neither cursor nor
chunks. Whatever the chunks are, a parser does what the reader does with their bytes.

## Main definitions

* `ClientStreamParser`, `ClientStreamParser.feed`.
* `Decodes`: decoding frame after frame.
* `receive`: the reader.

## Main results

* `ClientStreamParser.feed_receiveAll`: the parser simulates the reader.
* `decodes_receiveAll`: the reader decodes frame after frame as long as its limit allows.
* `receiveAll_frame`: what the reader does with a frame, whatever its limit.
* `ClientStreamParser.feed_chunks`: the chunks do not matter.
-/

namespace MatchingEngine

/-! ### The parser -/

structure ClientParseFeedResult where
  messages : List (WireEnvelope ClientMessage) := []
  error : Option WireCodecError := none
  deriving DecidableEq, Repr

structure ClientStreamParser where
  buffer : List UInt8
  readCursor : ℕ
  maximumBufferedBytes : ℕ
  failure : Option WireCodecError
  cursor_le : readCursor ≤ buffer.length
  unread_le : buffer.length - readCursor ≤ maximumBufferedBytes

namespace ClientStreamParser

theorem cursor_le_nil : 0 ≤ ([] : List UInt8).length := Nat.le_refl 0

/-- A new parser. -/
def ofLimit (maximumBufferedBytes : ℕ) : ClientStreamParser :=
  ⟨[], 0, maximumBufferedBytes, none, cursor_le_nil, Nat.zero_le _⟩

def bufferedSize (p : ClientStreamParser) : ℕ := p.buffer.length - p.readCursor

theorem bufferedSize_le (p : ClientStreamParser) : p.bufferedSize ≤ p.maximumBufferedBytes :=
  p.unread_le

/-- The bytes behind the cursor. -/
def unread (p : ClientStreamParser) : List UInt8 := p.buffer.drop p.readCursor

def fail (p : ClientStreamParser) (result : ClientParseFeedResult) (error : WireCodecError) :
    ClientParseFeedResult × ClientStreamParser :=
  ({ result with error := some error }, { p with failure := some error })

def compactIfNeeded (p : ClientStreamParser) : ClientStreamParser :=
  if p.readCursor = 0 then p
  else if p.readCursor = p.buffer.length then
    { p with
      buffer := []
      readCursor := 0
      cursor_le := cursor_le_nil
      unread_le := Nat.zero_le _ }
  else if p.readCursor ≥ p.buffer.length / 2 ∨ p.buffer.length = p.maximumBufferedBytes then
    { p with
      buffer := p.buffer.drop p.readCursor
      readCursor := 0
      cursor_le := Nat.zero_le _
      unread_le := by
        rw [List.length_drop]
        exact p.unread_le }
  else p

/-- Move the cursor over a frame. -/
def advance (p : ClientStreamParser) (count : ℕ) (h : count ≤ p.unread.length) :
    ClientStreamParser where
  buffer := p.buffer
  readCursor := p.readCursor + count
  maximumBufferedBytes := p.maximumBufferedBytes
  failure := p.failure
  cursor_le := by
    have := p.cursor_le
    rw [unread, List.length_drop] at h
    omega
  unread_le := by
    have := p.unread_le
    omega

/-- The number of bytes that are appended at once. -/
def appendCount (p : ClientStreamParser) (bytes : List UInt8) : ℕ :=
  min (p.maximumBufferedBytes - p.bufferedSize) bytes.length

/-- Append the bytes for which there is room. -/
def append (p : ClientStreamParser) (bytes : List UInt8) : ClientStreamParser where
  buffer := p.buffer ++ bytes.take (p.appendCount bytes)
  readCursor := p.readCursor
  maximumBufferedBytes := p.maximumBufferedBytes
  failure := p.failure
  cursor_le := by
    have := p.cursor_le
    rw [List.length_append]
    omega
  unread_le := by
    have := p.unread_le
    rw [List.length_append, List.length_take, appendCount, bufferedSize]
    omega

/-- The loop of `process_available`. Every iteration that goes on consumes a frame, so the number of
unread bytes is enough fuel. -/
def processLoop : ℕ → ClientStreamParser → ClientParseFeedResult →
    ClientParseFeedResult × ClientStreamParser
  | 0, p, result => (result, p)
  | fuel + 1, p, result =>
    if p.failure.isNone ∧ p.readCursor < p.buffer.length then
      match h : decodeClientFramePrefix p.unread with
      | .error e => if e = .truncatedInput then (result, p) else p.fail result e
      | .ok frame => processLoop fuel
          (p.advance frame.bytesConsumed (WireProtocol.bytesConsumed_bounds h).2)
          { result with messages := result.messages ++ [frame.envelope] }
    else (result, p)

def processAvailable (p : ClientStreamParser) (result : ClientParseFeedResult) :
    ClientParseFeedResult × ClientStreamParser :=
  processLoop p.bufferedSize p result

/-- The loop of `feed` over the bytes that have not been consumed. Every iteration that goes on
consumes a byte, so their number is enough fuel. -/
def feedLoop : ℕ → ClientStreamParser → ClientParseFeedResult → List UInt8 →
    ClientParseFeedResult × ClientStreamParser
  | 0, p, result, _ => (result, p.compactIfNeeded)
  | fuel + 1, p, result, bytes =>
    if 0 < bytes.length then
      let p := p.compactIfNeeded
      if p.bufferedSize = p.maximumBufferedBytes then p.fail result .bufferLimitExceeded
      else
        let rest := bytes.drop (p.appendCount bytes)
        let (result, p) := (p.append bytes).processAvailable result
        if p.failure.isSome then (result, p) else feedLoop fuel p result rest
    else (result, p.compactIfNeeded)

def feed (p : ClientStreamParser) (bytes : List UInt8) :
    ClientParseFeedResult × ClientStreamParser :=
  if p.failure.isSome then ({ error := p.failure }, p)
  else
    let (result, p) := p.processAvailable {}
    if p.failure.isSome then (result, p)
    else feedLoop bytes.length p result bytes

end ClientStreamParser

/-! ### Frame after frame -/

/-- Decoding frame after frame, until a frame is incomplete or invalid: the messages, the error and
the bytes that are left. Nothing is an incomplete frame, too. -/
inductive Decodes : List UInt8 → List (WireEnvelope ClientMessage) → Option WireCodecError →
    List UInt8 → Prop
  | incomplete {bytes : List UInt8}
      (h : decodeClientFramePrefix bytes = .error .truncatedInput) : Decodes bytes [] none bytes
  | invalid {bytes : List UInt8} {e : WireCodecError}
      (h : decodeClientFramePrefix bytes = .error e) (he : e ≠ .truncatedInput) :
      Decodes bytes [] (some e) bytes
  | frame {bytes rest : List UInt8} {d : DecodedFrame ClientMessage}
      {messages : List (WireEnvelope ClientMessage)} {failure : Option WireCodecError}
      (h : decodeClientFramePrefix bytes = .ok d)
      (hrest : Decodes (bytes.drop d.bytesConsumed) messages failure rest) :
      Decodes bytes (d.envelope :: messages) failure rest

theorem decodeClientFramePrefix_nil : decodeClientFramePrefix [] = .error .truncatedInput := rfl

theorem decodeClientFramePrefix_append (bytes rest : List UInt8)
    (h : decodeClientFramePrefix bytes ≠ .error .truncatedInput) :
    decodeClientFramePrefix (bytes ++ rest) = decodeClientFramePrefix bytes :=
  WireProtocol.decodeFramePrefix_append rest h

section Decodes

variable {bytes rest rest' : List UInt8} {messages messages' : List (WireEnvelope ClientMessage)}
  {failure failure' : Option WireCodecError}

theorem Decodes.unique (h : Decodes bytes messages failure rest)
    (h' : Decodes bytes messages' failure' rest') :
    messages' = messages ∧ failure' = failure ∧ rest' = rest := by
  induction h generalizing messages' with
  | incomplete h =>
    cases h' with
    | incomplete => exact ⟨rfl, rfl, rfl⟩
    | invalid h' he => exact absurd (Except.error.inj (h'.symm.trans h)) he
    | frame h' => cases h.symm.trans h'
  | invalid h he =>
    cases h' with
    | incomplete h' => exact absurd (Except.error.inj (h.symm.trans h')) he
    | invalid h' =>
      obtain rfl := Except.error.inj (h.symm.trans h')
      exact ⟨rfl, rfl, rfl⟩
    | frame h' => cases h.symm.trans h'
  | frame h _ ih =>
    cases h' with
    | incomplete h' => cases h.symm.trans h'
    | invalid h' => cases h.symm.trans h'
    | frame h' hrest' =>
      obtain rfl := Except.ok.inj (h.symm.trans h')
      obtain ⟨rfl, hfailure, hrest⟩ := ih hrest'
      exact ⟨rfl, hfailure, hrest⟩

/-- What is left without an error is an incomplete frame. -/
theorem Decodes.truncated (h : Decodes bytes messages none rest) :
    decodeClientFramePrefix rest = .error .truncatedInput := by
  generalize hfailure : (none : Option WireCodecError) = failure at h
  induction h with
  | incomplete h => exact h
  | invalid => cases hfailure
  | frame _ _ ih => exact ih hfailure

theorem Decodes.failure_ne_limit (h : Decodes bytes messages failure rest) :
    failure ≠ some .bufferLimitExceeded := by
  induction h with
  | incomplete => exact Option.some_ne_none _ |>.symm
  | invalid h =>
    rintro ⟨⟩
    exact WireProtocol.decodeFramePrefix_ne (by decide) (by decide) (fun _ _ => by simp) _ h
  | frame _ _ ih => exact ih

end Decodes

/-! ### The reader -/

/-- One byte, for a reader that has kept some bytes or has failed: the messages that it completes
and what is kept. -/
def receive (maximum : ℕ) :
    Except WireCodecError (List UInt8) → UInt8 →
      List (WireEnvelope ClientMessage) × Except WireCodecError (List UInt8)
  | .error e, _ => ([], .error e)
  | .ok kept, byte =>
    if kept.length = maximum then ([], .error .bufferLimitExceeded)
    else
      match decodeClientFramePrefix (kept ++ [byte]) with
      | .error e =>
        if e = .truncatedInput then ([], .ok (kept ++ [byte])) else ([], .error e)
      | .ok d => ([d.envelope], .ok [])

/-- The messages that a reader finds in some bytes, and what is kept. -/
def receiveAll (maximum : ℕ) (state : Except WireCodecError (List UInt8)) (bytes : List UInt8) :
    List (WireEnvelope ClientMessage) × Except WireCodecError (List UInt8) :=
  ((runAll (receive maximum) state bytes).1.flatten, (runAll (receive maximum) state bytes).2)

section Reader

variable {maximum : ℕ}

theorem receiveAll_cons (state : Except WireCodecError (List UInt8)) (byte : UInt8)
    (bytes : List UInt8) : receiveAll maximum state (byte :: bytes) =
      ((receive maximum state byte).1 ++
        (receiveAll maximum (receive maximum state byte).2 bytes).1,
        (receiveAll maximum (receive maximum state byte).2 bytes).2) := rfl

theorem receiveAll_append (state : Except WireCodecError (List UInt8)) (bytes bytes' : List UInt8) :
    receiveAll maximum state (bytes ++ bytes') =
      ((receiveAll maximum state bytes).1 ++
        (receiveAll maximum (receiveAll maximum state bytes).2 bytes').1,
        (receiveAll maximum (receiveAll maximum state bytes).2 bytes').2) := by
  rw [receiveAll, runAll_append, List.flatten_append]
  rfl

theorem receiveAll_error (e : WireCodecError) (bytes : List UInt8) :
    receiveAll maximum (.error e) bytes = ([], .error e) := by
  induction bytes with
  | nil => rfl
  | cons byte bytes ih =>
    rw [receiveAll_cons, receive, ih]
    rfl

/-- A byte that completes a frame is its last one. -/
theorem bytesConsumed_eq {kept : List UInt8} {byte : UInt8} {d : DecodedFrame ClientMessage}
    (hkept : decodeClientFramePrefix kept = .error .truncatedInput)
    (h : decodeClientFramePrefix (kept ++ [byte]) = .ok d) :
    d.bytesConsumed = (kept ++ [byte]).length := by
  obtain ⟨-, hle, htake⟩ := WireProtocol.clientCodec.eq_frame_of_decodeFramePrefix h
  refine Nat.le_antisymm hle (not_lt.mp fun hlt => ?_)
  rw [List.length_append, List.length_singleton, Nat.lt_succ_iff] at hlt
  -- otherwise the frame was there before
  rw [List.take_append_of_le_length hlt] at htake
  have hframe := WireProtocol.clientCodec.decodeFramePrefix_frame d.envelope.requestId
    d.envelope.message trivial (kept.drop d.bytesConsumed)
  rw [← htake, List.take_append_drop] at hframe
  cases hkept.symm.trans hframe

/-- The reader decodes frame after frame, if its limit is not reached. -/
theorem decodes_receiveAll {kept : List UInt8} (bytes : List UInt8)
    (hkept : decodeClientFramePrefix kept = .error .truncatedInput)
    (hroom : kept.length + bytes.length ≤ maximum ∨ 45 ≤ maximum) :
    (∃ rest, (receiveAll maximum (.ok kept) bytes).2 = .ok rest ∧
      Decodes (kept ++ bytes) (receiveAll maximum (.ok kept) bytes).1 none rest) ∨
    ∃ e rest, (receiveAll maximum (.ok kept) bytes).2 = .error e ∧
      Decodes (kept ++ bytes) (receiveAll maximum (.ok kept) bytes).1 (some e) rest := by
  induction bytes generalizing kept with
  | nil =>
    rw [List.append_nil]
    exact Or.inl ⟨kept, rfl, .incomplete hkept⟩
  | cons byte bytes ih =>
    have hlength := WireProtocol.length_lt_of_decodeClientFramePrefix hkept
    rw [List.length_cons] at hroom
    rw [receiveAll_cons, receive, if_neg (by omega), List.append_cons kept byte bytes]
    have happend := decodeClientFramePrefix_append (kept ++ [byte]) bytes
    cases hdecode : decodeClientFramePrefix (kept ++ [byte]) with
    | error e =>
      by_cases he : e = .truncatedInput
      · subst he
        dsimp only
        rw [if_pos rfl, List.nil_append]
        refine ih hdecode ?_
        rw [List.length_append, List.length_singleton]
        omega
      · dsimp only
        rw [if_neg he, receiveAll_error]
        rw [hdecode] at happend
        exact Or.inr ⟨e, _, rfl, .invalid (happend (by simpa using he)) he⟩
    | ok d =>
      rw [hdecode] at happend
      have hrest : (kept ++ [byte] ++ bytes).drop d.bytesConsumed = [] ++ bytes := by
        rw [bytesConsumed_eq hkept hdecode, List.drop_left, List.nil_append]
      have hframe := happend (by simp)
      dsimp only
      rcases ih decodeClientFramePrefix_nil (by rw [List.length_nil]; omega)
        with ⟨rest, hstate, hdecodes⟩ | ⟨e, rest, hstate, hdecodes⟩
      · exact Or.inl ⟨rest, hstate, .frame hframe (hrest ▸ hdecodes)⟩
      · exact Or.inr ⟨e, rest, hstate, .frame hframe (hrest ▸ hdecodes)⟩

/-- Every message takes the bytes of a frame. -/
theorem length_receiveAll {kept : List UInt8} (bytes : List UInt8)
    (hkept : decodeClientFramePrefix kept = .error .truncatedInput) :
    28 * (receiveAll maximum (.ok kept) bytes).1.length ≤ kept.length + bytes.length := by
  induction bytes generalizing kept with
  | nil => exact Nat.zero_le _
  | cons byte bytes ih =>
    rw [receiveAll_cons, receive, List.length_cons]
    split_ifs with hlimit
    · rw [receiveAll_error]
      exact Nat.zero_le _
    · cases hdecode : decodeClientFramePrefix (kept ++ [byte]) with
      | error e =>
        by_cases he : e = .truncatedInput
        · subst he
          have hrest := ih hdecode
          rw [List.length_append, List.length_singleton] at hrest
          dsimp only
          rw [if_pos rfl, List.nil_append]
          dsimp only
          omega
        · dsimp only
          rw [if_neg he, receiveAll_error]
          exact Nat.zero_le _
      | ok d =>
        have hrest := ih decodeClientFramePrefix_nil
        have hbounds := (WireProtocol.bytesConsumed_bounds hdecode).1
        rw [bytesConsumed_eq hkept hdecode, List.length_append, List.length_singleton] at hbounds
        rw [List.length_nil] at hrest
        dsimp only
        rw [List.length_append, List.length_singleton]
        omega

/-- A reader keeps the beginning of a frame for which it has room. -/
theorem receiveAll_take {envelope : WireEnvelope ClientMessage} {bytes : List UInt8}
    (hencode : encodeClientFrame envelope = .ok bytes) {n : ℕ} (hn : n < bytes.length)
    (hroom : n ≤ maximum) :
    receiveAll maximum (.ok []) (bytes.take n) = ([], .ok (bytes.take n)) := by
  induction n with
  | zero => rfl
  | succ n ih =>
    have htruncated := WireProtocol.decodeClientFramePrefix_take hencode hn
    rw [List.take_succ_eq_append_getElem (Nat.lt_of_succ_lt hn)] at htruncated ⊢
    rw [receiveAll_append, ih (by omega) (by omega), receiveAll_cons, receive,
      if_neg (by rw [List.length_take]; omega), htruncated]
    rfl

/-- A reader finds the message of a frame, or fails in the middle of it if the frame exceeds its
limit. -/
theorem receiveAll_frame {envelope : WireEnvelope ClientMessage} {bytes : List UInt8}
    (hencode : encodeClientFrame envelope = .ok bytes) :
    receiveAll maximum (.ok []) bytes = if bytes.length ≤ maximum then ([envelope], .ok [])
      else ([], .error .bufferLimitExceeded) := by
  have hpos : 0 < bytes.length := by
    rw [WireProtocol.length_of_encodeClientFrame hencode]
    omega
  split_ifs with hroom
  · obtain ⟨init, byte, rfl⟩ := List.eq_nil_or_concat' bytes |>.resolve_left
      (List.ne_nil_of_length_pos hpos)
    rw [List.length_append, List.length_singleton] at hroom
    have hinit : receiveAll maximum (.ok []) init = ([], .ok init) := by
      have hlt : init.length < (init ++ [byte]).length := by simp
      have htake := receiveAll_take hencode hlt (Nat.le_of_succ_le hroom)
      rwa [List.take_left] at htake
    rw [receiveAll_append, hinit, receiveAll_cons, receive, if_neg (by omega),
      WireProtocol.decodeClientFramePrefix_of_encode hencode]
    rfl
  · have hlt := not_le.mp hroom
    rw [← List.take_append_drop maximum bytes, receiveAll_append,
      receiveAll_take hencode hlt le_rfl, List.drop_eq_getElem_cons hlt, receiveAll_cons, receive,
      if_pos (List.length_take_of_le hlt.le), receiveAll_error]
    rfl

section Frames

variable {envelopes : List (WireEnvelope ClientMessage)} {frames : List (List UInt8)}

/-- A reader finds the messages of frames that do not exceed its limit. -/
theorem receiveAll_frames
    (h : List.Forall₂ (fun envelope bytes => encodeClientFrame envelope = .ok bytes) envelopes
      frames) (hroom : ∀ bytes ∈ frames, bytes.length ≤ maximum) :
    receiveAll maximum (.ok []) frames.flatten = (envelopes, .ok []) := by
  induction h with
  | nil => rfl
  | cons hencode _ ih =>
    obtain ⟨hfirst, hrest⟩ := List.forall_mem_cons.mp hroom
    rw [List.flatten_cons, receiveAll_append, receiveAll_frame hencode, if_pos hfirst, ih hrest]
    rfl

/-- A reader fails if one of the frames exceeds its limit. -/
theorem receiveAll_frames_of_lt
    (h : List.Forall₂ (fun envelope bytes => encodeClientFrame envelope = .ok bytes) envelopes
      frames) {bytes : List UInt8} (hmem : bytes ∈ frames) (hlong : maximum < bytes.length) :
    (receiveAll maximum (.ok []) frames.flatten).2 = .error .bufferLimitExceeded := by
  induction h with
  | nil => cases hmem
  | cons hencode _ ih =>
    rw [List.flatten_cons, receiveAll_append, receiveAll_frame hencode]
    split_ifs with hfirst
    · refine ih ((List.mem_cons.mp hmem).resolve_left ?_)
      rintro rfl
      exact absurd hfirst (not_le.mpr hlong)
    · rw [receiveAll_error]

end Frames

end Reader

/-! ### The parser simulates the reader -/

namespace ClientStreamParser

/-- What a parser keeps, as a reader does. -/
def state (p : ClientStreamParser) : Except WireCodecError (List UInt8) :=
  match p.failure with
  | some e => .error e
  | none => .ok p.unread

/-- Between two calls a parser has decoded what there is to decode. -/
def Settled (p : ClientStreamParser) : Prop :=
  p.failure = none → decodeClientFramePrefix p.unread = .error .truncatedInput

variable {p : ClientStreamParser}

theorem length_unread (p : ClientStreamParser) : p.unread.length = p.bufferedSize :=
  List.length_drop

theorem unread_advance {count : ℕ} (h : count ≤ p.unread.length) :
    (p.advance count h).unread = p.unread.drop count :=
  (List.drop_drop ..).symm

theorem unread_append (bytes : List UInt8) :
    (p.append bytes).unread = p.unread ++ bytes.take (p.appendCount bytes) :=
  List.drop_append_of_le_length p.cursor_le

/-- Cutting off the buffer does not change what a parser keeps. -/
theorem compactIfNeeded_spec (p : ClientStreamParser) : p.compactIfNeeded.unread = p.unread ∧
    p.compactIfNeeded.maximumBufferedBytes = p.maximumBufferedBytes ∧
    p.compactIfNeeded.failure = p.failure := by
  rw [compactIfNeeded]
  split_ifs with hzero hend hhalf
  · exact ⟨rfl, rfl, rfl⟩
  · refine ⟨?_, rfl, rfl⟩
    rw [unread, unread, hend, List.drop_length]
    rfl
  · exact ⟨rfl, rfl, rfl⟩
  · exact ⟨rfl, rfl, rfl⟩

theorem processLoop_nil (fuel : ℕ) (result : ClientParseFeedResult) (h : p.unread = []) :
    processLoop fuel p result = (result, p) := by
  have hcursor : ¬ p.readCursor < p.buffer.length := not_lt.mpr (List.drop_eq_nil_iff.mp h)
  cases fuel with
  | zero => rfl
  | succ fuel => rw [processLoop, if_neg fun hloop => hcursor hloop.2]

theorem processLoop_error {fuel : ℕ} {result : ClientParseFeedResult} {e : WireCodecError}
    (hfuel : p.bufferedSize ≤ fuel) (hfailure : p.failure = none)
    (h : decodeClientFramePrefix p.unread = .error e) : processLoop fuel p result =
      if e = .truncatedInput then (result, p) else p.fail result e := by
  by_cases hnil : p.unread = []
  · rw [hnil, decodeClientFramePrefix_nil] at h
    rw [processLoop_nil fuel result hnil, if_pos (Except.error.inj h).symm]
  · have hlt : p.readCursor < p.buffer.length := by
      rwa [unread, List.drop_eq_nil_iff, not_le] at hnil
    obtain ⟨fuel, rfl⟩ : ∃ n, fuel = n + 1 :=
      Nat.exists_eq_succ_of_ne_zero (by rw [bufferedSize] at hfuel; omega)
    rw [processLoop, if_pos ⟨Option.isNone_iff_eq_none.mpr hfailure, hlt⟩]
    split
    · next h' =>
      obtain rfl := Except.error.inj (h.symm.trans h')
      rfl
    · next h' => cases h.symm.trans h'

theorem processLoop_ok {fuel : ℕ} {result : ClientParseFeedResult} {d : DecodedFrame ClientMessage}
    (hfailure : p.failure = none)
    (h : decodeClientFramePrefix p.unread = .ok d) : processLoop (fuel + 1) p result =
      processLoop fuel (p.advance d.bytesConsumed (WireProtocol.bytesConsumed_bounds h).2)
        { result with messages := result.messages ++ [d.envelope] } := by
  obtain ⟨hpos, hle⟩ := WireProtocol.bytesConsumed_bounds h
  have hlt : p.readCursor < p.buffer.length := by
    rw [length_unread, bufferedSize] at hle
    omega
  rw [processLoop, if_pos ⟨Option.isNone_iff_eq_none.mpr hfailure, hlt⟩]
  split
  · next h' => cases h.symm.trans h'
  · next h' =>
    obtain rfl := Except.ok.inj (h.symm.trans h')
    rfl

/-- A frame that is decoded leaves fewer bytes. -/
theorem length_unread_advance {d : DecodedFrame ClientMessage}
    (h : decodeClientFramePrefix p.unread = .ok d) :
    (p.advance d.bytesConsumed (WireProtocol.bytesConsumed_bounds h).2).unread.length <
      p.unread.length := by
  obtain ⟨hpos, hle⟩ := WireProtocol.bytesConsumed_bounds h
  rw [unread_advance, List.length_drop]
  omega

theorem feedLoop_nil (fuel : ℕ) (result : ClientParseFeedResult) :
    feedLoop fuel p result [] = (result, p.compactIfNeeded) := by
  cases fuel with
  | zero => rfl
  | succ fuel => rw [feedLoop, if_neg (by simp)]

/-- The loop decodes frame after frame. -/
theorem processLoop_spec {fuel : ℕ} {result : ClientParseFeedResult} {bytes rest : List UInt8}
    {messages : List (WireEnvelope ClientMessage)} {failure : Option WireCodecError}
    (hdecodes : Decodes bytes messages failure rest) (hunread : p.unread = bytes)
    (hfuel : p.bufferedSize ≤ fuel) (hfailure : p.failure = none) (herror : result.error = none) :
    ∃ p', processLoop fuel p result = (⟨result.messages ++ messages, failure⟩, p') ∧
      p'.maximumBufferedBytes = p.maximumBufferedBytes ∧ p'.failure = failure ∧
      p'.unread = rest := by
  induction hdecodes generalizing p fuel result with
  | incomplete h =>
    rw [← hunread] at h
    refine ⟨p, ?_, rfl, hfailure, hunread⟩
    rw [processLoop_error hfuel hfailure h, if_pos rfl, List.append_nil, ← herror]
  | invalid h he =>
    rw [← hunread] at h
    refine ⟨{ p with failure := some _ }, ?_, rfl, rfl, hunread⟩
    rw [processLoop_error hfuel hfailure h, if_neg he, List.append_nil]
    rfl
  | @frame bytes rest d messages failure h hrest ih =>
    subst hunread
    have hbounds := WireProtocol.bytesConsumed_bounds h
    obtain ⟨fuel, rfl⟩ : ∃ n, fuel = n + 1 :=
      Nat.exists_eq_succ_of_ne_zero (by rw [length_unread] at hbounds; omega)
    have hsize : (p.advance d.bytesConsumed hbounds.2).bufferedSize ≤ fuel := by
      rw [length_unread, bufferedSize] at hbounds
      rw [bufferedSize] at hfuel ⊢
      dsimp only [advance]
      omega
    have herror' : ({ result with
      messages := result.messages ++ [d.envelope] } : ClientParseFeedResult).error = none := herror
    obtain ⟨p', hloop, hp'⟩ := ih (unread_advance hbounds.2) hsize hfailure herror'
    refine ⟨p', ?_, hp'⟩
    rw [processLoop_ok hfailure h, hloop, List.append_assoc]
    rfl

/-- The reader that a parser is after it has failed or decoded what there is. -/
theorem processAvailable_spec {result : ClientParseFeedResult} {bytes rest : List UInt8}
    {messages : List (WireEnvelope ClientMessage)} {failure : Option WireCodecError}
    (hdecodes : Decodes bytes messages failure rest) (hunread : p.unread = bytes)
    (hfailure : p.failure = none) (herror : result.error = none) :
    ∃ p', p.processAvailable result = (⟨result.messages ++ messages, failure⟩, p') ∧
      p'.maximumBufferedBytes = p.maximumBufferedBytes ∧ p'.failure = failure ∧
      p'.unread = rest :=
  processLoop_spec hdecodes hunread le_rfl hfailure herror

theorem state_eq_ok (h : p.failure = none) : p.state = .ok p.unread := by
  rw [state, h]

theorem state_eq_error {e : WireCodecError} (h : p.failure = some e) : p.state = .error e := by
  rw [state, h]

/-- A call has found and left what a reader has. -/
structure Fed (maximum : ℕ) (found : List (WireEnvelope ClientMessage))
    (reader : List (WireEnvelope ClientMessage) × Except WireCodecError (List UInt8))
    (out : ClientParseFeedResult × ClientStreamParser) : Prop where
  messages_eq : out.1.messages = found ++ reader.1
  error_eq : out.1.error = out.2.failure
  maximum_eq : out.2.maximumBufferedBytes = maximum
  state_eq : out.2.state = reader.2
  settled : out.2.Settled

section Fed

variable {maximum : ℕ} {found : List (WireEnvelope ClientMessage)}
  {start : Except WireCodecError (List UInt8)} {bytes : List UInt8}
  {out out' : ClientParseFeedResult × ClientStreamParser}

/-- After an error nothing more is found. -/
theorem Fed.append_of_failed {e : WireCodecError}
    (h : Fed maximum found (receiveAll maximum start bytes) out) (hfail : out.2.failure = some e)
    (rest : List UInt8) : Fed maximum found (receiveAll maximum start (bytes ++ rest)) out := by
  have hstate := h.state_eq
  rw [state_eq_error hfail] at hstate
  rw [receiveAll_append, ← hstate, receiveAll_error, List.append_nil]
  exact ⟨h.messages_eq, h.error_eq, h.maximum_eq, state_eq_error hfail, h.settled⟩

/-- Going on where a call has stopped. -/
theorem Fed.trans {rest : List UInt8} (h : Fed maximum found (receiveAll maximum start bytes) out)
    (hfail : out.2.failure = none)
    (h' : Fed out.2.maximumBufferedBytes out.1.messages
      (receiveAll out.2.maximumBufferedBytes (.ok out.2.unread) rest) out') :
    Fed maximum found (receiveAll maximum start (bytes ++ rest)) out' := by
  have hstate := h.state_eq
  rw [state_eq_ok hfail] at hstate
  rw [h.maximum_eq, h.messages_eq] at h'
  rw [receiveAll_append, ← hstate]
  exact ⟨h'.messages_eq.trans (List.append_assoc ..), h'.error_eq, h'.maximum_eq, h'.state_eq,
    h'.settled⟩

end Fed

theorem fed_nil {result : ClientParseFeedResult} (hsettled : p.Settled)
    (hfailure : p.failure = none)
    (herror : result.error = none) :
    Fed p.maximumBufferedBytes result.messages
      (receiveAll p.maximumBufferedBytes (.ok p.unread) []) (result, p.compactIfNeeded) := by
  obtain ⟨hunread, hmaximum, hfailure'⟩ := p.compactIfNeeded_spec
  refine ⟨(List.append_nil _).symm, ?_, hmaximum, ?_, ?_⟩
  · rw [hfailure', hfailure, herror]
  · rw [state_eq_ok (hfailure'.trans hfailure), hunread]
    rfl
  · intro _
    rw [hunread]
    exact hsettled hfailure

/-- A parser whose buffer is full fails at the next byte. -/
theorem fed_limit {result : ClientParseFeedResult} {bytes : List UInt8} (hne : bytes ≠ [])
    (hfull : p.bufferedSize = p.maximumBufferedBytes) :
    Fed p.maximumBufferedBytes result.messages
      (receiveAll p.maximumBufferedBytes (.ok p.unread) bytes)
      (p.fail result .bufferLimitExceeded) := by
  obtain ⟨byte, bytes, rfl⟩ := List.exists_cons_of_ne_nil hne
  rw [receiveAll_cons, receive, if_pos (p.length_unread.trans hfull), receiveAll_error]
  exact ⟨(List.append_nil _).symm, rfl, rfl, rfl, fun h => (nomatch h)⟩

/-- A part of the bytes for which there is room is decoded at once. -/
theorem fed_append {result : ClientParseFeedResult} (bytes : List UInt8) (hsettled : p.Settled)
    (hfailure : p.failure = none) (herror : result.error = none) :
    Fed p.maximumBufferedBytes result.messages
      (receiveAll p.maximumBufferedBytes (.ok p.unread) (bytes.take (p.appendCount bytes)))
      ((p.append bytes).processAvailable result) := by
  have hroom : p.unread.length + (bytes.take (p.appendCount bytes)).length ≤
      p.maximumBufferedBytes := by
    have := p.bufferedSize_le
    rw [length_unread, List.length_take, appendCount]
    omega
  rcases decodes_receiveAll _ (hsettled hfailure) (Or.inl hroom)
    with ⟨rest, hstate, hdecodes⟩ | ⟨e, rest, hstate, hdecodes⟩
  · obtain ⟨p', hprocess, hmaximum, hfailure', hunread⟩ :=
      processAvailable_spec hdecodes (unread_append bytes) hfailure herror
    rw [hprocess]
    refine ⟨rfl, hfailure'.symm, hmaximum, ?_, ?_⟩
    · rw [state_eq_ok hfailure', hunread, hstate]
    · intro _
      rw [hunread]
      exact hdecodes.truncated
  · obtain ⟨p', hprocess, hmaximum, hfailure', -⟩ :=
      processAvailable_spec hdecodes (unread_append bytes) hfailure herror
    rw [hprocess]
    refine ⟨rfl, hfailure'.symm, hmaximum, ?_, ?_⟩
    · rw [state_eq_error hfailure', hstate]
    · intro h
      cases hfailure'.symm.trans h

theorem feedLoop_spec {fuel : ℕ} {result : ClientParseFeedResult} {bytes : List UInt8}
    (hfuel : bytes.length ≤ fuel) (hsettled : p.Settled) (hfailure : p.failure = none)
    (herror : result.error = none) :
    Fed p.maximumBufferedBytes result.messages
      (receiveAll p.maximumBufferedBytes (.ok p.unread) bytes) (feedLoop fuel p result bytes) := by
  induction fuel generalizing p result bytes with
  | zero =>
    obtain rfl := List.eq_nil_of_length_eq_zero (Nat.le_zero.mp hfuel)
    exact fed_nil hsettled hfailure herror
  | succ fuel ih =>
    obtain rfl | hne := eq_or_ne bytes []
    · exact fed_nil hsettled hfailure herror
    have hpos := List.length_pos_iff.mpr hne
    obtain ⟨hunread, hmaximum, hfailure'⟩ := p.compactIfNeeded_spec
    rw [feedLoop, if_pos hpos, ← hunread, ← hmaximum]
    have hsettled' : p.compactIfNeeded.Settled := fun _ => hunread ▸ hsettled hfailure
    rw [hfailure] at hfailure'
    generalize p.compactIfNeeded = p at hsettled' hfailure' ⊢
    dsimp only
    by_cases hfull : p.bufferedSize = p.maximumBufferedBytes
    · rw [if_pos hfull]
      exact fed_limit hne hfull
    rw [if_neg hfull]
    have hcount : 0 < p.appendCount bytes := by
      have := p.bufferedSize_le
      rw [appendCount]
      omega
    have hfed := fed_append bytes hsettled' hfailure' herror
    generalize (p.append bytes).processAvailable result = out at hfed ⊢
    obtain ⟨result, p'⟩ := out
    dsimp only
    cases hfail : p'.failure with
    | some e =>
      have hfailed := hfed.append_of_failed hfail (bytes.drop (p.appendCount bytes))
      rwa [List.take_append_drop] at hfailed
    | none =>
      have hlength : (bytes.drop (p.appendCount bytes)).length ≤ fuel := by
        rw [List.length_drop]
        omega
      have hrest := hfed.trans hfail (ih hlength hfed.settled hfail (hfed.error_eq.trans hfail))
      rwa [List.take_append_drop] at hrest

/-- A call does what a reader does with the bytes. -/
theorem feed_receiveAll (hsettled : p.Settled) (bytes : List UInt8) :
    Fed p.maximumBufferedBytes [] (receiveAll p.maximumBufferedBytes p.state bytes)
      (p.feed bytes) := by
  rw [feed]
  cases hfailure : p.failure with
  | some e =>
    rw [state_eq_error hfailure, receiveAll_error]
    exact ⟨rfl, hfailure.symm, rfl, state_eq_error hfailure, hsettled⟩
  | none =>
    have herror : ({} : ClientParseFeedResult).error = none := rfl
    obtain ⟨p', hprocess, hmaximum, hfailure', hunread⟩ := processAvailable_spec
      (.incomplete (hsettled hfailure)) rfl hfailure herror
    have hsettled' : p'.Settled := fun _ => hunread ▸ hsettled hfailure
    have hfed := feedLoop_spec (le_refl bytes.length) hsettled' hfailure' herror
    rw [hunread, hmaximum] at hfed
    rw [state_eq_ok hfailure, if_neg (by decide), hprocess]
    dsimp only
    rw [hfailure']
    exact hfed

/-- What a call finds in the bytes and in the beginning of a frame that it had. -/
theorem length_messages_feed (hsettled : p.Settled) (bytes : List UInt8) :
    28 * (p.feed bytes).1.messages.length ≤ 44 + bytes.length := by
  rw [(feed_receiveAll hsettled bytes).messages_eq, List.nil_append]
  cases hfailure : p.failure with
  | some e =>
    rw [state_eq_error hfailure, receiveAll_error]
    exact Nat.zero_le _
  | none =>
    have hlt := WireProtocol.length_lt_of_decodeClientFramePrefix (hsettled hfailure)
    have hle := @length_receiveAll p.maximumBufferedBytes _ bytes (hsettled hfailure)
    rw [state_eq_ok hfailure]
    omega

/-- Calls with chunks of a stream do what a reader does with the stream. -/
theorem feedAll_receiveAll (hsettled : p.Settled) (chunks : List (List UInt8)) :
    (runAll feed p chunks).2.Settled ∧
      (runAll feed p chunks).1.flatMap (·.messages) =
        (receiveAll p.maximumBufferedBytes p.state chunks.flatten).1 ∧
      (runAll feed p chunks).2.state =
        (receiveAll p.maximumBufferedBytes p.state chunks.flatten).2 := by
  induction chunks generalizing p with
  | nil => exact ⟨hsettled, rfl, rfl⟩
  | cons chunk chunks ih =>
    have hfed := feed_receiveAll hsettled chunk
    obtain ⟨hrest, hmessages, hstate⟩ := ih hfed.settled
    rw [hfed.maximum_eq, hfed.state_eq] at hmessages hstate
    rw [List.flatten_cons, receiveAll_append]
    refine ⟨hrest, ?_, hstate⟩
    exact congrArg₂ (· ++ ·) hfed.messages_eq hmessages

theorem settled_ofLimit (maximum : ℕ) : (ofLimit maximum).Settled :=
  fun _ => decodeClientFramePrefix_nil

theorem failure_of_state_eq_ok {kept : List UInt8} (h : p.state = .ok kept) :
    p.failure = none := by
  cases hfailure : p.failure with
  | some e => cases (state_eq_error hfailure).symm.trans h
  | none => rfl

theorem failure_of_state_eq_error {e : WireCodecError} (h : p.state = .error e) :
    p.failure = some e := by
  cases hfailure : p.failure with
  | some e' => exact congrArg some (Except.error.inj ((state_eq_error hfailure).symm.trans h))
  | none => cases (state_eq_ok hfailure).symm.trans h

/-- A parser that has not failed has never reported an error. -/
theorem error_eq_none_of_feedAll (hsettled : p.Settled) {chunks : List (List UInt8)}
    (hfailure : (runAll feed p chunks).2.failure = none) :
    ∀ result ∈ (runAll feed p chunks).1, result.error = none := by
  induction chunks generalizing p with
  | nil => exact fun _ h => absurd h List.not_mem_nil
  | cons chunk chunks ih =>
    have hfed := feed_receiveAll hsettled chunk
    refine List.forall_mem_cons.mpr ⟨?_, ih hfed.settled hfailure⟩
    rw [hfed.error_eq]
    cases hfirst : (p.feed chunk).2.failure with
    | none => rfl
    | some e =>
      have hstate := (feedAll_receiveAll hfed.settled chunks).2.2
      rw [state_eq_error hfirst, receiveAll_error] at hstate
      cases hfailure.symm.trans (failure_of_state_eq_error hstate)

/-- The failure and the number of buffered bytes are what a reader has. -/
theorem failure_eq_of_state {p' : ClientStreamParser} (h : p.state = p'.state) :
    p.failure = p'.failure ∧ (p'.failure = none → p.bufferedSize = p'.bufferedSize) := by
  cases hfailure : p'.failure with
  | some e =>
    exact ⟨failure_of_state_eq_error (h.trans (state_eq_error hfailure)), fun h => (nomatch h)⟩
  | none =>
    have hfailure' := failure_of_state_eq_ok (h.trans (state_eq_ok hfailure))
    rw [state_eq_ok hfailure', state_eq_ok hfailure] at h
    refine ⟨hfailure', fun _ => ?_⟩
    rw [← length_unread, ← length_unread, Except.ok.inj h]

/-- The messages, the failure and the number of buffered bytes do not depend on how a stream is cut
into chunks. If the limit is the size of the longest frame or more, the frames of the stream are
decoded one after the other, and the limit is never exceeded. -/
theorem feed_chunks (maximum : ℕ) (chunks : List (List UInt8)) :
    (runAll feed (ofLimit maximum) chunks).1.flatMap (·.messages) =
        ((ofLimit maximum).feed chunks.flatten).1.messages ∧
      let whole := (ofLimit maximum).feed chunks.flatten
      let chunked := runAll feed (ofLimit maximum) chunks
      chunked.2.failure = whole.2.failure ∧
      (whole.2.failure = none → chunked.2.bufferedSize = whole.2.bufferedSize) ∧
      (45 ≤ maximum →
        (∀ messages failure,
          (∃ rest, Decodes chunks.flatten messages failure rest ∧
            (failure = none → rest.length = whole.2.bufferedSize)) ↔
          messages = whole.1.messages ∧ failure = whole.2.failure) ∧
        whole.2.failure ≠ some .bufferLimitExceeded) := by
  have hsettled := settled_ofLimit maximum
  have hfed : Fed maximum [] (receiveAll maximum (.ok []) chunks.flatten)
      ((ofLimit maximum).feed chunks.flatten) := feed_receiveAll hsettled chunks.flatten
  obtain ⟨-, hmessages, hstate⟩ := feedAll_receiveAll hsettled chunks
  refine ⟨hmessages.trans hfed.messages_eq.symm, ?_⟩
  intro whole chunked
  obtain ⟨hfailure, hsize⟩ := failure_eq_of_state (hstate.trans hfed.state_eq.symm)
  refine ⟨hfailure, hsize, fun hmaximum => ?_⟩
  obtain ⟨rest, hdecodes, hrest⟩ : ∃ rest,
      Decodes chunks.flatten whole.1.messages whole.2.failure rest ∧
        (whole.2.failure = none → rest.length = whole.2.bufferedSize) := by
    rw [hfed.messages_eq]
    rcases decodes_receiveAll chunks.flatten decodeClientFramePrefix_nil (Or.inr hmaximum)
      with ⟨rest, hreader, hdecodes⟩ | ⟨e, rest, hreader, hdecodes⟩
    · have hkept := hfed.state_eq.trans hreader
      have hnone := failure_of_state_eq_ok hkept
      rw [state_eq_ok hnone] at hkept
      rw [hnone]
      exact ⟨rest, hdecodes, fun _ => by rw [← length_unread, Except.ok.inj hkept]⟩
    · rw [failure_of_state_eq_error (hfed.state_eq.trans hreader)]
      exact ⟨rest, hdecodes, fun h => (nomatch h)⟩
  refine ⟨fun messages failure => ⟨?_, ?_⟩, hdecodes.failure_ne_limit⟩
  · rintro ⟨rest', h, -⟩
    obtain ⟨hmessages', hfailure', -⟩ := hdecodes.unique h
    exact ⟨hmessages', hfailure'⟩
  · rintro ⟨rfl, rfl⟩
    exact ⟨rest, hdecodes, hrest⟩

end ClientStreamParser

end MatchingEngine
