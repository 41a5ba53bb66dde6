import MatchingEngine.Journal.Codec
import MatchingEngine.WireProtocol.Basic

/-!
# Encoding and decoding frames

Encoders and decoders of the wire protocol are inverse to each other. For both directions of the
protocol this is the same argument about the header, and one about the payloads of the messages,
which `PayloadCodec` states.

## Main definitions

* `WireProtocol.frame`: the bytes of a header and a payload.
* `WireProtocol.PayloadCodec`: payloads and messages of one direction correspond.

## Main results

* `WireProtocol.decodeFramePrefix_error`: the errors of the decoders.
* `WireProtocol.decodeFramePrefix_append`, `WireProtocol.PayloadCodec.prefixDecoder`: bytes behind
  the ones that decide do not matter.
* `decodeFramePrefix_encodeFrame`: the round trips of encoders and decoders.
-/

namespace MatchingEngine

open BigEndian

namespace WireProtocol

/-! ### Headers -/

theorem appendU32_eq (bytes : List UInt8) (value : UInt32) :
    appendU32 bytes value = bytes ++ toBytes 4 value.toNat := by
  rw [← MatchingEngine.appendU32_eq, appendU32, MatchingEngine.appendU32]
  simp only [List.foldl_cons, List.foldl_nil, UInt32.shiftRight_zero]

theorem appendU64_eq (bytes : List UInt8) (value : UInt64) :
    appendU64 bytes value = bytes ++ toBytes 8 value.toNat := by
  rw [← MatchingEngine.appendU64_eq, appendU64, MatchingEngine.appendU64]
  simp only [List.foldl_cons, List.foldl_nil, UInt64.shiftRight_zero]

/-- A check that was passed. -/
theorem ite_error_eq_ok_iff {ε α : Type*} {c : Prop} [Decidable c] {e : ε} {x : Except ε α}
    {a : α} : (if c then .error e else x) = Except.ok a ↔ ¬ c ∧ x = .ok a := by
  by_cases h : c
  · rw [if_pos h]
    exact ⟨fun h => (nomatch h), fun h' => absurd h h'.1⟩
  · rw [if_neg h]
    exact ⟨fun h' => ⟨h, h'⟩, fun h' => h'.2⟩

/-- A check that does not fail with a certain error. -/
theorem ite_error_ne {ε α : Type*} {c : Prop} [Decidable c] {e e' : ε} {x : Except ε α}
    (he : c → e ≠ e') (hx : x ≠ .error e') : (if c then .error e else x) ≠ .error e' := by
  by_cases h : c
  · rw [if_pos h]
    exact fun heq => he h (Except.error.inj heq)
  · rwa [if_neg h]

/-- A check that was not passed, or one behind it. -/
theorem ite_error_cases {ε α : Type*} {c : Prop} [Decidable c] {e e' : ε} {x : Except ε α}
    (h : (if c then .error e else x) = .error e') : c ∧ e' = e ∨ x = .error e' := by
  by_cases hc : c
  · rw [if_pos hc] at h
    exact .inl ⟨hc, (Except.error.inj h).symm⟩
  · rw [if_neg hc] at h
    exact .inr h

/-- The errors about the fields of a header. -/
def headerErrors : List WireCodecError :=
  [.badMagic, .unsupportedVersion, .unsupportedMessageType, .payloadTooLarge, .invalidPayloadLength]

/-- The bytes of a header. -/
def header (type : WireMessageType) (requestId : RequestId) : List UInt8 :=
  toBytes 4 wireProtocolMagic.toNat ++ toBytes 2 wireProtocolVersion.toNat ++
    toBytes 2 type.raw.toNat ++ toBytes 4 (expectedPayloadLength type) ++
    toBytes 8 requestId.value.toNat

theorem expectedPayloadLength_bounds (type : WireMessageType) :
    1 ≤ expectedPayloadLength type ∧ expectedPayloadLength type ≤ 25 := by
  cases type <;> decide

theorem decodeMessageType_eq_some_iff {value : UInt16} {type : WireMessageType} :
    decodeMessageType value = some type ↔ value = type.raw := by
  constructor
  · intro h
    rw [decodeMessageType] at h
    split_ifs at h with h1 h2 h3 h4 h5 h6 <;> cases h <;> assumption
  · rintro rfl
    cases type <;> rfl

section Header

variable {type : WireMessageType} {requestId : RequestId} {bytes : List UInt8}

theorem length_header : (header type requestId).length = 20 := by
  simp [header]

theorem encodeHeader_eq :
    encodeHeader type (expectedPayloadLength type) requestId = header type requestId := by
  have hlength :
      (UInt32.ofNat (expectedPayloadLength type)).toNat = expectedPayloadLength type := by
    cases type <;> rfl
  simp only [encodeHeader, appendU16_eq, appendU32_eq, appendU64_eq, hlength, List.nil_append]
  rfl

/-- A header is read back, whatever follows it. -/
theorem decodeHeader_header (rest : List UInt8) : decodeHeader (header type requestId ++ rest) =
    .ok ⟨type, UInt32.ofNat (expectedPayloadLength type), requestId⟩ := by
  have hbounds := expectedPayloadLength_bounds type
  have hlength : (header type requestId ++ rest).length = 20 + rest.length := by
    rw [List.length_append, length_header]
  have hmagic : readU32 (header type requestId ++ rest) 0 = wireProtocolMagic :=
    readU32_of_slice (by omega) rfl
  have hversion : readU16 (header type requestId ++ rest) 4 = wireProtocolVersion :=
    readU16_of_slice (by omega) rfl
  have htype : readU16 (header type requestId ++ rest) 6 = type.raw :=
    readU16_of_slice (by omega) rfl
  have hpayload : readU32 (header type requestId ++ rest) 8 =
      UInt32.ofNat (expectedPayloadLength type) :=
    readU32_of_slice (by omega) (by cases type <;> rfl)
  have hid : readU64 (header type requestId ++ rest) 12 = requestId.value :=
    readU64_of_slice (by omega) rfl
  have hofNat : (UInt32.ofNat (expectedPayloadLength type)).toNat = expectedPayloadLength type := by
    cases type <;> rfl
  rw [decodeHeader, if_neg (by omega), if_neg (not_not.mpr hmagic), if_neg (by omega),
    if_neg (not_not.mpr hversion), if_neg (by omega), htype, decodeMessageType_eq_some_iff.mpr rfl]
  dsimp only
  rw [if_neg (by omega), hpayload, hofNat, if_neg (by rw [wireMaximumPayloadLength]; omega),
    if_neg (not_not.mpr rfl), if_neg (by rw [wireFrameHeaderSize]; omega), hid]

/-- A header that was decoded is there. -/
theorem eq_header_of_decodeHeader {h : FrameHeader} (hdecode : decodeHeader bytes = .ok h) :
    h.payloadLength.toNat = expectedPayloadLength h.type ∧
      bytes = header h.type h.requestId ++ bytes.drop 20 := by
  rw [decodeHeader, ite_error_eq_ok_iff, ite_error_eq_ok_iff, ite_error_eq_ok_iff,
    ite_error_eq_ok_iff, ite_error_eq_ok_iff] at hdecode
  obtain ⟨h4, hmagic, h6, hversion, h8, hdecode⟩ := hdecode
  cases htype : decodeMessageType (readU16 bytes 6) with
  | none =>
    rw [htype] at hdecode
    cases hdecode
  | some type =>
  rw [htype] at hdecode
  dsimp only at hdecode
  rw [ite_error_eq_ok_iff, ite_error_eq_ok_iff, ite_error_eq_ok_iff,
    ite_error_eq_ok_iff] at hdecode
  obtain ⟨h12, -, hlength, h20, hdecode⟩ := hdecode
  obtain rfl := Except.ok.inj hdecode
  rw [not_not] at hmagic hversion hlength
  rw [decodeMessageType_eq_some_iff] at htype
  rw [wireFrameHeaderSize] at h20
  refine ⟨hlength, ?_⟩
  have htake : bytes.take (4 + 2 + 2 + 4 + 8) = bytes.slice 0 4 ++ bytes.slice 4 2 ++
      bytes.slice 6 2 ++ bytes.slice 8 4 ++ bytes.slice 12 8 := by
    rw [List.take_add_slice, List.take_add_slice, List.take_add_slice, List.take_add_slice]
    rfl
  rw [slice_readU32 (by omega), slice_readU16 (by omega), slice_readU16 (by omega),
    slice_readU32 (by omega), slice_readU64 (by omega), hmagic, hversion, htype, hlength] at htake
  rw [header, ← htake, List.take_append_drop]

/-- A header is refused because it is not all there, or because of one of its fields. -/
theorem decodeHeader_error {e : WireCodecError} (h : decodeHeader bytes = .error e) :
    e = .truncatedInput ∧ bytes.length < 20 ∨ e ∈ headerErrors := by
  rw [decodeHeader] at h
  obtain ⟨h4, rfl⟩ | h := ite_error_cases h
  · exact .inl ⟨rfl, by omega⟩
  obtain ⟨-, rfl⟩ | h := ite_error_cases h
  · exact .inr (by decide)
  obtain ⟨h6, rfl⟩ | h := ite_error_cases h
  · exact .inl ⟨rfl, by omega⟩
  obtain ⟨-, rfl⟩ | h := ite_error_cases h
  · exact .inr (by decide)
  obtain ⟨h8, rfl⟩ | h := ite_error_cases h
  · exact .inl ⟨rfl, by omega⟩
  cases htype : decodeMessageType (readU16 bytes 6) with
  | none =>
    rw [htype] at h
    obtain rfl := Except.error.inj h
    exact .inr (by decide)
  | some type =>
    rw [htype] at h
    obtain ⟨h12, rfl⟩ | h := ite_error_cases h
    · exact .inl ⟨rfl, by omega⟩
    obtain ⟨-, rfl⟩ | h := ite_error_cases h
    · exact .inr (by decide)
    obtain ⟨-, rfl⟩ | h := ite_error_cases h
    · exact .inr (by decide)
    obtain ⟨h20, rfl⟩ | h := ite_error_cases h
    · exact .inl ⟨rfl, h20⟩
    cases h

/-- Once enough of a header is there to decide about it, more bytes do not matter. -/
theorem decodeHeader_append (rest : List UInt8) (h : decodeHeader bytes ≠ .error .truncatedInput) :
    decodeHeader (bytes ++ rest) = decodeHeader bytes := by
  have hagree := agreeTo_append bytes rest
  have hle : bytes.length ≤ (bytes ++ rest).length := hagree.2.1
  rw [decodeHeader] at h
  rw [decodeHeader, decodeHeader]
  by_cases h4 : bytes.length < 4
  · exact absurd (if_pos h4) h
  rw [if_neg h4] at h ⊢
  rw [if_neg (by omega), hagree.readU32_eq (by omega)]
  refine ite_congr rfl (fun _ => rfl) fun hmagic => ?_
  rw [if_neg hmagic] at h
  by_cases h6 : bytes.length < 6
  · exact absurd (if_pos h6) h
  rw [if_neg h6] at h ⊢
  rw [if_neg (by omega), hagree.readU16_eq (by omega)]
  refine ite_congr rfl (fun _ => rfl) fun hversion => ?_
  rw [if_neg hversion] at h
  by_cases h8 : bytes.length < 8
  · exact absurd (if_pos h8) h
  rw [if_neg h8] at h ⊢
  rw [if_neg (by omega), hagree.readU16_eq (by omega)]
  cases htype : decodeMessageType (readU16 bytes 6) with
  | none => rfl
  | some type =>
    rw [htype] at h
    dsimp only at h ⊢
    by_cases h12 : bytes.length < 12
    · exact absurd (if_pos h12) h
    rw [if_neg h12] at h ⊢
    rw [if_neg (by omega), hagree.readU32_eq (by omega)]
    refine ite_congr rfl (fun _ => rfl) fun hmaximum => ?_
    rw [if_neg hmaximum] at h
    refine ite_congr rfl (fun _ => rfl) fun hlength => ?_
    rw [if_neg hlength, wireFrameHeaderSize] at h
    by_cases h20 : bytes.length < 20
    · exact absurd (if_pos h20) h
    rw [wireFrameHeaderSize, if_neg h20, if_neg (by omega), hagree.readU64_eq (by omega)]

end Header

/-! ### Frames -/

/-- The bytes of a frame. -/
def frame (type : WireMessageType) (requestId : RequestId) (payload : List UInt8) : List UInt8 :=
  header type requestId ++ payload

section Frame

variable {Message : Type} {accepts : WireMessageType → Bool}
  {decodeMessage : WireMessageType → List UInt8 → Except WireCodecError Message}
  {bytes : List UInt8}

/-- The decoder behind a header. -/
theorem decodeFramePrefix_header (type : WireMessageType) (requestId : RequestId)
    (rest : List UInt8) :
    decodeFramePrefix accepts decodeMessage (header type requestId ++ rest) =
      if ¬ accepts type then .error .unsupportedMessageType
      else if rest.length < expectedPayloadLength type then .error .truncatedInput
      else (decodeMessage type (rest.take (expectedPayloadLength type))).map fun message =>
        ⟨⟨requestId, message⟩, 20 + expectedPayloadLength type⟩ := by
  have hofNat : (UInt32.ofNat (expectedPayloadLength type)).toNat = expectedPayloadLength type := by
    cases type <;> rfl
  rw [decodeFramePrefix, decodeHeader_header]
  refine ite_congr rfl (fun _ => rfl) fun _ => ite_congr ?_ (fun _ => rfl) fun _ => ?_
  · rw [hasCompleteFrame, decide_eq_true_iff, hofNat, List.length_append, length_header,
      wireFrameHeaderSize, ge_iff_le, Nat.add_le_add_iff_left, not_le]
  · dsimp only
    rw [hofNat, wireFrameHeaderSize, List.slice, List.drop_left' length_header]
    cases decodeMessage type (rest.take (expectedPayloadLength type)) <;> rfl

/-- What a decoder makes of some bytes: they do not begin with a header, or they do. -/
inductive Decoding (accepts : WireMessageType → Bool)
    (decodeMessage : WireMessageType → List UInt8 → Except WireCodecError Message)
    (bytes : List UInt8) : Prop
  | malformed (e : WireCodecError) (hheader : decodeHeader bytes = .error e)
      (hdecode : decodeFramePrefix accepts decodeMessage bytes = .error e)
  | header (type : WireMessageType) (requestId : RequestId) (rest : List UInt8)
      (hbytes : bytes = header type requestId ++ rest)

theorem decoding (accepts : WireMessageType → Bool)
    (decodeMessage : WireMessageType → List UInt8 → Except WireCodecError Message)
    (bytes : List UInt8) : Decoding accepts decodeMessage bytes := by
  cases h : decodeHeader bytes with
  | error e => exact .malformed e h (by rw [decodeFramePrefix, h])
  | ok header => exact .header _ _ _ (eq_header_of_decodeHeader h).2

/-- A frame is refused because it is not all there, because of its header or because of its
payload. -/
theorem decodeFramePrefix_error {e : WireCodecError}
    (h : decodeFramePrefix accepts decodeMessage bytes = .error e) :
    e = .truncatedInput ∧ bytes.length < 45 ∨ e ∈ headerErrors ∨
      ∃ type payload, decodeMessage type payload = .error e := by
  cases decoding accepts decodeMessage bytes with
  | malformed e' hheader hdecode =>
    obtain rfl := Except.error.inj (hdecode.symm.trans h)
    exact (decodeHeader_error hheader).imp (And.imp_right fun hlt => hlt.trans (by decide)) .inl
  | header type requestId rest hbytes =>
    have hbounds := expectedPayloadLength_bounds type
    have hlength : bytes.length = 20 + rest.length := by
      rw [hbytes, List.length_append, length_header]
    rw [hbytes, decodeFramePrefix_header] at h
    obtain ⟨-, rfl⟩ | h := ite_error_cases h
    · exact .inr (.inl (by decide))
    obtain ⟨hlt, rfl⟩ | h := ite_error_cases h
    · exact .inl ⟨rfl, by omega⟩
    cases hmessage : decodeMessage type (rest.take (expectedPayloadLength type)) with
    | error e' =>
      rw [hmessage] at h
      obtain rfl := Except.error.inj h
      exact .inr (.inr ⟨_, _, hmessage⟩)
    | ok message =>
      rw [hmessage] at h
      cases h

/-- An error that is about no field of the header and that the payloads do not have is one of the
callers of a decoder. -/
theorem decodeFramePrefix_ne {e : WireCodecError} (he : e ≠ .truncatedInput)
    (hheader : e ∉ headerErrors) (h : ∀ type payload, decodeMessage type payload ≠ .error e)
    (bytes : List UInt8) : decodeFramePrefix accepts decodeMessage bytes ≠ .error e := by
  intro hdecode
  obtain ⟨htruncated, -⟩ | hmem | ⟨type, payload, hmessage⟩ := decodeFramePrefix_error hdecode
  · exact he htruncated
  · exact hheader hmem
  · exact h type payload hmessage

/-- Once a decoder has come to a result, more bytes do not change it. -/
theorem decodeFramePrefix_append (rest : List UInt8)
    (h : decodeFramePrefix accepts decodeMessage bytes ≠ .error .truncatedInput) :
    decodeFramePrefix accepts decodeMessage (bytes ++ rest) =
      decodeFramePrefix accepts decodeMessage bytes := by
  cases decoding accepts decodeMessage bytes with
  | malformed e hheader hdecode =>
    have hne : decodeHeader bytes ≠ .error .truncatedInput := by
      rw [hheader]
      rintro ⟨⟩
      exact h hdecode
    rw [hdecode, decodeFramePrefix, decodeHeader_append rest hne, hheader]
  | header type requestId tail hbytes =>
    subst hbytes
    rw [List.append_assoc, decodeFramePrefix_header, decodeFramePrefix_header]
    rw [decodeFramePrefix_header] at h
    refine ite_congr rfl (fun _ => rfl) fun haccepts => ?_
    rw [if_neg haccepts] at h
    by_cases hlength : tail.length < expectedPayloadLength type
    · exact absurd (if_pos hlength) h
    · rw [if_neg hlength, if_neg (by rw [List.length_append]; omega),
        List.take_append_of_le_length (by omega)]

end Frame

/-! ### Payloads -/

/-- Messages and payloads of one direction of the protocol correspond to each other. -/
structure PayloadCodec {Message : Type} (accepts : WireMessageType → Bool)
    (decodeMessage : WireMessageType → List UInt8 → Except WireCodecError Message)
    (type : Message → WireMessageType) (payload : Message → List UInt8)
    (Valid : Message → Prop) : Prop where
  accepts_type : ∀ message, accepts (type message) = true
  length_payload : ∀ message, (payload message).length = expectedPayloadLength (type message)
  decode_payload : ∀ message, Valid message →
    decodeMessage (type message) (payload message) = .ok message
  of_decode : ∀ messageType bytes message, accepts messageType = true →
    bytes.length = expectedPayloadLength messageType →
    decodeMessage messageType bytes = .ok message →
      Valid message ∧ type message = messageType ∧ payload message = bytes

namespace PayloadCodec

variable {Message : Type} {accepts : WireMessageType → Bool}
  {decodeMessage : WireMessageType → List UInt8 → Except WireCodecError Message}
  {type : Message → WireMessageType} {payload : Message → List UInt8} {Valid : Message → Prop}

/-- The decoder reads the frame of a message, whatever follows it. -/
theorem decodeFramePrefix_frame (h : PayloadCodec accepts decodeMessage type payload Valid)
    (requestId : RequestId) (message : Message) (hvalid : Valid message) (rest : List UInt8) :
    decodeFramePrefix accepts decodeMessage
        (frame (type message) requestId (payload message) ++ rest) =
      .ok ⟨⟨requestId, message⟩,
        (frame (type message) requestId (payload message)).length⟩ := by
  have hlength := h.length_payload message
  rw [frame, List.append_assoc, decodeFramePrefix_header, if_neg (not_not.mpr (h.accepts_type _)),
    if_neg (by rw [List.length_append]; omega), List.take_left' hlength,
    h.decode_payload message hvalid, List.length_append, length_header, hlength]
  rfl

/-- A frame that was decoded is there. -/
theorem eq_frame_of_decodeFramePrefix (h : PayloadCodec accepts decodeMessage type payload Valid)
    {bytes : List UInt8} {d : DecodedFrame Message}
    (hdecode : decodeFramePrefix accepts decodeMessage bytes = .ok d) :
    Valid d.envelope.message ∧ d.bytesConsumed ≤ bytes.length ∧ bytes.take d.bytesConsumed =
      frame (type d.envelope.message) d.envelope.requestId (payload d.envelope.message) := by
  cases decoding accepts decodeMessage bytes with
  | malformed e hheader herror => cases herror.symm.trans hdecode
  | header messageType requestId rest hbytes =>
    subst hbytes
    rw [decodeFramePrefix_header] at hdecode
    split_ifs at hdecode with haccepts hlength
    cases hmessage : decodeMessage messageType (rest.take (expectedPayloadLength messageType)) with
    | error e =>
      rw [hmessage] at hdecode
      cases hdecode
    | ok message =>
      rw [hmessage] at hdecode
      obtain rfl := Except.ok.inj hdecode
      obtain ⟨hvalid, htype, hpayload⟩ := h.of_decode _ _ _ haccepts
        (by rw [List.length_take]; omega) hmessage
      refine ⟨hvalid, ?_, ?_⟩
      · rw [List.length_append, length_header]
        exact Nat.add_le_add_left (not_lt.mp hlength) 20
      · dsimp only
        rw [htype, hpayload, frame, ← length_header, List.take_length_add_append]

/-- A decoder of frames may be called with a part of the bytes. -/
theorem prefixDecoder (h : PayloadCodec accepts decodeMessage type payload Valid) :
    PrefixDecoder (decodeFramePrefix accepts decodeMessage) .truncatedInput
      DecodedFrame.bytesConsumed where
  append_eq _ rest hne := decodeFramePrefix_append rest hne
  consumed_pos bytes d hdecode := by
    obtain ⟨-, hle, htake⟩ := h.eq_frame_of_decodeFramePrefix hdecode
    rw [← min_eq_left hle, ← List.length_take, htake, frame, List.length_append, length_header]
    exact Nat.add_pos_left (by decide) _
  consumed_le _ _ hdecode := (h.eq_frame_of_decodeFramePrefix hdecode).2.1

/-- A part of a frame is truncated input. -/
theorem decodeFramePrefix_take (h : PayloadCodec accepts decodeMessage type payload Valid)
    (requestId : RequestId) {message : Message} (hvalid : Valid message) {n : ℕ}
    (hn : n < (frame (type message) requestId (payload message)).length) :
    decodeFramePrefix accepts decodeMessage
        ((frame (type message) requestId (payload message)).take n) =
      .error .truncatedInput := by
  have hframe := h.decodeFramePrefix_frame requestId message hvalid []
  rw [List.append_nil] at hframe
  exact h.prefixDecoder.decode_take_of_lt hframe hn

end PayloadCodec

/-! ### Messages of clients -/

/-- The type that a message is sent with. -/
def clientType : ClientMessage → WireMessageType
  | .submitLimitOrder _ => .submitLimitOrder
  | .cancelOrder _ => .cancelOrder

/-- The bytes of a message. -/
def clientPayload : ClientMessage → List UInt8
  | .submitLimitOrder request =>
    toBytes 8 request.orderId.value.toNat ++ [request.rawSide] ++
      toBytes 8 request.limitPrice.ticks.toNat ++ toBytes 8 request.quantity.units.toNat
  | .cancelOrder request => toBytes 8 request.orderId.value.toNat

theorem clientCodec : PayloadCodec isClientMessageType
    (fun type payload => .ok (decodeClientMessage type payload)) clientType clientPayload
    fun _ => True where
  accepts_type message := by cases message <;> rfl
  length_payload message := by
    cases message with
    | submitLimitOrder request => simp [clientType, clientPayload, expectedPayloadLength,
        submitLimitOrderRequestPayloadSize]
    | cancelOrder request => simp [clientType, clientPayload, expectedPayloadLength,
        cancelOrderRequestPayloadSize]
  decode_payload message := by
    rintro -
    cases message with
    | submitLimitOrder request =>
      have hlength : (clientPayload (.submitLimitOrder request)).length = 25 := by
        simp [clientPayload]
      have hid : readU64 (clientPayload (.submitLimitOrder request)) 0 = request.orderId.value :=
        readU64_of_slice (by omega) rfl
      have hprice : readU64 (clientPayload (.submitLimitOrder request)) 9 =
          request.limitPrice.ticks := readU64_of_slice (by omega) rfl
      have hquantity : readU64 (clientPayload (.submitLimitOrder request)) 17 =
          request.quantity.units := readU64_of_slice (by omega) rfl
      rw [clientType, decodeClientMessage, if_pos rfl, hid, hprice, hquantity]
      rfl
    | cancelOrder request =>
      have hid : readU64 (clientPayload (.cancelOrder request)) 0 = request.orderId.value :=
        readU64_of_slice (by rw [clientPayload, length_toBytes]) rfl
      rw [clientType, decodeClientMessage, if_neg (by decide), hid]
  of_decode messageType bytes message haccepts hlength hdecode := by
    obtain rfl := Except.ok.inj hdecode
    refine ⟨trivial, ?_⟩
    cases messageType with
    | submitLimitOrder =>
      replace hlength : bytes.length = 25 := hlength
      refine ⟨rfl, ?_⟩
      have htake : bytes.take (8 + 1 + 8 + 8) = bytes.slice 0 8 ++ bytes.slice 8 1 ++
          bytes.slice 9 8 ++ bytes.slice 17 8 := by
        rw [List.take_add_slice, List.take_add_slice, List.take_add_slice]
        rfl
      rw [List.take_of_length_le hlength.le, slice_readU64 (by omega), slice_one (by omega),
        slice_readU64 (by omega), slice_readU64 (by omega)] at htake
      exact htake.symm
    | cancelOrder =>
      replace hlength : bytes.length = 8 := hlength
      refine ⟨rfl, ?_⟩
      have hslice : bytes.slice 0 8 = bytes := List.take_of_length_le hlength.le
      rw [slice_readU64 (by omega)] at hslice
      exact hslice
    | submitResult | cancelResult | protocolError | engineUnavailable => cases haccepts

theorem encodeClientFrame_eq (envelope : WireEnvelope ClientMessage) :
    encodeClientFrame envelope =
      .ok (frame (clientType envelope.message) envelope.requestId
        (clientPayload envelope.message)) := by
  obtain ⟨requestId, request | request⟩ := envelope
  · have hheader : encodeHeader .submitLimitOrder submitLimitOrderRequestPayloadSize requestId =
      header .submitLimitOrder requestId := encodeHeader_eq
    simp only [encodeClientFrame, hheader, appendU64_eq, appendU8, frame,
      clientType, clientPayload, List.append_assoc]
  · have hheader : encodeHeader .cancelOrder cancelOrderRequestPayloadSize requestId =
      header .cancelOrder requestId := encodeHeader_eq
    simp only [encodeClientFrame, hheader, appendU64_eq, frame, clientType,
      clientPayload]

theorem length_of_encodeClientFrame {envelope : WireEnvelope ClientMessage} {bytes : List UInt8}
    (h : encodeClientFrame envelope = .ok bytes) :
    bytes.length = 20 + expectedPayloadLength (clientType envelope.message) := by
  obtain rfl := Except.ok.inj ((encodeClientFrame_eq envelope).symm.trans h)
  rw [frame, List.length_append, length_header, clientCodec.length_payload]

theorem decodeClientFramePrefix_of_encode {envelope : WireEnvelope ClientMessage}
    {bytes : List UInt8} (h : encodeClientFrame envelope = .ok bytes) :
    decodeClientFramePrefix bytes = .ok ⟨envelope, bytes.length⟩ := by
  obtain rfl := Except.ok.inj ((encodeClientFrame_eq envelope).symm.trans h)
  have hframe := clientCodec.decodeFramePrefix_frame envelope.requestId envelope.message trivial []
  rwa [List.append_nil] at hframe

theorem decodeClientFramePrefix_take {envelope : WireEnvelope ClientMessage} {bytes : List UInt8}
    (h : encodeClientFrame envelope = .ok bytes) {n : ℕ} (hn : n < bytes.length) :
    decodeClientFramePrefix (bytes.take n) = .error .truncatedInput :=
  clientCodec.prefixDecoder.decode_take_of_lt (decodeClientFramePrefix_of_encode h) hn

/-- The frames of clients have 28 or 45 bytes. -/
theorem length_clientFrame_bounds (message : ClientMessage) (requestId : RequestId) :
    28 ≤ (frame (clientType message) requestId (clientPayload message)).length ∧
      (frame (clientType message) requestId (clientPayload message)).length ≤ 45 := by
  rw [frame, List.length_append, length_header, clientCodec.length_payload]
  cases message <;> rw [clientType] <;> decide

theorem bytesConsumed_bounds {bytes : List UInt8} {d : DecodedFrame ClientMessage}
    (h : decodeClientFramePrefix bytes = .ok d) :
    28 ≤ d.bytesConsumed ∧ d.bytesConsumed ≤ bytes.length := by
  obtain ⟨-, hle, htake⟩ := clientCodec.eq_frame_of_decodeFramePrefix h
  refine ⟨?_, hle⟩
  rw [← min_eq_left hle, ← List.length_take, htake]
  exact (length_clientFrame_bounds ..).1

theorem length_lt_of_decodeClientFramePrefix {bytes : List UInt8}
    (h : decodeClientFramePrefix bytes = .error .truncatedInput) : bytes.length < 45 := by
  obtain ⟨-, hlt⟩ | hmem | ⟨type, payload, hmessage⟩ := decodeFramePrefix_error h
  · exact hlt
  · exact absurd hmem (by decide)
  · cases hmessage

/-! ### Messages of the server -/

/-- The type that a message is sent with. -/
def serverType : ServerMessage → WireMessageType
  | .submitResult _ => .submitResult
  | .cancelResult _ => .cancelResult
  | .protocolError _ => .protocolError
  | .engineUnavailable _ => .engineUnavailable

/-- The bytes of a message. -/
def serverPayload : ServerMessage → List UInt8
  | .submitResult response =>
    [response.status.raw] ++ [response.rejectionCode.raw] ++
      toBytes 8 response.executedQuantity.units.toNat ++
      toBytes 8 response.restingQuantity.units.toNat
  | .cancelResult response =>
    [response.status.raw] ++ toBytes 8 response.cancelledQuantity.units.toNat
  | .protocolError response => toBytes 2 response.code.raw.toNat
  | .engineUnavailable response => [response.code.raw]

/-- The protocol has no place for the codes of a message. -/
def Malformed : ServerMessage → Prop
  | .submitResult response =>
    8 < response.rejectionCode.raw ∨
      ¬ (response.status = .accepted ∨ response.status = .rejected) ∨
      (response.status = .accepted ∧ response.rejectionCode ≠ .none) ∨
      (response.status = .rejected ∧ response.rejectionCode = .none)
  | .cancelResult response => ¬ (response.status = .cancelled ∨ response.status = .notFound)
  | .protocolError response => response.code.raw = 0 ∨ 7 < response.code.raw
  | .engineUnavailable response => response.code ≠ .unavailable

/-- The check that the encoder makes. -/
def serverValid : ServerMessage → Bool
  | .submitResult response => validSubmitResult response
  | .cancelResult response => validCancelResult response
  | .protocolError response => (decodeProtocolErrorCode response.code.raw).isSome
  | .engineUnavailable response => response.code = .unavailable

section Codes

theorem isKnownRejectionCode_iff {code : WireRejectionCode} :
    isKnownRejectionCode code = true ↔ code.raw ≤ 8 := by
  obtain ⟨raw⟩ := code
  simp only [isKnownRejectionCode, decide_eq_true_iff, WireRejectionCode.mk.injEq,
    WireRejectionCode.none, WireRejectionCode.invalidOrderId, WireRejectionCode.invalidSide,
    WireRejectionCode.invalidPrice, WireRejectionCode.invalidQuantity,
    WireRejectionCode.duplicateOrderId, WireRejectionCode.quantityOverflow,
    WireRejectionCode.sequenceExhausted, WireRejectionCode.tradeIdExhausted,
    ← UInt8.toNat_inj, UInt8.le_iff_toNat_le]
  simp only [UInt8.reduceToNat]
  omega

theorem decodeRejectionCode_eq_some_iff {value : UInt8} {code : WireRejectionCode} :
    decodeRejectionCode value = some code ↔ code.raw = value ∧ isKnownRejectionCode code := by
  rw [decodeRejectionCode]
  constructor
  · intro h
    split_ifs at h with hknown
    cases h
    exact ⟨rfl, hknown⟩
  · rintro ⟨rfl, hknown⟩
    exact if_pos hknown

theorem decodeSubmitStatus_eq_some_iff {value : UInt8} {status : WireSubmitStatus} :
    decodeSubmitStatus value = some status ↔
      status.raw = value ∧ (status = .accepted ∨ status = .rejected) := by
  rw [decodeSubmitStatus]
  constructor
  · intro h
    split_ifs at h with haccepted hrejected
    · cases h
      exact ⟨haccepted.symm, Or.inl rfl⟩
    · cases h
      exact ⟨hrejected.symm, Or.inr rfl⟩
  · rintro ⟨rfl, rfl | rfl⟩ <;> rfl

theorem decodeCancelStatus_eq_some_iff {value : UInt8} {status : WireCancelStatus} :
    decodeCancelStatus value = some status ↔
      status.raw = value ∧ (status = .cancelled ∨ status = .notFound) := by
  rw [decodeCancelStatus]
  constructor
  · intro h
    split_ifs at h with hcancelled hnotFound
    · cases h
      exact ⟨hcancelled.symm, Or.inl rfl⟩
    · cases h
      exact ⟨hnotFound.symm, Or.inr rfl⟩
  · rintro ⟨rfl, rfl | rfl⟩ <;> rfl

theorem decodeProtocolErrorCode_eq {value : UInt16} : decodeProtocolErrorCode value =
    if value = 0 ∨ 7 < value then none else some ⟨value⟩ := by
  rw [decodeProtocolErrorCode]
  grind [WireProtocolErrorCode.badMagic, WireProtocolErrorCode.unsupportedVersion,
    WireProtocolErrorCode.unsupportedMessageType, WireProtocolErrorCode.payloadTooLarge,
    WireProtocolErrorCode.invalidPayloadLength, WireProtocolErrorCode.malformedPayload,
    WireProtocolErrorCode.bufferLimitExceeded]

theorem decodeEngineUnavailableCode_eq_some_iff {value : UInt8}
    {code : WireEngineUnavailableCode} : decodeEngineUnavailableCode value = some code ↔
      code.raw = value ∧ code = .unavailable := by
  rw [decodeEngineUnavailableCode]
  constructor
  · intro h
    split_ifs at h with hcode
    cases h
    exact ⟨hcode.symm, rfl⟩
  · rintro ⟨rfl, rfl⟩
    rfl

theorem validSubmitResult_iff {response : SubmitResultResponse} :
    validSubmitResult response = true ↔ isKnownRejectionCode response.rejectionCode = true ∧
      ((response.status = .accepted ∧ response.rejectionCode = .none) ∨
        (response.status = .rejected ∧ response.rejectionCode ≠ .none)) := by
  rw [validSubmitResult]
  split_ifs with h
  · exact ⟨fun hvalid => ⟨h, of_decide_eq_true hvalid⟩, fun hvalid => decide_eq_true hvalid.2⟩
  · exact ⟨fun hvalid => absurd hvalid (by decide), fun hvalid => absurd hvalid.1 h⟩

end Codes

theorem serverValid_iff {message : ServerMessage} :
    serverValid message = true ↔ ¬ Malformed message := by
  cases message with
  | submitResult response =>
    rw [serverValid, validSubmitResult_iff, isKnownRejectionCode_iff, Malformed, ← UInt8.not_lt]
    have hne : WireSubmitStatus.accepted ≠ .rejected := by decide
    grind
  | cancelResult response =>
    rw [serverValid, validCancelResult, decide_eq_true_iff, Malformed, not_not]
  | protocolError response =>
    rw [serverValid, decodeProtocolErrorCode_eq, Malformed]
    split_ifs with h <;> simp [h]
  | engineUnavailable response =>
    rw [serverValid, decide_eq_true_iff, Malformed, not_not]

/-- A message that is sent is read back. -/
theorem decodeServerMessage_serverPayload {message : ServerMessage}
    (hvalid : serverValid message = true) :
    decodeServerMessage (serverType message) (serverPayload message) = .ok message := by
  cases message with
  | submitResult response =>
    have hlength : (serverPayload (.submitResult response)).length = 18 := by
      simp [serverPayload]
    have hexecuted : readU64 (serverPayload (.submitResult response)) 2 =
        response.executedQuantity.units := readU64_of_slice (by omega) rfl
    have hresting : readU64 (serverPayload (.submitResult response)) 10 =
        response.restingQuantity.units := readU64_of_slice (by omega) rfl
    obtain ⟨hknown, hstatus⟩ := validSubmitResult_iff.mp hvalid
    have hdecodeStatus : decodeSubmitStatus (byteAt (serverPayload (.submitResult response)) 0) =
        some response.status :=
      decodeSubmitStatus_eq_some_iff.mpr ⟨rfl, hstatus.imp And.left And.left⟩
    have hdecodeCode : decodeRejectionCode (byteAt (serverPayload (.submitResult response)) 1) =
        some response.rejectionCode := decodeRejectionCode_eq_some_iff.mpr ⟨rfl, hknown⟩
    rw [serverType, decodeServerMessage, hdecodeStatus, hdecodeCode]
    dsimp only
    rw [hexecuted, hresting]
    exact if_neg (not_not.mpr hvalid)
  | cancelResult response =>
    have hlength : (serverPayload (.cancelResult response)).length = 9 := by
      simp [serverPayload]
    have hcancelled : readU64 (serverPayload (.cancelResult response)) 1 =
        response.cancelledQuantity.units := readU64_of_slice (by omega) rfl
    have hdecodeStatus : decodeCancelStatus (byteAt (serverPayload (.cancelResult response)) 0) =
        some response.status :=
      decodeCancelStatus_eq_some_iff.mpr ⟨rfl, of_decide_eq_true hvalid⟩
    rw [serverType, decodeServerMessage, hdecodeStatus]
    dsimp only
    rw [hcancelled]
    exact if_neg (not_not.mpr hvalid)
  | protocolError response =>
    have hcode : readU16 (serverPayload (.protocolError response)) 0 = response.code.raw :=
      readU16_of_slice (by rw [serverPayload, length_toBytes]) rfl
    rw [serverValid, decodeProtocolErrorCode_eq] at hvalid
    rw [serverType, decodeServerMessage, hcode, decodeProtocolErrorCode_eq]
    split_ifs at hvalid ⊢
    · cases hvalid
    · rfl
  | engineUnavailable response =>
    have hcode : decodeEngineUnavailableCode
        (byteAt (serverPayload (.engineUnavailable response)) 0) = some response.code :=
      decodeEngineUnavailableCode_eq_some_iff.mpr ⟨rfl, of_decide_eq_true hvalid⟩
    rw [serverType, decodeServerMessage, hcode]

section OfDecode

variable {bytes : List UInt8} {message : ServerMessage}

theorem of_decode_submitResult (hlength : bytes.length = 18)
    (hdecode : decodeServerMessage .submitResult bytes = .ok message) : serverValid message = true ∧
      serverType message = .submitResult ∧ serverPayload message = bytes := by
  rw [decodeServerMessage] at hdecode
  cases hstatus : decodeSubmitStatus (byteAt bytes 0) with
  | none =>
    rw [hstatus] at hdecode
    cases hdecode
  | some status =>
  cases hcode : decodeRejectionCode (byteAt bytes 1) with
  | none =>
    rw [hstatus, hcode] at hdecode
    cases hdecode
  | some code =>
  rw [hstatus, hcode] at hdecode
  dsimp only at hdecode
  split_ifs at hdecode with hvalid
  obtain rfl := Except.ok.inj hdecode
  refine ⟨hvalid, rfl, ?_⟩
  have htake : bytes.take (1 + 1 + 8 + 8) = bytes.slice 0 1 ++ bytes.slice 1 1 ++
      bytes.slice 2 8 ++ bytes.slice 10 8 := by
    rw [List.take_add_slice, List.take_add_slice, List.take_add_slice]
    rfl
  rw [List.take_of_length_le hlength.le, slice_one (by omega), slice_one (by omega),
    slice_readU64 (by omega), slice_readU64 (by omega),
    ← (decodeSubmitStatus_eq_some_iff.mp hstatus).1,
    ← (decodeRejectionCode_eq_some_iff.mp hcode).1] at htake
  exact htake.symm

theorem of_decode_cancelResult (hlength : bytes.length = 9)
    (hdecode : decodeServerMessage .cancelResult bytes = .ok message) : serverValid message = true ∧
      serverType message = .cancelResult ∧ serverPayload message = bytes := by
  rw [decodeServerMessage] at hdecode
  cases hstatus : decodeCancelStatus (byteAt bytes 0) with
  | none =>
    rw [hstatus] at hdecode
    cases hdecode
  | some status =>
  rw [hstatus] at hdecode
  dsimp only at hdecode
  split_ifs at hdecode with hvalid
  obtain rfl := Except.ok.inj hdecode
  refine ⟨hvalid, rfl, ?_⟩
  have htake : bytes.take (1 + 8) = bytes.slice 0 1 ++ bytes.slice 1 8 := by
    rw [List.take_add_slice]
    rfl
  rw [List.take_of_length_le hlength.le, slice_one (by omega), slice_readU64 (by omega),
    ← (decodeCancelStatus_eq_some_iff.mp hstatus).1] at htake
  exact htake.symm

theorem of_decode_protocolError (hlength : bytes.length = 2)
    (hdecode : decodeServerMessage .protocolError bytes = .ok message) :
    serverValid message = true ∧
      serverType message = .protocolError ∧ serverPayload message = bytes := by
  rw [decodeServerMessage, decodeProtocolErrorCode_eq] at hdecode
  by_cases hcode : readU16 bytes 0 = 0 ∨ 7 < readU16 bytes 0
  · rw [if_pos hcode] at hdecode
    cases hdecode
  · rw [if_neg hcode] at hdecode
    obtain rfl := Except.ok.inj hdecode
    refine ⟨?_, rfl, ?_⟩
    · rw [serverValid, decodeProtocolErrorCode_eq, if_neg hcode]
      rfl
    · have hslice : bytes.slice 0 2 = bytes := List.take_of_length_le hlength.le
      rw [slice_readU16 (by omega)] at hslice
      exact hslice

theorem of_decode_engineUnavailable (hlength : bytes.length = 1)
    (hdecode : decodeServerMessage .engineUnavailable bytes = .ok message) :
    serverValid message = true ∧
      serverType message = .engineUnavailable ∧ serverPayload message = bytes := by
  rw [decodeServerMessage] at hdecode
  cases hcode : decodeEngineUnavailableCode (byteAt bytes 0) with
  | none =>
    rw [hcode] at hdecode
    cases hdecode
  | some code =>
  rw [hcode] at hdecode
  obtain rfl := Except.ok.inj hdecode
  obtain ⟨hraw, hunavailable⟩ := decodeEngineUnavailableCode_eq_some_iff.mp hcode
  refine ⟨decide_eq_true hunavailable, rfl, ?_⟩
  have hslice : bytes.slice 0 1 = bytes := List.take_of_length_le hlength.le
  rw [slice_one (by omega), ← hraw] at hslice
  exact hslice

end OfDecode

theorem serverCodec : PayloadCodec isServerMessageType decodeServerMessage serverType serverPayload
    fun message => serverValid message = true where
  accepts_type message := by cases message <;> rfl
  length_payload message := by
    cases message <;> simp [serverType, serverPayload, expectedPayloadLength,
      submitResultResponsePayloadSize, cancelResultResponsePayloadSize,
      protocolErrorResponsePayloadSize, engineUnavailableResponsePayloadSize]
  decode_payload _ := decodeServerMessage_serverPayload
  of_decode type bytes message haccepts hlength hdecode := by
    cases type with
    | submitResult => exact of_decode_submitResult hlength hdecode
    | cancelResult => exact of_decode_cancelResult hlength hdecode
    | protocolError => exact of_decode_protocolError hlength hdecode
    | engineUnavailable => exact of_decode_engineUnavailable hlength hdecode
    | submitLimitOrder | cancelOrder => cases haccepts

theorem encodeServerFrame_of_valid {envelope : WireEnvelope ServerMessage}
    (h : serverValid envelope.message = true) : encodeServerFrame envelope =
      .ok (frame (serverType envelope.message) envelope.requestId
        (serverPayload envelope.message)) := by
  obtain ⟨requestId, message⟩ := envelope
  cases message with
  | submitResult response =>
    have hheader : encodeHeader .submitResult submitResultResponsePayloadSize requestId =
      header .submitResult requestId := encodeHeader_eq
    refine (if_neg (not_not.mpr h)).trans (congrArg Except.ok ?_)
    simp only [hheader, appendU64_eq, appendU8, frame, serverType, serverPayload,
      List.append_assoc]
  | cancelResult response =>
    have hheader : encodeHeader .cancelResult cancelResultResponsePayloadSize requestId =
      header .cancelResult requestId := encodeHeader_eq
    refine (if_neg (not_not.mpr h)).trans (congrArg Except.ok ?_)
    simp only [hheader, appendU64_eq, appendU8, frame, serverType, serverPayload,
      List.append_assoc]
  | protocolError response =>
    have hheader : encodeHeader .protocolError protocolErrorResponsePayloadSize requestId =
      header .protocolError requestId := encodeHeader_eq
    refine (if_neg fun hnone => ?_).trans (congrArg Except.ok ?_)
    · rw [serverValid, Option.isNone_iff_eq_none.mp hnone] at h
      cases h
    · simp only [hheader, appendU16_eq, frame, serverType, serverPayload]
  | engineUnavailable response =>
    have hheader : encodeHeader .engineUnavailable engineUnavailableResponsePayloadSize requestId =
      header .engineUnavailable requestId := encodeHeader_eq
    refine (if_neg (not_not.mpr (of_decide_eq_true h))).trans (congrArg Except.ok ?_)
    simp only [hheader, appendU8, frame, serverType, serverPayload]

theorem encodeServerFrame_of_not_valid {envelope : WireEnvelope ServerMessage}
    (h : ¬ serverValid envelope.message = true) :
    encodeServerFrame envelope = .error .malformedPayload := by
  obtain ⟨requestId, message⟩ := envelope
  cases message with
  | submitResult response => exact if_pos h
  | cancelResult response => exact if_pos h
  | protocolError response =>
    exact if_pos (Option.isNone_iff_eq_none.mpr (Option.not_isSome_iff_eq_none.mp h))
  | engineUnavailable response => exact if_pos fun hcode => h (decide_eq_true hcode)

end WireProtocol

open WireProtocol

/-- A frame is read back, whatever follows it, and what is read is a frame. The encoder of the
server fails exactly on the envelopes that no bytes stand for, which are those with codes that the
protocol has no place for. -/
theorem decodeFramePrefix_encodeFrame :
    (∀ envelope, ∃ bytes, encodeClientFrame envelope = .ok bytes ∧
      ∀ rest, decodeClientFramePrefix (bytes ++ rest) = .ok ⟨envelope, bytes.length⟩) ∧
    (∀ envelope bytes, encodeServerFrame envelope = .ok bytes →
      ∀ rest, decodeServerFramePrefix (bytes ++ rest) = .ok ⟨envelope, bytes.length⟩) ∧
    (∀ bytes d, decodeClientFramePrefix bytes = .ok d → d.bytesConsumed ≤ bytes.length ∧
      encodeClientFrame d.envelope = .ok (bytes.take d.bytesConsumed)) ∧
    (∀ bytes d, decodeServerFramePrefix bytes = .ok d → d.bytesConsumed ≤ bytes.length ∧
      encodeServerFrame d.envelope = .ok (bytes.take d.bytesConsumed)) ∧
    ∀ envelope,
      ((∃ e, encodeServerFrame envelope = .error e) ↔
        ¬ ∃ bytes d, decodeServerFramePrefix bytes = .ok d ∧ d.envelope = envelope) ∧
      ((∃ e, encodeServerFrame envelope = .error e) ↔ Malformed envelope.message) := by
  refine ⟨fun envelope => ?_, fun envelope bytes hencode rest => ?_, fun bytes d hdecode => ?_,
    fun bytes d hdecode => ?_, fun envelope => ⟨?_, ?_⟩⟩
  · exact ⟨_, encodeClientFrame_eq envelope,
      fun rest => clientCodec.decodeFramePrefix_frame _ _ trivial rest⟩
  · by_cases hvalid : serverValid envelope.message = true
    · rw [encodeServerFrame_of_valid hvalid] at hencode
      obtain rfl := Except.ok.inj hencode
      exact serverCodec.decodeFramePrefix_frame _ _ hvalid rest
    · cases (encodeServerFrame_of_not_valid hvalid).symm.trans hencode
  · obtain ⟨-, hle, htake⟩ := clientCodec.eq_frame_of_decodeFramePrefix hdecode
    exact ⟨hle, htake ▸ encodeClientFrame_eq d.envelope⟩
  · obtain ⟨hvalid, hle, htake⟩ := serverCodec.eq_frame_of_decodeFramePrefix hdecode
    exact ⟨hle, htake ▸ encodeServerFrame_of_valid hvalid⟩
  · constructor
    · rintro ⟨e, he⟩ ⟨bytes, d, hdecode, rfl⟩
      have hvalid := (serverCodec.eq_frame_of_decodeFramePrefix hdecode).1
      cases (encodeServerFrame_of_valid hvalid).symm.trans he
    · intro h
      exact ⟨_, encodeServerFrame_of_not_valid fun hvalid =>
        h ⟨_, _, serverCodec.decodeFramePrefix_frame envelope.requestId _ hvalid [], rfl⟩⟩
  · rw [← not_not (a := Malformed _), ← serverValid_iff]
    constructor
    · rintro ⟨e, he⟩ hvalid
      cases (encodeServerFrame_of_valid hvalid).symm.trans he
    · exact fun h => ⟨_, encodeServerFrame_of_not_valid h⟩

end MatchingEngine
