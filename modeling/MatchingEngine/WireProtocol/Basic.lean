import MatchingEngine.Journal.Basic

/-!
# The wire protocol

The frames between clients and the gateway, as `src/wire_protocol.cpp` encodes and decodes them. A
frame is a header of 20 bytes and a payload whose length is fixed by the message type. Numbers are
written most significant byte first.

The enumerations have a fixed underlying type, and those that stand in a message can hold any of its
values; `WireMessageType` only comes from `decode_message_type` and from the encoders.

## Main definitions

* `ClientMessage`, `ServerMessage`, `WireEnvelope`.
* `WireProtocol.decodeHeader`.
* `encodeClientFrame`, `encodeServerFrame`.
* `decodeClientFramePrefix`, `decodeServerFramePrefix`, `decodeClientFrame`, `decodeServerFrame`.
-/

namespace MatchingEngine

/-! ### Data -/

structure RequestId where
  value : UInt64
  deriving DecidableEq, Repr

/-- The number whose bytes are `MEXG`. -/
def wireProtocolMagic : UInt32 := 0x4D455847

def wireProtocolVersion : UInt16 := 1

def wireFrameHeaderSize : ℕ := 20

def wireMaximumPayloadLength : ℕ := 4096

def submitLimitOrderRequestPayloadSize : ℕ := 25

def cancelOrderRequestPayloadSize : ℕ := 8

def submitResultResponsePayloadSize : ℕ := 18

def cancelResultResponsePayloadSize : ℕ := 9

def protocolErrorResponsePayloadSize : ℕ := 2

def engineUnavailableResponsePayloadSize : ℕ := 1

inductive WireMessageType where
  | submitLimitOrder
  | cancelOrder
  | submitResult
  | cancelResult
  | protocolError
  | engineUnavailable
  deriving DecidableEq, Repr

/-- The underlying value of a message type. -/
def WireMessageType.raw : WireMessageType → UInt16
  | submitLimitOrder => 1
  | cancelOrder => 2
  | submitResult => 101
  | cancelResult => 102
  | protocolError => 103
  | engineUnavailable => 104

structure WireRejectionCode where
  raw : UInt8
  deriving DecidableEq, Repr

namespace WireRejectionCode

def none : WireRejectionCode := ⟨0⟩

def invalidOrderId : WireRejectionCode := ⟨1⟩

def invalidSide : WireRejectionCode := ⟨2⟩

def invalidPrice : WireRejectionCode := ⟨3⟩

def invalidQuantity : WireRejectionCode := ⟨4⟩

def duplicateOrderId : WireRejectionCode := ⟨5⟩

def quantityOverflow : WireRejectionCode := ⟨6⟩

def sequenceExhausted : WireRejectionCode := ⟨7⟩

def tradeIdExhausted : WireRejectionCode := ⟨8⟩

end WireRejectionCode

structure WireSubmitStatus where
  raw : UInt8
  deriving DecidableEq, Repr

namespace WireSubmitStatus

def accepted : WireSubmitStatus := ⟨1⟩

def rejected : WireSubmitStatus := ⟨2⟩

end WireSubmitStatus

structure WireCancelStatus where
  raw : UInt8
  deriving DecidableEq, Repr

namespace WireCancelStatus

def cancelled : WireCancelStatus := ⟨1⟩

def notFound : WireCancelStatus := ⟨2⟩

end WireCancelStatus

structure WireProtocolErrorCode where
  raw : UInt16
  deriving DecidableEq, Repr

namespace WireProtocolErrorCode

def badMagic : WireProtocolErrorCode := ⟨1⟩

def unsupportedVersion : WireProtocolErrorCode := ⟨2⟩

def unsupportedMessageType : WireProtocolErrorCode := ⟨3⟩

def payloadTooLarge : WireProtocolErrorCode := ⟨4⟩

def invalidPayloadLength : WireProtocolErrorCode := ⟨5⟩

def malformedPayload : WireProtocolErrorCode := ⟨6⟩

def bufferLimitExceeded : WireProtocolErrorCode := ⟨7⟩

end WireProtocolErrorCode

structure WireEngineUnavailableCode where
  raw : UInt8
  deriving DecidableEq, Repr

namespace WireEngineUnavailableCode

def unavailable : WireEngineUnavailableCode := ⟨1⟩

end WireEngineUnavailableCode

inductive WireCodecError where
  | truncatedInput
  | unexpectedTrailingBytes
  | badMagic
  | unsupportedVersion
  | unsupportedMessageType
  | payloadTooLarge
  | invalidPayloadLength
  | malformedPayload
  | bufferLimitExceeded
  deriving DecidableEq, Repr

structure SubmitLimitOrderRequest where
  orderId : OrderId
  /-- Any octet; the order book decides whether it is a side. -/
  rawSide : UInt8
  limitPrice : Price
  quantity : Quantity
  deriving DecidableEq, Repr

structure CancelOrderRequest where
  orderId : OrderId
  deriving DecidableEq, Repr

inductive ClientMessage where
  | submitLimitOrder (request : SubmitLimitOrderRequest)
  | cancelOrder (request : CancelOrderRequest)
  deriving DecidableEq, Repr

structure SubmitResultResponse where
  status : WireSubmitStatus
  rejectionCode : WireRejectionCode
  executedQuantity : Quantity
  restingQuantity : Quantity
  deriving DecidableEq, Repr

structure CancelResultResponse where
  status : WireCancelStatus
  cancelledQuantity : Quantity
  deriving DecidableEq, Repr

structure ProtocolErrorResponse where
  code : WireProtocolErrorCode
  deriving DecidableEq, Repr

structure EngineUnavailableResponse where
  code : WireEngineUnavailableCode := .unavailable
  deriving DecidableEq, Repr

inductive ServerMessage where
  | submitResult (response : SubmitResultResponse)
  | cancelResult (response : CancelResultResponse)
  | protocolError (response : ProtocolErrorResponse)
  | engineUnavailable (response : EngineUnavailableResponse)
  deriving DecidableEq, Repr

structure WireEnvelope (Message : Type) where
  requestId : RequestId
  message : Message
  deriving DecidableEq, Repr

/-- `DecodedClientFrame` and `DecodedServerFrame`. -/
structure DecodedFrame (Message : Type) where
  envelope : WireEnvelope Message
  bytesConsumed : ℕ
  deriving DecidableEq, Repr

/-! ### Codes of the domain -/

def toWireRejectionCode : RejectionReason → Option WireRejectionCode
  | .invalidOrderId => some .invalidOrderId
  | .invalidSide => some .invalidSide
  | .invalidPrice => some .invalidPrice
  | .invalidQuantity => some .invalidQuantity
  | .duplicateOrderId => some .duplicateOrderId
  | .quantityOverflow => some .quantityOverflow
  | .sequenceExhausted => some .sequenceExhausted
  | .tradeIdExhausted => some .tradeIdExhausted

def toWireCancelStatus : CancelStatus → Option WireCancelStatus
  | .cancelled => some .cancelled
  | .notFound => some .notFound

def toWireProtocolErrorCode : WireCodecError → Option WireProtocolErrorCode
  | .badMagic => some .badMagic
  | .unsupportedVersion => some .unsupportedVersion
  | .unsupportedMessageType => some .unsupportedMessageType
  | .payloadTooLarge => some .payloadTooLarge
  | .invalidPayloadLength => some .invalidPayloadLength
  | .malformedPayload => some .malformedPayload
  | .bufferLimitExceeded => some .bufferLimitExceeded
  | .truncatedInput => none
  | .unexpectedTrailingBytes => none

namespace WireProtocol

/-! ### Numbers in bytes -/

/-- `append_u32`, whose loop also covers the last byte. -/
def appendU32 (bytes : List UInt8) (value : UInt32) : List UInt8 :=
  ([24, 16, 8, 0] : List UInt32).foldl
    (fun bytes shift => appendU8 bytes (value >>> shift).toUInt8) bytes

/-- `append_u64`, whose loop also covers the last byte. -/
def appendU64 (bytes : List UInt8) (value : UInt64) : List UInt8 :=
  ([56, 48, 40, 32, 24, 16, 8, 0] : List UInt64).foldl
    (fun bytes shift => appendU8 bytes (value >>> shift).toUInt8) bytes

/-! ### Headers -/

structure FrameHeader where
  type : WireMessageType
  payloadLength : UInt32
  requestId : RequestId
  deriving DecidableEq, Repr

def decodeMessageType (value : UInt16) : Option WireMessageType :=
  if value = WireMessageType.submitLimitOrder.raw then some .submitLimitOrder
  else if value = WireMessageType.cancelOrder.raw then some .cancelOrder
  else if value = WireMessageType.submitResult.raw then some .submitResult
  else if value = WireMessageType.cancelResult.raw then some .cancelResult
  else if value = WireMessageType.protocolError.raw then some .protocolError
  else if value = WireMessageType.engineUnavailable.raw then some .engineUnavailable
  else none

def isClientMessageType (type : WireMessageType) : Bool :=
  type = .submitLimitOrder ∨ type = .cancelOrder

def isServerMessageType (type : WireMessageType) : Bool :=
  type = .submitResult ∨ type = .cancelResult ∨ type = .protocolError ∨ type = .engineUnavailable

def expectedPayloadLength : WireMessageType → ℕ
  | .submitLimitOrder => submitLimitOrderRequestPayloadSize
  | .cancelOrder => cancelOrderRequestPayloadSize
  | .submitResult => submitResultResponsePayloadSize
  | .cancelResult => cancelResultResponsePayloadSize
  | .protocolError => protocolErrorResponsePayloadSize
  | .engineUnavailable => engineUnavailableResponsePayloadSize

/-- The header is refused as soon as the field that is wrong is there. -/
def decodeHeader (bytes : List UInt8) : Except WireCodecError FrameHeader :=
  if bytes.length < 4 then .error .truncatedInput
  else if readU32 bytes 0 ≠ wireProtocolMagic then .error .badMagic
  else if bytes.length < 6 then .error .truncatedInput
  else if readU16 bytes 4 ≠ wireProtocolVersion then .error .unsupportedVersion
  else if bytes.length < 8 then .error .truncatedInput
  else
    match decodeMessageType (readU16 bytes 6) with
    | none => .error .unsupportedMessageType
    | some type =>
      if bytes.length < 12 then .error .truncatedInput
      else
        let payloadLength := readU32 bytes 8
        if payloadLength.toNat > wireMaximumPayloadLength then .error .payloadTooLarge
        else if payloadLength.toNat ≠ expectedPayloadLength type then .error .invalidPayloadLength
        else if bytes.length < wireFrameHeaderSize then .error .truncatedInput
        else .ok ⟨type, payloadLength, ⟨readU64 bytes 12⟩⟩

def hasCompleteFrame (bytes : List UInt8) (header : FrameHeader) : Bool :=
  bytes.length ≥ wireFrameHeaderSize + header.payloadLength.toNat

def encodeHeader (type : WireMessageType) (payloadLength : ℕ) (requestId : RequestId) :
    List UInt8 :=
  let bytes := appendU32 [] wireProtocolMagic
  let bytes := appendU16 bytes wireProtocolVersion
  let bytes := appendU16 bytes type.raw
  let bytes := appendU32 bytes (UInt32.ofNat payloadLength)
  appendU64 bytes requestId.value

/-! ### Codes in payloads -/

def isKnownRejectionCode (code : WireRejectionCode) : Bool :=
  code = .none ∨ code = .invalidOrderId ∨ code = .invalidSide ∨ code = .invalidPrice ∨
    code = .invalidQuantity ∨ code = .duplicateOrderId ∨ code = .quantityOverflow ∨
    code = .sequenceExhausted ∨ code = .tradeIdExhausted

def decodeRejectionCode (value : UInt8) : Option WireRejectionCode :=
  let code : WireRejectionCode := ⟨value⟩
  if isKnownRejectionCode code then some code else none

def decodeSubmitStatus (value : UInt8) : Option WireSubmitStatus :=
  if value = WireSubmitStatus.accepted.raw then some .accepted
  else if value = WireSubmitStatus.rejected.raw then some .rejected
  else none

def decodeCancelStatus (value : UInt8) : Option WireCancelStatus :=
  if value = WireCancelStatus.cancelled.raw then some .cancelled
  else if value = WireCancelStatus.notFound.raw then some .notFound
  else none

def decodeProtocolErrorCode (value : UInt16) : Option WireProtocolErrorCode :=
  if value = WireProtocolErrorCode.badMagic.raw then some .badMagic
  else if value = WireProtocolErrorCode.unsupportedVersion.raw then some .unsupportedVersion
  else if value = WireProtocolErrorCode.unsupportedMessageType.raw then
    some .unsupportedMessageType
  else if value = WireProtocolErrorCode.payloadTooLarge.raw then some .payloadTooLarge
  else if value = WireProtocolErrorCode.invalidPayloadLength.raw then some .invalidPayloadLength
  else if value = WireProtocolErrorCode.malformedPayload.raw then some .malformedPayload
  else if value = WireProtocolErrorCode.bufferLimitExceeded.raw then some .bufferLimitExceeded
  else none

def decodeEngineUnavailableCode (value : UInt8) : Option WireEngineUnavailableCode :=
  if value = WireEngineUnavailableCode.unavailable.raw then some .unavailable else none

def validSubmitResult (response : SubmitResultResponse) : Bool :=
  if ¬ isKnownRejectionCode response.rejectionCode then false
  else
    (response.status = .accepted ∧ response.rejectionCode = .none) ∨
      (response.status = .rejected ∧ response.rejectionCode ≠ .none)

def validCancelResult (response : CancelResultResponse) : Bool :=
  response.status = .cancelled ∨ response.status = .notFound

/-! ### Payloads -/

/-- The message of a client in a payload of the right length. -/
def decodeClientMessage (type : WireMessageType) (payload : List UInt8) : ClientMessage :=
  if type = .submitLimitOrder then
    .submitLimitOrder
      { orderId := ⟨readU64 payload 0⟩
        rawSide := byteAt payload 8
        limitPrice := ⟨readU64 payload 9⟩
        quantity := ⟨readU64 payload 17⟩ }
  else .cancelOrder ⟨⟨readU64 payload 0⟩⟩

/-- The message of the server in a payload of the right length: the `switch` of
`decode_server_frame_prefix`. -/
def decodeServerMessage (type : WireMessageType) (payload : List UInt8) :
    Except WireCodecError ServerMessage :=
  match type with
  | .submitResult =>
    match decodeSubmitStatus (byteAt payload 0), decodeRejectionCode (byteAt payload 1) with
    | some status, some rejectionCode =>
      let response : SubmitResultResponse :=
        { status := status
          rejectionCode := rejectionCode
          executedQuantity := ⟨readU64 payload 2⟩
          restingQuantity := ⟨readU64 payload 10⟩ }
      if ¬ validSubmitResult response then .error .malformedPayload
      else .ok (.submitResult response)
    | _, _ => .error .malformedPayload
  | .cancelResult =>
    match decodeCancelStatus (byteAt payload 0) with
    | none => .error .malformedPayload
    | some status =>
      let response : CancelResultResponse := ⟨status, ⟨readU64 payload 1⟩⟩
      if ¬ validCancelResult response then .error .malformedPayload
      else .ok (.cancelResult response)
  | .protocolError =>
    match decodeProtocolErrorCode (readU16 payload 0) with
    | none => .error .malformedPayload
    | some code => .ok (.protocolError ⟨code⟩)
  | .engineUnavailable =>
    match decodeEngineUnavailableCode (byteAt payload 0) with
    | none => .error .malformedPayload
    | some code => .ok (.engineUnavailable ⟨code⟩)
  | .submitLimitOrder => .error .unsupportedMessageType
  | .cancelOrder => .error .unsupportedMessageType

/-- What `decode_client_frame_prefix` and `decode_server_frame_prefix` do with the types that they
accept and with a payload. -/
def decodeFramePrefix {Message : Type} (accepts : WireMessageType → Bool)
    (decodeMessage : WireMessageType → List UInt8 → Except WireCodecError Message)
    (bytes : List UInt8) : Except WireCodecError (DecodedFrame Message) :=
  match decodeHeader bytes with
  | .error e => .error e
  | .ok header =>
    if ¬ accepts header.type then .error .unsupportedMessageType
    else if ¬ hasCompleteFrame bytes header then .error .truncatedInput
    else
      let payload := bytes.slice wireFrameHeaderSize header.payloadLength.toNat
      match decodeMessage header.type payload with
      | .error e => .error e
      | .ok message =>
        .ok ⟨⟨header.requestId, message⟩, wireFrameHeaderSize + header.payloadLength.toNat⟩

def requireExactFrame {Message : Type} (result : Except WireCodecError (DecodedFrame Message))
    (inputSize : ℕ) : Except WireCodecError (DecodedFrame Message) :=
  match result with
  | .error e => .error e
  | .ok frame =>
    if frame.bytesConsumed ≠ inputSize then .error .unexpectedTrailingBytes else .ok frame

end WireProtocol

/-! ### Frames -/

open WireProtocol

def encodeClientFrame (envelope : WireEnvelope ClientMessage) :
    Except WireCodecError (List UInt8) :=
  match envelope.message with
  | .submitLimitOrder message =>
    let bytes := encodeHeader .submitLimitOrder submitLimitOrderRequestPayloadSize
      envelope.requestId
    let bytes := WireProtocol.appendU64 bytes message.orderId.value
    let bytes := appendU8 bytes message.rawSide
    let bytes := WireProtocol.appendU64 bytes message.limitPrice.ticks
    .ok (WireProtocol.appendU64 bytes message.quantity.units)
  | .cancelOrder message =>
    let bytes := encodeHeader .cancelOrder cancelOrderRequestPayloadSize envelope.requestId
    .ok (WireProtocol.appendU64 bytes message.orderId.value)

def encodeServerFrame (envelope : WireEnvelope ServerMessage) :
    Except WireCodecError (List UInt8) :=
  match envelope.message with
  | .submitResult message =>
    if ¬ validSubmitResult message then .error .malformedPayload
    else
      let bytes := encodeHeader .submitResult submitResultResponsePayloadSize envelope.requestId
      let bytes := appendU8 bytes message.status.raw
      let bytes := appendU8 bytes message.rejectionCode.raw
      let bytes := WireProtocol.appendU64 bytes message.executedQuantity.units
      .ok (WireProtocol.appendU64 bytes message.restingQuantity.units)
  | .cancelResult message =>
    if ¬ validCancelResult message then .error .malformedPayload
    else
      let bytes := encodeHeader .cancelResult cancelResultResponsePayloadSize envelope.requestId
      let bytes := appendU8 bytes message.status.raw
      .ok (WireProtocol.appendU64 bytes message.cancelledQuantity.units)
  | .protocolError message =>
    if (decodeProtocolErrorCode message.code.raw).isNone then .error .malformedPayload
    else
      let bytes := encodeHeader .protocolError protocolErrorResponsePayloadSize envelope.requestId
      .ok (appendU16 bytes message.code.raw)
  | .engineUnavailable message =>
    if message.code ≠ .unavailable then .error .malformedPayload
    else
      let bytes := encodeHeader .engineUnavailable engineUnavailableResponsePayloadSize
        envelope.requestId
      .ok (appendU8 bytes message.code.raw)

def decodeClientFramePrefix (bytes : List UInt8) :
    Except WireCodecError (DecodedFrame ClientMessage) :=
  decodeFramePrefix isClientMessageType (fun type payload => .ok (decodeClientMessage type payload))
    bytes

def decodeServerFramePrefix (bytes : List UInt8) :
    Except WireCodecError (DecodedFrame ServerMessage) :=
  decodeFramePrefix isServerMessageType decodeServerMessage bytes

def decodeClientFrame (bytes : List UInt8) : Except WireCodecError (DecodedFrame ClientMessage) :=
  requireExactFrame (decodeClientFramePrefix bytes) bytes.length

def decodeServerFrame (bytes : List UInt8) : Except WireCodecError (DecodedFrame ServerMessage) :=
  requireExactFrame (decodeServerFramePrefix bytes) bytes.length

end MatchingEngine
