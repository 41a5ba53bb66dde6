import MatchingEngine.Journal.Codec
import MatchingEngine.WireProtocol.Codec

/-!
# One frame and nothing behind it

Each of the decoders of a prefix has a counterpart for bytes that are to be one frame or one record
as a whole. It calls the decoder of the prefix, and fails if that has not used up all of the bytes.
The error that it then returns is one that the decoder of the prefix never returns, so it tells
bytes with a frame in front of them from all others.

## Main results

* `decodeRecordPrefix_ne_trailing`: what the decoder of a record never returns.
* `decodeFrame_exact`: the three decoders accept what the encoders write and nothing else.
-/

namespace MatchingEngine

namespace WireProtocol

theorem decodeServerMessage_ne_trailing (type : WireMessageType) (payload : List UInt8) :
    decodeServerMessage type payload ≠ .error .unexpectedTrailingBytes := by
  cases type <;> rw [decodeServerMessage]
  case submitLimitOrder | cancelOrder => simp
  case submitResult =>
    cases decodeSubmitStatus (byteAt payload 0) with
    | none => simp
    | some status =>
      cases decodeRejectionCode (byteAt payload 1) with
      | none => simp
      | some code => exact ite_error_ne (fun _ => by decide) (by simp)
  case cancelResult =>
    cases decodeCancelStatus (byteAt payload 0) with
    | none => simp
    | some status => exact ite_error_ne (fun _ => by decide) (by simp)
  case protocolError => cases decodeProtocolErrorCode (readU16 payload 0) <;> simp
  case engineUnavailable => cases decodeEngineUnavailableCode (byteAt payload 0) <;> simp

section Exact

variable {Message : Type} {accepts : WireMessageType → Bool}
  {decodeMessage : WireMessageType → List UInt8 → Except WireCodecError Message}
  {type : Message → WireMessageType} {payload : Message → List UInt8} {Valid : Message → Prop}

/-- `require_exact_frame`, for messages and payloads that correspond to each other. -/
theorem PayloadCodec.exactDecoder (h : PayloadCodec accepts decodeMessage type payload Valid)
    {encode : WireEnvelope Message → Except WireCodecError (List UInt8)}
    (hencode : ∀ envelope bytes, encode envelope = .ok bytes ↔ Valid envelope.message ∧
      bytes = frame (type envelope.message) envelope.requestId (payload envelope.message))
    (hne : ∀ type payload, decodeMessage type payload ≠ .error .unexpectedTrailingBytes) :
    ExactDecoder (fun envelope bytes => encode envelope = .ok bytes)
      (fun bytes => requireExactFrame (decodeFramePrefix accepts decodeMessage bytes) bytes.length)
      DecodedFrame.envelope DecodedFrame.bytesConsumed .unexpectedTrailingBytes := by
  refine .of_size (decodeFramePrefix accepts decodeMessage) (fun bytes => ?_)
    (fun d written rest hwritten hsize => ?_) (fun envelope n => ⟨⟨envelope, n⟩, rfl, rfl⟩)
    (fun bytes d hdecode => ?_) (decodeFramePrefix_ne (by decide) (by decide) hne)
  · cases decodeFramePrefix accepts decodeMessage bytes <;> rfl
  · obtain ⟨hvalid, rfl⟩ := (hencode _ _).mp hwritten
    rw [h.decodeFramePrefix_frame _ _ hvalid, ← hsize]
  · obtain ⟨hvalid, hle, htake⟩ := h.eq_frame_of_decodeFramePrefix hdecode
    exact ⟨hle, (hencode _ _).mpr ⟨hvalid, htake⟩⟩

theorem encodeClientFrame_eq_ok_iff (envelope : WireEnvelope ClientMessage) (bytes : List UInt8) :
    encodeClientFrame envelope = .ok bytes ↔ True ∧
      bytes = frame (clientType envelope.message) envelope.requestId
        (clientPayload envelope.message) := by
  rw [encodeClientFrame_eq, Except.ok.injEq, true_and, eq_comm]

theorem encodeServerFrame_eq_ok_iff (envelope : WireEnvelope ServerMessage) (bytes : List UInt8) :
    encodeServerFrame envelope = .ok bytes ↔ serverValid envelope.message = true ∧
      bytes = frame (serverType envelope.message) envelope.requestId
        (serverPayload envelope.message) := by
  by_cases hvalid : serverValid envelope.message = true
  · rw [encodeServerFrame_of_valid hvalid, Except.ok.injEq, and_iff_right hvalid, eq_comm]
  · rw [encodeServerFrame_of_not_valid hvalid]
    exact iff_of_false (by simp) fun h => hvalid h.1

end Exact

theorem exactDecoder_client : ExactDecoder
    (fun envelope bytes => encodeClientFrame envelope = .ok bytes) decodeClientFrame
    DecodedFrame.envelope DecodedFrame.bytesConsumed .unexpectedTrailingBytes :=
  clientCodec.exactDecoder encodeClientFrame_eq_ok_iff fun _ _ => by simp

theorem exactDecoder_server : ExactDecoder
    (fun envelope bytes => encodeServerFrame envelope = .ok bytes) decodeServerFrame
    DecodedFrame.envelope DecodedFrame.bytesConsumed .unexpectedTrailingBytes :=
  serverCodec.exactDecoder encodeServerFrame_eq_ok_iff decodeServerMessage_ne_trailing

end WireProtocol

/-! ### Records -/

open WireProtocol (ite_error_ne)

theorem decodeRecordType_ne_trailing (raw : UInt8) :
    decodeRecordType raw ≠ .error .unexpectedTrailingBytes := by
  rw [decodeRecordType]
  split_ifs <;> simp

theorem decodeRecordPrefix_ne_trailing (bytes : List UInt8) :
    decodeRecordPrefix bytes ≠ .error .unexpectedTrailingBytes := by
  rw [decodeRecordPrefix]
  refine ite_error_ne (fun _ => by decide) (ite_error_ne (fun _ => by decide)
    (ite_error_ne (fun _ => by decide) ?_))
  cases htype : decodeRecordType (byteAt bytes recordTypeOffset) with
  | error e =>
    rintro ⟨⟩
    exact decodeRecordType_ne_trailing _ htype
  | ok type =>
    exact ite_error_ne (fun _ => by decide) (ite_error_ne (fun _ => by decide)
      (ite_error_ne (fun _ => by decide) (ite_error_ne (fun _ => by decide)
        (ite_error_ne (fun _ => by decide) (by simp)))))

theorem encodeRecord_eq_ok_iff (record : JournalRecord) (bytes : List UInt8) :
    encodeRecord record.sequence record.command = .ok bytes ↔ record.sequence.value ≠ 0 ∧
      bytes = frame record.sequence.value record.command := by
  by_cases hzero : record.sequence.value = 0
  · rw [encodeRecord, if_pos hzero]
    exact iff_of_false (by simp) fun h => h.1 hzero
  · rw [encodeRecord_eq hzero, Except.ok.injEq, and_iff_right hzero, eq_comm]

/-- The check that `decode_record` makes is that of `require_exact_frame`. -/
theorem exactDecoder_record : ExactDecoder
    (fun record bytes => encodeRecord record.sequence record.command = .ok bytes) decodeRecord
    DecodedJournalRecord.record DecodedJournalRecord.bytesConsumed .unexpectedTrailingBytes := by
  refine .of_size decodeRecordPrefix (fun bytes => ?_)
    (fun d written rest hwritten hsize => ?_) (fun record n => ⟨⟨record, n⟩, rfl, rfl⟩)
    (fun bytes d hdecode => ?_) decodeRecordPrefix_ne_trailing
  · rw [decodeRecord]
    cases decodeRecordPrefix bytes <;> rfl
  · obtain ⟨hzero, rfl⟩ := (encodeRecord_eq_ok_iff _ _).mp hwritten
    rw [decodeRecordPrefix_frame hzero, ← hsize]
  · obtain ⟨hzero, hconsumed, hbytes⟩ := eq_frame_of_decodeRecordPrefix hdecode
    have htake : bytes.take d.bytesConsumed =
        frame d.record.sequence.value d.record.command := by
      rw [hbytes, hconsumed, List.take_left]
    refine ⟨?_, (encodeRecord_eq_ok_iff _ _).mpr ⟨hzero, htake⟩⟩
    have hlength := congrArg List.length htake
    rw [List.length_take, ← hconsumed] at hlength
    exact min_eq_left_iff.mp hlength

/-- A decoder of one frame, of a client or of the server, or of one record accepts exactly the bytes
that the encoder writes for what it returns. It reports trailing bytes exactly for what an encoder
writes with something behind it. -/
theorem decodeFrame_exact :
    ExactDecoder (fun envelope bytes => encodeClientFrame envelope = .ok bytes) decodeClientFrame
      DecodedFrame.envelope DecodedFrame.bytesConsumed .unexpectedTrailingBytes ∧
    ExactDecoder (fun envelope bytes => encodeServerFrame envelope = .ok bytes) decodeServerFrame
      DecodedFrame.envelope DecodedFrame.bytesConsumed .unexpectedTrailingBytes ∧
    ExactDecoder (fun record bytes => encodeRecord record.sequence record.command = .ok bytes)
      decodeRecord DecodedJournalRecord.record DecodedJournalRecord.bytesConsumed
      .unexpectedTrailingBytes :=
  ⟨WireProtocol.exactDecoder_client, WireProtocol.exactDecoder_server, exactDecoder_record⟩

end MatchingEngine
