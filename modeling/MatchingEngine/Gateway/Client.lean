import MatchingEngine.ExactFrames
import MatchingEngine.Gateway.Responses
import MatchingEngine.WireProtocol.Parser

/-!
# What a client reads

A client gets frames and converts the codes in them back to the reasons and the statuses of the
order book. The conversions of a code undo those that the gateway has made, so a client that decodes
the frame of a response reads what the book has returned. What the parser of a connection can fail
with has a code as well, and a frame that carries it; the two errors without a code are not among
its failures.

## Main definitions

* `toDomainRejectionReason`, `toDomainCancelStatus`.
* `BatchCommandResult.ReadFrom`: what a client reads in a message is what a command has come to.

## Main results

* `toDomainRejectionReason_eq_some_iff`, `toDomainCancelStatus_eq_some_iff`: the conversions of a
  code undo those of a reason and of a status.
* `decodeServerFrame_readFrom`: a client reads what a book has returned.
* `ClientStreamParser.failure_encodes`: a client can be told why its connection has failed.
-/

namespace MatchingEngine

/-! ### Codes -/

def toDomainRejectionReason (code : WireRejectionCode) : Option RejectionReason :=
  if code = .invalidOrderId then some .invalidOrderId
  else if code = .invalidSide then some .invalidSide
  else if code = .invalidPrice then some .invalidPrice
  else if code = .invalidQuantity then some .invalidQuantity
  else if code = .duplicateOrderId then some .duplicateOrderId
  else if code = .quantityOverflow then some .quantityOverflow
  else if code = .sequenceExhausted then some .sequenceExhausted
  else if code = .tradeIdExhausted then some .tradeIdExhausted
  -- `None`, and a value that is no code
  else none

def toDomainCancelStatus (status : WireCancelStatus) : Option CancelStatus :=
  if status = .cancelled then some .cancelled
  else if status = .notFound then some .notFound
  else none

theorem toDomainRejectionReason_eq_some_iff {code : WireRejectionCode} {reason : RejectionReason} :
    toDomainRejectionReason code = some reason ↔ toWireRejectionCode reason = some code := by
  constructor
  · intro h
    rw [toDomainRejectionReason] at h
    split_ifs at h with h₁ h₂ h₃ h₄ h₅ h₆ h₇ h₈
    all_goals
      obtain rfl := Option.some.inj h
      subst code
      rfl
  · intro h
    cases reason <;> cases h <;> rfl

theorem toDomainCancelStatus_eq_some_iff {wire : WireCancelStatus} {status : CancelStatus} :
    toDomainCancelStatus wire = some status ↔ toWireCancelStatus status = some wire := by
  constructor
  · intro h
    rw [toDomainCancelStatus] at h
    split_ifs at h with h₁ h₂
    all_goals
      obtain rfl := Option.some.inj h
      subst wire
      rfl
  · intro h
    cases status <;> cases h <;> rfl

/-! ### Responses -/

/-- What a client reads in a message is what a command has come to. -/
def BatchCommandResult.ReadFrom : BatchCommandResult → ServerMessage → Prop
  | .submit result, .submitResult message =>
    (message.status = .accepted ↔ result.status = .accepted) ∧
      (message.status = .rejected ↔ result.status = .rejected) ∧
      toDomainRejectionReason message.rejectionCode = result.rejectionReason ∧
      message.executedQuantity = result.executedQuantity ∧
      message.restingQuantity = result.restingQuantity
  | .cancel result, .cancelResult message =>
    toDomainCancelStatus message.status = some result.status ∧
      message.cancelledQuantity = result.cancelledQuantity
  | _, _ => False

theorem BatchCommandResult.ReportedBy.readFrom {result : BatchCommandResult}
    {message : ServerMessage} (h : result.ReportedBy message) : result.ReadFrom message := by
  cases result with
  | submit result =>
    cases message with
    | submitResult message =>
      obtain ⟨haccepted, hrejected, -, hreason, hquantities⟩ := h
      refine ⟨haccepted, hrejected, Option.ext fun reason => ?_, hquantities⟩
      exact toDomainRejectionReason_eq_some_iff.trans (hreason reason)
    | cancelResult | protocolError | engineUnavailable => exact h
  | cancel result =>
    cases message with
    | cancelResult message =>
      exact ⟨toDomainCancelStatus_eq_some_iff.mpr ((h.1 _).mpr rfl), h.2⟩
    | submitResult | protocolError | engineUnavailable => exact h

/-- A client that decodes the frame of a valid message as a whole gets the message. -/
theorem exists_decodeServerFrame (requestId : RequestId) {message : ServerMessage}
    (h : WireProtocol.serverValid message = true) :
    ∃ frame, encodeServerFrame ⟨requestId, message⟩ = .ok frame ∧
      decodeServerFrame frame = .ok ⟨⟨requestId, message⟩, frame.length⟩ := by
  have hencode : encodeServerFrame ⟨requestId, message⟩ = _ :=
    WireProtocol.encodeServerFrame_of_valid h
  exact ⟨_, hencode, (WireProtocol.exactDecoder_server.ok_iff _ _).mpr ⟨rfl, hencode⟩⟩

/-- The response to any request on any book has a frame. A client that decodes the frame as a whole
gets the number of its request, and reads in the message what the book has returned: the status, the
reason and the quantities. A request that is refused as the engine has failed is told so. -/
theorem decodeServerFrame_readFrom (book : Book) (request : EngineRequest) :
    (∃ response envelope frame,
      summarize request (book.apply (toJournalCommand request)).1 = some response ∧
      toWireResponse response = some envelope ∧ encodeServerFrame envelope = .ok frame ∧
      decodeServerFrame frame = .ok ⟨envelope, frame.length⟩ ∧
      envelope.requestId = request.ids.2 ∧
      (book.apply (toJournalCommand request)).1.ReadFrom envelope.message) ∧
    ∃ envelope frame,
      toWireResponse (unavailableResponse request) = some envelope ∧
      encodeServerFrame envelope = .ok frame ∧
      decodeServerFrame frame = .ok ⟨envelope, frame.length⟩ ∧
      envelope = ⟨request.ids.2, .engineUnavailable ⟨.unavailable⟩⟩ := by
  constructor
  · obtain ⟨response, message, hresponse, hwire, hvalid, hreported⟩ := exists_reported book request
    obtain ⟨frame, hencode, hdecode⟩ := exists_decodeServerFrame request.ids.2 hvalid
    exact ⟨response, _, frame, hresponse, hwire, hencode, hdecode, rfl, hreported.readFrom⟩
  · have hwire : toWireResponse (unavailableResponse request) =
        some ⟨request.ids.2, .engineUnavailable ⟨.unavailable⟩⟩ := by
      cases request <;> rfl
    have hvalid : WireProtocol.serverValid (.engineUnavailable ⟨.unavailable⟩) = true := rfl
    obtain ⟨frame, hencode, hdecode⟩ := exists_decodeServerFrame request.ids.2 hvalid
    exact ⟨_, frame, hwire, hencode, hdecode, rfl⟩

/-! ### Failures -/

/-- The errors that have a code, each of which the encoder accepts. -/
theorem exists_toWireProtocolErrorCode {e : WireCodecError} (htruncated : e ≠ .truncatedInput)
    (htrailing : e ≠ .unexpectedTrailingBytes) :
    ∃ code, toWireProtocolErrorCode e = some code ∧
      WireProtocol.serverValid (.protocolError ⟨code⟩) = true := by
  cases e with
  | truncatedInput => exact absurd rfl htruncated
  | unexpectedTrailingBytes => exact absurd rfl htrailing
  | badMagic | unsupportedVersion | unsupportedMessageType | payloadTooLarge |
    invalidPayloadLength | malformedPayload | bufferLimitExceeded => exact ⟨_, rfl, rfl⟩

theorem toWireProtocolErrorCode_inj {e e' : WireCodecError} {code : WireProtocolErrorCode}
    (h : toWireProtocolErrorCode e = some code) (h' : toWireProtocolErrorCode e' = some code) :
    e = e' := by
  cases e <;> cases h <;> cases e' <;> first | rfl | cases h'

namespace ClientStreamParser

variable {maximum : ℕ}

/-- A reader fails with an error that has a code. -/
theorem receive_ne {kept : List UInt8} {byte : UInt8} {e : WireCodecError}
    (h : (receive maximum (.ok kept) byte).2 = .error e) :
    e ≠ .truncatedInput ∧ e ≠ .unexpectedTrailingBytes := by
  rw [receive] at h
  split_ifs at h with hlimit
  · obtain rfl := Except.error.inj h
    decide
  · cases hdecode : decodeClientFramePrefix (kept ++ [byte]) with
    | ok d => cases hdecode ▸ h
    | error e' =>
      rw [hdecode] at h
      dsimp only at h
      split_ifs at h with htruncated
      obtain rfl := Except.error.inj h
      refine ⟨htruncated, ?_⟩
      rintro rfl
      exact WireProtocol.decodeFramePrefix_ne (by decide) (by decide) (fun _ _ => by simp) _ hdecode

theorem receiveAll_ne {kept bytes : List UInt8} {e : WireCodecError}
    (h : (receiveAll maximum (.ok kept) bytes).2 = .error e) :
    e ≠ .truncatedInput ∧ e ≠ .unexpectedTrailingBytes := by
  induction bytes generalizing kept with
  | nil => cases h
  | cons byte bytes ih =>
    rw [receiveAll_cons] at h
    dsimp only at h
    cases hstate : (receive maximum (.ok kept) byte).2 with
    | ok kept' =>
      rw [hstate] at h
      exact ih h
    | error e' =>
      rw [hstate, receiveAll_error] at h
      obtain rfl := Except.error.inj h
      exact receive_ne hstate

/-- Whatever the bytes of a stream and the chunks that they come in, what a parser has failed with
has a code that no other failure has, and there is a frame that tells the client about it. -/
theorem failure_encodes (chunks : List (List UInt8)) (e : WireCodecError) (requestId : RequestId)
    (h : (runAll feed (ofLimit maximum) chunks).2.failure = some e) :
    ∃ code frame, toWireProtocolErrorCode e = some code ∧
      (∀ e', toWireProtocolErrorCode e' = some code → e' = e) ∧
      encodeServerFrame ⟨requestId, .protocolError ⟨code⟩⟩ = .ok frame ∧
      decodeServerFrame frame = .ok ⟨⟨requestId, .protocolError ⟨code⟩⟩, frame.length⟩ := by
  have hstate := (feedAll_receiveAll (settled_ofLimit maximum) chunks).2.2
  rw [state_eq_error h] at hstate
  obtain ⟨htruncated, htrailing⟩ := receiveAll_ne hstate.symm
  obtain ⟨code, hcode, hvalid⟩ := exists_toWireProtocolErrorCode htruncated htrailing
  obtain ⟨frame, hencode, hdecode⟩ := exists_decodeServerFrame requestId hvalid
  exact ⟨code, frame, hcode, fun e' he' => toWireProtocolErrorCode_inj he' hcode, hencode, hdecode⟩

/-- Four bytes that come one by one and are not the magic of the protocol. -/
theorem failure_encodes_badMagic :
    (runAll feed (ofLimit 64) [[0], [1], [2], [3]]).2.failure = some .badMagic ∧
      ∃ code frame, toWireProtocolErrorCode .badMagic = some code ∧
        (∀ e', toWireProtocolErrorCode e' = some code → e' = .badMagic) ∧
        encodeServerFrame ⟨⟨7⟩, .protocolError ⟨code⟩⟩ = .ok frame ∧
        decodeServerFrame frame = .ok ⟨⟨⟨7⟩, .protocolError ⟨code⟩⟩, frame.length⟩ := by
  have hfailure : (runAll feed (ofLimit 64) [[0], [1], [2], [3]]).2.failure = some .badMagic := by
    decide
  exact ⟨hfailure, failure_encodes [[0], [1], [2], [3]] .badMagic ⟨7⟩ hfailure⟩

end ClientStreamParser

end MatchingEngine
