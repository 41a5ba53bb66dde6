import MatchingEngine.Gateway.Connections
import MatchingEngine.PriorityBook.Crossing

/-!
# Every response has a frame

The result of a command is summarized, converted to a message of the wire protocol and encoded. Each
of the three can fail: a result can be of another kind than its request, a code can have no
counterpart in the protocol, and the encoder refuses a message that is accepted with a reason or
rejected without one. None of this happens to what a book returns, and the message says all that the
summary does.

## Main definitions

* `BatchCommandResult.ReportedBy`: a message says what a command has come to.
* `EngineResponse.Encodes`: a response has a frame with the number of its request.
* `Connection.queueFrame`: a connection after a frame was added to its output.

## Main results

* `exists_reported`: the result of a command on any book is reported by a valid message.
* `EngineResponse.Encodes.deliver_eq`: a response with a frame can only fail for want of room.
-/

namespace MatchingEngine

/-! ### Codes -/

theorem toWireRejectionCode_inj {reason reason' : RejectionReason} :
    toWireRejectionCode reason = toWireRejectionCode reason' ↔ reason = reason' := by
  refine ⟨fun h => ?_, congrArg _⟩
  cases reason <;> cases reason' <;> first | rfl | cases h

theorem WireSubmitStatus.accepted_ne_rejected : accepted ≠ rejected := by decide

theorem exists_toWireRejectionCode (reason : RejectionReason) :
    ∃ code, toWireRejectionCode reason = some code ∧ code ≠ .none ∧
      WireProtocol.isKnownRejectionCode code = true := by
  cases reason <;> exact ⟨_, rfl, by decide, by decide⟩

theorem exists_toWireCancelStatus (status : CancelStatus) :
    ∃ wire, toWireCancelStatus status = some wire ∧ (wire = .cancelled ∨ wire = .notFound) ∧
      ∀ status', toWireCancelStatus status' = some wire ↔ status = status' := by
  cases status
  · exact ⟨_, rfl, Or.inl rfl, fun status' => by cases status' <;> decide⟩
  · exact ⟨_, rfl, Or.inr rfl, fun status' => by cases status' <;> decide⟩

/-! ### Messages -/

/-- A message says what a command has come to: its status and its reason are those that have the
codes of the message, and the quantities are the same. -/
def BatchCommandResult.ReportedBy : BatchCommandResult → ServerMessage → Prop
  | .submit result, .submitResult message =>
    (message.status = .accepted ↔ result.status = .accepted) ∧
      (message.status = .rejected ↔ result.status = .rejected) ∧
      (message.rejectionCode = .none ↔ result.rejectionReason = none) ∧
      (∀ reason, toWireRejectionCode reason = some message.rejectionCode ↔
        result.rejectionReason = some reason) ∧
      message.executedQuantity = result.executedQuantity ∧
      message.restingQuantity = result.restingQuantity
  | .cancel result, .cancelResult message =>
    (∀ status, toWireCancelStatus status = some message.status ↔ result.status = status) ∧
      message.cancelledQuantity = result.cancelledQuantity
  | _, _ => False

section Messages

variable (connectionId : ConnectionId) (requestId : RequestId)

/-- The result of a submission is reported if it has a reason exactly when it is rejected. -/
theorem exists_reported_submit (result : SubmitResult)
    (h : result.rejectionReason = none ↔ result.status = .accepted) :
    ∃ message, toWireResponse (.submit (summarizeSubmitResult connectionId requestId result)) =
        some ⟨requestId, message⟩ ∧
      WireProtocol.serverValid message = true ∧
      (BatchCommandResult.submit result).ReportedBy message := by
  obtain ⟨status, _ | reason, executed, resting, trades⟩ := result
  · obtain rfl : status = .accepted := h.mp rfl
    refine ⟨.submitResult ⟨.accepted, .none, executed, resting⟩, rfl, rfl, iff_of_true rfl rfl,
      iff_of_false WireSubmitStatus.accepted_ne_rejected (by simp), iff_of_true rfl rfl,
      fun reason => iff_of_false (fun hcode => ?_) (by simp), rfl, rfl⟩
    obtain ⟨code, hcode', hne, -⟩ := exists_toWireRejectionCode reason
    exact hne (Option.some.inj (hcode'.symm.trans hcode))
  · obtain rfl : status = .rejected := by
      cases status with
      | accepted => cases h.mpr rfl
      | rejected => rfl
    obtain ⟨code, hcode, hne, hknown⟩ := exists_toWireRejectionCode reason
    refine ⟨.submitResult ⟨.rejected, code, executed, resting⟩, ?_, ?_,
      iff_of_false WireSubmitStatus.accepted_ne_rejected.symm (by simp), iff_of_true rfl rfl,
      iff_of_false hne (by simp), fun reason' => ?_, rfl, rfl⟩
    · simp only [toWireResponse, summarizeSubmitResult, hcode]
      rfl
    · exact WireProtocol.validSubmitResult_iff.mpr ⟨hknown, Or.inr ⟨rfl, hne⟩⟩
    · rw [← hcode, toWireRejectionCode_inj, Option.some.injEq, eq_comm]

theorem exists_reported_cancel (result : CancelResult) :
    ∃ message, toWireResponse (.cancel (summarizeCancelResult connectionId requestId result)) =
        some ⟨requestId, message⟩ ∧
      WireProtocol.serverValid message = true ∧
      (BatchCommandResult.cancel result).ReportedBy message := by
  obtain ⟨wire, hwire, hvalid, hstatus⟩ := exists_toWireCancelStatus result.status
  refine ⟨.cancelResult ⟨wire, result.cancelledQuantity⟩, ?_, decide_eq_true hvalid, hstatus, rfl⟩
  simp only [toWireResponse, summarizeCancelResult, hwire]

end Messages

/-- The result of a command on any book is summarized, converted and reported. -/
theorem exists_reported (book : Book) (request : EngineRequest) :
    ∃ response message,
      summarize request (book.apply (toJournalCommand request)).1 = some response ∧
      toWireResponse response = some ⟨request.ids.2, message⟩ ∧
      WireProtocol.serverValid message = true ∧
      (book.apply (toJournalCommand request)).1.ReportedBy message := by
  rw [(book.apply_refines _).1]
  have happlied := book.abs.apply_applied (toJournalCommand request)
  generalize book.abs.apply (toJournalCommand request) = r at happlied
  obtain ⟨result, p'⟩ := r
  cases request with
  | submit request =>
    rw [toJournalCommand] at happlied
    cases happlied with
    | rejected _ reason =>
      obtain ⟨message, h⟩ := exists_reported_submit request.connectionId request.requestId
        (.rejected reason) (by simp [SubmitResult.rejected])
      exact ⟨_, message, rfl, h⟩
    | accepted =>
      obtain ⟨message, h⟩ := exists_reported_submit request.connectionId request.requestId
        (PriorityBook.acceptResult request.order (book.abs.fillFor request.order))
        (iff_of_true rfl rfl)
      exact ⟨_, message, rfl, h⟩
  | cancel request =>
    obtain ⟨connectionId, requestId, orderId⟩ := request
    rw [toJournalCommand] at happlied
    cases happlied with
    | notFound | cancelled =>
      obtain ⟨message, h⟩ := exists_reported_cancel connectionId requestId _
      exact ⟨_, message, rfl, h⟩

/-- A message that reports an accepted order accounts for all of its quantity. -/
theorem Book.executed_add_resting (book : Book) {order : NewLimitOrder}
    {reply : SubmitResultResponse}
    (h : (book.apply (.submitLimitOrder order)).1.ReportedBy (.submitResult reply))
    (haccepted : reply.status = .accepted) :
    reply.executedQuantity.toNat + reply.restingQuantity.toNat = order.quantity.toNat := by
  rw [(book.apply_refines _).1] at h
  have happlied := book.abs.apply_applied (.submitLimitOrder order)
  generalize book.abs.apply (.submitLimitOrder order) = r at h happlied
  obtain ⟨result, p'⟩ := r
  cases happlied with
  | rejected => cases h.1.mp haccepted
  | accepted =>
    obtain ⟨-, -, -, -, hexecuted, hresting⟩ := h
    rw [hexecuted, hresting]
    exact book.abs.acceptResult_total order

/-! ### Frames -/

/-- A response has a frame, with the number of the request that is answered. -/
def EngineResponse.Encodes (response : EngineResponse) : Prop :=
  ∃ envelope, toWireResponse response = some envelope ∧ envelope.requestId = response.ids.2 ∧
    encodeServerFrame envelope = .ok (responseFrame response)

theorem encodes_of_valid {response : EngineResponse} {envelope : WireEnvelope ServerMessage}
    (henvelope : toWireResponse response = some envelope)
    (hid : envelope.requestId = response.ids.2)
    (hvalid : WireProtocol.serverValid envelope.message = true) : response.Encodes := by
  have hbytes := WireProtocol.encodeServerFrame_of_valid hvalid
  exact ⟨envelope, henvelope, hid, by rw [hbytes, responseFrame_eq henvelope hbytes]⟩

theorem encodes_unavailableResponse (request : EngineRequest) :
    (unavailableResponse request).Encodes :=
  encodes_of_valid rfl rfl rfl

/-- The result of a command on any book has a frame. -/
theorem exists_summarize_encodes (book : Book) (request : EngineRequest) :
    ∃ response, summarize request (book.apply (toJournalCommand request)).1 = some response ∧
      response.Encodes := by
  obtain ⟨response, message, hsummarize, hwire, hvalid, -⟩ := exists_reported book request
  exact ⟨response, hsummarize,
    encodes_of_valid hwire (congrArg Prod.snd (ids_of_summarize hsummarize)).symm hvalid⟩

/-- A connection after a frame was added to its output, for which there may be no room. -/
def Connection.queueFrame (c : Connection) (bytes : List UInt8) (maximumOutputBufferBytes : ℕ) :
    Connection :=
  match c.output.append bytes maximumOutputBufferBytes with
  | none => c.abandon
  | some output => { c with output := output }

/-- An open connection gives up on a response that has a frame only if there is no room for it. -/
theorem EngineResponse.Encodes.deliver_eq {response : EngineResponse} (h : response.Encodes)
    {c : Connection} (hopen : c.closing = false) (maximum : ℕ) :
    c.deliver response maximum = c.queueFrame (responseFrame response) maximum := by
  obtain ⟨envelope, henvelope, -, hbytes⟩ := h
  rw [Connection.deliver, if_neg (Bool.eq_false_iff.mp hopen), henvelope]
  dsimp only
  rw [Connection.queueResponse, hbytes]
  rfl

/-- An open connection whose output is empty takes a response that fits. -/
theorem Connection.deliver_eq {c : Connection} {response : EngineResponse} {maximum : ℕ}
    (hopen : c.closing = false) (hempty : c.output = .empty) (hencodes : response.Encodes)
    (hfits : (responseFrame response).length ≤ maximum) :
    c.deliver response maximum =
      { c with output := ⟨responseFrame response, 0, Nat.zero_le _⟩ } := by
  have happend : c.output.append (responseFrame response) maximum =
      some ⟨responseFrame response, 0, Nat.zero_le _⟩ := by
    rw [hempty, ConnectionOutputBuffer.append, if_neg]
    · rfl
    · rintro (h | h)
      · exact Nat.not_lt_zero _ h
      · exact absurd hfits (not_le.mpr h)
  rw [hencodes.deliver_eq hopen, queueFrame, happend]

end MatchingEngine
