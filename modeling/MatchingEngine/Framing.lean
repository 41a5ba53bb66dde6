import MatchingEngine.Storage.Scan
import MatchingEngine.WireProtocol.Parser

/-!
# Cutting bytes into frames

Three decoders look at the beginning of some bytes: two for the frames of the wire protocol and one
for the records of the journal. What they say does not depend on how much of the bytes they are
shown, once it is enough. The parser of a connection and the scan of a journal are loops around
them, which come to an end since every frame takes some bytes.

## Main results

* `ClientStreamParser.processLoop_fuel`, `ClientStreamParser.feedLoop_fuel`, `scanLoop_fuel`: the
  loops end.
* `decodePrefix_stable`: what the decoders say, and that the loops around them end.
-/

namespace MatchingEngine

open Posix

namespace ClientStreamParser

variable {p : ClientStreamParser}

/-- The loop of `process_available` ends: with more iterations it does the same. -/
theorem processLoop_fuel {fuel fuel' : ℕ} {result : ClientParseFeedResult}
    (h : p.bufferedSize ≤ fuel) (h' : p.bufferedSize ≤ fuel') :
    processLoop fuel p result = processLoop fuel' p result := by
  induction fuel generalizing fuel' p result with
  | zero =>
    have hnil : p.unread = [] :=
      List.eq_nil_of_length_eq_zero (p.length_unread.trans (Nat.le_zero.mp h))
    rw [processLoop_nil _ _ hnil, processLoop_nil _ _ hnil]
  | succ fuel ih =>
    by_cases hnil : p.unread = []
    · rw [processLoop_nil _ _ hnil, processLoop_nil _ _ hnil]
    have hpos := List.length_pos_of_ne_nil hnil
    rw [length_unread] at hpos
    obtain ⟨fuel', rfl⟩ := Nat.exists_eq_succ_of_ne_zero (Nat.ne_of_gt (hpos.trans_le h'))
    cases hfailure : p.failure with
    | some e =>
      rw [processLoop, if_neg (by simp [hfailure]), processLoop, if_neg (by simp [hfailure])]
    | none =>
      cases hdecode : decodeClientFramePrefix p.unread with
      | error e => rw [processLoop_error h hfailure hdecode, processLoop_error h' hfailure hdecode]
      | ok d =>
        have hsize := length_unread_advance hdecode
        simp only [length_unread] at hsize
        rw [processLoop_ok hfailure hdecode, processLoop_ok hfailure hdecode]
        exact ih (by omega) (by omega)

/-- The loop of `feed` ends. -/
theorem feedLoop_fuel {fuel fuel' : ℕ} {result : ClientParseFeedResult} {bytes : List UInt8}
    (h : bytes.length ≤ fuel) (h' : bytes.length ≤ fuel') :
    feedLoop fuel p result bytes = feedLoop fuel' p result bytes := by
  induction fuel generalizing fuel' p result bytes with
  | zero =>
    obtain rfl := List.eq_nil_of_length_eq_zero (Nat.le_zero.mp h)
    rw [feedLoop_nil, feedLoop_nil]
  | succ fuel ih =>
    obtain rfl | hne := eq_or_ne bytes []
    · rw [feedLoop_nil, feedLoop_nil]
    have hpos := List.length_pos_of_ne_nil hne
    obtain ⟨fuel', rfl⟩ := Nat.exists_eq_succ_of_ne_zero (Nat.ne_of_gt (hpos.trans_le h'))
    rw [feedLoop, if_pos hpos, feedLoop, if_pos hpos]
    generalize p.compactIfNeeded = p
    dsimp only
    refine ite_congr rfl (fun _ => rfl) fun hfull => ite_congr rfl (fun _ => rfl) fun _ => ?_
    have hcount : 0 < p.appendCount bytes := by
      have := p.bufferedSize_le
      rw [appendCount]
      omega
    exact ih (by rw [List.length_drop]; omega) (by rw [List.length_drop]; omega)

end ClientStreamParser

/-- An iteration of the scan that goes on has read a record behind those that were there. -/
theorem validSize_lt_of_scanStep {size : ℕ} {expected expected' : UInt64} {scan scan' : JournalScan}
    {bytes : List UInt8} (h : scanStep size expected scan (decodeRecordPrefix bytes) =
      .next expected' scan') : scan.validSize < scan'.validSize := by
  cases hdecode : decodeRecordPrefix bytes with
  | error e =>
    rw [hdecode, scanStep] at h
    split_ifs at h
  | ok d =>
    have hpos := prefixDecoder_record.consumed_pos _ _ hdecode
    rw [hdecode, scanStep] at h
    dsimp only at h
    split_ifs at h
    cases h
    exact Nat.lt_add_of_pos_right hpos

theorem scanLoop_of_le {f : File} {size : ℕ} {outcomes : List ReadOutcome} {expected : UInt64}
    {scan : JournalScan} (h : size ≤ scan.validSize) (fuel : ℕ) :
    scanLoop f size fuel outcomes expected scan = (.ok scan, outcomes) := by
  cases fuel with
  | zero => rfl
  | succ fuel => rw [scanLoop, if_neg (Nat.not_lt.mpr h)]

/-- The loop of the scan ends. -/
theorem scanLoop_fuel {f : File} {size fuel fuel' : ℕ} {outcomes : List ReadOutcome}
    {expected : UInt64} {scan : JournalScan} (h : size - scan.validSize ≤ fuel)
    (h' : size - scan.validSize ≤ fuel') :
    scanLoop f size fuel outcomes expected scan = scanLoop f size fuel' outcomes expected scan := by
  induction fuel generalizing fuel' outcomes expected scan with
  | zero => rw [scanLoop_of_le (by omega), scanLoop_of_le (by omega)]
  | succ fuel ih =>
    by_cases hsize : scan.validSize < size
    · obtain ⟨fuel', rfl⟩ : ∃ n, fuel' = n + 1 := Nat.exists_eq_succ_of_ne_zero (by omega)
      rw [scanLoop, if_pos hsize, scanLoop, if_pos hsize]
      dsimp only
      generalize preadAtMost f scan.validSize _ outcomes = result
      obtain ⟨_ | bytes, outcomes'⟩ := result
      · rfl
      · dsimp only
        refine ite_congr rfl (fun _ => rfl) fun _ => ?_
        cases hstep : scanStep size expected scan (decodeRecordPrefix bytes) with
        | done => rfl
        | next expected' scan' =>
          have hlt := validSize_lt_of_scanStep hstep
          exact ih (by omega) (by omega)
    · rw [scanLoop_of_le (not_lt.mp hsize), scanLoop_of_le (not_lt.mp hsize)]

/-- What a decoder of frames says about some bytes is what it says about the bytes and any others
behind them, unless they are truncated; what it decodes takes some of the bytes, and a part of what
an encoder writes is truncated. So the window of a scan shows the decoder as much as the rest of the
file would, an iteration of the parser or of the scan that goes on leaves fewer bytes, and the loops
end within the iterations that they have in the model. -/
theorem decodePrefix_stable :
    (PrefixDecoder decodeClientFramePrefix .truncatedInput DecodedFrame.bytesConsumed ∧
      ∀ envelope bytes, encodeClientFrame envelope = .ok bytes → ∀ n < bytes.length,
        decodeClientFramePrefix (bytes.take n) = .error .truncatedInput) ∧
    (PrefixDecoder decodeServerFramePrefix .truncatedInput DecodedFrame.bytesConsumed ∧
      ∀ envelope bytes, encodeServerFrame envelope = .ok bytes → ∀ n < bytes.length,
        decodeServerFramePrefix (bytes.take n) = .error .truncatedInput) ∧
    (PrefixDecoder decodeRecordPrefix .truncatedInput DecodedJournalRecord.bytesConsumed ∧
      ∀ sequence command bytes, encodeRecord sequence command = .ok bytes → ∀ n < bytes.length,
        decodeRecordPrefix (bytes.take n) = .error .truncatedInput) ∧
    (∀ (bytes : List UInt8) (offset : ℕ),
      decodeRecordPrefix ((bytes.drop offset).take (min (bytes.length - offset) 88)) =
        decodeRecordPrefix (bytes.drop offset)) ∧
    (∀ (p : ClientStreamParser) (d : DecodedFrame ClientMessage)
      (h : decodeClientFramePrefix p.unread = .ok d),
      (p.advance d.bytesConsumed (WireProtocol.bytesConsumed_bounds h).2).unread.length <
        p.unread.length) ∧
    (∀ (p : ClientStreamParser) (result : ClientParseFeedResult) (bytes : List UInt8) (fuel : ℕ),
      (p.bufferedSize ≤ fuel → ClientStreamParser.processLoop fuel p result =
        p.processAvailable result) ∧
      (bytes.length ≤ fuel → ClientStreamParser.feedLoop fuel p result bytes =
        ClientStreamParser.feedLoop bytes.length p result bytes)) ∧
    (∀ size expected expected' scan scan' bytes,
      scanStep size expected scan (decodeRecordPrefix bytes) = .next expected' scan' →
        scan.validSize < scan'.validSize) ∧
    ∀ f size fuel outcomes expected scan, size ≤ fuel →
      scanLoop f size fuel outcomes expected scan =
        scanLoop f size size outcomes expected scan := by
  refine ⟨⟨WireProtocol.clientCodec.prefixDecoder, fun envelope bytes hencode n hn => ?_⟩,
    ⟨WireProtocol.serverCodec.prefixDecoder, fun envelope bytes hencode n hn => ?_⟩,
    ⟨prefixDecoder_record, fun sequence command bytes hencode n hn => ?_⟩,
    fun bytes offset => decodeRecordPrefix_window bytes offset, fun p d h => ?_,
    fun p result bytes fuel => ⟨fun hfuel => ?_, fun hfuel => ?_⟩, fun _ _ _ _ _ _ h => ?_,
    fun f size fuel outcomes expected scan hfuel => ?_⟩
  · exact WireProtocol.decodeClientFramePrefix_take hencode hn
  · by_cases hvalid : WireProtocol.serverValid envelope.message = true
    · rw [WireProtocol.encodeServerFrame_of_valid hvalid] at hencode
      obtain rfl := Except.ok.inj hencode
      exact WireProtocol.serverCodec.decodeFramePrefix_take _ hvalid hn
    · cases (WireProtocol.encodeServerFrame_of_not_valid hvalid).symm.trans hencode
  · by_cases hzero : sequence.value = 0
    · rw [encodeRecord, if_pos hzero] at hencode
      cases hencode
    · rw [encodeRecord_eq hzero] at hencode
      obtain rfl := Except.ok.inj hencode
      exact decodeRecordPrefix_take_frame _ _ hn
  · exact ClientStreamParser.length_unread_advance h
  · exact ClientStreamParser.processLoop_fuel hfuel le_rfl
  · exact ClientStreamParser.feedLoop_fuel hfuel le_rfl
  · exact validSize_lt_of_scanStep h
  · exact scanLoop_fuel ((Nat.sub_le _ _).trans hfuel) (Nat.sub_le _ _)

end MatchingEngine
