import MatchingEngine.Journal.Torn
import MatchingEngine.Storage.Writer

/-!
# The tail that a repair cuts off

A scan reports a truncated tail where the decoder runs out of bytes. The decoder looks at the length
first, and at the checksum only of a whole frame. So the tail need not be the beginning of the frame
that was to be appended, and a repair cuts it off anyway.

## Main results

* `JournalReader.tail_iff_torn`: when the tail is the beginning of the next frame.
-/

namespace MatchingEngine

open Posix

namespace JournalReader

variable {d : Disk} {result : JournalScan}

/-- A repair keeps the bytes that the scan found valid and nothing else. -/
theorem repair_bytes_eq (writer : JournalWriter) (hscan : (scan d).1 = .ok result)
    (h : (JournalWriter.repairTruncatedTailAndOpen d).1 = .ok writer) :
    (JournalWriter.repairTruncatedTailAndOpen d).2.file.bytes =
      d.file.bytes.take result.validSize := by
  obtain ⟨commands, tail, -, hbytes, rfl⟩ := scan_sound hscan
  have hlooked := scan_looked d
  rw [JournalWriter.repairTruncatedTailAndOpen_eq] at h ⊢
  generalize scan d = scanned at hlooked hscan h ⊢
  obtain ⟨_ | result, d'⟩ := scanned
  · cases hscan
  obtain rfl := Except.ok.inj hscan
  dsimp only at hlooked h ⊢
  by_cases htail : tail = []
  · subst htail
    cases h
  · rcases JournalWriter.truncateTail_spec htail (hlooked.file ▸ hbytes)
      with ⟨-, hrepaired⟩ | ⟨-, e, he⟩
    · rw [hrepaired.bytes_eq, validSize_journalScan, hbytes, List.take_left]
    · cases he.symm.trans h

/-- The truncated tail that a scan reports is what a repair cuts off. It is not empty, and it is a
proper beginning of an encoded record with the next sequence exactly if what is there of a header is
that of such a record, and if the checksum fits where it is tied to the bytes that are there. -/
theorem tail_iff_torn (hscan : (scan d).1 = .ok result)
    (htruncated : result.hasTruncatedTail = true) :
    ∃ next, result.nextSequence = some next ∧ d.file.bytes.drop result.validSize ≠ [] ∧
      (∀ writer, (JournalWriter.repairTruncatedTailAndOpen d).1 = .ok writer →
        (JournalWriter.repairTruncatedTailAndOpen d).2.file.bytes =
          d.file.bytes.take result.validSize) ∧
      ((∃ command bytes, encodeRecord next command = .ok bytes ∧
          d.file.bytes.drop result.validSize <+: bytes ∧
          d.file.bytes.drop result.validSize ≠ bytes) ↔
        ∃ type, Torn next.value type (d.file.bytes.drop result.validSize)) := by
  have hrepair := fun writer => repair_bytes_eq writer hscan
  obtain ⟨commands, tail, -, hbytes, rfl⟩ := scan_sound hscan
  have hne : d.file.bytes.drop (journalScan commands tail).validSize ≠ [] := by
    rw [validSize_journalScan, hbytes, List.drop_left]
    exact of_decide_eq_true htruncated
  refine ⟨_, nextSequence_journalScan .., hne, hrepair, ?_⟩
  have hlt := length_add_lt_of_journal hbytes
  have hnext : (⟨UInt64.ofNat (commands.length + 1)⟩ : JournalSequence).value ≠ 0 :=
    ofNat_ne_zero (Nat.succ_pos _) (by omega)
  rw [← exists_frame_iff_torn]
  refine exists_congr fun command => ?_
  rw [encodeRecord_eq hnext]
  constructor
  · rintro ⟨bytes, hencode, h⟩
    obtain rfl := Except.ok.inj hencode
    exact ⟨hne, h⟩
  · exact fun h => ⟨_, rfl, h.2⟩

theorem length_header_append_lt {tail : List UInt8} (h : tail.length < 100) :
    (encodeFileHeader ++ tail).length < sizeLimit := by
  rw [List.length_append, length_encodeFileHeader, sizeLimit]
  omega

/-- A journal without records and a few bytes behind its header. -/
def tornFile (tail : List UInt8) (h : tail.length < 100) : File where
  bytes := encodeFileHeader ++ tail
  synced := 0
  length_lt := length_header_append_lt h
  synced_le := Nat.zero_le _

theorem scan_tornFile (tail : List UInt8) (h : tail.length < 100) (htail : Tail tail) :
    (scan (onFile Outcomes.calm (tornFile tail h))).1 = .ok (journalScan [] tail) := by
  refine scan_journal (repairable_calm _).toReadable htail ?_
  rw [journal, frames, List.append_nil]
  rfl

/-- The header of the journal and ten bytes of its first record. -/
theorem tail_iff_torn_cancel :
    (scan (onFile Outcomes.calm (tornFile ((frame 1 (.cancelOrder ⟨7⟩)).take 10) (by decide)))).1 =
        .ok (journalScan [] ((frame 1 (.cancelOrder ⟨7⟩)).take 10)) ∧
      ∃ command bytes, encodeRecord ⟨1⟩ command = .ok bytes ∧
        (frame 1 (.cancelOrder ⟨7⟩)).take 10 <+: bytes ∧
        (frame 1 (.cancelOrder ⟨7⟩)).take 10 ≠ bytes := by
  have hscan := scan_tornFile ((frame 1 (.cancelOrder ⟨7⟩)).take 10) (by decide)
    (Or.inr (by rfl))
  obtain ⟨next, hnext, hne, -, hiff⟩ := tail_iff_torn hscan rfl
  obtain rfl := Option.some.inj ((nextSequence_journalScan ..).symm.trans hnext)
  refine ⟨hscan, hiff.mpr ⟨.cancelOrder, ?_⟩⟩
  exact torn_of_prefix_frame (.cancelOrder ⟨7⟩) hne (List.take_prefix _ _)
    fun heq => absurd (congrArg List.length heq) (by decide)

/-- A byte that no record begins with is a truncated tail. -/
theorem tail_not_torn :
    (scan (onFile Outcomes.calm (tornFile [0] (by decide)))).1 = .ok (journalScan [] [0]) ∧
      (journalScan [] [0]).hasTruncatedTail = true ∧
      (journalScan [] [0]).nextSequence = some ⟨1⟩ ∧
      (tornFile [0] (by decide)).bytes.drop (journalScan [] [0]).validSize = [0] ∧
      ¬ ∃ command bytes, encodeRecord ⟨1⟩ command = .ok bytes ∧ [0] <+: bytes := by
  refine ⟨scan_tornFile [0] (by decide) (Or.inr rfl), rfl, rfl, rfl, ?_⟩
  rintro ⟨command, bytes, hencode, hbegin⟩
  rw [encodeRecord_eq (by decide)] at hencode
  obtain rfl := Except.ok.inj hencode
  obtain ⟨rest, hrest⟩ := hbegin
  have hhead := congrArg List.head? hrest
  rw [frame_eq_frameHeader] at hhead
  cases hhead

end JournalReader

end MatchingEngine
