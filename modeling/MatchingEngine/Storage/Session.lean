import MatchingEngine.Data.Run
import MatchingEngine.Storage.Writer

/-!
# Journal sessions

What a scan finds, and that a writer and a scan of its file always agree on the next sequence: from
the moment the writer is created or opened, through any appends, as long as it has not failed.

## Main definitions

* `JournalWriter.Append`: a call of `append_batch_and_sync` with what becomes of its system calls.
* `JournalWriter.append`: the call.

## Main results

* `JournalWriter.run_on`: a writer that has not failed is on a journal after any appends.
* `JournalReader.scan_decomposes`: scans of arbitrary bytes and of the file of a writer.
-/

namespace MatchingEngine

open Posix

namespace JournalWriter

/-- A call of `append_batch_and_sync`. -/
structure Append where
  batch : List JournalCommand
  throws : Bool
  outcomes : Outcomes

/-- The call on a writer and its file. -/
def append (s : JournalWriter × File) (a : Append) :
    Except JournalStorageError (List JournalSequence) × JournalWriter × File :=
  let r := s.1.appendBatchAndSync (onFile a.outcomes s.2) a.batch a.throws
  (r.1, r.2.1, r.2.2.file)

/-- Unless the writer has failed it is on a journal. -/
def Settled (s : JournalWriter × File) : Prop :=
  s.1.failed = false → ∃ commands, s.1.On s.2 commands

theorem append_settled (s : JournalWriter × File) (a : Append) (h : Settled s) :
    Settled (append s a).2 := by
  intro hfailed
  by_cases hs : s.1.failed = true
  · -- a writer that has failed stays failed
    rw [append, appendBatchAndSync, if_pos hs] at hfailed
    exact absurd (hs.symm.trans hfailed) (by decide)
  · obtain ⟨commands, hon⟩ := h (Bool.eq_false_of_not_eq_true hs)
    have happended := appendBatchAndSync_appended (d := onFile a.outcomes s.2) hon a.batch a.throws
    rw [append] at hfailed ⊢
    generalize s.1.appendBatchAndSync (onFile a.outcomes s.2) a.batch a.throws = r
      at happended hfailed ⊢
    obtain ⟨result, writer', d'⟩ := r
    dsimp only at happended hfailed ⊢
    generalize d'.file = f' at happended ⊢
    cases happended with
    | refused e => exact ⟨commands, hon⟩
    | interrupted e n => cases hfailed
    | done _ _ _ hon' => exact ⟨commands ++ a.batch, hon'⟩

/-- Through any appends, a writer that has not failed is on a journal. -/
theorem run_on {writer : JournalWriter} {f : File} (h : Opened writer f) (appends : List Append) :
    Settled (runAll append (writer, f) appends).2 :=
  runAll_invariant (fun s a => append_settled s a) (fun _ => h.on) appends

end JournalWriter

namespace JournalReader

variable {d : Disk} {commands : List JournalCommand} {tail : List UInt8}

theorem decomposes_iff : Decomposes d.file.bytes commands tail ↔
    Tail tail ∧ d.file.bytes = journal commands ++ tail := by
  refine ⟨fun h => ⟨h.1, h.eq_journal⟩, fun ⟨htail, h⟩ => ?_⟩
  rw [h]
  exact decomposes_journal htail (length_add_lt_of_journal h).le

theorem scan_of_decomposes (hd : d.Readable) (h : Decomposes d.file.bytes commands tail) :
    (scan d).1 = .ok (journalScan commands tail) :=
  scan_journal hd h.1 h.eq_journal

theorem decomposes_of_scan {result : JournalScan} (h : (scan d).1 = .ok result) :
    ∃ commands tail, Decomposes d.file.bytes commands tail := by
  obtain ⟨commands, tail, htail, hbytes, -⟩ := scan_sound h
  exact ⟨commands, tail, decomposes_iff.mpr ⟨htail, hbytes⟩⟩

theorem decomposes_unique {commands' : List JournalCommand} {tail' : List UInt8}
    (h : Decomposes d.file.bytes commands tail) (h' : Decomposes d.file.bytes commands' tail') :
    commands' = commands ∧ tail' = tail :=
  journal_append_tail_unique h'.eq_journal h.eq_journal h'.1 h.1

theorem nextSequence_of_decomposes (h : Decomposes d.file.bytes commands tail) :
    (UInt64.ofNat (commands.length + 1)).toNat = commands.length + 1 := by
  have hlt := length_add_lt_of_journal h.eq_journal
  rw [UInt64.toNat_ofNat', Nat.mod_eq_of_lt (by omega)]

/-- A scan finds the sequence that a writer on the journal has. -/
theorem scan_of_on {writer : JournalWriter} (hd : d.Readable) (h : writer.On d.file commands) :
    ∃ result, (scan d).1 = .ok result ∧ result.nextSequence = writer.nextSequence := by
  refine ⟨journalScan commands [], ?_, ?_⟩
  · exact scan_journal hd (Or.inl rfl) (h.bytes_eq.trans (List.append_nil _).symm)
  · rw [nextSequence_journalScan, h.nextSequence_eq]

/-- On any content that can be read, the scan succeeds exactly if the content is a journal with a
tail. There is one way to see it so, and the scan finds it. A writer that has not failed since it
was created or opened has the next sequence that a scan of its file finds. -/
theorem scan_decomposes :
    (∀ (f : File) (outcomes : Outcomes), (onFile outcomes f).Readable →
      ((∃ result, (scan (onFile outcomes f)).1 = .ok result) ↔
        ∃ commands tail, Decomposes f.bytes commands tail) ∧
      ∀ commands tail, Decomposes f.bytes commands tail →
        (∀ commands' tail', Decomposes f.bytes commands' tail' →
          commands' = commands ∧ tail' = tail) ∧
        tail.length < 49 ∧
        ∃ result next, (scan (onFile outcomes f)).1 = .ok result ∧
          result.records = records 1 commands ∧
          result.validSize = f.bytes.length - tail.length ∧
          result.hasTruncatedTail = decide (tail ≠ []) ∧
          result.nextSequence = some next ∧ next.value.toNat = commands.length + 1) ∧
    ∀ (writer : JournalWriter) (f : File) (appends : List JournalWriter.Append),
      JournalWriter.Opened writer f →
      (runAll JournalWriter.append (writer, f) appends).2.1.failed = false →
      ∀ outcomes : Outcomes,
        (onFile outcomes (runAll JournalWriter.append (writer, f) appends).2.2).Readable →
        ∃ result,
          (scan (onFile outcomes (runAll JournalWriter.append (writer, f) appends).2.2)).1 =
            .ok result ∧
          result.nextSequence =
            (runAll JournalWriter.append (writer, f) appends).2.1.nextSequence := by
  refine ⟨fun f outcomes hd => ⟨⟨?_, ?_⟩, ?_⟩, ?_⟩
  · rintro ⟨result, h⟩
    exact decomposes_of_scan h
  · rintro ⟨commands, tail, h⟩
    exact ⟨_, scan_of_decomposes hd h⟩
  · intro commands tail h
    have hbytes : f.bytes = journal commands ++ tail := h.eq_journal
    refine ⟨fun _ _ h' => decomposes_unique (d := onFile outcomes f) h h', h.1.length_lt,
      _, _, scan_of_decomposes hd h, records_journalScan .., ?_, rfl,
      nextSequence_journalScan .., nextSequence_of_decomposes (d := onFile outcomes f) h⟩
    rw [validSize_journalScan, hbytes, List.length_append, Nat.add_sub_cancel]
  · intro writer f appends hopened hfailed outcomes hd
    obtain ⟨commands, hon⟩ := JournalWriter.run_on hopened appends hfailed
    exact scan_of_on hd hon

end JournalReader

end MatchingEngine
