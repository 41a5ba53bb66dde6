import MatchingEngine.Storage.Writer

/-!
# Appends without a failure

An append whose writes are at most cut short or interrupted, whose sync succeeds, and for which
there is room in the file. It writes the frames of the batch and takes as many sequences as the
batch has commands, up to the last one that there is.

## Main definitions

* `Disk.Appendable`: no write and no sync will fail.
* `JournalWriter.available`: how many sequences a writer has left.
* `JournalWriter.nextAfter`: the next sequence when some have been used.

## Main results

* `JournalWriter.appendBatchAndSync_eq`: what such an append does.
-/

namespace MatchingEngine

open Posix

/-- The file can be written and synced. -/
structure Disk.Appendable (d : Disk) : Prop where
  writes : Steady d.writes
  syncs : NoFailure d.syncs

theorem appendable_calm (f : File) : (onFile Outcomes.calm f).Appendable :=
  ⟨steady_nil, noFailure_nil⟩

theorem writeAll_of_steady {outcomes : List WriteOutcome} (h : Steady outcomes) {f : File}
    {data : List UInt8} (hroom : data.length ≤ f.room) :
    ∃ outcomes', Steady outcomes' ∧
      writeAll outcomes f data = (none, outcomes', f.append data) := by
  induction outcomes generalizing f data with
  | nil => exact ⟨[], h, if_pos hroom⟩
  | cons outcome outcomes ih =>
    obtain ⟨houtcome, hrest⟩ := List.forall_mem_cons.mp h
    by_cases hdata : data = []
    · refine ⟨outcome :: outcomes, h, ?_⟩
      rw [writeAll, if_pos hdata, hdata]
      exact congrArg _ (congrArg _ (File.ext_bytes (by simp [File.append]) rfl))
    have hpos := List.length_pos_of_ne_nil hdata
    rw [writeAll, if_neg hdata]
    rcases houtcome with ⟨n, rfl⟩ | rfl
    · -- at least one byte is written, and the others are left for the next call
      obtain ⟨count, hcount⟩ : ∃ count, min (n + 1) (min data.length f.room) = count + 1 :=
        Nat.exists_eq_succ_of_ne_zero (by omega)
      have hfits : (data.take (count + 1) ++ data.drop (count + 1)).length ≤ f.room := by
        rwa [List.take_append_drop]
      have hroom' : (data.drop (count + 1)).length ≤ (f.append (data.take (count + 1))).room := by
        rw [List.length_append] at hfits
        rw [File.room_append (by omega)]
        omega
      obtain ⟨outcomes', hsteady, hwrite⟩ := ih hrest hroom'
      refine ⟨outcomes', hsteady, ?_⟩
      rw [write, if_neg (by omega), hcount]
      rw [File.append_append hfits, List.take_append_drop] at hwrite
      exact hwrite
    · rw [write]
      exact ih hrest hroom

namespace JournalWriter

theorem writeFrames_of_appendable {d : Disk} (h : d.Appendable) {fs : List (List UInt8)}
    (hroom : fs.flatten.length ≤ d.file.room) :
    ∃ d', d'.Appendable ∧ d'.file = d.file.append fs.flatten ∧ writeFrames d fs = (none, d') := by
  induction fs generalizing d with
  | nil => exact ⟨d, h, File.ext_bytes (by simp [File.append]) rfl, rfl⟩
  | cons frame fs ih =>
    rw [List.flatten_cons] at hroom
    have hlength : (frame ++ fs.flatten).length = frame.length + fs.flatten.length :=
      List.length_append
    have hfirst : frame.length ≤ d.file.room := by omega
    obtain ⟨writes', hsteady, hwrite⟩ := writeAll_of_steady h.writes hfirst
    have hbytes : writeBytes d frame =
        (none, { d with writes := writes', file := d.file.append frame }) := by
      rw [writeBytes, hwrite]
    obtain ⟨d', happendable, hfile, hframes⟩ := ih
      (d := { d with writes := writes', file := d.file.append frame }) ⟨hsteady, h.syncs⟩ (by
        rw [File.room_append hfirst]
        omega)
    refine ⟨d', happendable, ?_, ?_⟩
    · rw [hfile, File.append_append hroom, List.flatten_cons]
    · rw [writeFrames, hbytes]
      exact hframes

/-- The sequences that are left, as `append_batch_and_sync` computes them. -/
def available (writer : JournalWriter) : ℕ :=
  match writer.nextSequence with
  | none => 0
  | some first => (0xFFFFFFFFFFFFFFFF - first.value + 1 : UInt64).toNat

/-- The next sequence when those below a number have been used. -/
def nextAfter (n : ℕ) : Option JournalSequence :=
  if n = 2 ^ 64 then none else some ⟨UInt64.ofNat n⟩

theorem exists_nextAfter {writer : JournalWriter} (h : 0 < writer.available) :
    ∃ start, 0 < start ∧ writer.available = 2 ^ 64 - start ∧ start < 2 ^ 64 ∧
      writer.nextSequence = nextAfter start := by
  rw [available] at h ⊢
  cases hnext : writer.nextSequence with
  | none =>
    rw [hnext] at h
    cases h
  | some first =>
    rw [hnext] at h
    dsimp only at h ⊢
    have hlt := first.value.toNat_lt
    have hofNat : UInt64.ofNat first.value.toNat = first.value := UInt64.ofNat_toNat
    have hpos : 0 < first.value.toNat := by
      refine Nat.pos_of_ne_zero fun hzero => ?_
      rw [← hofNat, hzero] at h
      exact absurd h (by decide)
    refine ⟨first.value.toNat, hpos, ?_, hlt, ?_⟩
    · conv_lhs => rw [← hofNat]
      exact toNat_available hlt hpos
    · rw [nextAfter, if_neg hlt.ne, hofNat]

/-- What an append does if it does not fail. -/
theorem appendBatchAndSync_eq {start : ℕ} {d : Disk} {batch : List JournalCommand}
    (hpos : 0 < start) (hne : batch ≠ []) (hle : start + batch.length ≤ 2 ^ 64)
    (hd : d.Appendable) (hroom : (frames start batch).length ≤ d.file.room) :
    ∃ d', d'.file = (d.file.append (frames start batch)).sync ∧
      appendBatchAndSync ⟨nextAfter start, false⟩ d batch false =
        (.ok (sequences start batch), ⟨nextAfter (start + batch.length), false⟩, d') := by
  have hlength := List.length_pos_of_ne_nil hne
  have hfits : 0 + (frames start batch).length ≤ 2 ^ 64 - 1 := by
    have hlimit : d.file.room ≤ sizeLimit - 1 := Nat.sub_le _ _
    rw [sizeLimit] at hlimit
    omega
  have hroom' : (frameList start batch).flatten.length ≤ d.file.room := by
    rwa [flatten_frameList]
  obtain ⟨d₁, hd₁, hfile, hframes⟩ := writeFrames_of_appendable hd hroom'
  rw [flatten_frameList] at hfile
  have hsync : syncFile .syncFailed d₁ =
      (none, { d₁ with syncs := d₁.syncs.tail, file := d₁.file.sync }) := by
    rw [syncFile, hd₁.syncs.failure_eq]
  refine ⟨{ d₁ with syncs := d₁.syncs.tail, file := d₁.file.sync }, by rw [hfile], ?_⟩
  rw [appendBatchAndSync, if_neg Bool.false_ne_true, if_neg hne, nextAfter, if_neg (by omega)]
  dsimp only
  rw [toNat_available (by omega) hpos, if_neg (by omega), if_neg Bool.false_ne_true,
    prepare_eq hpos hle (Nat.zero_le _), if_pos hfits]
  dsimp only
  rw [hframes]
  dsimp only
  rw [hsync, nextAfter, UInt64.ofNat_add]
  dsimp only
  have hlast : (batch.length = 2 ^ 64 - start) = (start + batch.length = 2 ^ 64) :=
    propext ⟨fun h => by omega, fun h => by omega⟩
  simp only [hlast]

end JournalWriter

end MatchingEngine
