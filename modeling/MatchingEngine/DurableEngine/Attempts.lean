import MatchingEngine.DurableEngine.Lifetime

/-!
# Attempts to recover

A recovery can fail, or the machine can crash in the middle of it. The only thing that an attempt
changes is the tail of the journal, which it cuts off. So the records that are on stable storage
stay where they are, whatever becomes of the attempts, and a recovery that succeeds in the end finds
what the first one would have found.

## Main definitions

* `Trimmed`: what an attempt can do to a file.
* `Stored`: a file with the journal of some commands on stable storage, and a tail.
* `DurableEngine.Attempts`: the files that attempts and crashes can leave.

## Main results

* `recover_trimmed`: an attempt cuts the tail off, or changes nothing.
* `Stored.survives`, `Stored.trimmed`: crashes and attempts keep what is on stable storage.
* `DurableEngine.recover_attempts`.
-/

namespace MatchingEngine

open Posix

/-! ### Journals at the beginning of a file -/

theorem Tail.take {tail : List UInt8} (h : Tail tail) (n : ℕ) : Tail (tail.take n) := by
  rcases h with rfl | h
  · exact Or.inl List.take_nil
  · refine Or.inr ?_
    by_contra hne
    have happend := prefixDecoder_record.append_eq _ (tail.drop n) hne
    rw [List.take_append_drop, h] at happend
    exact hne happend.symm

/-- The commands at the beginning are those of the journal. -/
theorem prefix_of_frames_append {start : ℕ} {commands commands' : List JournalCommand}
    {rest tail : List UInt8} (hpos : 0 < start) (hlt : start + commands.length < 2 ^ 64)
    (hlt' : start + commands'.length < 2 ^ 64) (htail : Tail tail)
    (h : frames start commands ++ rest = frames start commands' ++ tail) :
    commands <+: commands' := by
  induction commands generalizing start commands' with
  | nil => exact List.nil_prefix
  | cons command commands ih =>
    rw [List.length_cons] at hlt
    cases commands' with
    | nil =>
      rw [show frames start [] = [] from rfl, List.nil_append] at h
      exact absurd (h ▸ htail) (not_tail_frames_cons hpos (by omega) _ _ _)
    | cons command' commands' =>
      rw [List.length_cons] at hlt'
      have hdecode := congrArg decodeRecordPrefix h
      rw [decodeRecordPrefix_frames_cons hpos (by omega),
        decodeRecordPrefix_frames_cons hpos (by omega)] at hdecode
      obtain rfl : command = command' := by
        injection hdecode with hdecode
        exact congrArg (fun d => d.record.command) hdecode
      rw [frames, frames, List.append_assoc, List.append_assoc] at h
      exact List.prefix_cons_inj command |>.mpr (ih (Nat.succ_pos start) (by omega) (by omega)
        (List.append_cancel_left h))

theorem length_lt_of_journal_prefix {f : File} {commands : List JournalCommand}
    (h : journal commands <+: f.bytes) : 1 + commands.length < 2 ^ 64 := by
  obtain ⟨rest, hrest⟩ := h
  exact length_add_lt_of_journal hrest.symm

/-- A journal at the beginning of a file is a part of the journal in it. -/
theorem prefix_of_prefix_journal {f : File} {commands commands' : List JournalCommand}
    {tail : List UInt8} (htail : Tail tail) (hbytes : f.bytes = journal commands' ++ tail)
    (h : journal commands <+: f.bytes) : commands <+: commands' := by
  have hlt := length_lt_of_journal_prefix h
  obtain ⟨rest, hrest⟩ := h
  rw [hbytes, journal, journal, List.append_assoc, List.append_assoc] at hrest
  exact prefix_of_frames_append Nat.one_pos hlt (length_add_lt_of_journal hbytes) htail
    (List.append_cancel_left hrest)

/-! ### What an attempt changes -/

/-- The tail of a journal has been cut off, or nothing has been changed. -/
inductive Trimmed (f : File) : File → Prop
  | kept : Trimmed f f
  | cut {f' : File} {commands : List JournalCommand} {tail : List UInt8} (htail : Tail tail)
      (hbytes : f.bytes = journal commands ++ tail) (hbytes' : f'.bytes = journal commands)
      (hsynced : min f.synced (journal commands).length ≤ f'.synced) : Trimmed f f'

section Trimmed

theorem truncateTail_trimmed {d : Disk} {commands : List JournalCommand} {tail : List UInt8}
    (htail : Tail tail) (hbytes : d.file.bytes = journal commands ++ tail) :
    Trimmed d.file (JournalWriter.truncateTail d (journalScan commands tail)).2.file := by
  have hcut : (d.file.truncate (journal commands).length).bytes = journal commands :=
    (congrArg (List.take _) hbytes).trans List.take_left
  rw [JournalWriter.truncateTail, validSize_journalScan]
  split
  · exact .kept
  split
  · exact .kept
  dsimp only
  cases failure d.truncates with
  | some e => exact .kept
  | none =>
    dsimp only [syncFile]
    cases failure d.syncs with
    | some e => exact .cut htail hbytes hcut le_rfl
    | none =>
      refine .cut htail hbytes hcut ?_
      dsimp only [File.sync]
      rw [hcut]
      exact Nat.min_le_right _ _

theorem repairTruncatedTailAndOpen_trimmed (d : Disk) :
    Trimmed d.file (JournalWriter.repairTruncatedTailAndOpen d).2.file := by
  have hlooked := JournalReader.scan_looked d
  have hsound := @JournalReader.scan_sound d
  rw [JournalWriter.repairTruncatedTailAndOpen_eq]
  generalize JournalReader.scan d = scanned at hlooked hsound ⊢
  obtain ⟨e | scan, d'⟩ := scanned
  · rw [← hlooked.file]
    exact .kept
  · obtain ⟨commands, tail, htail, hbytes, rfl⟩ := hsound rfl
    rw [← hlooked.file] at hbytes ⊢
    exact truncateTail_trimmed htail hbytes

theorem recoverRepaired_trimmed (d : Disk) :
    Trimmed d.file (DurableEngine.recoverRepaired d).2.file := by
  have htrimmed := repairTruncatedTailAndOpen_trimmed d
  rw [DurableEngine.recoverRepaired]
  generalize JournalWriter.repairTruncatedTailAndOpen d = repaired at htrimmed ⊢
  obtain ⟨e | writer, d'⟩ := repaired
  · exact htrimmed
  have hlooked := JournalReader.scan_looked d'
  dsimp only at htrimmed ⊢
  generalize JournalReader.scan d' = scanned at hlooked ⊢
  obtain ⟨e | scan, d''⟩ := scanned
  · exact hlooked.file ▸ htrimmed
  · dsimp only at hlooked ⊢
    split_ifs <;> exact hlooked.file ▸ htrimmed

theorem recoverIntact_file (d : Disk) (scan : JournalScan) :
    (DurableEngine.recoverIntact d scan).2.file = d.file := by
  have hlooked := JournalReader.scan_looked d
  rw [DurableEngine.recoverIntact, JournalWriter.openRecovered_eq]
  generalize JournalReader.scan d = scanned at hlooked ⊢
  obtain ⟨e | scan', d'⟩ := scanned
  · exact hlooked.file
  · dsimp only at hlooked ⊢
    split_ifs <;> exact hlooked.file

/-- Whatever the system does, recovery cuts the tail of a journal off, or changes nothing. -/
theorem recover_trimmed (d : Disk) : Trimmed d.file (DurableEngine.recover d).2.file := by
  have hlooked := JournalReader.scan_looked d
  rw [DurableEngine.recover]
  generalize JournalReader.scan d = scanned at hlooked ⊢
  obtain ⟨e | scan, d'⟩ := scanned
  · rw [← hlooked.file]
    exact .kept
  · dsimp only at hlooked ⊢
    rw [← hlooked.file]
    split_ifs
    · exact recoverRepaired_trimmed d'
    · rw [recoverIntact_file]
      exact .kept

end Trimmed

/-! ### What stays -/

/-- A file with the journal of some commands on stable storage, and a tail. -/
structure Stored (commands : List JournalCommand) (f : File) : Prop where
  exists_tail : ∃ tail, Tail tail ∧ f.bytes = journal commands ++ tail
  length_le : (journal commands).length ≤ f.synced

section Stored

variable {commands : List JournalCommand} {f f' : File}

theorem Stored.survives (h : Stored commands f) (hf : DurableEngine.Survives f f') :
    Stored commands f' := by
  obtain ⟨⟨tail, htail, hbytes⟩, hlength⟩ := h
  obtain ⟨hsynced, n, hn, htake⟩ := hf
  rw [hbytes, List.take_append, List.take_of_length_le (hlength.trans hn)] at htake
  refine ⟨⟨_, htail.take _, htake⟩, ?_⟩
  rw [hsynced, htake, List.length_append]
  exact Nat.le_add_right _ _

theorem Stored.trimmed (h : Stored commands f) (hf : Trimmed f f') : Stored commands f' := by
  obtain ⟨⟨tail, htail, hbytes⟩, hlength⟩ := h
  cases hf with
  | kept => exact ⟨⟨tail, htail, hbytes⟩, hlength⟩
  | cut htail' hbytes' hcut hsynced =>
    obtain ⟨rfl, -⟩ := journal_append_tail_unique hbytes hbytes' htail htail'
    exact ⟨⟨[], Or.inl rfl, hcut.trans (List.append_nil _).symm⟩,
      (Nat.le_min.mpr ⟨hlength, le_rfl⟩).trans hsynced⟩

/-- A recovery that succeeds finds the commands. -/
theorem Stored.recover_ok {d : Disk} {engine : DurableEngine} (h : Stored commands d.file)
    (hok : (DurableEngine.recover d).1 = .ok engine) :
    engine.Ready (DurableEngine.recover d).2.file commands := by
  obtain ⟨commands', hready⟩ := DurableEngine.recover_ready hok
  obtain ⟨⟨tail, htail, hbytes⟩, -⟩ := h.trimmed (recover_trimmed d)
  obtain ⟨rfl, -⟩ := journal_append_tail_unique hbytes
    (hready.on.bytes_eq.trans (List.append_nil _).symm) htail (Or.inl rfl)
  exact hready

end Stored

namespace DurableEngine

/-- What is left of a file after any number of attempts to recover, whatever became of them, and of
crashes during the attempts or between them. -/
inductive Attempts (f : File) : File → Prop
  | none : Attempts f f
  | attempt {f' : File} (h : Attempts f f') (outcomes : Outcomes) :
      Attempts f (recover (onFile outcomes f')).2.file
  | crash {f' f'' : File} (h : Attempts f f') (hf : Survives f' f'') : Attempts f f''

theorem Attempts.stored {commands : List JournalCommand} {f f' : File} (h : Attempts f f')
    (hstored : Stored commands f) : Stored commands f' := by
  induction h with
  | none => exact hstored
  | @attempt f' _ outcomes ih => exact ih.trimmed (recover_trimmed (onFile outcomes f'))
  | crash _ hf ih => exact ih.survives hf

/-- Recovery can be interrupted. The records of a journal are on stable storage, and there may be a
tail behind them. After any number of attempts to recover that have failed at any of their system
calls, or were cut off by a crash, a recovery that succeeds finds these records and nothing else,
and on a disk without failures it does succeed. -/
theorem recover_attempts (commands : List JournalCommand) (tail : List UInt8) (f f' : File)
    (htail : Tail tail) (hbytes : f.bytes = journal commands ++ tail)
    (hsynced : (journal commands).length ≤ f.synced) (hattempts : Attempts f f')
    (outcomes : Outcomes) :
    (∀ engine, (recover (onFile outcomes f')).1 = .ok engine → engine.state = .healthy ∧
        engine.orderBook = (Book.fresh.run commands).2 ∧
        engine.writer.nextSequence = some ⟨UInt64.ofNat (commands.length + 1)⟩ ∧
        (recover (onFile outcomes f')).2.file.bytes = journal commands) ∧
      ((onFile outcomes f').Repairable →
        ∃ engine, (recover (onFile outcomes f')).1 = .ok engine) := by
  have hstored := hattempts.stored ⟨⟨tail, htail, hbytes⟩, hsynced⟩
  constructor
  · intro engine hok
    have hready := Stored.recover_ok hstored hok
    exact ⟨hready.healthy, hready.orderBook_eq, hready.on.nextSequence_eq, hready.on.bytes_eq⟩
  · intro hd
    obtain ⟨⟨tail', htail', hbytes'⟩, -⟩ := hstored
    exact ⟨_, (recover_journal hd htail' hbytes').1⟩

/-- One record, and one byte behind it. The sync of the first attempt fails. -/
theorem recover_attempts_record :
    ∃ f f', f.bytes = journal [.submitLimitOrder ⟨⟨7⟩, .buy, ⟨10⟩, ⟨5⟩⟩] ++ [0] ∧ Attempts f f' ∧
      ∃ engine, (recover (onFile Outcomes.calm f')).1 = .ok engine ∧
        engine.orderBook = (Book.fresh.run [.submitLimitOrder ⟨⟨7⟩, .buy, ⟨10⟩, ⟨5⟩⟩]).2 ∧
        engine.writer.nextSequence = some ⟨2⟩ ∧
        (recover (onFile Outcomes.calm f')).2.file.bytes =
          journal [.submitLimitOrder ⟨⟨7⟩, .buy, ⟨10⟩, ⟨5⟩⟩] := by
  let commands : List JournalCommand := [.submitLimitOrder ⟨⟨7⟩, .buy, ⟨10⟩, ⟨5⟩⟩]
  let f : File := ⟨journal commands ++ [0], (journal commands).length, by decide, by decide⟩
  have hattempts : Attempts f
      (recover (onFile { Outcomes.calm with syncs := [some eio] } f)).2.file := .attempt .none _
  obtain ⟨hrecovered, hsucceeds⟩ :=
    recover_attempts commands [0] f _ (Or.inr rfl) rfl le_rfl hattempts Outcomes.calm
  obtain ⟨engine, hok⟩ := hsucceeds (repairable_calm _)
  obtain ⟨-, hbook, hnext, hbytes⟩ := hrecovered engine hok
  exact ⟨f, _, rfl, hattempts, engine, hok, hbook, hnext, hbytes⟩

end DurableEngine

end MatchingEngine
