import MatchingEngine.DurableEngine.Basic
import MatchingEngine.Journal.Corruption
import MatchingEngine.Storage.Writer

/-!
# Recovery

What `recover` makes of a file. A journal with a tail is recovered: the tail is cut off, and the
book is the result of the commands of the journal on a fresh book. Everything else is reported, and
the file stays as it is.

## Main definitions

* `DurableEngine.Ready`: an engine whose book and writer are those of the journal in its file.

## Main results

* `DurableEngine.recover_ready`: whatever the system does, a recovered engine is ready.
* `DurableEngine.recover_journal`: a journal with a tail is recovered.
* `DurableEngine.recover_invalid`: an invalid journal is reported and left alone.
* `DurableEngine.recover_damaged`: a damaged journal is reported and left alone.
-/

namespace MatchingEngine

open Posix

theorem replay_records (orderBook : Book) (start : ℕ) (commands : List JournalCommand) :
    DurableEngine.replay orderBook (records start commands) = (orderBook.run commands).2 := by
  induction commands generalizing orderBook start with
  | nil => rfl
  | cons command commands ih => exact ih _ _

namespace DurableEngine

/-- The engine is healthy, its writer is on the journal of some commands, and its book is what they
make of a fresh one. -/
structure Ready (engine : DurableEngine) (f : File) (commands : List JournalCommand) : Prop where
  healthy : engine.state = .healthy
  on : engine.writer.On f commands
  orderBook_eq : engine.orderBook = (Book.fresh.run commands).2

theorem create_ready {path f : Option File} {outcomes outcomes' : Outcomes}
    {engine : DurableEngine} (h : create path outcomes = (.ok engine, f, outcomes')) :
    ∃ f', f = some f' ∧ engine.Ready f' [] ∧ f'.synced = f'.bytes.length := by
  rw [create] at h
  cases hcreate : JournalWriter.create path outcomes with
  | mk result rest =>
    obtain ⟨f₁, outcomes₁⟩ := rest
    rw [hcreate] at h
    obtain _ | writer := result
    · cases h
    cases h
    obtain ⟨-, f', rfl, hon, hsynced⟩ := JournalWriter.create_spec hcreate
    exact ⟨f', rfl, ⟨rfl, hon, rfl⟩, hsynced⟩

variable {d : Disk} {engine : DurableEngine} {commands : List JournalCommand}

theorem recoverIntact_ready {tail : List UInt8} (hbytes : d.file.bytes = journal commands ++ tail)
    (htail : Tail tail) (h : (recoverIntact d (journalScan commands tail)).1 = .ok engine) :
    engine.Ready (recoverIntact d (journalScan commands tail)).2.file commands := by
  have hsound := @JournalWriter.openRecovered_sound d
  rw [recoverIntact, records_journalScan, replay_records] at h ⊢
  generalize JournalWriter.openRecovered d = opened at hsound h ⊢
  obtain ⟨_ | writer, d'⟩ := opened
  · cases h
  obtain ⟨hfile, commands', hon⟩ := hsound rfl
  obtain ⟨rfl, -⟩ := journal_append_tail_unique hbytes
    (hon.bytes_eq.trans (List.append_nil _).symm) htail (Or.inl rfl)
  obtain rfl := Except.ok.inj h
  exact ⟨rfl, hfile ▸ hon, rfl⟩

theorem recoverRepaired_ready (h : (recoverRepaired d).1 = .ok engine) :
    ∃ commands, engine.Ready (recoverRepaired d).2.file commands := by
  have hrepair := @JournalWriter.repairTruncatedTailAndOpen_sound d
  rw [recoverRepaired] at h ⊢
  generalize JournalWriter.repairTruncatedTailAndOpen d = repaired at hrepair h ⊢
  obtain ⟨_ | writer, d'⟩ := repaired
  · cases h
  obtain ⟨commands, hon⟩ := hrepair rfl
  have hlooked := JournalReader.scan_looked d'
  have hsound := @JournalReader.scan_sound d'
  dsimp only at h hon ⊢
  generalize JournalReader.scan d' = scanned at hlooked hsound h ⊢
  obtain ⟨_ | scan, d''⟩ := scanned
  · cases h
  obtain ⟨commands', tail, htail, hbytes, rfl⟩ := hsound rfl
  obtain ⟨rfl, rfl⟩ := journal_append_tail_unique (hon.bytes_eq.trans (List.append_nil _).symm)
    hbytes (Or.inl rfl) htail
  obtain rfl := Except.ok.inj h
  refine ⟨commands, rfl, ?_, ?_⟩
  · exact hlooked.file ▸ hon
  · exact (congrArg _ (records_journalScan ..)).trans (replay_records ..)

/-- Whatever the system does, a recovered engine is ready. -/
theorem recover_ready (h : (recover d).1 = .ok engine) :
    ∃ commands, engine.Ready (recover d).2.file commands := by
  have hlooked := JournalReader.scan_looked d
  have hsound := @JournalReader.scan_sound d
  rw [recover] at h ⊢
  generalize JournalReader.scan d = scanned at hlooked hsound h ⊢
  obtain ⟨_ | scan, d'⟩ := scanned
  · cases h
  obtain ⟨commands, tail, htail, hbytes, rfl⟩ := hsound rfl
  dsimp only at h hlooked ⊢
  split at h
  case isTrue htruncated => rw [if_pos htruncated]; exact recoverRepaired_ready h
  case isFalse htruncated =>
    rw [if_neg htruncated]
    exact ⟨commands, recoverIntact_ready ((congrArg File.bytes hlooked.file).trans hbytes) htail h⟩

/-- An engine on the journal of some commands. -/
def behind (commands : List JournalCommand) : DurableEngine :=
  { orderBook := (Book.fresh.run commands).2, writer := JournalWriter.behind commands }

theorem recoverRepaired_journal {tail : List UInt8} (hd : d.Repairable) (htail : Tail tail)
    (hne : tail ≠ []) (h : d.file.bytes = journal commands ++ tail) :
    (recoverRepaired d).1 = .ok (behind commands) ∧
      (recoverRepaired d).2.file.bytes = journal commands ∧
      (recoverRepaired d).2.file.synced = (recoverRepaired d).2.file.bytes.length := by
  obtain ⟨hok, hrepaired⟩ :=
    JournalWriter.repairTruncatedTailAndOpen_journal hd htail hne h
  rw [recoverRepaired]
  generalize JournalWriter.repairTruncatedTailAndOpen d = repaired at hok hrepaired ⊢
  obtain ⟨_ | writer, d'⟩ := repaired
  · cases hok
  obtain rfl := Except.ok.inj hok
  have hreadable : d'.Readable := ⟨hd.opens.of_suffix hrepaired.opens,
    hd.stats.of_suffix hrepaired.stats, hd.reads.of_suffix hrepaired.reads⟩
  have hlooked := JournalReader.scan_looked d'
  have hscan := JournalReader.scan_journal hreadable (Or.inl rfl)
    (hrepaired.bytes_eq.trans (List.append_nil _).symm)
  dsimp only at hlooked ⊢
  generalize JournalReader.scan d' = scanned at hlooked hscan ⊢
  obtain ⟨_ | scan, d''⟩ := scanned
  · cases hscan
  obtain rfl := Except.ok.inj hscan
  dsimp only at hlooked ⊢
  rw [hasTruncatedTail_journalScan, if_neg (by decide), records_journalScan, replay_records,
    hlooked.file]
  exact ⟨rfl, hrepaired.bytes_eq, hrepaired.synced_eq⟩

/-- A journal with a tail is recovered. -/
theorem recover_journal {tail : List UInt8} (hd : d.Repairable) (htail : Tail tail)
    (h : d.file.bytes = journal commands ++ tail) :
    (recover d).1 = .ok (behind commands) ∧ (recover d).2.file.bytes = journal commands ∧
      (d.file.synced = d.file.bytes.length →
        (recover d).2.file.synced = (recover d).2.file.bytes.length) := by
  have hlooked := JournalReader.scan_looked d
  have hscan := JournalReader.scan_journal hd.toReadable htail h
  rw [recover]
  generalize JournalReader.scan d = scanned at hlooked hscan ⊢
  obtain ⟨_ | scan, d'⟩ := scanned
  · cases hscan
  obtain rfl := Except.ok.inj hscan
  dsimp only at hlooked ⊢
  have hd' : d'.Repairable := ⟨hd.toReadable.looked hlooked, hlooked.truncates ▸ hd.truncates,
    hlooked.syncs ▸ hd.syncs⟩
  have h' : d'.file.bytes = journal commands ++ tail := (congrArg File.bytes hlooked.file).trans h
  rw [hasTruncatedTail_journalScan]
  by_cases hne : tail = []
  · subst hne
    rw [List.append_nil] at h'
    obtain ⟨hok, hlooked'⟩ := JournalWriter.openRecovered_journal hd'.toReadable h'
    rw [if_neg (by decide), recoverIntact, records_journalScan, replay_records]
    generalize JournalWriter.openRecovered d' = opened at hok hlooked' ⊢
    obtain ⟨_ | writer, d''⟩ := opened
    · cases hok
    obtain rfl := Except.ok.inj hok
    have hfile : d''.file = d.file := hlooked'.file.trans hlooked.file
    exact ⟨rfl, (congrArg File.bytes hlooked'.file).trans h', fun hsynced => by
      dsimp only
      rw [hfile, hsynced]⟩
  · rw [if_pos (decide_eq_true hne)]
    obtain ⟨hok, hbytes, hsynced⟩ := recoverRepaired_journal hd' htail hne h'
    exact ⟨hok, hbytes, fun _ => hsynced⟩

/-- A file that cannot be scanned is left as it is. -/
theorem recover_of_scan_error {e : JournalStorageError} (h : (JournalReader.scan d).1 = .error e) :
    (recover d).1 = .error (journalFailure e) ∧ (recover d).2.file = d.file := by
  have hlooked := JournalReader.scan_looked d
  rw [recover]
  generalize JournalReader.scan d = scanned at hlooked h ⊢
  obtain ⟨_ | scan, d'⟩ := scanned
  · obtain rfl := Except.error.inj h
    exact ⟨rfl, hlooked.file⟩
  · cases h

end DurableEngine

/-! ### Damaged journals -/

section Invalid

variable {f : File} {outcomes : Outcomes}

theorem InvalidJournal.scan_invalid (h : InvalidJournal f.bytes)
    (hd : (onFile outcomes f).Readable) : ∃ e, (JournalReader.scan (onFile outcomes f)).1 =
      .error { code := .invalidJournal, codecError := some e } := by
  cases h with
  | header hheader => exact JournalReader.scan_invalid_header hd hheader
  | record before rest e hbytes he hdecode =>
    exact ⟨e, JournalReader.scan_invalid hd hbytes he hdecode⟩

/-- An invalid journal is not a journal with a tail. -/
theorem InvalidJournal.scan_ne_ok (h : InvalidJournal f.bytes) (result : JournalScan) :
    (JournalReader.scan (onFile outcomes f)).1 ≠ .ok result := by
  intro hok
  obtain ⟨commands', tail, htail, hbytes, -⟩ := JournalReader.scan_sound hok
  have hd := (repairable_calm f).toReadable
  obtain ⟨e, herror⟩ := h.scan_invalid hd
  cases herror.symm.trans (JournalReader.scan_journal hd htail hbytes)

/-- An invalid journal is never scanned, and recovery reports a failure and leaves the file as it
is. -/
theorem DurableEngine.recover_invalid (h : InvalidJournal f.bytes) (outcomes : Outcomes) :
    ((onFile outcomes f).Readable → ∃ e, (JournalReader.scan (onFile outcomes f)).1 =
      .error { code := .invalidJournal, codecError := some e }) ∧
    (∀ result, (JournalReader.scan (onFile outcomes f)).1 ≠ .ok result) ∧
    (∃ e, (recover (onFile outcomes f)).1 = .error (journalFailure e)) ∧
    (recover (onFile outcomes f)).2.file.bytes = f.bytes := by
  refine ⟨h.scan_invalid, h.scan_ne_ok, ?_⟩
  cases hscan : (JournalReader.scan (onFile outcomes f)).1 with
  | ok result => exact absurd hscan (h.scan_ne_ok result)
  | error e =>
    obtain ⟨herror, hfile⟩ := recover_of_scan_error hscan
    exact ⟨⟨e, herror⟩, congrArg File.bytes hfile⟩

end Invalid

/-- A journal that is damaged in one byte, or in up to four consecutive bytes of a payload, is never
scanned, and a scan that can read it reports an invalid journal. Recovery reports a failure of the
journal and leaves the file as it is. -/
theorem DurableEngine.recover_damaged (commands : List JournalCommand) (f : File)
    (outcomes : Outcomes) (h : Damaged commands f.bytes) :
    ((onFile outcomes f).Readable → ∃ e, (JournalReader.scan (onFile outcomes f)).1 =
      .error { code := .invalidJournal, codecError := some e }) ∧
    (∀ result, (JournalReader.scan (onFile outcomes f)).1 ≠ .ok result) ∧
    (∃ e, (recover (onFile outcomes f)).1 = .error (journalFailure e)) ∧
    (recover (onFile outcomes f)).2.file.bytes = f.bytes :=
  recover_invalid h.invalidJournal outcomes

/-- A byte of the payload of the only frame of a journal. -/
theorem DurableEngine.recover_damaged_payload :
    ∃ f : File, f.bytes = (journal [.cancelOrder ⟨1⟩]).set 40 1 ∧
      Damaged [.cancelOrder ⟨1⟩] f.bytes ∧
      (∃ e, (JournalReader.scan (onFile Outcomes.calm f)).1 =
        .error { code := .invalidJournal, codecError := some e }) ∧
      (recover (onFile Outcomes.calm f)).2.file.bytes = f.bytes := by
  have hlen : ((journal [.cancelOrder ⟨1⟩]).set 40 1).length < sizeLimit := by decide +kernel
  have h : Damaged [.cancelOrder ⟨1⟩] ((journal [.cancelOrder ⟨1⟩]).set 40 1) :=
    .byte 40 1 (by decide +kernel) (by decide +kernel)
  have hrecover := recover_damaged _ ⟨_, 0, hlen, Nat.zero_le _⟩ Outcomes.calm h
  exact ⟨⟨_, 0, hlen, Nat.zero_le _⟩, rfl, h, hrecover.1 (repairable_calm _).toReadable,
    hrecover.2.2.2⟩

end MatchingEngine
