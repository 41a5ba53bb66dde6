import MatchingEngine.DurableEngine.Recovery
import MatchingEngine.Journal.Flips

/-!
# Recovery and flipped bits

A journal in which one, two or three bits are flipped is reported and left alone. Three is the most
that can be said: with four flipped bits the last command of a journal, if it is a cancellation, is
taken for the rest of an interrupted append, and recovery cuts it off.

## Main results

* `DurableEngine.recover_flipped`: a journal with flipped bits is reported and left alone.
* `DurableEngine.recover_four_flips`: four flipped bits can take away the last command.
-/

namespace MatchingEngine

open Posix Crc

/-- A journal in which one, two or three bits are flipped, wherever they are, is never scanned, and
a scan that can read it reports an invalid journal. Recovery reports a failure of the journal and
leaves the file as it is. -/
theorem DurableEngine.recover_flipped (commands : List JournalCommand) (f : File)
    (outcomes : Outcomes) (h : Flipped commands f.bytes) :
    ((onFile outcomes f).Readable → ∃ e, (JournalReader.scan (onFile outcomes f)).1 =
      .error { code := .invalidJournal, codecError := some e }) ∧
    (∀ result, (JournalReader.scan (onFile outcomes f)).1 ≠ .ok result) ∧
    (∃ e, (recover (onFile outcomes f)).1 = .error (journalFailure e)) ∧
    (recover (onFile outcomes f)).2.file.bytes = f.bytes :=
  recover_invalid h.invalidJournal outcomes

/-- A bit of the checksum and a bit of the payload of the only frame of a journal. -/
theorem DurableEngine.recover_flipped_checksum :
    ∃ f : File, f.bytes = ((journal [.cancelOrder ⟨1⟩]).modify 38 (· ^^^ 8)).modify 47 (· ^^^ 2) ∧
      Flipped [.cancelOrder ⟨1⟩] f.bytes ∧
      (∃ e, (JournalReader.scan (onFile Outcomes.calm f)).1 =
        .error { code := .invalidJournal, codecError := some e }) ∧
      (recover (onFile Outcomes.calm f)).2.file.bytes = f.bytes := by
  have hlen : (((journal [.cancelOrder ⟨1⟩]).modify 38 (· ^^^ 8)).modify 47 (· ^^^ 2)).length <
      sizeLimit := by decide +kernel
  have h : Flipped [.cancelOrder ⟨1⟩]
      (((journal [.cancelOrder ⟨1⟩]).modify 38 (· ^^^ 8)).modify 47 (· ^^^ 2)) :=
    ⟨by decide +kernel, by decide +kernel, by decide +kernel⟩
  have hrecover := recover_flipped _ ⟨_, 0, hlen, Nat.zero_le _⟩ Outcomes.calm h
  exact ⟨⟨_, 0, hlen, Nat.zero_le _⟩, rfl, h, hrecover.1 (repairable_calm _).toReadable,
    hrecover.2.2.2⟩

/-- If the last command of a journal is a cancellation, four bits take it away: the two of its type
and the two of the length of its payload in which a submission differs. It is then taken for the
rest of an interrupted append: recovery cuts it off and succeeds with the commands before it. -/
theorem DurableEngine.recover_four_flips (commands : List JournalCommand) (id : OrderId) :
    ∃ bytes, bytes = ((journal (commands ++ [.cancelOrder id])).modify
        ((journal commands).length + 5) (· ^^^ 3)).modify
        ((journal commands).length + 11) (· ^^^ 17) ∧
      bytes.length = (journal (commands ++ [.cancelOrder id])).length ∧
      distance (journal (commands ++ [.cancelOrder id])) bytes = 4 ∧
      ∀ d : Disk, d.Repairable → d.file.bytes = bytes →
        (recover d).1 = .ok (behind commands) ∧ (recover d).2.file.bytes = journal commands := by
  obtain ⟨hdistance, htail⟩ := modify_cancel (UInt64.ofNat (commands.length + 1)) id
  have hjournal : journal (commands ++ [.cancelOrder id]) = journal commands ++
      frame (UInt64.ofNat (commands.length + 1)) (.cancelOrder id) := by
    rw [journal_append, frames, frames, List.append_nil]
  refine ⟨_, rfl, ?_, ?_, fun d hd hbytes => ?_⟩
  · rw [List.length_modify, List.length_modify]
  · rw [hjournal, List.modify_append_right, List.modify_append_right, distance_append rfl,
      distance_self, hdistance]
  · rw [hjournal, List.modify_append_right, List.modify_append_right] at hbytes
    obtain ⟨hok, hfile, -⟩ := recover_journal hd (Or.inr htail) hbytes
    exact ⟨hok, hfile⟩

/-- The cancellation of the only order is lost. -/
theorem DurableEngine.recover_four_flips_order : ∃ f : File,
    distance (journal [.submitLimitOrder ⟨⟨1⟩, .buy, ⟨10⟩, ⟨5⟩⟩, .cancelOrder ⟨1⟩]) f.bytes = 4 ∧
      (recover (onFile Outcomes.calm f)).1 =
        .ok (behind [.submitLimitOrder ⟨⟨1⟩, .buy, ⟨10⟩, ⟨5⟩⟩]) := by
  obtain ⟨bytes, -, hlen, hdistance, hrecover⟩ :=
    recover_four_flips [.submitLimitOrder ⟨⟨1⟩, .buy, ⟨10⟩, ⟨5⟩⟩] ⟨1⟩
  have hlt : bytes.length < sizeLimit := hlen.trans_lt (by decide +kernel)
  let f : File := ⟨bytes, 0, hlt, Nat.zero_le _⟩
  exact ⟨f, hdistance, (hrecover (onFile Outcomes.calm f) (repairable_calm f) rfl).1⟩

end MatchingEngine
