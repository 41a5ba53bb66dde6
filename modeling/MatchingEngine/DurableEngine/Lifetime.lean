import MatchingEngine.DurableEngine.Run

/-!
# The lifetime of a journal

A journal outlives the processes that write to it. A session starts with a new journal or with a
recovery, acknowledges any number of batches, and is stopped, crashes while a batch is appended, or
ends because a batch has failed. A crash keeps what has been synced and any part of the frames of
the batch that was being appended.

Whatever the sessions were, the next recovery succeeds. It finds the acknowledged commands, in the
order in which they were acknowledged, and for each session that was cut off the first commands of
its last batch.

## Main definitions

* `DurableEngine.Event`, `DurableEngine.Phase`, `DurableEngine.Reaches`: what can happen to a
  journal.
* `DurableEngine.Explains`: the commands that a history can leave in a journal.

## Main results

* `DurableEngine.Reaches.invariant`: what holds in every phase.
* `DurableEngine.recover_reaches`: recovery succeeds after every history.
-/

namespace MatchingEngine

open Posix

namespace DurableEngine

/-! ### Histories -/

/-- What happened to a batch. -/
inductive Event where
  | acknowledged (batch : List JournalCommand)
  | interrupted (batch : List JournalCommand)

/-- The commands that have been acknowledged, in order. -/
def Event.acknowledgedCommands : Event → List JournalCommand
  | .acknowledged batch => batch
  | .interrupted _ => []

/-- The commands of the acknowledged batches and, for each interrupted batch, some of its first
commands. -/
inductive Explains : List Event → List JournalCommand → Prop
  | nil : Explains [] []
  | acknowledged {history : List Event} {commands : List JournalCommand}
      (h : Explains history commands) (batch : List JournalCommand) :
      Explains (history ++ [.acknowledged batch]) (commands ++ batch)
  | interrupted {history : List Event} {commands : List JournalCommand}
      (h : Explains history commands) (batch : List JournalCommand) (k : ℕ) :
      Explains (history ++ [.interrupted batch]) (commands ++ batch.take k)

theorem Explains.acknowledged_sublist {history : List Event} {commands : List JournalCommand}
    (h : Explains history commands) :
    (history.flatMap Event.acknowledgedCommands).Sublist commands := by
  induction h with
  | nil => exact List.Sublist.refl []
  | acknowledged _ batch ih =>
    rw [List.flatMap_append, List.flatMap_singleton]
    exact ih.append (List.Sublist.refl batch)
  | interrupted _ batch k ih =>
    rw [List.flatMap_append, List.flatMap_singleton]
    exact ih.append (List.nil_sublist _)

/-- An engine is running on the file, or there is only the file. -/
inductive Phase where
  | running (engine : DurableEngine) (f : File)
  | down (f : File)

/-- What is left of a file when the process is gone: everything that was synced, and any part of
what was written after that. -/
def Survives (f f' : File) : Prop :=
  f'.synced = f'.bytes.length ∧ ∃ n, f.synced ≤ n ∧ f'.bytes = f.bytes.take n

/-- The phases that a history can lead to. -/
inductive Reaches : List Event → Phase → Prop
  | created (path : Option File) (outcomes outcomes' : Outcomes) {engine : DurableEngine} {f : File}
      (h : create path outcomes = (.ok engine, some f, outcomes')) :
      Reaches [] (.running engine f)
  | acknowledged {history : List Event} {engine : DurableEngine} {f : File}
      (hr : Reaches history (.running engine f)) (call : Call) (results : List BatchCommandResult)
      (h : (execute (engine, f) call).1 = .ok results) :
      Reaches (history ++ [.acknowledged call.batch])
        (.running (execute (engine, f) call).2.1 (execute (engine, f) call).2.2)
  | stopped {history : List Event} {engine : DurableEngine} {f : File}
      (hr : Reaches history (.running engine f)) : Reaches history (.down f)
  /-- A crash while the frames of a batch, numbered as the writer numbers them, are written. -/
  | crashed {history : List Event} {engine : DurableEngine} {f : File}
      (hr : Reaches history (.running engine f)) (batch : List JournalCommand) (hne : batch ≠ [])
      {first : JournalSequence} (hfirst : engine.writer.nextSequence = some first)
      {encoded : List (List UInt8)} {assigned : List JournalSequence}
      (hencoded : JournalWriter.prepare first.value 0 batch = .ok (encoded, assigned))
      (n : ℕ) (f' : File) (hbytes : f'.bytes = f.bytes.take f.synced ++ encoded.flatten.take n)
      (hsynced : f'.synced = f'.bytes.length) :
      Reaches (history ++ [.interrupted batch]) (.down f')
  /-- A batch has failed, and the session ends. -/
  | failed {history : List Event} {engine : DurableEngine} {f : File}
      (hr : Reaches history (.running engine f)) (call : Call) (e : DurableEngineError)
      (h : (execute (engine, f) call).1 = .error e) (f' : File)
      (hf : Survives (execute (engine, f) call).2.2 f') :
      Reaches (history ++ [.interrupted call.batch]) (.down f')
  | recovered {history : List Event} {f : File} (hr : Reaches history (.down f))
      {outcomes : Outcomes} (hd : (onFile outcomes f).Repairable) {engine : DurableEngine}
      {d' : Disk} (h : recover (onFile outcomes f) = (.ok engine, d')) :
      Reaches history (.running engine d'.file)

/-! ### The invariant -/

/-- A file that is all on stable storage holds the journal of commands that the history explains,
and a tail. -/
def Holds (history : List Event) (f : File) : Prop :=
  f.synced = f.bytes.length ∧ ∃ commands tail, Explains history commands ∧ Tail tail ∧
    f.bytes = journal commands ++ tail

/-- What holds in every phase. -/
def Phase.Inv (history : List Event) : Phase → Prop
  | .running engine f => f.synced = f.bytes.length ∧
      ∃ commands, Explains history commands ∧ engine.Ready f commands
  | .down f => Holds history f

/-- What a part of the frames of a batch adds to a journal. -/
theorem holds_of_take_frames {history : List Event} {commands batch : List JournalCommand}
    {f : File} {n : ℕ} (hexplains : Explains history commands)
    (hsynced : f.synced = f.bytes.length)
    (hbytes : f.bytes = journal commands ++ (frames (commands.length + 1) batch).take n) :
    Holds (history ++ [.interrupted batch]) f := by
  obtain ⟨k, -, tail, htail, htake⟩ := exists_tail_of_take_frames (commands.length + 1) batch n
  refine ⟨hsynced, commands ++ batch.take k, tail, hexplains.interrupted batch k, htail, ?_⟩
  rw [hbytes, htake, journal_append, List.append_assoc]

/-- What survives a failed batch is a part of its frames. -/
theorem exists_take_of_survives {bytes data : List UInt8} {f f' : File}
    (hbytes : f.bytes = bytes ++ data) (hle : bytes.length ≤ f.synced) (h : Survives f f') :
    ∃ n, f'.bytes = bytes ++ data.take n := by
  obtain ⟨-, n, hn, htake⟩ := h
  refine ⟨n - bytes.length, ?_⟩
  rw [htake, hbytes, List.take_append, List.take_of_length_le (by omega)]

theorem holds_of_failed {history : List Event} {commands : List JournalCommand}
    {engine : DurableEngine} {f f' : File} {call : Call} {e : DurableEngineError}
    (hexplains : Explains history commands) (hready : engine.Ready f commands)
    (hsynced : f.synced = f.bytes.length) (h : (execute (engine, f) call).1 = .error e)
    (hf : Survives (execute (engine, f) call).2.2 f') :
    Holds (history ++ [.interrupted call.batch]) f' := by
  have hexecuted := execute_executed hready call
  generalize execute (engine, f) call = executed at hexecuted h hf
  obtain ⟨result, engine', f₁⟩ := executed
  dsimp only at hexecuted h hf
  rw [hready.on.bytes_eq] at hsynced
  cases hexecuted with
  | appendFailed e' n _ _ _ _ hbytes hsynced' =>
    rw [hready.on.bytes_eq] at hbytes
    obtain ⟨m, hbytes'⟩ := exists_take_of_survives hbytes (by omega) hf
    rw [List.take_take] at hbytes'
    exact holds_of_take_frames hexplains hf.1 hbytes'
  | applyFailed k _ _ _ _ _ hbytes hsynced' =>
    rw [hready.on.bytes_eq] at hbytes
    have hle : (journal commands).length ≤ f₁.synced := by
      rw [hsynced', hbytes, List.length_append]
      omega
    obtain ⟨m, hbytes'⟩ := exists_take_of_survives hbytes hle hf
    exact holds_of_take_frames hexplains hf.1 hbytes'
  | succeeded => cases h

theorem Reaches.invariant {history : List Event} {phase : Phase} (h : Reaches history phase) :
    phase.Inv history := by
  induction h with
  | created path outcomes outcomes' h =>
    obtain ⟨f', hf, hready, hsynced⟩ := create_ready h
    obtain rfl := Option.some.inj hf
    exact ⟨hsynced, [], .nil, hready⟩
  | @acknowledged history engine f hr call results h ih =>
    obtain ⟨-, commands, hexplains, hready⟩ := ih
    obtain ⟨-, hready', hsynced⟩ := execute_ok hready h
    exact ⟨hsynced, commands ++ call.batch, hexplains.acknowledged call.batch, hready'⟩
  | stopped hr ih =>
    obtain ⟨hsynced, commands, hexplains, hready⟩ := ih
    exact ⟨hsynced, commands, [], hexplains, Or.inl rfl,
      hready.on.bytes_eq.trans (List.append_nil _).symm⟩
  | @crashed history engine f hr batch hne first hfirst encoded assigned hencoded n f' hbytes
      hsynced ih =>
    obtain ⟨hsynced₀, commands, hexplains, hready⟩ := ih
    refine holds_of_take_frames (n := n) hexplains hsynced ?_
    obtain rfl := Option.some.inj (hready.on.nextSequence_eq.symm.trans hfirst)
    rw [hbytes, hsynced₀, List.take_length, hready.on.bytes_eq,
      JournalWriter.prepare_sound hencoded]
  | failed hr call e h f' hf ih =>
    obtain ⟨hsynced, commands, hexplains, hready⟩ := ih
    exact holds_of_failed hexplains hready hsynced h hf
  | @recovered history f hr outcomes hd engine d' h ih =>
    obtain ⟨hsynced, commands, tail, hexplains, htail, hbytes⟩ := ih
    obtain ⟨hok, hbytes', hsynced'⟩ := recover_journal hd htail hbytes
    rw [h] at hok hbytes' hsynced'
    obtain rfl := Except.ok.inj hok
    exact ⟨hsynced' hsynced, commands, hexplains, rfl, JournalWriter.on_behind hbytes', rfl⟩

/-! ### Recovery after any history -/

/-- After any history, recovery succeeds. The journal is then the file header and the records of
commands that the history explains, the book is what they make of a fresh book, and the next
sequence is the one behind them. -/
theorem recover_reaches (history : List Event) (f : File) (outcomes : Outcomes)
    (h : Reaches history (.down f)) (hd : (onFile outcomes f).Repairable) :
    ∃ engine d' commands, recover (onFile outcomes f) = (.ok engine, d') ∧
      engine.state = .healthy ∧ Explains history commands ∧
      (history.flatMap Event.acknowledgedCommands).Sublist commands ∧
      (∃ encoded, encodeRecords 1 commands = .ok encoded ∧
        d'.file.bytes = encodeFileHeader ++ encoded) ∧
      (∃ results, OrderBook.fresh.run commands = .ok (results, engine.orderBook.impl)) ∧
      ∃ next, engine.writer.nextSequence = some next ∧
        next.value.toNat = commands.length + 1 := by
  obtain ⟨-, commands, tail, hexplains, htail, hbytes⟩ := h.invariant
  obtain ⟨hok, hbytes', -⟩ := recover_journal hd htail hbytes
  have hlt := length_add_lt_of_journal (hbytes'.trans (List.append_nil _).symm)
  refine ⟨behind commands, (recover (onFile outcomes f)).2, commands, Prod.ext hok rfl, rfl,
    hexplains, hexplains.acknowledged_sublist, ⟨_, encodeRecords_eq Nat.one_pos hlt.le, hbytes'⟩,
    ⟨_, Book.run_eq Book.fresh commands⟩, _, rfl, ?_⟩
  rw [UInt64.toNat_ofNat', Nat.mod_eq_of_lt (by omega)]

/-- A command is acknowledged on a new journal, and a crash cuts off the frame of the next one. -/
theorem recover_reaches_acknowledged :
    ∃ f, Reaches [.acknowledged [.submitLimitOrder ⟨⟨7⟩, .buy, ⟨10⟩, ⟨5⟩⟩],
        .interrupted [.cancelOrder ⟨7⟩]] (.down f) ∧
      ∃ engine d' commands, recover (onFile Outcomes.calm f) = (.ok engine, d') ∧
        engine.state = .healthy ∧
        [JournalCommand.submitLimitOrder ⟨⟨7⟩, .buy, ⟨10⟩, ⟨5⟩⟩].Sublist commands ∧
        (∃ encoded, encodeRecords 1 commands = .ok encoded ∧
          d'.file.bytes = encodeFileHeader ++ encoded) ∧
        ∃ results, OrderBook.fresh.run commands = .ok (results, engine.orderBook.impl) := by
  have hcreated : Reaches [] (.running ⟨Book.fresh, ⟨some ⟨1⟩, false⟩, .healthy⟩
      (File.empty.append encodeFileHeader).sync) := .created none Outcomes.calm Outcomes.calm rfl
  have hacknowledged := hcreated.acknowledged
    ⟨[.submitLimitOrder ⟨⟨7⟩, .buy, ⟨10⟩, ⟨5⟩⟩], false, none, Outcomes.calm⟩ _ rfl
  have hencode : encodeRecord ⟨2⟩ (.cancelOrder ⟨7⟩) = .ok (frame 2 (.cancelOrder ⟨7⟩)) :=
    encodeRecord_eq (by decide) _
  have hencoded : JournalWriter.prepare 2 0 [.cancelOrder ⟨7⟩] =
      .ok ([frame 2 (.cancelOrder ⟨7⟩)], [⟨2⟩]) := by
    rw [JournalWriter.prepare, hencode]
    rfl
  have hcrashed := hacknowledged.crashed [.cancelOrder ⟨7⟩] (List.cons_ne_nil _ _) rfl hencoded 10
    (((execute (⟨Book.fresh, ⟨some ⟨1⟩, false⟩, .healthy⟩,
      (File.empty.append encodeFileHeader).sync)
      ⟨[.submitLimitOrder ⟨⟨7⟩, .buy, ⟨10⟩, ⟨5⟩⟩], false, none, Outcomes.calm⟩).2.2.append
        ((frame 2 (.cancelOrder ⟨7⟩)).take 10)).sync) rfl rfl
  obtain ⟨engine, d', commands, hrecover, hhealthy, -, hsublist, hencoded, hrun, -⟩ :=
    recover_reaches _ _ Outcomes.calm hcrashed (repairable_calm _)
  exact ⟨_, hcrashed, engine, d', commands, hrecover, hhealthy, hsublist, hencoded, hrun⟩

end DurableEngine

end MatchingEngine
