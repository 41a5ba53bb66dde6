import MatchingEngine.Gateway.Settling

/-!
# What a shutdown leaves behind

When `shutdown_complete` holds, the worker has finished and every completion has been taken from the
response queue, so `run` only flushes the outputs once more and closes the connections. Nothing that
was admitted is lost: Each request was completed once, in order, and each completion was delivered.
If the engine has not failed, the journal holds the commands of all of them behind those of the
start, and the book is what they make of it. An exception in the worker can lose a request, and is
not part of these runs.

The last flush is the only thing that a client can miss: The bytes that its socket does not accept
then are thrown away. What a connection that is not closing was sent, together with its output, is
all of its frames.

## Main results

* `EventLoop.Run.finished_of_stage`: the parties at the end of the loop.
* `EventLoop.run_drained`.
-/

namespace MatchingEngine

namespace EventLoop

open Exchange (shown sentTo)

/-- `shutdown_complete` has held. -/
def Stage.Last : Stage → Prop
  | flushOutputs _ => True
  | returned => True
  | _ => False

section Last

variable {maxSize : ℕ} {config : ExchangeServerConfig} {engine : DurableEngine} {f : Posix.File}
  {gatewayConfig : ServerConfig} {startup : List JournalCommand} {events : List Exchange.Event}
  {l : EventLoop}

/-- At the end the worker has finished, and no completion is on its way. -/
theorem Run.finished_of_stage
    (hrun : Run maxSize (ofServer (Server.ofConfig config engine f) gatewayConfig) events l)
    (hlast : l.stage.Last) : l.server.worker = .finished ∧ l.server.gateway.taken = [] ∧
      l.server.responseQueue.items = [] := by
  obtain ⟨_, _, hclosing⟩ := hrun.closing
  have hfitting := hrun.fitting
  have hending := hrun.ending
  rw [Fitting] at hfitting
  generalize l.stage = stage, hphase : l.server.gateway = phase, l.gateway.task = task
    at hlast hfitting hending
  cases hfitting with
  | idle hne =>
    cases hending with
    | running _ hflushing =>
      cases stage with
      | flushOutputs descriptors => exact absurd rfl (hflushing descriptors)
      | returned => exact absurd rfl hne
      | _ => cases hlast
    | checking => cases hlast
    | flushing _ _ hclosed hempty => exact ⟨hclosing.of_closed hclosed, rfl, hempty⟩
  | exited =>
    obtain ⟨hclosed, hempty⟩ := hclosing.of_exited hphase
    exact ⟨hclosing.of_closed hclosed, rfl, hempty⟩
  | _ => cases hlast

theorem Run.delivered_eq
    (hrun : Run maxSize (ofServer (Server.ofConfig config engine f) gatewayConfig) events l)
    (hlast : l.stage.Last) :
    Server.delivered (shown events) = Server.published (shown events) := by
  obtain ⟨-, htaken, hitems⟩ := hrun.finished_of_stage hlast
  have hresponses :=
    ((Server.closing_ofConfig config engine f).run hrun.exchange.server).responses_eq
  rw [htaken, hitems, List.append_nil, List.append_nil] at hresponses
  exact hresponses.symm

end Last

/-- In a run without a C++ exception and without a write behind the end of the histogram, when `run`
is about to return, or has returned, all requests that were admitted have been completed and
delivered, in order. If the engine has not failed, every completion is the result of its request on
the book of the start, the journal consists of the records of the start and of the commands of all
requests, and the book is that of these commands. A connection that is not closing has been sent all
frames of its completions but for what is left in its output. -/
theorem run_drained (maxSize : ℕ) (config : ExchangeServerConfig) (engine : DurableEngine)
    (f : Posix.File) (gatewayCreated : Bool) (server : Server) (gatewayConfig : ServerConfig)
    (hstarted : DurableEngine.Started engine f)
    (hcreate : ExchangeServer.create config (.ok (engine, f)) gatewayCreated = .ok server)
    (events : List Exchange.Event) (l : EventLoop)
    (hrun : Run maxSize (ofServer server gatewayConfig) events l) (hlast : l.stage.Last) :
    let requests := Server.admitted (shown events)
    let responses := Server.delivered (shown events)
    let results := (engine.orderBook.run (requests.map toJournalCommand)).1
    responses.map EngineResponse.ids = requests.map EngineRequest.ids ∧
    (l.server.failed = false →
      responses.map some = List.zipWith summarize requests results ∧
      l.server.engine.orderBook = (engine.orderBook.run (requests.map toJournalCommand)).2 ∧
      ∃ startup, f.bytes = journal startup ∧
        l.server.file.bytes = journal (startup ++ requests.map toJournalCommand) ∧
        (requests ≠ [] → l.server.file.bytes <+: l.server.file.bytes.take l.server.file.synced)) ∧
    ∀ c ∈ l.gateway.connections, c.closing = false →
      sentTo events c.id ++ c.output.pending =
        (responses.filter fun response => response.ids.1 = c.id).flatMap responseFrame := by
  obtain ⟨-, rfl, startup, hready⟩ := ExchangeServer.exists_ready_of_create hstarted hcreate
  obtain ⟨completed, executed, refused, hs⟩ :=
    (Server.pipelined_ofConfig config hready).run hrun.exchange.server
  obtain ⟨hfinished, -, -⟩ := hrun.finished_of_stage hlast
  obtain ⟨_, _, hclosing⟩ := hrun.closing
  have hcompleted : Server.admitted (shown events) = completed := by
    rw [hs.requests_eq, hfinished, (hclosing.of_finished hfinished).2]
    exact (List.append_nil _).trans (List.append_nil _)
  have hanswered := hs.answered_eq
  have hresponses := hs.responses_eq
  rw [hfinished, WorkerPhase.answered, List.map_nil, List.append_nil, ← hcompleted] at hanswered
  rw [hfinished, WorkerPhase.answered, List.map_nil, List.append_nil] at hresponses
  intro requests responses results
  refine ⟨?_, fun hhealthy => ?_, fun c hc hopen => ?_⟩
  · rw [show responses = _ from hrun.delivered_eq hlast, hs.ids_eq, ← hcompleted]
  · obtain ⟨rfl, hready'⟩ := hs.ready hhealthy
    rw [List.append_nil] at hanswered
    obtain rfl : requests = executed := hanswered
    refine ⟨?_, ?_, startup, hready.on.bytes_eq, hready'.on.bytes_eq, fun hne => ?_⟩
    · rw [show responses = _ from hrun.delivered_eq hlast, hresponses, Server.answers,
        List.map_nil, List.append_nil, ← hready.orderBook_eq]
    · rw [hready'.orderBook_eq, hready.orderBook_eq, Book.run_append]
    · exact hready'.on.bytes_eq ▸ hs.synced.resolve_left hne
  · exact ((hrun.exchange.routed hready).carries c hc).2 hopen

/-- A server whose worker waits, with one completion for the only connection, is asked to stop. -/
theorem Run.exists_stopped {maxSize : ℕ} {start l : EventLoop} {events : List Exchange.Event}
    {c : Connection} {response : EngineResponse} {queue : BoundedQueue EngineResponse}
    {limiter : InFlightLimiter} (hrun : Run maxSize start events l)
    (hhalted : l.server.halted = none) (hpoll : l.stage = .poll) (hidle : l.Idle)
    (hopen : l.server.shutdownStarted = false) (hcalls : l.workerCalls = [])
    (hwaiting : l.server.worker = .waiting) (hitems : l.server.requestQueue.items = [])
    (hpop : l.server.responseQueue.close.tryPop = some (response, queue))
    (hempty : queue.items = [])
    (hrelease : l.server.inFlightLimiter.releaseOne = some limiter)
    (hconnections : l.gateway.connections = [c]) (hid : c.id = response.ids.1)
    (hclosing : c.closing = false) (houtput : c.output = .empty) (hencodes : response.Encodes)
    (hfits : (responseFrame response).length ≤ l.gateway.config.maximumOutputBufferBytes.toNat) :
    ∃ l', Run maxSize start (events ++ [.shutdown l.gateway.pendingRequests, .server .internal,
        .server .internal, .server (.delivered response)]) l' ∧
      l'.stage = .flushOutputs [c.descriptor] ∧ l'.server.failed = l.server.failed ∧
      l'.server.file = l.server.file ∧
      l'.gateway.connections =
        [{ c with output := ⟨responseFrame response, 0, Nat.zero_le _⟩ }] := by
  -- a signal interrupts `poll` after the request
  have hdown := ((hrun.input hhalted .requestStop).input hhalted (.interrupted hpoll)).step hhalted
    (.beginShutdown rfl hidle rfl hopen)
  have hfinished := hdown.step hhalted (.work hcalls (.finish hwaiting rfl hitems) rfl rfl)
  have hdelivered := (hfinished.step hhalted (.takeCompletion rfl hidle hpop)).step hhalted
    (.deliver rfl rfl hrelease)
  have hdeliver : ({ l.gateway with listening := false, pendingRequests := [] } : Gateway).deliver
      response = _ := Exchange.deliver_singleton hconnections hid hclosing houtput hencodes hfits
  dsimp only at hdelivered hdeliver
  rw [hdeliver] at hdelivered
  have hchecks := (hdelivered.step hhalted (.completionsDrained rfl ⟨rfl, hidle.2⟩ hempty)).step
    hhalted (.leavePending rfl ⟨rfl, hidle.2⟩ (Or.inl rfl))
  have hclosed : queue.closed = true := (BoundedQueue.tryPop_eq_some hpop).2.2
  have hlast := (hchecks.step hhalted (.closed rfl rfl hclosed)).step hhalted
    (.complete rfl hempty (List.Perm.refl _))
  simp only [List.append_nil, List.append_assoc, List.cons_append, List.nil_append] at hlast
  exact ⟨_, hlast, rfl, rfl, rfl, rfl⟩

/-- A request is answered before a server stops, and the frame is in the output of its connection.
Another request that was retained is dropped. -/
theorem run_drained_answered :
    ∃ server events l, ExchangeServer.create ⟨1, 1, 1⟩
        (.ok (⟨Book.fresh, ⟨some ⟨1⟩, false⟩, .healthy⟩,
          (Posix.File.empty.append encodeFileHeader).sync)) true = .ok server ∧
      Run (2 ^ 56) (ofServer server {}) events l ∧ l.stage = .flushOutputs [5] ∧
      Server.admitted (shown events) = [.cancel ⟨⟨1⟩, ⟨1⟩, ⟨7⟩⟩] ∧
      Server.delivered (shown events) = [.cancel ⟨⟨1⟩, ⟨1⟩, .notFound, ⟨0⟩⟩] ∧
      [some (.cancel ⟨⟨1⟩, ⟨1⟩, .notFound, ⟨0⟩⟩)] = List.zipWith summarize [.cancel ⟨⟨1⟩, ⟨1⟩, ⟨7⟩⟩]
        (Book.fresh.run [.cancelOrder ⟨7⟩]).1 ∧
      (∃ startup, (Posix.File.empty.append encodeFileHeader).sync.bytes = journal startup ∧
        l.server.file.bytes = journal (startup ++ [.cancelOrder ⟨7⟩])) ∧
      ∃ c ∈ l.gateway.connections, c.closing = false ∧ sentTo events c.id ++ c.output.pending =
        responseFrame (.cancel ⟨⟨1⟩, ⟨1⟩, .notFound, ⟨0⟩⟩) := by
  have hcreate : ExchangeServer.create ⟨1, 1, 1⟩ (.ok (⟨Book.fresh, ⟨some ⟨1⟩, false⟩, .healthy⟩,
      (Posix.File.empty.append encodeFileHeader).sync)) true = .ok (Server.ofConfig _ _ _) := rfl
  obtain ⟨parser, hrun⟩ := exists_run_waiting (2 ^ 56) ⟨Book.fresh, ⟨some ⟨1⟩, false⟩, .healthy⟩
    (Posix.File.empty.append encodeFileHeader).sync rfl rfl rfl (by decide) Exchange.feed_cancels
  have hexecuting := (hrun.step rfl
    (.work rfl (.pop rfl rfl (show 1 ≤ 2 ^ 56 by decide)) rfl rfl)).step rfl
      (.work rfl (.stopDraining rfl fun h => absurd h (Nat.lt_irrefl 1)) rfl rfl)
  have hanswered := hexecuting.step rfl
    (.work rfl (.execute rfl ⟨[.cancelOrder ⟨7⟩], false, none, Posix.Outcomes.calm⟩ rfl) rfl rfl)
  have hpublished := hanswered.step rfl (.work rfl
    (show Server.Step _ _ (.published (.cancel ⟨⟨1⟩, ⟨1⟩, .notFound, ⟨0⟩⟩)) _ from
      .publish rfl rfl) rfl rfl)
  have hawaits := (hpublished.step rfl (.workerWakes rfl)).step rfl (.work rfl (.await rfl) rfl rfl)
  have hfits : (responseFrame (.cancel ⟨⟨1⟩, ⟨1⟩, .notFound, ⟨0⟩⟩)).length ≤ 65536 := by
    decide +kernel
  obtain ⟨l, hlast, hstage, hfailed, hfile, hconnections⟩ := hawaits.exists_stopped rfl rfl
    ⟨rfl, rfl⟩ rfl rfl rfl rfl rfl rfl rfl rfl rfl rfl rfl (encodes_of_valid rfl rfl rfl) hfits
  obtain ⟨-, hresults, hframes⟩ := run_drained (2 ^ 56) ⟨1, 1, 1⟩ _ _ true _ {}
    DurableEngine.started_fresh hcreate _ l hlast (by rw [hstage]; trivial)
  obtain ⟨hresults, -, startup, hbytes, hjournal, -⟩ := hresults hfailed
  have hmem : _ ∈ l.gateway.connections := hconnections ▸ List.mem_singleton.mpr rfl
  have hsent := hframes _ hmem rfl
  refine ⟨_, _, l, hcreate, hlast, hstage, ?_, ?_, hresults, ⟨startup, hbytes, hjournal⟩, _, hmem,
    rfl, hsent.trans (List.append_nil _)⟩
  · rfl
  · rfl

end EventLoop

end MatchingEngine
