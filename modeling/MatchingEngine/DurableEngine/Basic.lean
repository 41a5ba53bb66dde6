import MatchingEngine.OrderBook.Valid
import MatchingEngine.Storage.Basic

/-!
# The durable engine

The engine of `src/durable_engine.cpp`: a book and the journal that its commands are written to
before they are applied. The book is a valid one, so applying a command always has a result.

An exception can be thrown while a batch is prepared for the journal, and before a command of a
batch is applied. What throws there (a lack of memory, or the test hook) is not modelled; that it
throws is an argument. That there is memory for a fresh book and for the records of a scan is taken
for granted in `create` and `recover`.

## Main definitions

* `DurableEngine.create`, `DurableEngine.recover`, `DurableEngine.executeBatch`.
* `DurableEngine.Call`, `DurableEngine.execute`: a call of `execute_batch` on an engine and a file.
-/

namespace MatchingEngine

open Posix

inductive DurableEngineErrorCode where
  | journalFailure
  | applicationFailure
  | recoveryReplayFailure
  | engineFailed
  deriving DecidableEq, Repr

structure DurableEngineError where
  code : DurableEngineErrorCode
  journalError : Option JournalStorageError := none
  deriving DecidableEq, Repr

inductive DurableEngineState where
  | healthy
  | failed
  deriving DecidableEq, Repr

def journalFailure (e : JournalStorageError) : DurableEngineError :=
  { code := .journalFailure, journalError := some e }

def applicationFailure (code : DurableEngineErrorCode) : DurableEngineError :=
  { code := code, journalError := none }

/-- `apply_record`. -/
def applyRecord (orderBook : Book) (record : JournalRecord) : Book :=
  (orderBook.apply record.command).2

/-- The loop of `execute_batch` that applies the commands: the results, unless an exception is
thrown before the command with a given index, and the book. -/
def applyCommands (orderBook : Book) :
    Option ℕ → List JournalCommand → Option (List BatchCommandResult) × Book
  | _, [] => (some [], orderBook)
  | some 0, _ :: _ => (none, orderBook)
  | throwsAt, command :: commands =>
    let applied := orderBook.apply command
    let r := applyCommands applied.2 (throwsAt.map fun index => index - 1) commands
    (r.1.map fun results => applied.1 :: results, r.2)

structure DurableEngine where
  orderBook : Book
  writer : JournalWriter
  state : DurableEngineState := .healthy

namespace DurableEngine

/-- `DurableEngine::create` on a path where there may be a file. -/
def create (path : Option File) (outcomes : Outcomes) :
    Except DurableEngineError DurableEngine × Option File × Outcomes :=
  match JournalWriter.create path outcomes with
  | (.error e, f, outcomes) => (.error (journalFailure e), f, outcomes)
  | (.ok writer, f, outcomes) => (.ok { orderBook := Book.fresh, writer := writer }, f, outcomes)

/-- `replay`. -/
def replay (orderBook : Book) (records : List JournalRecord) : Book :=
  records.foldl applyRecord orderBook

/-- The part of `recover` for a journal with a truncated tail: repair it and scan it again. -/
def recoverRepaired (d : Disk) : Except DurableEngineError DurableEngine × Disk :=
  match JournalWriter.repairTruncatedTailAndOpen d with
  | (.error e, d) => (.error (journalFailure e), d)
  | (.ok repairedWriter, d) =>
    match JournalReader.scan d with
    | (.error e, d) => (.error (journalFailure e), d)
    | (.ok scan, d) =>
      if scan.hasTruncatedTail then (.error (applicationFailure .recoveryReplayFailure), d)
      else (.ok { orderBook := replay Book.fresh scan.records, writer := repairedWriter }, d)

/-- The part of `recover` for a journal without a tail. -/
def recoverIntact (d : Disk) (scan : JournalScan) :
    Except DurableEngineError DurableEngine × Disk :=
  let orderBook := replay Book.fresh scan.records
  match JournalWriter.openRecovered d with
  | (.error e, d) => (.error (journalFailure e), d)
  | (.ok writer, d) => (.ok { orderBook := orderBook, writer := writer }, d)

/-- `DurableEngine::recover`. -/
def recover (d : Disk) : Except DurableEngineError DurableEngine × Disk :=
  match JournalReader.scan d with
  | (.error e, d) => (.error (journalFailure e), d)
  | (.ok scan, d) => if scan.hasTruncatedTail then recoverRepaired d else recoverIntact d scan

/-- `DurableEngine::execute_batch`. -/
def executeBatch (engine : DurableEngine) (d : Disk) (commands : List JournalCommand)
    (prepareThrows : Bool) (throwsAt : Option ℕ) :
    Except DurableEngineError (List BatchCommandResult) × DurableEngine × Disk :=
  if engine.state = .failed then (.error (applicationFailure .engineFailed), engine, d)
  else
    match engine.writer.appendBatchAndSync d commands prepareThrows with
    | (.error e, writer, d) =>
      (.error (journalFailure e), { engine with writer := writer, state := .failed }, d)
    | (.ok _, writer, d) =>
      match applyCommands engine.orderBook throwsAt commands with
      | (some results, orderBook) =>
        (.ok results, { engine with orderBook := orderBook, writer := writer }, d)
      | (none, orderBook) =>
        (.error (applicationFailure .applicationFailure),
          { orderBook := orderBook, writer := writer, state := .failed }, d)

/-- A call of `execute_batch`, with what becomes of its system calls and where it throws. -/
structure Call where
  batch : List JournalCommand
  prepareThrows : Bool
  throwsAt : Option ℕ
  outcomes : Outcomes

abbrev BatchResult := Except DurableEngineError (List BatchCommandResult)

/-- The call on an engine and its file. -/
def execute (s : DurableEngine × File) (call : Call) : BatchResult × DurableEngine × File :=
  let r := s.1.executeBatch (onFile call.outcomes s.2) call.batch call.prepareThrows call.throwsAt
  (r.1, r.2.1, r.2.2.file)

end DurableEngine

end MatchingEngine
