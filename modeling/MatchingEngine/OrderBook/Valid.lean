import MatchingEngine.OrderBook.Refinement

/-!
# Valid books

A book together with its invariant. On such a book a command always has a result and leaves a
valid book, so the operations are total functions, and everything that is built on top of the
order book uses them in this form.

## Main definitions

* `Book`, `Book.apply`, `Book.run`.

## Main results

* `Book.applyCommand_eq`, `Book.run_eq`: the total functions compute what the source computes.
* `OrderBook.run_fresh_repInvariant`: the representation invariant holds after every sequence of
  calls on a fresh book.
-/

namespace MatchingEngine

/-- An order book that satisfies its invariant. -/
structure Book where
  impl : OrderBook
  inv : impl.Inv

namespace Book

instance : DecidableEq Book := fun b b' =>
  decidable_of_iff (b.impl = b'.impl) ⟨fun h => by cases b; cases b'; congr, congrArg impl⟩

/-- A book as its constructor leaves it. -/
def fresh : Book := ⟨.fresh, OrderBook.fresh_inv⟩

theorem applyCommand_ne_error (b : Book) (command : JournalCommand) (e : Abort) :
    b.impl.applyCommand command ≠ .error e := by
  obtain ⟨b', h, -⟩ := OrderBook.applyCommand_refines b.inv command
  simp [h]

theorem inv_of_applyCommand {b : Book} {command : JournalCommand} {r : BatchCommandResult}
    {b' : OrderBook} (h : b.impl.applyCommand command = .ok (r, b')) : b'.Inv := by
  obtain ⟨b'', h', hinv, -⟩ := OrderBook.applyCommand_refines b.inv command
  rw [h, Except.ok.injEq, Prod.mk.injEq] at h'
  exact h'.2 ▸ hinv

/-- `apply_command` on a valid book. -/
def apply (b : Book) (command : JournalCommand) : BatchCommandResult × Book :=
  match h : b.impl.applyCommand command with
  | .ok (r, b') => (r, ⟨b', inv_of_applyCommand h⟩)
  | .error e => absurd h (b.applyCommand_ne_error command e)

/-- A sequence of commands on a valid book. -/
def run (b : Book) (commands : List JournalCommand) : List BatchCommandResult × Book :=
  runAll apply b commands

theorem applyCommand_eq (b : Book) (command : JournalCommand) :
    b.impl.applyCommand command = .ok ((b.apply command).1, (b.apply command).2.impl) := by
  unfold apply
  split
  · next r b' h => exact h
  · next e h => exact absurd h (b.applyCommand_ne_error command e)

theorem run_eq (b : Book) (commands : List JournalCommand) :
    b.impl.run commands = .ok ((b.run commands).1, (b.run commands).2.impl) := by
  induction commands generalizing b with
  | nil => rfl
  | cons command commands ih =>
    have ih := ih (b.apply command).2
    rw [OrderBook.run] at ih ⊢
    rw [tryRunAll, b.applyCommand_eq]
    dsimp only
    rw [ih]
    rfl

theorem run_append (b : Book) (commands commands' : List JournalCommand) :
    (b.run (commands ++ commands')).2 = ((b.run commands).2.run commands').2 := by
  rw [run, runAll_append]
  rfl

theorem results_append (b : Book) (commands commands' : List JournalCommand) :
    (b.run (commands ++ commands')).1 =
      (b.run commands).1 ++ ((b.run commands).2.run commands').1 := by
  rw [run, runAll_append]
  rfl

/-- The priority book that a valid book represents. -/
def abs (b : Book) : PriorityBook := b.impl.abs

theorem apply_refines (b : Book) (command : JournalCommand) :
    (b.apply command).1 = (b.abs.apply command).1 ∧
      (b.apply command).2.abs = (b.abs.apply command).2 := by
  obtain ⟨b', h, -, habs⟩ := OrderBook.applyCommand_refines b.inv command
  rw [applyCommand_eq, Except.ok.injEq, Prod.mk.injEq] at h
  exact ⟨h.1, (congrArg OrderBook.abs h.2).trans habs⟩

theorem run_refines (b : Book) (commands : List JournalCommand) :
    (b.run commands).1 = (b.abs.run commands).1 ∧
      (b.run commands).2.abs = (b.abs.run commands).2 := by
  obtain ⟨b', h, -, habs⟩ := OrderBook.run_refines b.inv commands
  rw [run_eq, Except.ok.injEq, Prod.mk.injEq] at h
  exact ⟨h.1, (congrArg OrderBook.abs h.2).trans habs⟩

end Book

/-- After every sequence of `submit` and `cancel` calls on a fresh book, with any arguments, the
calls have returned, `invariants_hold` accepts the book, and the book satisfies the representation
invariant; distinct list nodes have distinct addresses, so that a locator determines one position
of one list. -/
theorem OrderBook.run_fresh_repInvariant (commands : List JournalCommand) :
    ∃ results b, OrderBook.fresh.run commands = .ok (results, b) ∧ b.invariantsHold = true ∧
      b.RepInvariant ∧ (b.nodes.map fun n => n.address).Nodup := by
  obtain ⟨b, h, hinv, -⟩ := OrderBook.run_refines OrderBook.fresh_inv commands
  exact ⟨_, b, h, hinv.invariantsHold, hinv.repInvariant, hinv.linked.indexes.addresses_nodup⟩

end MatchingEngine
