import Mathlib.Algebra.Ring.Nat
import Mathlib.Data.Nat.Notation
import Mathlib.Data.List.Basic

/-!
# Files and system calls

A file with the part of it that is known to be on stable storage, and the calls on it that can be
interrupted, be cut short or fail. What the operating system does with a call is an input: every
call takes the next outcome of its kind from a list, and succeeds as a whole when the list is used
up. A statement for all lists of outcomes is a statement for every behaviour of the system.

## Main definitions

* `Posix.File`: the content of a file, shorter than `2 ^ 63` bytes.
* `Posix.Outcomes`: what will become of the calls to come.
* `Posix.NoFailure`, `Posix.Reliable`, `Posix.Steady`: no call of a kind fails for good.
* `Posix.write`, `Posix.pread`, `Posix.File.sync`, `Posix.File.truncate`.
-/

namespace Posix

/-- An error number. -/
abbrev Errno := ℕ

def enoent : Errno := 2

def eintr : Errno := 4

def eio : Errno := 5

def eexist : Errno := 17

def efbig : Errno := 27

def eoverflow : Errno := 75

/-- One more than the largest value of `off_t`. -/
def sizeLimit : ℕ := 2 ^ 63

/-- The content of a file, and how much of it is on stable storage. -/
structure File where
  bytes : List UInt8
  synced : ℕ
  length_lt : bytes.length < sizeLimit
  synced_le : synced ≤ bytes.length

namespace File

/-- A file that has just been created. -/
def empty : File := ⟨[], 0, by decide, Nat.le_refl _⟩

/-- How many bytes can still be appended. -/
def room (f : File) : ℕ := sizeLimit - 1 - f.bytes.length

/-- Append as many of the bytes as there is room for. -/
def append (f : File) (data : List UInt8) : File where
  bytes := f.bytes ++ data.take f.room
  synced := f.synced
  length_lt := by
    have := f.length_lt
    rw [List.length_append, List.length_take, room]
    omega
  synced_le := by
    rw [List.length_append]
    exact Nat.le_trans f.synced_le (Nat.le_add_right _ _)

/-- Everything is on stable storage. -/
def sync (f : File) : File := { f with synced := f.bytes.length, synced_le := Nat.le_refl _ }

/-- Cut the file off. -/
def truncate (f : File) (size : ℕ) : File where
  bytes := f.bytes.take size
  synced := min f.synced size
  length_lt := by
    have := f.length_lt
    rw [List.length_take]
    omega
  synced_le := by
    have := f.synced_le
    rw [List.length_take]
    omega

theorem ext_bytes {f f' : File} (hbytes : f.bytes = f'.bytes) (hsynced : f.synced = f'.synced) :
    f = f' := by
  obtain ⟨bytes, synced, _, _⟩ := f
  obtain ⟨bytes', synced', _, _⟩ := f'
  obtain rfl : bytes = bytes' := hbytes
  obtain rfl : synced = synced' := hsynced
  rfl

/-- Bytes that fit are appended as a whole. -/
theorem bytes_append {f : File} {data : List UInt8} (h : data.length ≤ f.room) :
    (f.append data).bytes = f.bytes ++ data :=
  congrArg (f.bytes ++ ·) (List.take_of_length_le h)

theorem room_append {f : File} {data : List UInt8} (h : data.length ≤ f.room) :
    (f.append data).room = f.room - data.length := by
  rw [room, bytes_append h, List.length_append, room, Nat.sub_add_eq]

/-- Bytes that fit can be appended piece by piece. -/
theorem append_append {f : File} {data data' : List UInt8}
    (h : (data ++ data').length ≤ f.room) :
    (f.append data).append data' = f.append (data ++ data') := by
  have hlength : (data ++ data').length = data.length + data'.length := List.length_append
  have hfirst : data.length ≤ f.room := by omega
  refine ext_bytes ?_ rfl
  rw [bytes_append h, bytes_append, bytes_append hfirst, List.append_assoc]
  rw [room_append hfirst]
  omega

@[simp] theorem bytes_sync (f : File) : f.sync.bytes = f.bytes := rfl

@[simp] theorem synced_sync (f : File) : f.sync.synced = f.bytes.length := rfl

@[simp] theorem room_sync (f : File) : f.sync.room = f.room := rfl

/-- Only the last sync counts. -/
theorem sync_append_sync (f : File) (data : List UInt8) :
    (f.sync.append data).sync = (f.append data).sync := rfl

end File

/-! ### Outcomes -/

/-- What becomes of a call of `write`. -/
inductive WriteOutcome where
  /-- At most `n + 1` bytes are written, and at least one if there is room. -/
  | upTo (n : ℕ)
  /-- The call returns `0`. -/
  | nothing
  | failed (e : Errno)
  deriving DecidableEq, Repr

/-- What becomes of a call of `pread`. -/
inductive ReadOutcome where
  /-- At most `n + 1` bytes are read, and at least one if the end is not reached. -/
  | upTo (n : ℕ)
  | failed (e : Errno)
  deriving DecidableEq, Repr

/-- What will become of the calls to come, for each kind of call. -/
structure Outcomes where
  opens : List (Option Errno)
  stats : List (Option Errno)
  reads : List ReadOutcome
  writes : List WriteOutcome
  syncs : List (Option Errno)
  truncates : List (Option Errno)

/-- Every call succeeds as a whole. -/
def Outcomes.calm : Outcomes := ⟨[], [], [], [], [], []⟩

/-- The error of the next call of a kind, if it fails. -/
def failure (outcomes : List (Option Errno)) : Option Errno := outcomes.head?.join

/-- No call of a kind will fail. -/
def NoFailure (outcomes : List (Option Errno)) : Prop := ∀ e, some e ∉ outcomes

/-- Every read that fails is only interrupted. -/
def Reliable (outcomes : List ReadOutcome) : Prop :=
  ∀ e, ReadOutcome.failed e ∈ outcomes → e = eintr

/-- No write fails for good: every write writes something or is interrupted. -/
def Steady (outcomes : List WriteOutcome) : Prop :=
  ∀ outcome ∈ outcomes, (∃ n, outcome = .upTo n) ∨ outcome = .failed eintr

theorem steady_nil : Steady [] := List.forall_mem_nil _

theorem noFailure_nil : NoFailure [] := fun _ => List.not_mem_nil

theorem reliable_nil : Reliable [] := fun _ h => absurd h List.not_mem_nil

theorem NoFailure.failure_eq {outcomes : List (Option Errno)} (h : NoFailure outcomes) :
    failure outcomes = none := by
  rcases outcomes with _ | ⟨_ | e, outcomes⟩
  · rfl
  · rfl
  · exact absurd List.mem_cons_self (h e)

theorem NoFailure.of_suffix {outcomes outcomes' : List (Option Errno)} (h : NoFailure outcomes)
    (hs : outcomes' <:+ outcomes) : NoFailure outcomes' :=
  fun e he => h e (hs.subset he)

theorem Reliable.of_suffix {outcomes outcomes' : List ReadOutcome} (h : Reliable outcomes)
    (hs : outcomes' <:+ outcomes) : Reliable outcomes' :=
  fun e he => h e (hs.subset he)

/-- `write` on a descriptor that was opened for appending: the number of bytes written, or the
error. -/
def write (outcome : WriteOutcome) (f : File) (data : List UInt8) : Except Errno ℕ × File :=
  match outcome with
  | .upTo n =>
    let count := min (n + 1) (min data.length f.room)
    if f.room = 0 then (.error efbig, f) else (.ok count, f.append (data.take count))
  | .nothing => (.ok 0, f)
  | .failed e => (.error e, f)

/-- `pread`: the bytes that were read, none at the end of the file, or the error. -/
def pread (outcome : ReadOutcome) (f : File) (offset count : ℕ) : Except Errno (List UInt8) :=
  match outcome with
  | .upTo n => .ok ((f.bytes.drop offset).take (min (n + 1) count))
  | .failed e => .error e

end Posix
