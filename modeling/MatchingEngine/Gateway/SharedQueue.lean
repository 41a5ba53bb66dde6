import MatchingEngine.Data.Inevitable
import MatchingEngine.Gateway.Types
import Mathlib.Data.Finset.Card
import Mathlib.Data.Fintype.Basic

/-!
# A queue that threads share

`BoundedQueue` of `include/matching/detail/bounded_queue.hpp` with its mutex and its condition
variable, for any threads. Each section of a function under the mutex is one step. A thread that
sleeps in `wait_pop` goes on when it is notified, or for no reason, and looks at the condition
again. `try_push` and `close` notify after they have left the mutex, so any other thread can come in
between.

An item wakes at most one thread, and this thread may find that another one has taken the item. That
no notification is lost comes from a count: As long as a thread sleeps, there are at least as many
threads that are about to notify one or that have been woken as there are items.

## Main definitions

* `SharedQueue`, `SharedQueue.Step`, `SharedQueue.Call`, `SharedQueue.Run`.
* `SharedQueue.Alert`: whoever sleeps will be woken.

## Main results

* `SharedQueue.Run.values_eq`: every value that is pushed is popped once, in order.
* `SharedQueue.run_wakes`: every thread returns, or sleeps beside an empty queue that is open.
-/

namespace MatchingEngine

namespace SharedQueue

/-- Where a thread is in a function of the queue. -/
inductive Place where
  | outside
  /-- `try_push`, before `notify_one`. -/
  | notifying
  /-- `close`, before `notify_all`. -/
  | broadcasting
  /-- `wait_pop`, about to enter the mutex and to look at the condition. -/
  | checking
  /-- `wait_pop`, waiting on the condition variable. -/
  | asleep
  deriving DecidableEq, Repr

/-- What a step shows of itself. -/
inductive Event (α : Type*) where
  | pushed (value : α)
  | popped (value : α)
  /-- `wait_pop` has returned nothing. -/
  | ended
  | internal

end SharedQueue

/-- A queue, and where each thread is. -/
structure SharedQueue (ι α : Type*) where
  queue : BoundedQueue α
  place : ι → SharedQueue.Place := fun _ => .outside

namespace SharedQueue

variable {ι α : Type*} [DecidableEq ι]

/-- Every thread that sleeps is woken. -/
def wakeAll (place : ι → Place) : ι → Place := fun t =>
  if place t = .asleep then .checking else place t

/-- A thread that is in a function goes on. -/
inductive Step : SharedQueue ι α → Event α → SharedQueue ι α → Prop
  | notifyOne {m : SharedQueue ι α} {t t' : ι} (hplace : m.place t = .notifying)
      (hasleep : m.place t' = .asleep) :
      Step m .internal { m with
        place := Function.update (Function.update m.place t .outside) t' .checking }
  | notifyNobody {m : SharedQueue ι α} {t : ι} (hplace : m.place t = .notifying)
      (hnobody : ∀ t', m.place t' ≠ .asleep) :
      Step m .internal { m with place := Function.update m.place t .outside }
  | notifyAll {m : SharedQueue ι α} {t : ι} (hplace : m.place t = .broadcasting) :
      Step m .internal { m with place := wakeAll (Function.update m.place t .outside) }
  -- the condition of `wait_pop`, and what follows it
  | sleep {m : SharedQueue ι α} {t : ι} (hplace : m.place t = .checking)
      (hopen : m.queue.closed = false) (hempty : m.queue.tryPop = none) :
      Step m .internal { m with place := Function.update m.place t .asleep }
  | waitEnd {m : SharedQueue ι α} {t : ι} (hplace : m.place t = .checking)
      (hclosed : m.queue.closed = true) (hempty : m.queue.tryPop = none) :
      Step m .ended { m with place := Function.update m.place t .outside }
  | waitPop {m : SharedQueue ι α} {t : ι} {value : α} {queue : BoundedQueue α}
      (hplace : m.place t = .checking) (hpop : m.queue.tryPop = some (value, queue)) :
      Step m (.popped value) ⟨queue, Function.update m.place t .outside⟩

/-- A thread calls a function, or is woken for no reason. -/
inductive Call : SharedQueue ι α → Event α → SharedQueue ι α → Prop
  | tryPush {m : SharedQueue ι α} {t : ι} {value : α} {queue : BoundedQueue α}
      (hplace : m.place t = .outside) (hpush : m.queue.tryPush value = some queue) :
      Call m (.pushed value) ⟨queue, Function.update m.place t .notifying⟩
  | refused {m : SharedQueue ι α} {t : ι} {value : α} (hplace : m.place t = .outside)
      (hpush : m.queue.tryPush value = none) : Call m .internal m
  | tryPop {m : SharedQueue ι α} {t : ι} {value : α} {queue : BoundedQueue α}
      (hplace : m.place t = .outside) (hpop : m.queue.tryPop = some (value, queue)) :
      Call m (.popped value) { m with queue := queue }
  | nothing {m : SharedQueue ι α} {t : ι} (hplace : m.place t = .outside)
      (hempty : m.queue.tryPop = none) : Call m .internal m
  | waitPop {m : SharedQueue ι α} {t : ι} (hplace : m.place t = .outside) :
      Call m .internal { m with place := Function.update m.place t .checking }
  | close {m : SharedQueue ι α} {t : ι} (hplace : m.place t = .outside)
      (hopen : m.queue.closed = false) :
      Call m .internal ⟨m.queue.close, Function.update m.place t .broadcasting⟩
  | closeAgain {m : SharedQueue ι α} {t : ι} (hplace : m.place t = .outside)
      (hclosed : m.queue.closed = true) : Call m .internal m
  | spurious {m : SharedQueue ι α} {t : ι} (hplace : m.place t = .asleep) :
      Call m .internal { m with place := Function.update m.place t .checking }

/-- Any interleaving of any threads. -/
inductive Run (start : SharedQueue ι α) : List (Event α) → SharedQueue ι α → Prop
  | refl : Run start [] start
  | step {events : List (Event α)} {event : Event α} {m m' : SharedQueue ι α}
      (h : Run start events m) (hstep : Step m event m') : Run start (events ++ [event]) m'
  | call {events : List (Event α)} {event : Event α} {m m' : SharedQueue ι α}
      (h : Run start events m) (hcall : Call m event m') : Run start (events ++ [event]) m'

/-! ### Values -/

def Event.pushedValues : Event α → List α
  | .pushed value => [value]
  | .popped _ => []
  | .ended => []
  | .internal => []

def Event.poppedValues : Event α → List α
  | .pushed _ => []
  | .popped value => [value]
  | .ended => []
  | .internal => []

/-- The values that were pushed, in order. -/
def pushed (events : List (Event α)) : List α := events.flatMap Event.pushedValues

/-- The values that were popped, in order. -/
def popped (events : List (Event α)) : List α := events.flatMap Event.poppedValues

section Values

variable {start m m' : SharedQueue ι α} {event : Event α} {events : List (Event α)}

theorem Step.values_eq (hstep : Step m event m') :
    m.queue.items ++ event.pushedValues = event.poppedValues ++ m'.queue.items := by
  cases hstep with
  | waitPop _ hpop =>
    rw [(BoundedQueue.tryPop_eq_some hpop).1]
    exact List.append_nil _
  | _ => exact List.append_nil _

theorem Call.values_eq (hcall : Call m event m') :
    m.queue.items ++ event.pushedValues = event.poppedValues ++ m'.queue.items := by
  cases hcall with
  | tryPush _ hpush => exact (BoundedQueue.tryPush_eq_some hpush).1.symm
  | tryPop _ hpop =>
    rw [(BoundedQueue.tryPop_eq_some hpop).1]
    exact List.append_nil _
  | _ => exact List.append_nil _

/-- What was pushed has been popped, in the same order, but for the items of the queue. -/
theorem Run.values_eq (hrun : Run start events m) (hempty : start.queue.items = []) :
    pushed events = popped events ++ m.queue.items := by
  have happend {events : List (Event α)} {event : Event α} {items items' : List α}
      (ih : pushed events = popped events ++ items)
      (heq : items ++ event.pushedValues = event.poppedValues ++ items') :
      pushed (events ++ [event]) = popped (events ++ [event]) ++ items' := by
    rw [pushed, popped, List.flatMap_append, List.flatMap_append, List.flatMap_singleton,
      List.flatMap_singleton, List.append_assoc, ← heq, ← List.append_assoc]
    exact congrArg (· ++ _) ih
  induction hrun with
  | refl =>
    rw [hempty]
    rfl
  | step _ hstep ih => exact happend ih hstep.values_eq
  | call _ hcall ih => exact happend ih hcall.values_eq

/-- The queue is closed, and nothing is left in it. -/
def Drained (m : SharedQueue ι α) : Prop := m.queue.closed = true ∧ m.queue.items = []

omit [DecidableEq ι] in
theorem Drained.not_tryPop (h : m.Drained) {value : α} {queue : BoundedQueue α} :
    m.queue.tryPop ≠ some (value, queue) := by
  rw [BoundedQueue.tryPop_eq_none h.2]
  exact (Option.some_ne_none _).symm

theorem Drained.step (h : m.Drained) (hstep : Step m event m') : m'.Drained := by
  cases hstep with
  | waitPop _ hpop => exact absurd hpop h.not_tryPop
  | _ => exact h

theorem Drained.call (h : m.Drained) (hcall : Call m event m') : m'.Drained := by
  cases hcall with
  | tryPush _ hpush => cases (BoundedQueue.tryPush_eq_some hpush).2.2.1.symm.trans h.1
  | tryPop _ hpop => exact absurd hpop h.not_tryPop
  | close => exact ⟨rfl, h.2⟩
  | _ => exact h

theorem items_eq_nil {queue : BoundedQueue α} (h : queue.tryPop = none) : queue.items = [] := by
  cases hitems : queue.items with
  | nil => rfl
  | cons value items =>
    obtain ⟨queue', hpop⟩ := BoundedQueue.exists_tryPop_eq_some hitems
    cases h.symm.trans hpop

/-- `wait_pop` returns nothing only if the queue is closed and empty, and then it stays so. -/
theorem Run.drained (hrun : Run start events m) (hended : .ended ∈ events) : m.Drained := by
  induction hrun with
  | refl => exact absurd hended List.not_mem_nil
  | step _ hstep ih =>
    rcases List.mem_append.mp hended with hold | hnew
    · exact (ih hold).step hstep
    · obtain rfl := List.mem_singleton.mp hnew
      cases hstep with
      | waitEnd _ hclosed hempty => exact ⟨hclosed, items_eq_nil hempty⟩
  | call _ hcall ih =>
    rcases List.mem_append.mp hended with hold | hnew
    · exact (ih hold).call hcall
    · obtain rfl := List.mem_singleton.mp hnew
      cases hcall

end Values

/-! ### Counting threads -/

section Counting

variable [Fintype ι] {place : ι → Place} {t : ι} {p p' q : Place}

/-- The number of threads at a place. -/
def standing (place : ι → Place) (p : Place) : ℕ := (Finset.univ.filter (place · = p)).card

omit [DecidableEq ι] in
theorem standing_pos : 0 < standing place p ↔ ∃ t, place t = p := by
  rw [standing, Finset.card_pos]
  exact ⟨fun ⟨t, ht⟩ => ⟨t, (Finset.mem_filter.mp ht).2⟩,
    fun ⟨t, ht⟩ => ⟨t, Finset.mem_filter.mpr ⟨Finset.mem_univ t, ht⟩⟩⟩

omit [DecidableEq ι] in
theorem standing_eq_zero (h : ∀ t, place t ≠ p) : standing place p = 0 :=
  Nat.eq_zero_of_not_pos fun hpos => (standing_pos.mp hpos).elim h

/-- A thread arrives. -/
theorem standing_update_self (hplace : place t ≠ p) :
    standing (Function.update place t p) p = standing place p + 1 := by
  have hset : Finset.univ.filter (Function.update place t p · = p) =
      insert t (Finset.univ.filter (place · = p)) := by
    ext t'
    by_cases ht : t' = t
    · simp [ht]
    · simp [ht]
  rw [standing, hset, Finset.card_insert_of_notMem (by simp [hplace]), standing]

/-- A thread leaves. -/
theorem standing_update_left (hplace : place t = p) (hne : p' ≠ p) :
    standing (Function.update place t p') p + 1 = standing place p := by
  have harrive : standing (Function.update (Function.update place t p') t p) p =
      standing (Function.update place t p') p + 1 :=
    standing_update_self (by rwa [Function.update_self])
  rwa [Function.update_idem, ← hplace, Function.update_eq_self, hplace, eq_comm] at harrive

theorem standing_update_of_ne (hplace : place t ≠ q) (hne : p ≠ q) :
    standing (Function.update place t p) q = standing place q := by
  refine congrArg Finset.card (Finset.filter_congr fun t' _ => ?_)
  by_cases ht : t' = t
  · rw [ht, Function.update_self]
    exact iff_of_false hne hplace
  · rw [Function.update_of_ne ht]

omit [DecidableEq ι] in
theorem standing_wakeAll (hasleep : p ≠ .asleep) (hchecking : p ≠ .checking) :
    standing (wakeAll place) p = standing place p := by
  refine congrArg Finset.card (Finset.filter_congr fun t _ => ?_)
  rw [wakeAll]
  split
  · next heq =>
    rw [heq]
    exact iff_of_false hchecking.symm hasleep.symm
  · rfl

/-- A thread has notified another one. -/
theorem standing_notifyOne {t' : ι} (hplace : place t = .notifying)
    (hasleep : place t' = .asleep) :
    let place' := Function.update (Function.update place t .outside) t' .checking
    standing place' .notifying + 1 = standing place .notifying ∧
      standing place' .checking = standing place .checking + 1 ∧
      standing place' .broadcasting = standing place .broadcasting := by
  have hne : t' ≠ t := by
    rintro rfl
    cases hplace.symm.trans hasleep
  have hasleep' : Function.update place t .outside t' = .asleep := by
    rw [Function.update_of_ne hne, hasleep]
  intro place'
  refine ⟨?_, ?_, ?_⟩
  · rw [standing_update_of_ne (by rw [hasleep']; decide) (by decide),
      standing_update_left hplace (by decide)]
  · rw [standing_update_self (by rw [hasleep']; decide),
      standing_update_of_ne (by rw [hplace]; decide) (by decide)]
  · rw [standing_update_of_ne (by rw [hasleep']; decide) (by decide),
      standing_update_of_ne (by rw [hplace]; decide) (by decide)]

end Counting

/-! ### Notifications -/

/-- If a thread sleeps, every item has a thread that was woken or is about to wake one, and a queue
that is closed has a thread that is about to wake all. -/
def Alert [Fintype ι] (m : SharedQueue ι α) : Prop :=
  ∀ t, m.place t = .asleep →
    m.queue.items.length ≤ standing m.place .notifying + standing m.place .checking ∧
      (m.queue.closed = true → 0 < standing m.place .broadcasting)

section Alert

variable [Fintype ι] {m m' : SharedQueue ι α} {event : Event α}

omit [Fintype ι] in
/-- A thread that sleeps after another one has moved to a place where none sleeps slept before. -/
theorem asleep_of_update {place : ι → Place} {t t' : ι} {p : Place} (hne : p ≠ .asleep)
    (h : Function.update place t p t' = .asleep) : place t' = .asleep := by
  by_cases ht : t' = t
  · rw [ht, Function.update_self] at h
    exact absurd h hne
  · rwa [Function.update_of_ne ht] at h

omit [DecidableEq ι] [Fintype ι] in
theorem wakeAll_ne (place : ι → Place) (t : ι) : wakeAll place t ≠ .asleep := by
  rw [wakeAll]
  split
  · exact Place.noConfusion
  · next hne => exact hne

theorem Alert.step (h : m.Alert) (hstep : Step m event m') : m'.Alert := by
  cases hstep with
  | notifyOne hplace hasleep =>
    -- the notification goes over from one thread to the other
    intro _ _
    obtain ⟨hle, hbroadcast⟩ := h _ hasleep
    obtain ⟨hnotifying, hchecking, hsame⟩ := standing_notifyOne hplace hasleep
    dsimp only at hnotifying hchecking hsame ⊢
    exact ⟨by omega, hsame ▸ hbroadcast⟩
  | notifyNobody hplace hnobody =>
    exact fun t' hasleep => absurd (asleep_of_update (by decide) hasleep) (hnobody t')
  | notifyAll => exact fun t' hasleep => absurd hasleep (wakeAll_ne _ t')
  | sleep hplace hopen hempty =>
    intro _ _
    dsimp only
    rw [items_eq_nil hempty, hopen]
    exact ⟨Nat.zero_le _, Bool.noConfusion⟩
  | waitEnd hplace hclosed hempty =>
    intro t' hasleep
    obtain ⟨-, hbroadcast⟩ := h t' (asleep_of_update (by decide) hasleep)
    dsimp only
    rw [items_eq_nil hempty, standing_update_of_ne (q := .broadcasting) (by rw [hplace]; decide)
      (by decide)]
    exact ⟨Nat.zero_le _, hbroadcast⟩
  | waitPop hplace hpop =>
    obtain ⟨hitems, -, hclosed⟩ := BoundedQueue.tryPop_eq_some hpop
    intro t' hasleep
    obtain ⟨hle, hbroadcast⟩ := h t' (asleep_of_update (by decide) hasleep)
    have hleft := standing_update_left hplace (show Place.outside ≠ .checking by decide)
    dsimp only
    rw [hclosed, standing_update_of_ne (q := .notifying) (by rw [hplace]; decide) (by decide),
      standing_update_of_ne (q := .broadcasting) (by rw [hplace]; decide) (by decide)]
    rw [hitems, List.length_cons] at hle
    exact ⟨by omega, hbroadcast⟩

theorem Alert.call (h : m.Alert) (hcall : Call m event m') : m'.Alert := by
  cases hcall with
  | tryPush hplace hpush =>
    obtain ⟨hitems, -, hopen, hopen'⟩ := BoundedQueue.tryPush_eq_some hpush
    intro t' hasleep
    obtain ⟨hle, -⟩ := h t' (asleep_of_update (by decide) hasleep)
    dsimp only
    rw [hitems, hopen', List.length_append, List.length_singleton,
      standing_update_self (by rw [hplace]; decide),
      standing_update_of_ne (by rw [hplace]; decide) (by decide)]
    exact ⟨by omega, Bool.noConfusion⟩
  | tryPop hplace hpop =>
    obtain ⟨hitems, -, hclosed⟩ := BoundedQueue.tryPop_eq_some hpop
    intro t' hasleep
    obtain ⟨hle, hbroadcast⟩ := h t' hasleep
    dsimp only
    rw [hclosed]
    rw [hitems, List.length_cons] at hle
    exact ⟨by omega, hbroadcast⟩
  | waitPop hplace | spurious hplace =>
    intro t' hasleep
    obtain ⟨hle, hbroadcast⟩ := h t' (asleep_of_update (by decide) hasleep)
    dsimp only
    rw [standing_update_self (by rw [hplace]; decide),
      standing_update_of_ne (q := .notifying) (by rw [hplace]; decide) (by decide),
      standing_update_of_ne (q := .broadcasting) (by rw [hplace]; decide) (by decide)]
    exact ⟨by omega, hbroadcast⟩
  | close hplace =>
    intro t' hasleep
    obtain ⟨hle, -⟩ := h t' (asleep_of_update (by decide) hasleep)
    dsimp only
    rw [standing_update_self (by rw [hplace]; decide),
      standing_update_of_ne (q := .notifying) (by rw [hplace]; decide) (by decide),
      standing_update_of_ne (q := .checking) (by rw [hplace]; decide) (by decide)]
    exact ⟨hle, fun _ => Nat.succ_pos _⟩
  | refused | nothing | closeAgain => exact h

/-- A queue that was constructed, before any call. -/
def ofCapacity (capacity : ℕ) : SharedQueue ι α := { queue := .ofCapacity capacity }

theorem Run.alert {capacity : ℕ} {events : List (Event α)}
    (hrun : Run (ofCapacity capacity) events m) : m.Alert := by
  induction hrun with
  | refl => exact fun _ h => Place.noConfusion h
  | step _ hstep ih => exact ih.step hstep
  | call _ hcall ih => exact ih.call hcall

end Alert

/-! ### Every thread returns or sleeps -/

/-- A thread goes on, whatever it shows. -/
def Proceeds (m m' : SharedQueue ι α) : Prop := ∃ event, Step m event m'

/-- Every thread is outside, or sleeps beside an open queue without an item. -/
def Resting (m : SharedQueue ι α) : Prop :=
  ∀ t, m.place t = .outside ∨
    m.place t = .asleep ∧ m.queue.items = [] ∧ m.queue.closed = false

section Rest

variable [Fintype ι] {m m' : SharedQueue ι α} {event : Event α}

/-- A step is the last one of a thread that notifies, or of a look at the condition. -/
theorem Step.decreases (hstep : Step m event m') :
    standing m'.place .notifying + standing m'.place .broadcasting <
        standing m.place .notifying + standing m.place .broadcasting ∨
      standing m'.place .notifying + standing m'.place .broadcasting =
          standing m.place .notifying + standing m.place .broadcasting ∧
        standing m'.place .checking < standing m.place .checking := by
  cases hstep with
  | notifyOne hplace hasleep =>
    obtain ⟨hnotifying, hchecking, hsame⟩ := standing_notifyOne hplace hasleep
    left
    dsimp only at hnotifying hchecking hsame ⊢
    omega
  | notifyNobody hplace =>
    have hleft := standing_update_left hplace (show Place.outside ≠ .notifying by decide)
    left
    dsimp only
    rw [standing_update_of_ne (q := .broadcasting) (by rw [hplace]; decide) (by decide)]
    omega
  | notifyAll hplace =>
    have hleft := standing_update_left hplace (show Place.outside ≠ .broadcasting by decide)
    left
    dsimp only
    rw [standing_wakeAll (by decide) (by decide), standing_wakeAll (by decide) (by decide),
      standing_update_of_ne (q := .notifying) (by rw [hplace]; decide) (by decide)]
    omega
  | sleep hplace =>
    have hleft := standing_update_left hplace (show Place.asleep ≠ .checking by decide)
    right
    dsimp only
    rw [standing_update_of_ne (q := .notifying) (by rw [hplace]; decide) (by decide),
      standing_update_of_ne (q := .broadcasting) (by rw [hplace]; decide) (by decide)]
    exact ⟨rfl, by omega⟩
  | waitEnd hplace | waitPop hplace =>
    have hleft := standing_update_left hplace (show Place.outside ≠ .checking by decide)
    right
    dsimp only
    rw [standing_update_of_ne (q := .notifying) (by rw [hplace]; decide) (by decide),
      standing_update_of_ne (q := .broadcasting) (by rw [hplace]; decide) (by decide)]
    exact ⟨rfl, by omega⟩

/-- A thread that is in a function and does not sleep can go on. -/
theorem exists_proceeds {t : ι} (houtside : m.place t ≠ .outside) (hawake : m.place t ≠ .asleep) :
    ∃ m', m.Proceeds m' := by
  cases hplace : m.place t with
  | outside => exact absurd hplace houtside
  | asleep => exact absurd hplace hawake
  | notifying =>
    by_cases hnobody : ∀ t', m.place t' ≠ .asleep
    · exact ⟨_, _, .notifyNobody hplace hnobody⟩
    · push Not at hnobody
      obtain ⟨t', hasleep⟩ := hnobody
      exact ⟨_, _, .notifyOne hplace hasleep⟩
  | broadcasting => exact ⟨_, _, .notifyAll hplace⟩
  | checking =>
    cases hpop : m.queue.tryPop with
    | some popped => exact ⟨_, _, .waitPop hplace hpop⟩
    | none =>
      cases hclosed : m.queue.closed with
      | false => exact ⟨_, _, .sleep hplace hclosed hpop⟩
      | true => exact ⟨_, _, .waitEnd hplace hclosed hpop⟩

/-- Where no thread can go on, the threads rest. -/
theorem Alert.resting (h : m.Alert) (hstuck : ¬ ∃ m', m.Proceeds m') : m.Resting := by
  have hplaces (t : ι) : m.place t = .outside ∨ m.place t = .asleep := by
    by_contra hnot
    rw [not_or] at hnot
    exact hstuck (exists_proceeds hnot.1 hnot.2)
  have hnone {p : Place} (houtside : p ≠ .outside) (hasleep : p ≠ .asleep) :
      standing m.place p = 0 := by
    refine standing_eq_zero fun t heq => ?_
    rcases hplaces t with ht | ht
    · exact houtside (heq.symm.trans ht)
    · exact hasleep (heq.symm.trans ht)
  intro t
  refine (hplaces t).imp_right fun hasleep => ⟨hasleep, ?_, ?_⟩
  · have hle := (h t hasleep).1
    rw [hnone (by decide) (by decide), hnone (by decide) (by decide)] at hle
    exact List.eq_nil_of_length_eq_zero (Nat.le_zero.mp hle)
  · refine Bool.eq_false_of_not_eq_true fun hclosed => ?_
    have hpos := (h t hasleep).2 hclosed
    rw [hnone (by decide) (by decide)] at hpos
    exact lt_irrefl 0 hpos

/-- In every interleaving of any threads on a queue that was constructed: What was pushed has been
popped once, in the same order, or is in the queue. If a `wait_pop` has returned nothing, the queue
is closed and everything has been popped. However the threads that are in a function go on, each of
them returns, unless it sleeps while the queue is open and without an item: no notification is lost.
-/
theorem run_wakes (capacity : ℕ) (events : List (Event α)) (m : SharedQueue ι α)
    (hrun : Run (ofCapacity capacity) events m) :
    pushed events = popped events ++ m.queue.items ∧
      (.ended ∈ events → m.queue.closed = true ∧ pushed events = popped events) ∧
      Inevitable Proceeds Resting m := by
  have hvalues := hrun.values_eq rfl
  refine ⟨hvalues, fun hended => ?_, ?_⟩
  · obtain ⟨hclosed, hitems⟩ := hrun.drained hended
    rw [hitems, List.append_nil] at hvalues
    exact ⟨hclosed, hvalues⟩
  · refine Inevitable.of_measure (WellFounded.prod_lex Nat.lt_wfRel.wf Nat.lt_wfRel.wf)
      (fun m : SharedQueue ι α => (standing m.place .notifying + standing m.place .broadcasting,
        standing m.place .checking)) ?_ ?_ ?_ hrun.alert
    · rintro m m' halert ⟨event, hstep⟩
      exact halert.step hstep
    · rintro m m' - ⟨event, hstep⟩
      rcases hstep.decreases with hlt | ⟨heq, hlt⟩
      · exact Prod.Lex.left _ _ hlt
      · rw [heq]
        exact Prod.Lex.right _ hlt
    · intro m halert hnot
      by_contra hstuck
      exact hnot (halert.resting hstuck)

end Rest

/-- One thread sleeps in `wait_pop` while another one has pushed a value and not notified yet. -/
theorem run_wakes_sleeper :
    ∃ m : SharedQueue (Fin 2) ℕ, Run (ofCapacity 1) [.internal, .internal, .pushed 5] m ∧
      m.place 0 = .asleep ∧ m.queue.items = [5] ∧ Inevitable Proceeds Resting m := by
  have hstart : Run (ofCapacity 1 : SharedQueue (Fin 2) ℕ) [] _ := .refl
  have hasleep := (hstart.call (.waitPop (t := 0) rfl)).step (.sleep (t := 0) rfl rfl rfl)
  have hpushed := hasleep.call (show Call _ (.pushed 5) _ from .tryPush (t := 1) rfl rfl)
  exact ⟨_, hpushed, rfl, rfl, (run_wakes 1 _ _ hpushed).2.2⟩

end SharedQueue

end MatchingEngine
