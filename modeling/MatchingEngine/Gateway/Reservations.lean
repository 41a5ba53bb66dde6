import MatchingEngine.Gateway.Types
import Mathlib.Data.List.Induction
import Mathlib.Data.List.Perm.Basic

/-!
# Reservations

`InFlightReservation` of `include/matching/gateway_types.hpp` and `src/gateway_types.cpp`, and what
a program can do with its objects: A reservation is acquired from the limiter or constructed without
one, moved to a new object or to one that exists, also to itself, released by hand, any number of
times, and destroyed. The program ends where `release_one` finds nothing to release.

The queues and the batches of the server move its reservations around in this way. Whatever they do,
`release_one` always finds something to release, and the limiter counts the objects that hold a
reservation.

## Main definitions

* `InFlightReservation`, `Custody`: a limiter and the reservation objects there are.
* `Custody.Operation`, `Custody.perform`.

## Main results

* `Custody.Balanced.perform`: an operation succeeds and keeps the balance.
* `Custody.perform_balanced`: any sequence of operations.
-/

namespace MatchingEngine

namespace InFlightLimiter

theorem maximumObserved_of_tryAcquire {l l' : InFlightLimiter} (h : l.tryAcquire = some l') :
    l'.maximumObserved = max l.maximumObserved l'.inFlight := by
  rw [tryAcquire] at h
  split at h
  · cases h
  · cases h
    dsimp only
    split <;> omega

theorem maximumObserved_of_releaseOne {l l' : InFlightLimiter} (h : l.releaseOne = some l') :
    l'.maximumObserved = l.maximumObserved := by
  rw [releaseOne] at h
  split at h
  · cases h
  · cases h
    rfl

end InFlightLimiter

/-- A reservation, of the one limiter that there is. -/
structure InFlightReservation where
  /-- `owner_` is not null. -/
  owned : Bool := false
  deriving DecidableEq, Repr

namespace InFlightReservation

def active (r : InFlightReservation) : Bool := r.owned

/-- `std::exchange(other.owner_, nullptr)`: what is taken, and what is left. -/
def exchange (other : InFlightReservation) : InFlightReservation × InFlightReservation :=
  (other, {})

/-- `release`, which the destructor calls, too. -/
def release (r : InFlightReservation) (limiter : InFlightLimiter) :
    Option (InFlightReservation × InFlightLimiter) :=
  if r.owned then limiter.releaseOne.map fun limiter => ({}, limiter)
  else some (r, limiter)

end InFlightReservation

/-- A limiter, and the reservation objects there are. -/
structure Custody where
  limiter : InFlightLimiter
  objects : List InFlightReservation := []

namespace Custody

/-- What a program does with a reservation object. Objects are named by their places in the list. -/
inductive Operation where
  /-- The default constructor. -/
  | construct
  /-- `try_acquire`. -/
  | acquire
  /-- The move constructor. -/
  | move (source : ℕ)
  /-- The move assignment. -/
  | assign (target source : ℕ)
  | release (object : ℕ)
  /-- The destructor. -/
  | destroy (object : ℕ)
  deriving DecidableEq, Repr

/-- An operation, or nothing if the program is terminated. There is nothing to do with an object
that does not exist. -/
def perform (c : Custody) : Operation → Option Custody
  | .construct => some { c with objects := c.objects ++ [{}] }
  | .acquire =>
    match c.limiter.tryAcquire with
    | none => some c
    | some limiter => some ⟨limiter, c.objects ++ [⟨true⟩]⟩
  | .move source =>
    match c.objects[source]? with
    | none => some c
    | some other =>
      some { c with objects := c.objects.set source other.exchange.2 ++ [other.exchange.1] }
  | .assign target source =>
    -- `this != &other`
    if target = source then some c
    else
      match c.objects[target]?, c.objects[source]? with
      | some r, some other =>
        (r.release c.limiter).map fun released =>
          ⟨released.2, (c.objects.set target other.exchange.1).set source other.exchange.2⟩
      | _, _ => some c
  | .release object =>
    match c.objects[object]? with
    | none => some c
    | some r => (r.release c.limiter).map fun released =>
        ⟨released.2, c.objects.set object released.1⟩
  | .destroy object =>
    match c.objects[object]? with
    | none => some c
    | some r => (r.release c.limiter).map fun released =>
        ⟨released.2, c.objects.eraseIdx object⟩

/-- The number of objects that hold a reservation. -/
def activeCount (c : Custody) : ℕ := c.objects.countP InFlightReservation.active

/-- The limiter counts the objects that hold a reservation, and there have never been more of them
than `maximum_observed`. -/
structure Balanced (c : Custody) : Prop where
  inFlight_eq : c.limiter.inFlight = c.activeCount
  le_maximum : c.activeCount ≤ c.limiter.maximumObserved

/-! ### One operation -/

section Count

variable {objects : List InFlightReservation} {i : ℕ} {r : InFlightReservation}

/-- What an object counts for. -/
def held (r : InFlightReservation) : ℕ := if r.active then 1 else 0

theorem countP_eraseIdx (h : objects[i]? = some r) :
    (objects.eraseIdx i).countP InFlightReservation.active + held r =
      objects.countP InFlightReservation.active := by
  obtain ⟨hi, rfl⟩ := List.getElem?_eq_some_iff.mp h
  have hcount := (List.getElem_cons_eraseIdx_perm hi).countP_eq InFlightReservation.active
  rw [List.countP_cons] at hcount
  exact hcount

theorem countP_set (h : objects[i]? = some r) (r' : InFlightReservation) :
    (objects.set i r').countP InFlightReservation.active + held r =
      objects.countP InFlightReservation.active + held r' := by
  have herase := countP_eraseIdx h
  obtain ⟨hi, -⟩ := List.getElem?_eq_some_iff.mp h
  have hcount := (List.set_perm_cons_eraseIdx hi r').countP_eq InFlightReservation.active
  rw [List.countP_cons] at hcount
  rw [hcount, ← herase, held, held]
  omega

end Count

section Perform

variable {c c' : Custody} {i : ℕ} {r : InFlightReservation}

/-- A reservation object of a balanced limiter can be released, and holds nothing then. -/
theorem Balanced.exists_release (h : c.Balanced) (hr : c.objects[i]? = some r) :
    ∃ limiter, r.release c.limiter = some ({}, limiter) ∧
      limiter.inFlight + held r = c.activeCount ∧
      limiter.maximumObserved = c.limiter.maximumObserved ∧
      limiter.capacity = c.limiter.capacity := by
  obtain ⟨owned⟩ := r
  cases owned with
  | false => exact ⟨c.limiter, rfl, h.inFlight_eq, rfl, rfl⟩
  | true =>
    have hpos : 0 < c.limiter.inFlight := by
      rw [h.inFlight_eq, activeCount, ← countP_eraseIdx hr]
      exact Nat.succ_pos _
    obtain ⟨limiter, hrelease⟩ := InFlightLimiter.exists_releaseOne_eq_some hpos
    obtain ⟨hinFlight, hcapacity⟩ := InFlightLimiter.releaseOne_eq_some hrelease
    refine ⟨limiter, ?_, ?_, InFlightLimiter.maximumObserved_of_releaseOne hrelease, hcapacity⟩
    · rw [InFlightReservation.release, if_pos rfl, hrelease]
      rfl
    · rw [← h.inFlight_eq, hinFlight]
      rfl

/-- What an operation leaves behind: the balance, and the greatest number of reservations. -/
structure Performed (c c' : Custody) : Prop where
  balanced : c'.Balanced
  capacity_eq : c'.limiter.capacity = c.limiter.capacity
  maximum_eq : c'.limiter.maximumObserved = max c.limiter.maximumObserved c'.activeCount

/-- An operation that acquires nothing. -/
theorem Performed.of_le (h : c.Balanced) (hinFlight : c'.limiter.inFlight = c'.activeCount)
    (hle : c'.activeCount ≤ c.activeCount) (hcapacity : c'.limiter.capacity = c.limiter.capacity)
    (hmaximum : c'.limiter.maximumObserved = c.limiter.maximumObserved) : Performed c c' := by
  have hle' := hle.trans h.le_maximum
  exact ⟨⟨hinFlight, hmaximum ▸ hle'⟩, hcapacity, by rw [hmaximum, max_eq_left hle']⟩

theorem Performed.refl (h : c.Balanced) : Performed c c :=
  .of_le h h.inFlight_eq le_rfl rfl rfl

theorem performed_acquire (h : c.Balanced) {limiter : InFlightLimiter}
    (hacquire : c.limiter.tryAcquire = some limiter) :
    Performed c ⟨limiter, c.objects ++ [⟨true⟩]⟩ := by
  obtain ⟨hinFlight, hcapacity⟩ := InFlightLimiter.tryAcquire_eq_some hacquire
  have hcount : (Custody.mk limiter (c.objects ++ [⟨true⟩])).activeCount = c.activeCount + 1 :=
    List.countP_append
  have hmaximum : limiter.maximumObserved =
      max c.limiter.maximumObserved (c.activeCount + 1) := by
    rw [InFlightLimiter.maximumObserved_of_tryAcquire hacquire, hinFlight, h.inFlight_eq]
  rw [h.inFlight_eq] at hinFlight
  exact ⟨⟨hinFlight.trans hcount.symm, by rw [hcount, hmaximum]; exact le_max_right _ _⟩, hcapacity,
    by rw [hcount, hmaximum]⟩

theorem performed_assign (h : c.Balanced) {target source : ℕ} {other : InFlightReservation}
    (hne : target ≠ source) (hr : c.objects[target]? = some r)
    (hother : c.objects[source]? = some other) {limiter : InFlightLimiter}
    (hinFlight : limiter.inFlight + held r = c.activeCount)
    (hmaximum : limiter.maximumObserved = c.limiter.maximumObserved)
    (hcapacity : limiter.capacity = c.limiter.capacity) :
    Performed c ⟨limiter, (c.objects.set target other).set source {}⟩ := by
  have hother' : (c.objects.set target other)[source]? = some other := by
    rw [List.getElem?_set_ne hne, hother]
  have hset := countP_set hr other
  have hset' := countP_set hother' {}
  have hempty : held {} = 0 := rfl
  refine .of_le h ?_ ?_ hcapacity hmaximum
  · dsimp only [activeCount] at hinFlight ⊢
    omega
  · dsimp only [activeCount]
    omega

/-- An operation succeeds and keeps the balance. -/
theorem Balanced.perform (h : c.Balanced) (operation : Operation) :
    ∃ c', c.perform operation = some c' ∧ Performed c c' := by
  cases operation with
  | construct =>
    have hcount : ({ c with objects := c.objects ++ [{}] } : Custody).activeCount =
        c.activeCount := List.countP_append
    exact ⟨_, rfl, .of_le h (h.inFlight_eq.trans hcount.symm) hcount.le rfl rfl⟩
  | acquire =>
    rw [Custody.perform]
    split
    · exact ⟨c, rfl, .refl h⟩
    · next limiter hacquire => exact ⟨_, rfl, performed_acquire h hacquire⟩
  | move source =>
    rw [Custody.perform]
    split
    · exact ⟨c, rfl, .refl h⟩
    · next other hother =>
      have hset := countP_set hother {}
      have hcount : ({ c with objects := c.objects.set source {} ++ [other] } : Custody).activeCount
          = c.activeCount := by
        have hother : [other].countP InFlightReservation.active = held other :=
          (List.countP_cons).trans (Nat.zero_add _)
        rw [activeCount, List.countP_append, hother]
        exact hset
      exact ⟨_, rfl, .of_le h (h.inFlight_eq.trans hcount.symm) hcount.le rfl rfl⟩
  | assign target source =>
    rw [Custody.perform]
    split
    · exact ⟨c, rfl, .refl h⟩
    · next hne =>
      split
      · next r other hr hother =>
        obtain ⟨limiter, hrelease, hinFlight, hmaximum, hcapacity⟩ := h.exists_release hr
        rw [hrelease]
        exact ⟨_, rfl, performed_assign h hne hr hother hinFlight hmaximum hcapacity⟩
      · exact ⟨c, rfl, .refl h⟩
  | release object =>
    rw [Custody.perform]
    split
    · exact ⟨c, rfl, .refl h⟩
    · next r hr =>
      obtain ⟨limiter, hrelease, hinFlight, hmaximum, hcapacity⟩ := h.exists_release hr
      have hset := countP_set hr {}
      have hempty : held {} = 0 := rfl
      rw [hrelease]
      refine ⟨_, rfl, .of_le h ?_ ?_ hcapacity hmaximum⟩
      · dsimp only [activeCount] at hinFlight ⊢
        omega
      · dsimp only [activeCount]
        omega
  | destroy object =>
    rw [Custody.perform]
    split
    · exact ⟨c, rfl, .refl h⟩
    · next r hr =>
      obtain ⟨limiter, hrelease, hinFlight, hmaximum, hcapacity⟩ := h.exists_release hr
      have herase := countP_eraseIdx hr
      rw [hrelease]
      refine ⟨_, rfl, .of_le h ?_ ?_ hcapacity hmaximum⟩
      · dsimp only [activeCount] at hinFlight ⊢
        omega
      · dsimp only [activeCount]
        omega

end Perform

/-! ### Any operations -/

/-- A limiter that was constructed, before there is a reservation. -/
def ofCapacity (capacity : ℕ) : Custody := { limiter := .ofCapacity capacity }

/-- The greatest number of objects with a reservation that there has been. -/
def Greatest (capacity : ℕ) (operations : List Operation) (n : ℕ) : Prop :=
  (∀ earlier, earlier <+: operations → ∃ c,
    earlier.foldlM perform (ofCapacity capacity) = some c ∧ c.activeCount ≤ n) ∧
  ∃ earlier c, earlier <+: operations ∧
    earlier.foldlM perform (ofCapacity capacity) = some c ∧ c.activeCount = n

theorem Greatest.append {capacity n : ℕ} {operations : List Operation} {operation : Operation}
    {c : Custody} (h : Greatest capacity operations n)
    (hc : (operations ++ [operation]).foldlM perform (ofCapacity capacity) = some c) :
    Greatest capacity (operations ++ [operation]) (max n c.activeCount) := by
  obtain ⟨hbound, earlier, c₁, hearlier, hc₁, heq⟩ := h
  refine ⟨fun earlier' hearlier' => ?_, ?_⟩
  · rcases List.prefix_concat_iff.mp hearlier' with rfl | hearlier'
    · exact ⟨c, hc, le_max_right _ _⟩
    · obtain ⟨c₂, hc₂, hle⟩ := hbound earlier' hearlier'
      exact ⟨c₂, hc₂, hle.trans (le_max_left _ _)⟩
  · rcases le_total n c.activeCount with hle | hle
    · exact ⟨_, c, List.prefix_rfl, hc, (max_eq_right hle).symm⟩
    · exact ⟨earlier, c₁, hearlier.trans (List.prefix_append _ _), hc₁,
        heq.trans (max_eq_left hle).symm⟩

theorem exists_balanced (capacity : ℕ) (operations : List Operation) :
    ∃ c, operations.foldlM perform (ofCapacity capacity) = some c ∧ c.Balanced ∧
      c.limiter.capacity = capacity ∧ Greatest capacity operations c.limiter.maximumObserved := by
  induction operations using List.reverseRecOn with
  | nil =>
    refine ⟨_, rfl, ⟨rfl, le_rfl⟩, rfl, fun earlier hearlier => ?_,
      [], _, List.prefix_rfl, rfl, rfl⟩
    obtain rfl := List.prefix_nil.mp hearlier
    exact ⟨_, rfl, le_rfl⟩
  | append_singleton operations operation ih =>
    obtain ⟨c, hc, hbalanced, hcapacity, hgreatest⟩ := ih
    obtain ⟨c', hc', hperformed⟩ := hbalanced.perform operation
    have hfold : (operations ++ [operation]).foldlM perform (ofCapacity capacity) = some c' := by
      rw [List.foldlM_append, hc]
      exact (bind_pure _).trans hc'
    refine ⟨c', hfold, hperformed.balanced, hperformed.capacity_eq.trans hcapacity, ?_⟩
    rw [hperformed.maximum_eq]
    exact hgreatest.append hfold

/-- Any sequence of operations on reservation objects succeeds: `release_one` is never called with
nothing to release. The limiter counts the objects that hold a reservation, which are never more
than its capacity, and `maximum_observed` is the greatest number of them that there has been. -/
theorem perform_balanced (capacity : ℕ) (operations : List Operation) :
    ∃ c, operations.foldlM perform (ofCapacity capacity) = some c ∧
      c.limiter.inFlight = c.activeCount ∧ c.activeCount ≤ capacity ∧
      Greatest capacity operations c.limiter.maximumObserved := by
  obtain ⟨c, hc, hbalanced, hcapacity, hgreatest⟩ := exists_balanced capacity operations
  refine ⟨c, hc, hbalanced.inFlight_eq, ?_, hgreatest⟩
  rw [← hbalanced.inFlight_eq, ← hcapacity]
  exact c.limiter.inFlight_le

end Custody

end MatchingEngine
