import Scipio.Time

namespace Scipio

/-- A task's wakeup capability (`std::task::Waker`), named by the task it resumes. -/
structure Waker where
  task : Nat
deriving DecidableEq, Repr

/-- Modelled from the spec: the timer side of `crate::parking::Reactor`, which is not under src/.
`timers` maps a timer id to the expiry and waker registered for it; `timerId` is the next id
`register_timer` hands out. -/
structure Reactor where
  timers : Nat → Option (Instant × Waker)
  timerId : Nat

namespace Reactor

/-- Modelled from the spec: `register_timer` allocates a fresh, unregistered id. -/
def registerTimer (reactor : Reactor) : Nat × Reactor :=
  (reactor.timerId, { reactor with timerId := reactor.timerId + 1 })

/-- Modelled from the spec: `insert_timer` installs or replaces the registration of `id`. -/
def insertTimer (reactor : Reactor) (id : Nat) (when : Instant) (waker : Waker) : Reactor :=
  { reactor with timers := fun i => if i = id then some (when, waker) else reactor.timers i }

/-- Modelled from the spec: `remove_timer` drops the registration of `id`, and does nothing when
there is none. -/
def removeTimer (reactor : Reactor) (id : Nat) : Reactor :=
  { reactor with timers := fun i => if i = id then none else reactor.timers i }

/-- Modelled from the spec: the reactor fires timer `id` at clock reading `now` only when it is
registered and due; firing drops the registration and wakes the waker it returns. -/
def fireTimer (reactor : Reactor) (id : Nat) (now : Instant) : Option (Waker × Reactor) :=
  match reactor.timers id with
  | some (when, waker) => if when ≤ now then some (waker, reactor.removeTimer id) else none
  | none => none

/-- No id from `timerId` on is registered, so the id `register_timer` hands out is fresh. -/
def Fresh (reactor : Reactor) : Prop :=
  ∀ i, reactor.timerId ≤ i → reactor.timers i = none

/-- The reactor before any timer is registered. -/
def empty : Reactor := ⟨fun _ => none, 0⟩

theorem empty_fresh : empty.Fresh := fun _ _ => rfl

@[simp] theorem registerTimer_fst (reactor : Reactor) :
    reactor.registerTimer.1 = reactor.timerId := rfl

@[simp] theorem registerTimer_timers (reactor : Reactor) :
    reactor.registerTimer.2.timers = reactor.timers := rfl

@[simp] theorem insertTimer_self (reactor : Reactor) (id : Nat) (when : Instant)
    (waker : Waker) : (reactor.insertTimer id when waker).timers id = some (when, waker) := by
  simp [insertTimer]

@[simp] theorem insertTimer_of_ne (reactor : Reactor) {i id : Nat} (h : i ≠ id)
    (when : Instant) (waker : Waker) :
    (reactor.insertTimer id when waker).timers i = reactor.timers i := by
  simp [insertTimer, h]

@[simp] theorem removeTimer_self (reactor : Reactor) (id : Nat) :
    (reactor.removeTimer id).timers id = none := by
  simp [removeTimer]

@[simp] theorem removeTimer_of_ne (reactor : Reactor) {i id : Nat} (h : i ≠ id) :
    (reactor.removeTimer id).timers i = reactor.timers i := by
  simp [removeTimer, h]

@[simp] theorem insertTimer_timerId (reactor : Reactor) (id : Nat) (when : Instant)
    (waker : Waker) : (reactor.insertTimer id when waker).timerId = reactor.timerId := rfl

@[simp] theorem removeTimer_timerId (reactor : Reactor) (id : Nat) :
    (reactor.removeTimer id).timerId = reactor.timerId := rfl

/-- Removing an id that is not registered leaves the table as it was. -/
theorem removeTimer_timers_of_none {reactor : Reactor} {id : Nat}
    (h : reactor.timers id = none) : (reactor.removeTimer id).timers = reactor.timers := by
  funext i
  by_cases hi : i = id
  · subst hi
    simp [h]
  · simp [hi]

theorem fireTimer_eq_some {reactor : Reactor} {id : Nat} {now : Instant} {waker : Waker}
    {reactor' : Reactor} (h : reactor.fireTimer id now = some (waker, reactor')) :
    ∃ when, reactor.timers id = some (when, waker) ∧ when ≤ now ∧
      reactor' = reactor.removeTimer id := by
  unfold fireTimer at h
  split at h
  · rename_i when waker' hentry
    split at h
    · cases h
      exact ⟨when, hentry, ‹_›, rfl⟩
    · cases h
  · cases h

/-- A registered id fires exactly at readings past its expiry, waking its waker. -/
theorem fireTimer_of_entry {reactor : Reactor} {id : Nat} {when : Instant} {waker : Waker}
    (h : reactor.timers id = some (when, waker)) (now : Instant) :
    reactor.fireTimer id now =
      if when ≤ now then some (waker, reactor.removeTimer id) else none := by
  simp [fireTimer, h]

theorem registerTimer_fresh {reactor : Reactor} (h : reactor.Fresh) :
    reactor.registerTimer.2.Fresh ∧ reactor.timers reactor.registerTimer.1 = none :=
  ⟨fun i hi => h i (by simp [registerTimer] at hi; omega), h _ (Nat.le_refl _)⟩

end Reactor

end Scipio
