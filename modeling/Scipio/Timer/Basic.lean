import Scipio.Reactor

namespace Scipio

/-! The timer module's functions, one definition each, on the state they share: the `Inner` cell
behind a `Timer` (and the `TimerActionOnce` handle that holds a second reference to it), the
reactor, and a reading of the clock for every `Instant::now()` the function makes. -/

/-- `Inner`: the id under which the timer registers, the waker it holds, and when it fires. -/
structure Inner where
  id : Nat
  waker : Option Waker
  when : Instant
deriving DecidableEq

/-- `std::task::Poll`. -/
inductive Poll (α : Type) where
  | ready (value : α)
  | pending
deriving DecidableEq

namespace Inner

/-- `Inner::reset`: drop the registration if a waker is held, re-base `when` on a reading of the
clock, and register again under the held waker. `none` where `Instant::now() + dur` panics. -/
def reset (inner : Inner) (reactor : Reactor) (now : Instant) (dur : Duration) :
    Option (Inner × Reactor) := do
  let reactor := if inner.waker.isSome then reactor.removeTimer inner.id else reactor
  let when ← now.checkedAdd dur
  let inner := { inner with when }
  match inner.waker with
  | some waker => pure (inner, reactor.insertTimer inner.id inner.when waker)
  | none => pure (inner, reactor)

/-- What `reset` does, in one statement: the new expiry is the reading plus `dur`, and the
reactor holds the held waker under it, or is left alone when there is none. -/
theorem reset_eq_some {inner inner' : Inner} {reactor reactor' : Reactor} {now : Instant}
    {dur : Duration} (h : inner.reset reactor now dur = some (inner', reactor')) :
    now.checkedAdd dur = some inner'.when ∧ inner' = { inner with when := inner'.when } ∧
      reactor' = match inner.waker with
        | some waker => (reactor.removeTimer inner.id).insertTimer inner.id inner'.when waker
        | none => reactor := by
  unfold reset at h
  cases hadd : now.checkedAdd dur with
  | none => simp [hadd] at h
  | some when =>
      cases hwaker : inner.waker <;>
        simp only [hadd, hwaker, Option.isSome_some, Option.isSome_none, ite_true,
          Bool.false_eq_true, ite_false, Option.pure_def, Option.bind_eq_bind,
          Option.some_bind, Option.some.injEq, Prod.mk.injEq] at h <;>
        obtain ⟨rfl, rfl⟩ := h <;> simp [hwaker]

theorem reset_eq_none {inner : Inner} {reactor : Reactor} {now : Instant} {dur : Duration} :
    inner.reset reactor now dur = none ↔ now.checkedAdd dur = none := by
  unfold reset
  cases now.checkedAdd dur <;> cases inner.waker <;> simp

end Inner

namespace Timer

/-! A `Timer` is its `Inner` cell; its methods act on the cell's contents. -/

/-- `Timer::from_id`: a timer under an id the caller holds, with no waker, firing `dur` after a
reading of the clock. `none` where that addition panics. -/
def fromId (id : Nat) (now : Instant) (dur : Duration) : Option Inner :=
  (now.checkedAdd dur).map fun when => { id, waker := none, when }

/-- `Timer::new`: `from_id` under a fresh id from the reactor. -/
def new (reactor : Reactor) (now : Instant) (dur : Duration) : Option (Inner × Reactor) :=
  let (id, reactor) := reactor.registerTimer
  (fromId id now dur).map fun inner => (inner, reactor)

/-- `Timer::reset`. -/
def reset (inner : Inner) (reactor : Reactor) (now : Instant) (dur : Duration) :
    Option (Inner × Reactor) :=
  inner.reset reactor now dur

/-- `Drop for Timer`: take the waker, and drop the registration if there was one. -/
def drop (inner : Inner) (reactor : Reactor) : Inner × Reactor :=
  match inner.waker with
  | some _ => ({ inner with waker := none }, reactor.removeTimer inner.id)
  | none => (inner, reactor)

/-- `Future for Timer`: at a reading past `when`, drop the registration and complete with `when`;
before it, register under the polling task's waker, keep that waker, and suspend. -/
def poll (inner : Inner) (reactor : Reactor) (now : Instant) (waker : Waker) :
    Poll Instant × Inner × Reactor :=
  if now ≥ inner.when then (.ready inner.when, inner, reactor.removeTimer inner.id)
  else (.pending, { inner with waker := some waker }, reactor.insertTimer inner.id inner.when waker)

theorem fromId_eq_some {id : Nat} {now : Instant} {dur : Duration} {inner : Inner} :
    fromId id now dur = some inner ↔
      inner.id = id ∧ inner.waker = none ∧ now.checkedAdd dur = some inner.when := by
  unfold fromId
  cases now.checkedAdd dur <;> simp [eq_comm]
  constructor
  · rintro rfl; simp
  · rintro ⟨h₁, h₂, h₃⟩; cases inner; simp_all

@[simp] theorem fromId_eq_none {id : Nat} {now : Instant} {dur : Duration} :
    fromId id now dur = none ↔ now.checkedAdd dur = none := by
  simp [fromId]

@[simp] theorem drop_waker (inner : Inner) (reactor : Reactor) :
    (drop inner reactor).1 = { inner with waker := none } := by
  cases h : inner.waker <;> simp [drop, h]
  cases inner; simp_all

theorem drop_timers (inner : Inner) (reactor : Reactor) :
    (drop inner reactor).2.timers =
      if inner.waker.isSome then (reactor.removeTimer inner.id).timers else reactor.timers := by
  cases h : inner.waker <;> simp [drop, h]

@[simp] theorem drop_timerId (inner : Inner) (reactor : Reactor) :
    (drop inner reactor).2.timerId = reactor.timerId := by
  cases h : inner.waker <;> simp [drop, h, Reactor.removeTimer]

theorem poll_of_ready {inner : Inner} {reactor : Reactor} {now : Instant} (waker : Waker)
    (h : inner.when ≤ now) :
    poll inner reactor now waker = (.ready inner.when, inner, reactor.removeTimer inner.id) :=
  if_pos h

theorem poll_of_pending {inner : Inner} {reactor : Reactor} {now : Instant} (waker : Waker)
    (h : now < inner.when) :
    poll inner reactor now waker =
      (.pending, { inner with waker := some waker },
        reactor.insertTimer inner.id inner.when waker) :=
  if_neg (Nat.not_le.mpr h)

/-- `poll` completes exactly at readings past `when`, and then with `when` itself. -/
theorem poll_ready_iff {inner : Inner} {reactor : Reactor} {now : Instant} {waker : Waker}
    {value : Instant} :
    (poll inner reactor now waker).1 = .ready value ↔ inner.when ≤ now ∧ value = inner.when := by
  unfold poll
  split <;> simp_all [eq_comm]

end Timer

/-- `TaskQueueHandle`: the index of a task queue of the executor. -/
structure TaskQueueHandle where
  index : Nat
deriving DecidableEq

/-- `QueueNotFoundError`, naming the queue that was not found. -/
structure QueueNotFoundError where
  index : Nat
deriving DecidableEq

namespace TimerActionOnce

/-- The delay `do_at_into` and `rearm_at` compute for an instant `when` at a reading `now`: the
time left until `when`, floored to zero once `when` has passed. -/
def durUntil (when now : Instant) : Duration :=
  if when > now then when.durationSince now else Duration.fromMicros 0

/-- `do_in_into`: register a fresh id, build the `Timer` from it, and spawn the task that awaits it
into `tq`. `live tq` says whether `Task::local_into` finds the queue; when it does not, the task is
dropped with the `Timer` inside it and the error returned. `none` is a panic. -/
def doInInto (reactor : Reactor) (now : Instant) (when : Duration) (tq : TaskQueueHandle)
    (live : TaskQueueHandle → Bool) : Option (Except QueueNotFoundError Inner × Reactor) := do
  let (timerId, reactor) := reactor.registerTimer
  let timer ← Timer.fromId timerId now when
  if live tq then pure (.ok timer, reactor)
  else
    let (_, reactor) := Timer.drop timer reactor
    pure (.error ⟨tq.index⟩, reactor)

/-- `do_at_into`: turn `when` into a delay at a first reading, then `do_in_into`, which reads the
clock again. -/
def doAtInto (reactor : Reactor) (now₁ now₂ : Instant) (when : Instant) (tq : TaskQueueHandle)
    (live : TaskQueueHandle → Bool) : Option (Except QueueNotFoundError Inner × Reactor) :=
  doInInto reactor now₂ (durUntil when now₁) tq live

/-- A spawn that succeeds leaves what `Timer::new` leaves; one that fails leaves the new id
unregistered. -/
theorem doInInto_eq_some {reactor reactor' : Reactor} {now : Instant} {when : Duration}
    {tq : TaskQueueHandle} {live : TaskQueueHandle → Bool}
    {result : Except QueueNotFoundError Inner}
    (h : doInInto reactor now when tq live = some (result, reactor')) :
    reactor'.timers = reactor.timers ∧ reactor'.timerId = reactor.timerId + 1 ∧
      match result with
      | .ok inner => live tq ∧ Timer.new reactor now when = some (inner, reactor')
      | .error e => live tq = false ∧ e.index = tq.index := by
  unfold doInInto at h
  cases htimer : Timer.fromId reactor.timerId now when with
  | none => simp [htimer] at h
  | some timer =>
      have hwaker := (Timer.fromId_eq_some.mp htimer).2.1
      cases hlive : live tq <;>
        simp only [htimer, hlive, Option.bind_eq_bind, Option.some_bind, Reactor.registerTimer,
          Option.pure_def, Option.some.injEq, Prod.mk.injEq, Bool.false_eq_true, ite_false,
          ite_true, Timer.drop, hwaker] at h <;>
        obtain ⟨rfl, rfl⟩ := h <;> simp [Timer.new, Reactor.registerTimer, htimer]

theorem doInInto_eq_none {reactor : Reactor} {now : Instant} {when : Duration}
    {tq : TaskQueueHandle} {live : TaskQueueHandle → Bool} :
    doInInto reactor now when tq live = none ↔ Timer.fromId reactor.timerId now when = none := by
  unfold doInInto
  cases h : Timer.fromId reactor.timerId now when with
  | none => simp [Reactor.registerTimer, h]
  | some timer => simp [Reactor.registerTimer, h]; split <;> simp

/-- `do_in`: `do_in_into` into the current task queue, unwrapped: `none` where it panics, the
`unwrap` of a missing queue's error included. -/
def doIn (reactor : Reactor) (now : Instant) (when : Duration) (current : TaskQueueHandle)
    (live : TaskQueueHandle → Bool) : Option (Inner × Reactor) :=
  match doInInto reactor now when current live with
  | some (.ok inner, reactor) => some (inner, reactor)
  | _ => none

/-- `do_at`: `do_at_into` into the current task queue, unwrapped. -/
def doAt (reactor : Reactor) (now₁ now₂ when : Instant) (current : TaskQueueHandle)
    (live : TaskQueueHandle → Bool) : Option (Inner × Reactor) :=
  match doAtInto reactor now₁ now₂ when current live with
  | some (.ok inner, reactor) => some (inner, reactor)
  | _ => none

/-- Into a queue that is found, `do_in` builds what `Timer::new` builds; into a missing one it
panics. -/
theorem doIn_eq {reactor : Reactor} {now : Instant} {when : Duration} {current : TaskQueueHandle}
    {live : TaskQueueHandle → Bool} :
    doIn reactor now when current live =
      if live current then Timer.new reactor now when else none := by
  cases h : live current <;> cases hb : Timer.fromId reactor.timerId now when <;>
    simp [doIn, doInInto, Timer.new, Reactor.registerTimer, h, hb, Timer.drop]

/-- `destroy`: drop the registration of the timer's id. It also cancels the task, which leaves the
shared cell as it is. -/
def destroy (inner : Inner) (reactor : Reactor) : Reactor :=
  reactor.removeTimer inner.id

/-- `rearm_in`. -/
def rearmIn (inner : Inner) (reactor : Reactor) (now : Instant) (dur : Duration) :
    Option (Inner × Reactor) :=
  inner.reset reactor now dur

/-- `rearm_at`: a first reading turns `when` into a delay, `rearm_in` reads the clock again. -/
def rearmAt (inner : Inner) (reactor : Reactor) (now₁ now₂ : Instant) (when : Instant) :
    Option (Inner × Reactor) :=
  rearmIn inner reactor now₂ (durUntil when now₁)

/-- The expiry `now₂ + durUntil when now₁` of `do_at` and `rearm_at`: `when` moved on by the time
between the two readings, or the second reading once `when` has passed at the first. -/
theorem durUntil_expiry {when now₁ now₂ t : Instant} (hle : now₁ ≤ now₂)
    (h : now₂.checkedAdd (durUntil when now₁) = some t) :
    t.nanos =
      if now₁ < when then when.nanos + (now₂.nanos - now₁.nanos) else now₂.nanos := by
  rw [Instant.checkedAdd_eq_some_iff] at h
  unfold durUntil at h
  split at h <;> rename_i hlt <;>
    simp only [gt_iff_lt, Instant.lt_iff, Instant.le_iff, Instant.durationSince_nanos,
      Duration.fromMicros_zero_nanos] at hlt hle h ⊢ <;> split <;> omega

/-- Whatever the two readings, the expiry `now₂ + durUntil when now₁` is never before `when`. -/
theorem le_of_durUntil {when now₁ now₂ t : Instant} (hle : now₁ ≤ now₂)
    (h : now₂.checkedAdd (durUntil when now₁) = some t) : when ≤ t := by
  have ht := durUntil_expiry hle h
  simp only [Instant.le_iff, Instant.lt_iff] at hle ht ⊢
  split at ht <;> omega

end TimerActionOnce

end Scipio
