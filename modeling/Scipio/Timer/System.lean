import Scipio.Timer.Basic

namespace Scipio

/-! One timer and the reactor, driven by everything that can touch them: the task that polls the
`Timer`, its owner resetting or dropping it, a `TimerActionOnce` handle rearming or destroying it
through the shared cell, and the reactor firing its registration. Every event carries the clock
readings it takes, and a run's readings never go back. -/

/-- The system's state. `dropped` says the owning `Timer` value is gone; `suspended` is a history
variable: the waker of the last poll, while that poll's `Pending` stands (no destroy, drop or
firing since). -/
structure TimerSys where
  inner : Inner
  reactor : Reactor
  clock : Instant
  dropped : Bool
  suspended : Option Waker

/-- How the timer came to be: `Timer::new` or `TimerActionOnce::do_in` at a reading, or
`TimerActionOnce::do_at` with its two readings. -/
inductive Creation
  | new (now : Instant) (dur : Duration)
  | doAt (now₁ now₂ : Instant) (when : Instant)

/-- What can happen to the timer, with the clock readings each takes. -/
inductive Event
  | poll (now : Instant) (waker : Waker)
  | reset (now : Instant) (dur : Duration)
  | rearmIn (now : Instant) (dur : Duration)
  | rearmAt (now₁ now₂ : Instant) (when : Instant)
  | destroy
  | drop
  | fire (now : Instant)

namespace TimerSys

/-- The timer's state right after it is built on a reactor: `none` where building it panics, or
where `do_at`'s two readings go back. -/
def create (reactor : Reactor) : Creation → Option TimerSys
  | .new now dur => (Timer.new reactor now dur).map fun (inner, reactor) =>
      { inner, reactor, clock := now, dropped := false, suspended := none }
  | .doAt now₁ now₂ when =>
      if now₁ ≤ now₂ then
        (Timer.new reactor now₂ (TimerActionOnce.durUntil when now₁)).map
          fun (inner, reactor) =>
            { inner, reactor, clock := now₂, dropped := false, suspended := none }
      else none

/-- One event. `none` where it cannot happen (the `Timer` is gone, a reading goes back, nothing is
due) or where it panics. -/
def step (s : TimerSys) : Event → Option TimerSys
  | .poll now waker =>
      if s.dropped = false ∧ s.clock ≤ now then
        match Timer.poll s.inner s.reactor now waker with
        | (.ready _, inner, reactor) =>
            some { s with inner, reactor, clock := now, suspended := none }
        | (.pending, inner, reactor) =>
            some { s with inner, reactor, clock := now, suspended := some waker }
      else none
  | .reset now dur =>
      if s.dropped = false ∧ s.clock ≤ now then
        (Timer.reset s.inner s.reactor now dur).map fun (inner, reactor) =>
          { s with inner, reactor, clock := now }
      else none
  | .rearmIn now dur =>
      if s.clock ≤ now then
        (TimerActionOnce.rearmIn s.inner s.reactor now dur).map fun (inner, reactor) =>
          { s with inner, reactor, clock := now }
      else none
  | .rearmAt now₁ now₂ when =>
      if s.clock ≤ now₁ ∧ now₁ ≤ now₂ then
        (TimerActionOnce.rearmAt s.inner s.reactor now₁ now₂ when).map fun (inner, reactor) =>
          { s with inner, reactor, clock := now₂ }
      else none
  | .destroy =>
      some { s with reactor := TimerActionOnce.destroy s.inner s.reactor, suspended := none }
  | .drop =>
      if s.dropped = false then
        let (inner, reactor) := Timer.drop s.inner s.reactor
        some { s with inner, reactor, dropped := true, suspended := none }
      else none
  | .fire now =>
      if s.clock ≤ now then
        (s.reactor.fireTimer s.inner.id now).map fun (_, reactor) =>
          { s with reactor, clock := now, suspended := none }
      else none

/-- A run: the events one after another. -/
def run (s : TimerSys) : List Event → Option TimerSys
  | [] => some s
  | e :: events => (s.step e).bind fun s' => s'.run events

@[simp] theorem run_nil (s : TimerSys) : s.run [] = some s := rfl

theorem run_cons (s : TimerSys) (e : Event) (events : List Event) :
    s.run (e :: events) = (s.step e).bind fun s' => s'.run events := rfl

theorem run_singleton {s s' : TimerSys} {e : Event} (h : s.step e = some s') :
    s.run [e] = some s' := by
  simp [run_cons, h]

/-- The states a timer reaches: built on a reactor whose unused ids are unregistered, then any
events. -/
inductive Reachable : TimerSys → Prop
  | create {reactor : Reactor} {c : Creation} {s : TimerSys} :
      reactor.Fresh → create reactor c = some s → Reachable s
  | step {s s' : TimerSys} {e : Event} : Reachable s → s.step e = some s' → Reachable s'

theorem Reachable.run {s s' : TimerSys} {events : List Event} (hs : Reachable s)
    (hrun : s.run events = some s') : Reachable s' := by
  induction events generalizing s with
  | nil => cases hrun; exact hs
  | cons e events ih =>
      rw [run_cons] at hrun
      cases hstep : s.step e with
      | none => simp [hstep] at hrun
      | some mid => exact ih (hs.step hstep) (by simpa [hstep] using hrun)

/-! What one step can do, said once. -/

theorem step_poll {s s' : TimerSys} {now : Instant} {waker : Waker}
    (h : s.step (.poll now waker) = some s') :
    s.dropped = false ∧ s.clock ≤ now ∧ s'.clock = now ∧ s'.dropped = false ∧
      ((s.inner.when ≤ now ∧ s'.inner = s.inner ∧
          s'.reactor = s.reactor.removeTimer s.inner.id ∧ s'.suspended = none) ∨
        (now < s.inner.when ∧ s'.inner = { s.inner with waker := some waker } ∧
          s'.reactor = s.reactor.insertTimer s.inner.id s.inner.when waker ∧
          s'.suspended = some waker)) := by
  simp only [step] at h
  split at h
  · rename_i hguard
    by_cases hwhen : s.inner.when ≤ now
    · rw [Timer.poll_of_ready waker hwhen] at h
      cases h
      exact ⟨hguard.1, hguard.2, rfl, hguard.1, .inl ⟨hwhen, rfl, rfl, rfl⟩⟩
    · rw [Timer.poll_of_pending waker (Nat.lt_of_not_le hwhen)] at h
      cases h
      exact ⟨hguard.1, hguard.2, rfl, hguard.1,
        .inr ⟨Nat.lt_of_not_le hwhen, rfl, rfl, rfl⟩⟩
  · cases h

/-- `Timer::reset`, `rearm_in` and `rearm_at` are each one `Inner::reset` at their last reading
and touch nothing else; only `Timer::reset` needs the `Timer` alive. -/
theorem step_reset {s s' : TimerSys} {now : Instant} {dur : Duration}
    (h : s.step (.reset now dur) = some s') :
    s.dropped = false ∧ s.clock ≤ now ∧
      s.inner.reset s.reactor now dur = some (s'.inner, s'.reactor) ∧
      s'.dropped = s.dropped ∧ s'.suspended = s.suspended ∧ s'.clock = now := by
  simp only [step] at h
  split at h
  · obtain ⟨⟨inner, reactor⟩, hreset, rfl⟩ := Option.map_eq_some'.mp h
    exact ⟨‹_ ∧ _›.1, ‹_ ∧ _›.2, hreset, rfl, rfl, rfl⟩
  · cases h

theorem step_rearmIn {s s' : TimerSys} {now : Instant} {dur : Duration}
    (h : s.step (.rearmIn now dur) = some s') :
    s.clock ≤ now ∧ s.inner.reset s.reactor now dur = some (s'.inner, s'.reactor) ∧
      s'.dropped = s.dropped ∧ s'.suspended = s.suspended ∧ s'.clock = now := by
  simp only [step] at h
  split at h
  · obtain ⟨⟨inner, reactor⟩, hreset, rfl⟩ := Option.map_eq_some'.mp h
    exact ⟨‹_›, hreset, rfl, rfl, rfl⟩
  · cases h

theorem step_rearmAt {s s' : TimerSys} {now₁ now₂ when : Instant}
    (h : s.step (.rearmAt now₁ now₂ when) = some s') :
    s.clock ≤ now₁ ∧ now₁ ≤ now₂ ∧
      s.inner.reset s.reactor now₂ (TimerActionOnce.durUntil when now₁) =
        some (s'.inner, s'.reactor) ∧
      s'.dropped = s.dropped ∧ s'.suspended = s.suspended ∧ s'.clock = now₂ := by
  simp only [step] at h
  split at h
  · obtain ⟨⟨inner, reactor⟩, hreset, rfl⟩ := Option.map_eq_some'.mp h
    exact ⟨‹_ ∧ _›.1, ‹_ ∧ _›.2, hreset, rfl, rfl, rfl⟩
  · cases h

theorem step_destroy {s s' : TimerSys} (h : s.step .destroy = some s') :
    s'.inner = s.inner ∧ s'.reactor = s.reactor.removeTimer s.inner.id ∧
      s'.dropped = s.dropped ∧ s'.suspended = none ∧ s'.clock = s.clock := by
  cases h
  exact ⟨rfl, rfl, rfl, rfl, rfl⟩

theorem step_drop {s s' : TimerSys} (h : s.step .drop = some s') :
    s.dropped = false ∧ (s'.inner, s'.reactor) = Timer.drop s.inner s.reactor ∧
      s'.dropped = true ∧ s'.suspended = none ∧ s'.clock = s.clock := by
  simp only [step] at h
  split at h
  · cases h
    exact ⟨‹_›, rfl, rfl, rfl, rfl⟩
  · cases h

theorem step_fire {s s' : TimerSys} {now : Instant} (h : s.step (.fire now) = some s') :
    s.clock ≤ now ∧
      (∃ waker, s.reactor.fireTimer s.inner.id now = some (waker, s'.reactor)) ∧
      s'.inner = s.inner ∧ s'.dropped = s.dropped ∧ s'.suspended = none ∧ s'.clock = now := by
  simp only [step] at h
  split at h
  · obtain ⟨⟨waker, reactor⟩, hfire, rfl⟩ := Option.map_eq_some'.mp h
    exact ⟨‹_›, ⟨waker, hfire⟩, rfl, rfl, rfl, rfl⟩
  · cases h

end TimerSys

end Scipio
