import Scipio.Timer.System

namespace Scipio

/-! When a timer may complete, and when computing its expiry panics. A timer completes only at a
reading past the deadline of the last operation that set one, and every expiry the module computes
is a reading plus a delay, which panics exactly when the sum leaves the `Instant` range. -/

/-- `Duration::MAX`. -/
def Duration.MAX : Duration := ⟨Duration.maxNanos, Nat.le_refl _⟩

/-- The deadline an operation sets: a delay `dur` at reading `now` sets `now + dur`, an instant
`when` sets `when`. -/
def Creation.deadline : Creation → Nat
  | .new now dur => now.nanos + dur.nanos
  | .doAt _ _ when => when.nanos

/-- The deadline an event sets, if it sets one. -/
def Event.deadline : Event → Option Nat
  | .reset now dur | .rearmIn now dur => some (now.nanos + dur.nanos)
  | .rearmAt _ _ when => some when.nanos
  | _ => none

/-- The deadline in force after `events`, starting from `deadline`. -/
def lastDeadline (deadline : Nat) : List Event → Nat
  | [] => deadline
  | e :: events => lastDeadline (e.deadline.getD deadline) events

namespace TimerSys

theorem create_deadline {reactor : Reactor} {c : Creation} {s : TimerSys}
    (h : create reactor c = some s) : c.deadline ≤ s.inner.when.nanos := by
  have hnew : ∀ {now dur}, Timer.new reactor now dur = some (s.inner, s.reactor) →
      now.checkedAdd dur = some s.inner.when := by
    intro now dur hnew
    simp only [Timer.new, Option.map_eq_some', Prod.mk.injEq] at hnew
    obtain ⟨inner, hinner, rfl, -⟩ := hnew
    exact (Timer.fromId_eq_some.mp hinner).2.2
  cases c with
  | new now dur =>
      obtain ⟨⟨inner, reactor'⟩, hcreate, rfl⟩ := Option.map_eq_some'.mp h
      exact Nat.le_of_eq (Instant.checkedAdd_eq_some_iff.mp (hnew hcreate)).symm
  | doAt now₁ now₂ when =>
      simp only [create] at h
      split at h
      · obtain ⟨⟨inner, reactor'⟩, hcreate, rfl⟩ := Option.map_eq_some'.mp h
        exact TimerActionOnce.le_of_durUntil ‹_› (hnew hcreate)
      · cases h

theorem step_deadline {s s' : TimerSys} {e : Event} {deadline : Nat}
    (h : s.step e = some s') (hle : deadline ≤ s.inner.when.nanos) :
    e.deadline.getD deadline ≤ s'.inner.when.nanos := by
  cases e with
  | poll now waker =>
      obtain ⟨-, -, -, -, ⟨-, hinner, -⟩ | ⟨-, hinner, -⟩⟩ := step_poll h <;>
        rw [hinner] <;> exact hle
  | reset now dur =>
      obtain ⟨-, -, hreset, -⟩ := step_reset h
      exact Nat.le_of_eq (Instant.checkedAdd_eq_some_iff.mp (Inner.reset_eq_some hreset).1).symm
  | rearmIn now dur =>
      obtain ⟨-, hreset, -⟩ := step_rearmIn h
      exact Nat.le_of_eq (Instant.checkedAdd_eq_some_iff.mp (Inner.reset_eq_some hreset).1).symm
  | rearmAt now₁ now₂ when =>
      obtain ⟨-, hle₁₂, hreset, -⟩ := step_rearmAt h
      exact TimerActionOnce.le_of_durUntil hle₁₂ (Inner.reset_eq_some hreset).1
  | destroy => rw [(step_destroy h).1]; exact hle
  | drop =>
      obtain ⟨-, hdrop, -⟩ := step_drop h
      rw [show s'.inner = (Timer.drop s.inner s.reactor).1 from congrArg Prod.fst hdrop,
        Timer.drop_waker]
      exact hle
  | fire now => rw [(step_fire h).2.2.1]; exact hle

theorem run_deadline {s s' : TimerSys} {events : List Event} {deadline : Nat}
    (h : s.run events = some s') (hle : deadline ≤ s.inner.when.nanos) :
    lastDeadline deadline events ≤ s'.inner.when.nanos := by
  induction events generalizing s deadline with
  | nil => cases h; exact hle
  | cons e events ih =>
      rw [run_cons] at h
      cases hstep : s.step e with
      | none => simp [hstep] at h
      | some mid => exact ih (by simpa [hstep] using h) (step_deadline hstep hle)

/-- However a timer was built and whatever happened to it since, its poll completes only at a
reading past the deadline of the last operation that set one, and completes with `when`, which
lies between the two. -/
theorem poll_ready_not_before_deadline {reactor : Reactor} {c : Creation} {s₀ s : TimerSys}
    {events : List Event} (hcreate : create reactor c = some s₀) (hrun : s₀.run events = some s)
    {now : Instant} {waker : Waker} {value : Instant}
    (hready : (Timer.poll s.inner s.reactor now waker).1 = .ready value) :
    value = s.inner.when ∧ lastDeadline c.deadline events ≤ value.nanos ∧ value ≤ now := by
  obtain ⟨hwhen, rfl⟩ := Timer.poll_ready_iff.mp hready
  exact ⟨rfl, run_deadline hrun (create_deadline hcreate), hwhen⟩

/-- `do_in(10)` at reading 0, `rearm_at(5)` with readings 1 and 2 (expiry 6), a poll at 6. -/
theorem poll_ready_not_before_deadline_after_rearm :
    let c := Creation.new ⟨0, by decide⟩ ⟨10, by decide⟩
    let s₀ : TimerSys :=
      { inner := ⟨0, none, ⟨10, by decide⟩⟩, reactor := ⟨fun _ => none, 1⟩,
        clock := ⟨0, by decide⟩, dropped := false, suspended := none }
    let events := [Event.rearmAt ⟨1, by decide⟩ ⟨2, by decide⟩ ⟨5, by decide⟩]
    let s : TimerSys :=
      { s₀ with inner := ⟨0, none, ⟨6, by decide⟩⟩, clock := ⟨2, by decide⟩ }
    create Reactor.empty c = some s₀ ∧ s₀.run events = some s ∧
      (Timer.poll s.inner s.reactor ⟨6, by decide⟩ ⟨1⟩).1 = .ready ⟨6, by decide⟩ ∧
      (⟨6, by decide⟩ = s.inner.when ∧ lastDeadline c.deadline events ≤ 6 ∧
        (⟨6, by decide⟩ : Instant) ≤ ⟨6, by decide⟩) := by
  intro c s₀ events s
  have hcreate : create Reactor.empty c = some s₀ := rfl
  have hrun : s₀.run events = some s := rfl
  have hready :
      (Timer.poll s.inner s.reactor ⟨6, by decide⟩ ⟨1⟩).1 = .ready ⟨6, by decide⟩ := rfl
  exact ⟨hcreate, hrun, hready, poll_ready_not_before_deadline hcreate hrun hready⟩

end TimerSys

/-! Overflow. -/

/-- Every expiry the module computes panics exactly when the reading plus the delay leaves the
`Instant` range: for a delay `dur`, when `now + dur` does; for an instant `when` (`do_at`,
`rearm_at`), when `when` is still ahead at the first reading and `now₂ + (when - now₁)` does,
which a `when` inside the range can still reach. -/
theorem expiry_panics_iff_overflow (reactor : Reactor) (inner : Inner) (id : Nat)
    (now now₁ now₂ when : Instant) (dur : Duration) (tq : TaskQueueHandle)
    (live : TaskQueueHandle → Bool) :
    (Timer.new reactor now dur = none ↔ Instant.maxNanos < now.nanos + dur.nanos) ∧
    (Timer.fromId id now dur = none ↔ Instant.maxNanos < now.nanos + dur.nanos) ∧
    (Timer.reset inner reactor now dur = none ↔ Instant.maxNanos < now.nanos + dur.nanos) ∧
    (TimerActionOnce.rearmIn inner reactor now dur = none ↔
      Instant.maxNanos < now.nanos + dur.nanos) ∧
    (TimerActionOnce.doInInto reactor now dur tq live = none ↔
      Instant.maxNanos < now.nanos + dur.nanos) ∧
    (TimerActionOnce.rearmAt inner reactor now₁ now₂ when = none ↔
      now₁ < when ∧ Instant.maxNanos < now₂.nanos + (when.nanos - now₁.nanos)) ∧
    (TimerActionOnce.doAtInto reactor now₁ now₂ when tq live = none ↔
      now₁ < when ∧ Instant.maxNanos < now₂.nanos + (when.nanos - now₁.nanos)) := by
  have hdur : ∀ {t : Instant},
      Instant.maxNanos < t.nanos + (TimerActionOnce.durUntil when now₁).nanos ↔
        now₁ < when ∧ Instant.maxNanos < t.nanos + (when.nanos - now₁.nanos) := by
    intro t
    have := t.le_max
    unfold TimerActionOnce.durUntil
    split <;> rename_i hlt <;>
      simp only [gt_iff_lt, Instant.lt_iff, Instant.durationSince_nanos,
        Duration.fromMicros_zero_nanos] at hlt ⊢ <;> omega
  have hdoIn : ∀ {now dur}, TimerActionOnce.doInInto reactor now dur tq live = none ↔
      Instant.maxNanos < now.nanos + dur.nanos := by
    intro now dur
    rw [TimerActionOnce.doInInto_eq_none, Timer.fromId_eq_none, Instant.checkedAdd_eq_none_iff]
  refine ⟨by simp [Timer.new], by simp, by simp [Timer.reset, Inner.reset_eq_none],
    by simp [TimerActionOnce.rearmIn, Inner.reset_eq_none], hdoIn, ?_, ?_⟩
  · simp only [TimerActionOnce.rearmAt, TimerActionOnce.rearmIn, Inner.reset_eq_none,
      Instant.checkedAdd_eq_none_iff, hdur]
  · rw [TimerActionOnce.doAtInto, hdoIn, hdur]

/-- `Timer::new(Duration::MAX)` panics at any reading, the clock's origin included. -/
theorem new_duration_max_panics :
    Timer.new ⟨fun _ => none, 0⟩ ⟨0, by decide⟩ Duration.MAX = none :=
  rfl

end Scipio
