import Scipio.Timer.Registration
import Scipio.Timer.Expiry

namespace Scipio

/-! The task `TimerActionOnce::do_in_into` spawns, with the handle that shares its timer's cell:

    async move {
        timer.await;
        action.await
    }

`timer.await` takes the `Timer` by value, so it is dropped at the end of that statement, before the
action's future is first polled, and the poll that completes the timer goes straight on to the
action. Every step of the task and its handle is a run of the one-timer system, so the one-timer
invariants hold of it; and once the task is past its timer, nothing registers the timer again. -/

/-- Where the task stands: at its `Timer`; at the action, with `pendings` more `Pending` polls of
its future to come; done; or dropped by the executor after a cancel. -/
inductive OnceState
  | awaitTimer
  | awaitAction (pendings : Nat)
  | finished
  | discarded
deriving DecidableEq

/-- The task and its timer: the one-timer system (the `Timer` the task owns, the cell its handle
shares, the reactor), where the task stands, and whether `destroy` cancelled it. -/
structure OnceTask where
  sys : TimerSys
  state : OnceState
  cancelled : Bool

/-- What the task reads: how many polls of the action's future return `Pending` before it
completes, and the waker the executor polls the task with. -/
structure OnceEnv where
  action : Nat
  waker : Waker

/-- What can happen to the task and its handle, with the clock readings each takes: the executor
polls the task, the handle calls `rearm_in`, `rearm_at` or `destroy`, the executor drops the
cancelled task, the reactor fires the timer. -/
inductive OnceEvent
  | poll (now : Instant)
  | rearmIn (now : Instant) (dur : Duration)
  | rearmAt (now₁ now₂ when : Instant)
  | destroy
  | discard
  | fire (now : Instant)

/-- Polling the action's future: it completes once no `Pending` is left. -/
def OnceState.pollAction : Nat → OnceState
  | 0 => .finished
  | p + 1 => .awaitAction p

theorem OnceState.pollAction_ne_awaitTimer (p : Nat) : OnceState.pollAction p ≠ .awaitTimer := by
  cases p <;> nofun

/-- The handle's `rearm_in` and `rearm_at`, and the reactor's firing, as events of the timer. -/
def OnceEvent.onTimer : OnceEvent → Option Event
  | .rearmIn now dur => some (.rearmIn now dur)
  | .rearmAt now₁ now₂ when => some (.rearmAt now₁ now₂ when)
  | .fire now => some (.fire now)
  | _ => none

namespace OnceEnv

variable (env : OnceEnv)

/-- One event. A cancelled task is never polled again; `discard` drops its future, and with it a
`Timer` the task still awaits. `none` where the event cannot happen or panics. -/
def step (t : OnceTask) : OnceEvent → Option OnceTask
  | .poll now =>
      if t.cancelled then none
      else
        match t.state with
        | .awaitTimer =>
            match (Timer.poll t.sys.inner t.sys.reactor now env.waker).1 with
            | .ready _ =>
                (t.sys.run [.poll now env.waker, .drop]).map fun sys =>
                  { t with sys, state := .pollAction env.action }
            | .pending => (t.sys.step (.poll now env.waker)).map fun sys => { t with sys }
        | .awaitAction p => some { t with state := .pollAction p }
        | .finished | .discarded => none
  | .rearmIn now dur => (t.sys.step (.rearmIn now dur)).map fun sys => { t with sys }
  | .rearmAt now₁ now₂ when =>
      (t.sys.step (.rearmAt now₁ now₂ when)).map fun sys => { t with sys }
  | .destroy => (t.sys.step .destroy).map fun sys => { t with sys, cancelled := true }
  | .discard =>
      if t.cancelled then
        match t.state with
        | .awaitTimer => (t.sys.step .drop).map fun sys => { t with sys, state := .discarded }
        | .awaitAction _ => some { t with state := .discarded }
        | .finished | .discarded => none
      else none
  | .fire now => (t.sys.step (.fire now)).map fun sys => { t with sys }

/-- A run: the events one after another. -/
def run (t : OnceTask) : List OnceEvent → Option OnceTask
  | [] => some t
  | e :: events => (env.step t e).bind fun t' => run t' events

/-- The states the task reaches: spawned by `do_in_into` or `do_at_into` (so by `do_in` and
`do_at`) on a reactor whose unused ids are unregistered, its timer not yet polled, then any
events. -/
inductive Reachable : OnceTask → Prop
  | doInInto {reactor reactor' : Reactor} {now : Instant} {when : Duration}
      {tq : TaskQueueHandle} {live : TaskQueueHandle → Bool} {inner : Inner} :
      reactor.Fresh →
      TimerActionOnce.doInInto reactor now when tq live = some (.ok inner, reactor') →
      Reachable ⟨⟨inner, reactor', now, false, none⟩, .awaitTimer, false⟩
  | doAtInto {reactor reactor' : Reactor} {now₁ now₂ when : Instant}
      {tq : TaskQueueHandle} {live : TaskQueueHandle → Bool} {inner : Inner} :
      reactor.Fresh → now₁ ≤ now₂ →
      TimerActionOnce.doAtInto reactor now₁ now₂ when tq live = some (.ok inner, reactor') →
      Reachable ⟨⟨inner, reactor', now₂, false, none⟩, .awaitTimer, false⟩
  | step {t t' : OnceTask} {e : OnceEvent} : Reachable t → env.step t e = some t' → Reachable t'

/-- The task `do_in_into(10)` spawns at reading 0 on the empty reactor, its timer not yet
polled. -/
theorem reachable_do_in_ten :
    env.Reachable ⟨⟨⟨0, none, ⟨10, by decide⟩⟩, ⟨fun _ => none, 1⟩, ⟨0, by decide⟩, false, none⟩,
      .awaitTimer, false⟩ :=
  .doInInto Reactor.empty_fresh
    (show TimerActionOnce.doInInto _ ⟨0, by decide⟩ ⟨10, by decide⟩ ⟨0⟩ (fun _ => true) =
      some (.ok ⟨0, none, ⟨10, by decide⟩⟩, _) from rfl)

/-! What one event can do. -/

theorem step_poll {t t' : OnceTask} {now : Instant} (h : env.step t (.poll now) = some t') :
    t.cancelled = false ∧ t'.cancelled = false ∧
      ((t.state = .awaitTimer ∧ t.sys.inner.when ≤ now ∧
          t.sys.run [.poll now env.waker, .drop] = some t'.sys ∧
          t'.state = .pollAction env.action) ∨
        (t.state = .awaitTimer ∧ now < t.sys.inner.when ∧
          t.sys.step (.poll now env.waker) = some t'.sys ∧ t'.state = .awaitTimer) ∨
        (∃ p, t.state = .awaitAction p ∧ t'.sys = t.sys ∧ t'.state = .pollAction p)) := by
  simp only [step] at h
  split at h
  · cases h
  · rename_i hlive
    simp only [Bool.not_eq_true] at hlive
    split at h
    · rename_i hs
      by_cases hwhen : t.sys.inner.when ≤ now
      · rw [Timer.poll_of_ready env.waker hwhen] at h
        obtain ⟨sys, hrun, rfl⟩ := Option.map_eq_some'.mp h
        exact ⟨hlive, hlive, .inl ⟨hs, hwhen, hrun, rfl⟩⟩
      · rw [Timer.poll_of_pending env.waker (Nat.lt_of_not_le hwhen)] at h
        obtain ⟨sys, hstep, rfl⟩ := Option.map_eq_some'.mp h
        exact ⟨hlive, hlive, .inr (.inl ⟨hs, Nat.lt_of_not_le hwhen, hstep, hs⟩)⟩
    · cases h
      exact ⟨hlive, hlive, .inr (.inr ⟨_, ‹_›, rfl, rfl⟩)⟩
    · cases h
    · cases h

theorem step_destroy {t t' : OnceTask} (h : env.step t .destroy = some t') :
    t.sys.step .destroy = some t'.sys ∧ t'.state = t.state ∧ t'.cancelled = true := by
  simp only [step, Option.map_eq_some'] at h
  obtain ⟨sys, hstep, rfl⟩ := h
  exact ⟨hstep, rfl, rfl⟩

theorem step_discard {t t' : OnceTask} (h : env.step t .discard = some t') :
    t.cancelled = true ∧ t'.cancelled = true ∧ t'.state = .discarded ∧
      ((t.state = .awaitTimer ∧ t.sys.step .drop = some t'.sys) ∨
        (∃ p, t.state = .awaitAction p ∧ t'.sys = t.sys)) := by
  simp only [step] at h
  split at h
  · rename_i hcancelled
    split at h
    · obtain ⟨sys, hstep, rfl⟩ := Option.map_eq_some'.mp h
      exact ⟨hcancelled, hcancelled, rfl, .inl ⟨‹_›, hstep⟩⟩
    · cases h
      exact ⟨hcancelled, hcancelled, rfl, .inr ⟨_, ‹_›, rfl⟩⟩
    · cases h
    · cases h
  · cases h

/-- The handle's `rearm_in` and `rearm_at`, and the reactor's firing, act on the timer alone. -/
theorem step_onTimer {t t' : OnceTask} {e : OnceEvent} {e' : Event} (h : env.step t e = some t')
    (he : e.onTimer = some e') :
    t.sys.step e' = some t'.sys ∧ t'.sys.dropped = t.sys.dropped ∧ t'.state = t.state ∧
      t'.cancelled = t.cancelled := by
  cases e <;> cases he <;> simp only [step, Option.map_eq_some'] at h <;>
    obtain ⟨sys, hstep, rfl⟩ := h
  · exact ⟨hstep, (TimerSys.step_rearmIn hstep).2.2.1, rfl, rfl⟩
  · exact ⟨hstep, (TimerSys.step_rearmAt hstep).2.2.2.1, rfl, rfl⟩
  · exact ⟨hstep, (TimerSys.step_fire hstep).2.2.2.1, rfl, rfl⟩

/-- Every step of the task and its handle is a run of the one-timer system: a poll that completes
the timer is its poll and its drop, a poll of the action touches nothing of it. -/
theorem step_run {t t' : OnceTask} {e : OnceEvent} (h : env.step t e = some t') :
    ∃ events, t.sys.run events = some t'.sys := by
  cases e with
  | poll now =>
      obtain ⟨-, -, ⟨-, -, hrun, -⟩ | ⟨-, -, hstep, -⟩ | ⟨p, -, hsys, -⟩⟩ := env.step_poll h
      · exact ⟨_, hrun⟩
      · exact ⟨_, TimerSys.run_singleton hstep⟩
      · exact ⟨[], by rw [hsys]; rfl⟩
  | destroy => exact ⟨_, TimerSys.run_singleton (env.step_destroy h).1⟩
  | discard =>
      obtain ⟨-, -, -, ⟨-, hstep⟩ | ⟨p, -, hsys⟩⟩ := env.step_discard h
      · exact ⟨_, TimerSys.run_singleton hstep⟩
      · exact ⟨[], by rw [hsys]; rfl⟩
  | rearmIn now dur | rearmAt now₁ now₂ when | fire now =>
      exact ⟨_, TimerSys.run_singleton (env.step_onTimer h rfl).1⟩

theorem run_cons (t : OnceTask) (e : OnceEvent) (events : List OnceEvent) :
    env.run t (e :: events) = (env.step t e).bind fun t' => env.run t' events := rfl

variable {env}

theorem Reachable.sys {t : OnceTask} (ht : env.Reachable t) : t.sys.Reachable := by
  induction ht with
  | @doInInto reactor reactor' now when tq live inner hfresh hspawn =>
      exact .create hfresh (show TimerSys.create _ (.new now when) = _ by
        simp [TimerSys.create, (TimerActionOnce.doInInto_eq_some hspawn).2.2.2])
  | @doAtInto reactor reactor' now₁ now₂ when tq live inner hfresh hle hspawn =>
      exact .create hfresh (show TimerSys.create _ (.doAt now₁ now₂ when) = _ by
        simp [TimerSys.create, hle, (TimerActionOnce.doInInto_eq_some hspawn).2.2.2])
  | step _ hstep ih =>
      obtain ⟨events, hrun⟩ := env.step_run hstep
      exact ih.run hrun

/-! Past the timer. -/

/-- The task owns its `Timer` exactly while it awaits it. -/
def Phase (t : OnceTask) : Prop := t.state = .awaitTimer ↔ t.sys.dropped = false

/-- The poll that completes the timer and the drop after it leave the `Timer` gone and the expiry
as it was, at the poll's reading. -/
theorem run_poll_drop {s s' : TimerSys} {now : Instant} {waker : Waker}
    (h : s.run [.poll now waker, .drop] = some s') :
    s'.dropped = true ∧ s'.clock = now ∧ s'.inner.when = s.inner.when := by
  simp only [TimerSys.run_cons, TimerSys.run_nil, Option.bind_eq_some, Option.some.injEq] at h
  obtain ⟨mid, hpoll, s'', hdrop, rfl⟩ := h
  obtain ⟨-, hpair, hdropped, -, hclock'⟩ := TimerSys.step_drop hdrop
  have hinner' : s''.inner = { mid.inner with waker := none } :=
    (congrArg Prod.fst hpair).trans (Timer.drop_waker _ _)
  obtain ⟨-, -, hclock, -, ⟨-, hinner, -⟩ | ⟨-, hinner, -⟩⟩ := TimerSys.step_poll hpoll <;>
    exact ⟨hdropped, hclock'.trans hclock, by rw [hinner', hinner]⟩

theorem step_phase {t t' : OnceTask} {e : OnceEvent} (h : env.step t e = some t')
    (hphase : Phase t) : Phase t' := by
  cases e with
  | poll now =>
      obtain ⟨-, -, ⟨-, -, hrun, hs'⟩ | ⟨-, -, hstep, hs'⟩ | ⟨p, hs, hsys, hs'⟩⟩ := env.step_poll h
      · simp [Phase, hs', (run_poll_drop hrun).1, OnceState.pollAction_ne_awaitTimer]
      · simp [Phase, hs', (TimerSys.step_poll hstep).2.2.2.1]
      · simpa [Phase, hs', hsys, hs, OnceState.pollAction_ne_awaitTimer] using hphase
  | destroy =>
      obtain ⟨hstep, hs', -⟩ := env.step_destroy h
      rw [Phase, hs', (TimerSys.step_destroy hstep).2.2.1]
      exact hphase
  | discard =>
      obtain ⟨-, -, hs', ⟨-, hstep⟩ | ⟨p, hs, hsys⟩⟩ := env.step_discard h
      · simp [Phase, hs', (TimerSys.step_drop hstep).2.2.1]
      · simpa [Phase, hs', hsys, hs] using hphase
  | rearmIn now dur | rearmAt now₁ now₂ when | fire now =>
      obtain ⟨-, hdropped, hs', -⟩ := env.step_onTimer h rfl
      rw [Phase, hdropped, hs']
      exact hphase

theorem Reachable.phase {t : OnceTask} (ht : env.Reachable t) : Phase t := by
  induction ht with
  | doInInto | doAtInto => exact iff_of_true rfl rfl
  | step _ hstep ih => exact env.step_phase hstep ih

/-- A task past its timer holds no waker in the cell and no registration in the reactor. -/
theorem Reachable.unregistered {t : OnceTask} (ht : env.Reachable t)
    (hpast : t.state ≠ .awaitTimer) :
    t.sys.inner.waker = none ∧ t.sys.reactor.timers t.sys.inner.id = none := by
  have hdropped : t.sys.dropped = true := by
    simpa [Phase, hpast] using ht.phase
  have hwaker := ht.sys.consistent.dropped hdropped
  exact ⟨hwaker, ht.sys.consistent.registered.none_of_waker_none hwaker⟩

theorem step_past {t t' : OnceTask} {e : OnceEvent} (h : env.step t e = some t')
    (hpast : t.state ≠ .awaitTimer) : t'.state ≠ .awaitTimer := by
  cases e with
  | poll now =>
      obtain ⟨-, -, ⟨hs, -⟩ | ⟨hs, -⟩ | ⟨p, -, -, hs'⟩⟩ := env.step_poll h
      · exact absurd hs hpast
      · exact absurd hs hpast
      · rw [hs']; exact OnceState.pollAction_ne_awaitTimer p
  | destroy => rw [(env.step_destroy h).2.1]; exact hpast
  | discard => rw [(env.step_discard h).2.2.1]; nofun
  | rearmIn now dur | rearmAt now₁ now₂ when | fire now =>
      rw [(env.step_onTimer h rfl).2.2.1]; exact hpast

theorem run_past {t t' : OnceTask} {events : List OnceEvent} (ht : env.Reachable t)
    (hpast : t.state ≠ .awaitTimer) (hrun : env.run t events = some t') :
    env.Reachable t' ∧ t'.state ≠ .awaitTimer ∧ t'.sys.inner.id = t.sys.inner.id := by
  induction events generalizing t with
  | nil => cases hrun; exact ⟨ht, hpast, rfl⟩
  | cons e events ih =>
      obtain ⟨mid, hstep, hrest⟩ := Option.bind_eq_some.mp hrun
      obtain ⟨ht', hpast', hid⟩ := ih (ht.step hstep) (env.step_past hstep hpast) hrest
      obtain ⟨_, hsys⟩ := env.step_run hstep
      exact ⟨ht', hpast', hid.trans (TimerSys.run_frame hsys).id⟩

/-- Once the task is past its timer (its action polled or done, or the cancelled task dropped by
the executor), the timer's cell holds no waker and the reactor no registration for the timer's
id, and no later event brings either back: after the action has started, `rearm_in` and
`rearm_at` only move the cell's expiry, and the timer never wakes the task again. -/
theorem past_timer_stays_unregistered {t t' : OnceTask} {events : List OnceEvent}
    (ht : env.Reachable t) (hpast : t.state ≠ .awaitTimer) (hrun : env.run t events = some t') :
    t'.state ≠ .awaitTimer ∧ t'.sys.inner.id = t.sys.inner.id ∧ t'.sys.inner.waker = none ∧
      t'.sys.reactor.timers t.sys.inner.id = none := by
  obtain ⟨ht', hpast', hid⟩ := env.run_past ht hpast hrun
  rw [← hid]
  exact ⟨hpast', rfl, ht'.unregistered hpast'⟩

/-- `do_in(10)` at reading 0 with an action that completes at once, polled at 10 (the timer
completes, the action runs), then `rearm_in(5)` at 11 and `destroy`: nothing is registered. -/
theorem past_timer_stays_unregistered_after_rearm :
    let env : OnceEnv := ⟨0, ⟨1⟩⟩
    let t : OnceTask :=
      ⟨⟨⟨0, none, ⟨10, by decide⟩⟩, (Reactor.mk (fun _ => none) 1).removeTimer 0,
        ⟨10, by decide⟩, true, none⟩, .finished, false⟩
    let t' : OnceTask :=
      ⟨⟨⟨0, none, ⟨16, by decide⟩⟩,
        ((Reactor.mk (fun _ => none) 1).removeTimer 0).removeTimer 0, ⟨11, by decide⟩, true,
        none⟩, .finished, true⟩
    env.Reachable t ∧ t.state ≠ .awaitTimer ∧
      env.run t [.rearmIn ⟨11, by decide⟩ ⟨5, by decide⟩, .destroy] = some t' ∧
      (t'.state ≠ .awaitTimer ∧ t'.sys.inner.id = t.sys.inner.id ∧ t'.sys.inner.waker = none ∧
        t'.sys.reactor.timers t.sys.inner.id = none) :=
  have ht : OnceEnv.Reachable ⟨0, ⟨1⟩⟩ _ :=
    .step (reachable_do_in_ten _) (show OnceEnv.step _ _ (.poll ⟨10, by decide⟩) = some _ from rfl)
  ⟨ht, nofun, rfl, @past_timer_stays_unregistered _ _ _
    [.rearmIn ⟨11, by decide⟩ ⟨5, by decide⟩, .destroy] ht nofun rfl⟩

/-! When the action starts. -/

/-- The task's own polls, `destroy` and the executor dropping the task leave the expiry as it
is. -/
theorem step_when {t t' : OnceTask} {e : OnceEvent} (he : e.onTimer = none)
    (h : env.step t e = some t') : t'.sys.inner.when = t.sys.inner.when := by
  cases e with
  | poll now =>
      obtain ⟨-, -, ⟨-, -, hrun, -⟩ | ⟨-, -, hstep, -⟩ | ⟨p, -, hsys, -⟩⟩ := env.step_poll h
      · exact (run_poll_drop hrun).2.2
      · obtain ⟨-, -, -, -, ⟨-, hinner, -⟩ | ⟨-, hinner, -⟩⟩ := TimerSys.step_poll hstep <;>
          rw [hinner]
      · rw [hsys]
  | destroy => rw [(TimerSys.step_destroy (env.step_destroy h).1).1]
  | discard =>
      obtain ⟨-, -, -, ⟨-, hstep⟩ | ⟨p, -, hsys⟩⟩ := env.step_discard h
      · obtain ⟨-, hpair, -⟩ := TimerSys.step_drop hstep
        rw [show t'.sys.inner = (Timer.drop t.sys.inner t.sys.reactor).1 from
          congrArg Prod.fst hpair, Timer.drop_waker]
      · rw [hsys]
  | rearmIn | rearmAt | fire => cases he

/-- Along a run, the expiry is no earlier than the deadline set by the last `rearm_in` or
`rearm_at` through the handle, or the one in force before it. -/
theorem run_deadline {t t' : OnceTask} {events : List OnceEvent} {deadline : Nat}
    (hrun : env.run t events = some t') (hle : deadline ≤ t.sys.inner.when.nanos) :
    lastDeadline deadline (events.filterMap OnceEvent.onTimer) ≤ t'.sys.inner.when.nanos := by
  induction events generalizing t deadline with
  | nil => cases hrun; exact hle
  | cons e events ih =>
      obtain ⟨mid, hstep, hrest⟩ := Option.bind_eq_some.mp hrun
      cases he : e.onTimer with
      | none =>
          rw [List.filterMap_cons_none he]
          exact ih hrest (by rw [env.step_when he hstep]; exact hle)
      | some e' =>
          rw [List.filterMap_cons_some he]
          exact ih hrest (TimerSys.step_deadline (env.step_onTimer hstep he).1 hle)

/-- However a `TimerActionOnce` was spawned (`do_in` or `do_at`) and whatever its task and handle
did since, the poll that takes its task past the timer, and so starts the action, takes a reading
no earlier than the timer's expiry, which is no earlier than the deadline set by the last of
`do_in`, `do_at`, `rearm_in` and `rearm_at`. -/
theorem action_starts_after_deadline {reactor : Reactor} {c : Creation} {s₀ : TimerSys}
    {events : List OnceEvent} {t t' : OnceTask} {now : Instant}
    (hcreate : TimerSys.create reactor c = some s₀)
    (hrun : env.run ⟨s₀, .awaitTimer, false⟩ events = some t) (hs : t.state = .awaitTimer)
    (hpoll : env.step t (.poll now) = some t') (hstart : t'.state ≠ .awaitTimer) :
    lastDeadline c.deadline (events.filterMap OnceEvent.onTimer) ≤ t.sys.inner.when.nanos ∧
      t.sys.inner.when ≤ now := by
  refine ⟨env.run_deadline hrun (TimerSys.create_deadline hcreate), ?_⟩
  obtain ⟨-, -, ⟨-, hwhen, -⟩ | ⟨-, -, -, hs'⟩ | ⟨p, hs', -⟩⟩ := env.step_poll hpoll
  · exact hwhen
  · exact absurd hs' hstart
  · rw [hs] at hs'; cases hs'

/-- `do_in(10)` at reading 0, then `rearm_in(5)` at reading 1: the action starts at the poll at 6,
the deadline the rearm set. -/
theorem action_starts_after_deadline_after_rearm :
    let env : OnceEnv := ⟨0, ⟨1⟩⟩
    let s₀ : TimerSys :=
      ⟨⟨0, none, ⟨10, by decide⟩⟩, ⟨fun _ => none, 1⟩, ⟨0, by decide⟩, false, none⟩
    let t : OnceTask :=
      ⟨{ s₀ with inner := ⟨0, none, ⟨6, by decide⟩⟩, clock := ⟨1, by decide⟩ }, .awaitTimer, false⟩
    let events := [OnceEvent.rearmIn ⟨1, by decide⟩ ⟨5, by decide⟩]
    ∃ t', TimerSys.create Reactor.empty (.new ⟨0, by decide⟩ ⟨10, by decide⟩) = some s₀ ∧
      env.run ⟨s₀, .awaitTimer, false⟩ events = some t ∧ t.state = .awaitTimer ∧
      env.step t (.poll ⟨6, by decide⟩) = some t' ∧ t'.state ≠ .awaitTimer ∧
      (lastDeadline (Creation.new ⟨0, by decide⟩ ⟨10, by decide⟩).deadline
          (events.filterMap OnceEvent.onTimer) ≤ t.sys.inner.when.nanos ∧
        t.sys.inner.when ≤ ⟨6, by decide⟩) :=
  ⟨_, rfl, rfl, rfl, rfl, by decide,
    @action_starts_after_deadline ⟨0, ⟨1⟩⟩ Reactor.empty
      (.new ⟨0, by decide⟩ ⟨10, by decide⟩) _
      [.rearmIn ⟨1, by decide⟩ ⟨5, by decide⟩] _ _ ⟨6, by decide⟩ rfl rfl rfl rfl (by decide)⟩

end OnceEnv

end Scipio
