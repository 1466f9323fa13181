import Scipio.Timer.Basic
import Mathlib.Logic.Relation

namespace Scipio

/-! The task `TimerActionRepeat::repeat_into` spawns:

    loop {
        if let Some(period) = action_gen().await {
            Timer::from_id(timer_id, period).await;
        } else {
            break;
        }
    }

Its body runs in moves, one per step between two points where it can stand: calling `action_gen`,
polling the generator's future, building the `Timer` and polling it, dropping it. A poll of the
task makes moves until one returns to the executor. -/

/-- A future returned by `action_gen()`, as the loop sees it: `pendings` polls return `Pending`,
each after arranging for the task to be woken, and the next returns `Ready(output)`. -/
structure GenFuture where
  pendings : Nat
  output : Option Duration

/-- Where the loop's body stands. -/
inductive RepeatState
  | start
  | awaitGen (fut : GenFuture)
  | awaitTimer (inner : Inner)
  | finished

/-- What the loop task reads: its timer id, the futures successive `action_gen()` calls return,
the clock, and the waker the executor polls it with. -/
structure RepeatEnv where
  timerId : Nat
  actionGen : Nat → GenFuture
  clock : Clock
  waker : Waker

/-- The task and the reactor: where the body stands, the reactor, the number of `action_gen()`
calls made and of clock readings taken. -/
structure RepeatCfg where
  state : RepeatState
  reactor : Reactor
  calls : Nat
  reads : Nat

/-- One move of the body: it goes on, or the poll returns `Pending` or `Ready(())`, or
`Instant::now() + period` panics. -/
inductive Move
  | next (c : RepeatCfg)
  | pending (c : RepeatCfg)
  | ready (c : RepeatCfg)
  | panic

/-- The configuration a move leaves; a panic leaves none. -/
def Move.cfg : Move → Option RepeatCfg
  | .next c | .pending c | .ready c => some c
  | .panic => none

/-- The outcome of one poll of the task; `outOfFuel` when it made more moves than it was given. -/
inductive Polled
  | pending (c : RepeatCfg)
  | ready (c : RepeatCfg)
  | panicked
  | outOfFuel

/-- The task between turns of the executor and the reactor: the task with the reactor, and whether
its waker has been woken since its last poll. -/
structure LoopDriven where
  cfg : RepeatCfg
  woken : Bool

/-- Where a turn leaves the task: still pending, or with the outcome of a poll that did not return
`Pending`. -/
inductive Turned
  | pending (d : LoopDriven)
  | done (result : Polled)

/-- Whether a task whose poll returned `Pending` standing here has been woken already: a generator's
future wakes it, a timer leaves that to the reactor. -/
def RepeatState.wakesItself : RepeatState → Bool
  | .awaitGen _ => true
  | _ => false

/-- Discarding the task after it is cancelled drops the future it stands in: a `Timer` it awaits
is dropped with it, and a generator's future holds no timer. -/
def RepeatCfg.discard (c : RepeatCfg) : Reactor :=
  match c.state with
  | .awaitTimer inner => (Timer.drop inner c.reactor).2
  | _ => c.reactor

/-- `TimerActionRepeat::repeat_into`: register an id, and spawn the loop task under it into `tq`, at
the top of its loop; where `Task::local_into` does not find the queue, the task is dropped, holding
no timer yet, and the error returned. The handle keeps the id. -/
def TimerActionRepeat.repeatInto (reactor : Reactor) (tq : TaskQueueHandle)
    (live : TaskQueueHandle → Bool) : Except QueueNotFoundError Nat × Reactor :=
  let (timerId, reactor) := reactor.registerTimer
  if live tq then (.ok timerId, reactor) else (.error ⟨tq.index⟩, reactor)

/-- `TimerActionRepeat::repeat`: `repeat_into` into the current task queue, unwrapped: `none` where
the `unwrap` of a missing queue's error panics. -/
def TimerActionRepeat.repeat (reactor : Reactor) (current : TaskQueueHandle)
    (live : TaskQueueHandle → Bool) : Option (Nat × Reactor) :=
  match repeatInto reactor current live with
  | (.ok timerId, reactor) => some (timerId, reactor)
  | (.error _, _) => none

theorem TimerActionRepeat.repeatInto_reactor (reactor : Reactor) (tq : TaskQueueHandle)
    (live : TaskQueueHandle → Bool) :
    (repeatInto reactor tq live).2 = reactor.registerTimer.2 := by
  simp only [repeatInto, Reactor.registerTimer]
  split <;> rfl

theorem TimerActionRepeat.repeatInto_ok {reactor reactor' : Reactor} {tq : TaskQueueHandle}
    {live : TaskQueueHandle → Bool} {id : Nat}
    (h : repeatInto reactor tq live = (.ok id, reactor')) :
    id = reactor.timerId := by
  simp only [repeatInto, Reactor.registerTimer] at h
  split at h <;> simp_all

namespace RepeatEnv

variable (env : RepeatEnv)

/-- The body's next move. A `Ready` timer is dropped at the end of its `await` statement, before
the loop comes round to `action_gen()` again. -/
def advance (c : RepeatCfg) : Move :=
  match c.state with
  | .start => .next { c with state := .awaitGen (env.actionGen c.calls), calls := c.calls + 1 }
  | .awaitGen fut =>
      match fut.pendings, fut.output with
      | p + 1, _ => .pending { c with state := .awaitGen { fut with pendings := p } }
      | 0, none => .ready { c with state := .finished }
      | 0, some period =>
          match Timer.fromId env.timerId (env.clock c.reads) period with
          | some inner => .next { c with state := .awaitTimer inner, reads := c.reads + 1 }
          | none => .panic
  | .awaitTimer inner =>
      match Timer.poll inner c.reactor (env.clock c.reads) env.waker with
      | (.ready _, inner, reactor) =>
          .next { c with
            state := .start
            reactor := (Timer.drop inner reactor).2
            reads := c.reads + 1 }
      | (.pending, inner, reactor) =>
          .pending { c with state := .awaitTimer inner, reactor, reads := c.reads + 1 }
  | .finished => .ready c

/-- One poll of the task: its moves until one returns, at most `fuel` of them. -/
def poll : Nat → RepeatCfg → Polled
  | 0, _ => .outOfFuel
  | fuel + 1, c =>
      match env.advance c with
      | .next c' => poll fuel c'
      | .pending c' => .pending c'
      | .ready c' => .ready c'
      | .panic => .panicked

/-- One turn, at the next reading where the reactor reads the clock: a woken task is polled, with
`fuel` moves; otherwise the reactor fires the loop's registration if it is due, which wakes the
waker it holds. -/
def turn (fuel : Nat) (d : LoopDriven) : Turned :=
  if d.woken then
    match env.poll fuel d.cfg with
    | .pending c => .pending ⟨c, c.state.wakesItself⟩
    | result => .done result
  else
    match d.cfg.reactor.fireTimer env.timerId (env.clock d.cfg.reads) with
    | some (waker, reactor) =>
        .pending ⟨{ d.cfg with reactor, reads := d.cfg.reads + 1 }, decide (waker = env.waker)⟩
    | none => .pending ⟨{ d.cfg with reads := d.cfg.reads + 1 }, false⟩

/-- The executor and the reactor taking `n` turns, until a poll returns anything but `Pending`. -/
def turns (fuel : Nat) : Nat → LoopDriven → Turned
  | 0, d => .pending d
  | n + 1, d =>
      match env.turn fuel d with
      | .pending d' => turns fuel n d'
      | result => result

theorem turns_succ (fuel n : Nat) (d : LoopDriven) :
    env.turns fuel (n + 1) d =
      match env.turn fuel d with
      | .pending d' => env.turns fuel n d'
      | result => result := rfl

theorem turn_woken (fuel : Nat) (c : RepeatCfg) :
    env.turn fuel ⟨c, true⟩ =
      match env.poll fuel c with
      | .pending c' => .pending ⟨c', c'.state.wakesItself⟩
      | result => .done result := rfl

theorem turn_fire {c : RepeatCfg} {waker : Waker} {reactor : Reactor} (fuel : Nat)
    (h : c.reactor.fireTimer env.timerId (env.clock c.reads) = some (waker, reactor)) :
    env.turn fuel ⟨c, false⟩ =
      .pending ⟨{ c with reactor, reads := c.reads + 1 }, decide (waker = env.waker)⟩ := by
  simp [turn, h]

theorem turn_tick {c : RepeatCfg} (fuel : Nat)
    (h : c.reactor.fireTimer env.timerId (env.clock c.reads) = none) :
    env.turn fuel ⟨c, false⟩ = .pending ⟨{ c with reads := c.reads + 1 }, false⟩ := by
  simp [turn, h]

/-- What can happen to the task and the reactor: a move of the body, or the reactor reading the
clock, which fires the loop's registration if it is due. -/
inductive Step : RepeatCfg → RepeatCfg → Prop
  | move {c c' : RepeatCfg} : (env.advance c).cfg = some c' → Step c c'
  | fire {c : RepeatCfg} {waker : Waker} {reactor : Reactor} :
      c.reactor.fireTimer env.timerId (env.clock c.reads) = some (waker, reactor) →
      Step c { c with reactor, reads := c.reads + 1 }
  | tick {c : RepeatCfg} :
      c.reactor.fireTimer env.timerId (env.clock c.reads) = none →
      Step c { c with reads := c.reads + 1 }

/-- The configurations a run reaches from `c₀`. -/
def Reachable (c₀ c : RepeatCfg) : Prop := Relation.ReflTransGen env.Step c₀ c

/-- `TimerActionRepeat::destroy`: drop the registration of the loop's id. It also cancels the task,
which is then never polled again. -/
def destroy (c : RepeatCfg) : RepeatCfg := { c with reactor := c.reactor.removeTimer env.timerId }

/-- Every timer the loop awaits is under the loop's id. -/
def TimerOwned (c : RepeatCfg) : Prop :=
  ∀ inner, c.state = .awaitTimer inner → inner.id = env.timerId

/-! What one move can do, said once per place the body stands. -/

@[simp] theorem advance_start {c : RepeatCfg} (h : c.state = .start) :
    env.advance c =
      .next { c with state := .awaitGen (env.actionGen c.calls), calls := c.calls + 1 } := by
  simp [advance, h]

theorem advance_awaitGen_pending {c : RepeatCfg} {fut : GenFuture} {p : Nat}
    (h : c.state = .awaitGen fut) (hp : fut.pendings = p + 1) :
    env.advance c = .pending { c with state := .awaitGen { fut with pendings := p } } := by
  simp [advance, h, hp]

theorem advance_awaitGen_none {c : RepeatCfg} {fut : GenFuture} (h : c.state = .awaitGen fut)
    (hp : fut.pendings = 0) (hout : fut.output = none) :
    env.advance c = .ready { c with state := .finished } := by
  simp [advance, h, hp, hout]

theorem advance_awaitGen_some {c : RepeatCfg} {fut : GenFuture} {period : Duration}
    (h : c.state = .awaitGen fut) (hp : fut.pendings = 0) (hout : fut.output = some period) :
    env.advance c =
      match Timer.fromId env.timerId (env.clock c.reads) period with
      | some inner => .next { c with state := .awaitTimer inner, reads := c.reads + 1 }
      | none => .panic := by
  simp [advance, h, hp, hout]

theorem advance_awaitTimer_ready {c : RepeatCfg} {inner : Inner} (h : c.state = .awaitTimer inner)
    (hwhen : inner.when ≤ env.clock c.reads) :
    env.advance c = .next
      { c with
        state := .start
        reactor := (Timer.drop inner (c.reactor.removeTimer inner.id)).2
        reads := c.reads + 1 } := by
  simp [advance, h, Timer.poll_of_ready env.waker hwhen]

theorem advance_awaitTimer_pending {c : RepeatCfg} {inner : Inner}
    (h : c.state = .awaitTimer inner) (hwhen : env.clock c.reads < inner.when) :
    env.advance c = .pending
      { c with
        state := .awaitTimer { inner with waker := some env.waker }
        reactor := c.reactor.insertTimer inner.id inner.when env.waker
        reads := c.reads + 1 } := by
  simp [advance, h, Timer.poll_of_pending env.waker hwhen]

@[simp] theorem advance_finished {c : RepeatCfg} (h : c.state = .finished) :
    env.advance c = .ready c := by
  simp [advance, h]

/-- What one move does, in each place the body can stand. -/
inductive Moves : RepeatCfg → Move → Prop
  | start {c : RepeatCfg} : c.state = .start →
      Moves c (.next { c with state := .awaitGen (env.actionGen c.calls), calls := c.calls + 1 })
  | genPending {c : RepeatCfg} {fut : GenFuture} {p : Nat} :
      c.state = .awaitGen fut → fut.pendings = p + 1 →
      Moves c (.pending { c with state := .awaitGen { fut with pendings := p } })
  | genNone {c : RepeatCfg} {fut : GenFuture} :
      c.state = .awaitGen fut → fut.pendings = 0 → fut.output = none →
      Moves c (.ready { c with state := .finished })
  | build {c : RepeatCfg} {fut : GenFuture} {period : Duration} {inner : Inner} :
      c.state = .awaitGen fut → fut.pendings = 0 → fut.output = some period →
      Timer.fromId env.timerId (env.clock c.reads) period = some inner →
      Moves c (.next { c with state := .awaitTimer inner, reads := c.reads + 1 })
  | overflow {c : RepeatCfg} {fut : GenFuture} {period : Duration} :
      c.state = .awaitGen fut → fut.pendings = 0 → fut.output = some period →
      Timer.fromId env.timerId (env.clock c.reads) period = none → Moves c .panic
  | timerReady {c : RepeatCfg} {inner : Inner} :
      c.state = .awaitTimer inner → inner.when ≤ env.clock c.reads →
      Moves c (.next
        { c with
          state := .start
          reactor := (Timer.drop inner (c.reactor.removeTimer inner.id)).2
          reads := c.reads + 1 })
  | timerPending {c : RepeatCfg} {inner : Inner} :
      c.state = .awaitTimer inner → env.clock c.reads < inner.when →
      Moves c (.pending
        { c with
          state := .awaitTimer { inner with waker := some env.waker }
          reactor := c.reactor.insertTimer inner.id inner.when env.waker
          reads := c.reads + 1 })
  | finished {c : RepeatCfg} : c.state = .finished → Moves c (.ready c)

theorem moves_advance (c : RepeatCfg) : env.Moves c (env.advance c) := by
  cases hs : c.state with
  | start => rw [env.advance_start hs]; exact .start hs
  | awaitGen fut =>
      cases hp : fut.pendings with
      | succ p => rw [env.advance_awaitGen_pending hs hp]; exact .genPending hs hp
      | zero =>
          cases hout : fut.output with
          | none => rw [env.advance_awaitGen_none hs hp hout]; exact .genNone hs hp hout
          | some period =>
              rw [env.advance_awaitGen_some hs hp hout]
              cases hb : Timer.fromId env.timerId (env.clock c.reads) period with
              | some inner => exact .build hs hp hout hb
              | none => exact .overflow hs hp hout hb
  | awaitTimer inner =>
      by_cases hwhen : inner.when ≤ env.clock c.reads
      · rw [env.advance_awaitTimer_ready hs hwhen]; exact .timerReady hs hwhen
      · have hlt := Nat.lt_of_not_le hwhen
        rw [env.advance_awaitTimer_pending hs hlt]; exact .timerPending hs hlt
  | finished => rw [env.advance_finished hs]; exact .finished hs

/-- A configuration a move leaves comes with what the move did. -/
theorem moves_of_cfg {c c' : RepeatCfg} (h : (env.advance c).cfg = some c') :
    ∃ m, env.Moves c m ∧ m.cfg = some c' :=
  ⟨_, env.moves_advance c, h⟩

/-! Polls. -/

theorem poll_succ (fuel : Nat) (c : RepeatCfg) :
    env.poll (fuel + 1) c =
      match env.advance c with
      | .next c' => env.poll fuel c'
      | .pending c' => .pending c'
      | .ready c' => .ready c'
      | .panic => .panicked := rfl

/-- A woken task whose body's next move returns `Pending` is left woken only by a generator's
future. -/
theorem turn_of_pending {fuel : Nat} {c c' : RepeatCfg} (h : env.advance c = .pending c') :
    env.turn (fuel + 1) ⟨c, true⟩ = .pending ⟨c', c'.state.wakesItself⟩ := by
  rw [turn_woken, poll_succ, h]

/-- A poll that returns with some fuel returns the same with more. -/
theorem poll_mono {fuel fuel' : Nat} {c : RepeatCfg} (hle : fuel ≤ fuel')
    (h : env.poll fuel c ≠ .outOfFuel) : env.poll fuel' c = env.poll fuel c := by
  induction fuel generalizing fuel' c with
  | zero => exact absurd rfl h
  | succ fuel ih =>
      obtain ⟨fuel', rfl⟩ : ∃ k, fuel' = k + 1 := ⟨fuel' - 1, by omega⟩
      cases hadv : env.advance c <;> simp only [poll_succ, hadv] at h ⊢
      exact ih (by omega) h

/-! `destroy`. -/

theorem step_timerOwned {c c' : RepeatCfg} (hstep : env.Step c c') (h : env.TimerOwned c) :
    env.TimerOwned c' := by
  cases hstep with
  | fire _ | tick _ => exact h
  | move hmove =>
      obtain ⟨m, hm, hmove⟩ := env.moves_of_cfg hmove
      cases hm with
      | build _ _ _ hb =>
          cases hmove; exact fun _ hs => by cases hs; exact (Timer.fromId_eq_some.mp hb).1
      | @timerPending inner hs _ =>
          cases hmove; exact fun _ hs' => by cases hs'; exact h inner hs
      | finished _ => cases hmove; exact h
      | overflow _ _ _ _ => cases hmove
      | start _ | genPending _ _ | genNone _ _ _ | timerReady _ _ =>
          cases hmove; exact fun _ hs => by cases hs

/-- Wherever a run of the loop task from the top of its loop stands, `TimerActionRepeat::destroy`
and then discarding the cancelled task leave no registration for the loop's id, and every other id's
registration as the run left it. -/
theorem destroy_leaves_no_registration {c₀ c : RepeatCfg} (h₀ : c₀.state = .start)
    (hreach : env.Reachable c₀ c) :
    (env.destroy c).discard.timers env.timerId = none ∧
      ∀ i, i ≠ env.timerId → (env.destroy c).discard.timers i = c.reactor.timers i := by
  have howned : env.TimerOwned c := by
    induction hreach with
    | refl => exact fun _ hs => by rw [h₀] at hs; cases hs
    | tail _ hstep ih => exact env.step_timerOwned hstep ih
  unfold RepeatCfg.discard
  split
  · rename_i inner hs
    rw [Timer.drop_timers, howned inner hs]
    exact ⟨by split <;> simp [destroy], fun i hi => by split <;> simp [destroy, hi]⟩
  · exact ⟨by simp [destroy], fun i hi => by simp [destroy, hi]⟩

/-- One period of 5 µs on the ticking clock: once the loop's first timer has registered, `destroy`
and discarding the task remove the registration. -/
theorem destroy_leaves_no_registration_while_waiting :
    let env : RepeatEnv :=
      ⟨0, fun _ => ⟨0, some (Duration.fromMicros 5)⟩, Clock.ticking, ⟨0⟩⟩
    let c₀ : RepeatCfg := ⟨.start, ⟨fun _ => none, 1⟩, 0, 0⟩
    let c : RepeatCfg := ⟨.awaitTimer ⟨0, some ⟨0⟩, ⟨5000, by decide⟩⟩,
      (Reactor.mk (fun _ => none) 1).insertTimer 0 ⟨5000, by decide⟩ ⟨0⟩, 1, 2⟩
    c₀.state = .start ∧ env.Reachable c₀ c ∧
      c.reactor.timers env.timerId = some (⟨5000, by decide⟩, ⟨0⟩) ∧
      ((env.destroy c).discard.timers env.timerId = none ∧
        ∀ i, i ≠ env.timerId → (env.destroy c).discard.timers i = c.reactor.timers i) :=
  ⟨rfl, .head (.move rfl) (.head (.move rfl) (.head (.move rfl) .refl)), rfl,
    @destroy_leaves_no_registration _ ⟨.start, ⟨fun _ => none, 1⟩, 0, 0⟩ _ rfl
      (.head (.move rfl) (.head (.move rfl) (.head (.move rfl) .refl)))⟩

/-! The loop against the reactor, whatever its generator yields. -/

/-- Every registration of the loop's id is the timer an iteration awaits, as its expiry and
waker. -/
def Registers (c : RepeatCfg) : Prop :=
  ∀ when waker, c.reactor.timers env.timerId = some (when, waker) →
    ∃ inner, c.state = .awaitTimer inner ∧ inner.waker = some waker ∧ when = inner.when

variable {env}

theorem Registers.none_of_not_awaitTimer {c : RepeatCfg} (h : env.Registers c)
    (hs : ∀ inner, c.state ≠ .awaitTimer inner) : c.reactor.timers env.timerId = none := by
  cases hentry : c.reactor.timers env.timerId with
  | none => rfl
  | some entry =>
      obtain ⟨inner, hinner, -⟩ := h entry.1 entry.2 hentry
      exact absurd hinner (hs inner)

/-- A move or a reading of the reactor changes the reactor only at the loop's id, and keeps handing
out the same ids, and every registration it leaves is the awaited timer's. -/
theorem step_registers {c c' : RepeatCfg} (hstep : env.Step c c') (howned : env.TimerOwned c)
    (h : env.Registers c) :
    c'.reactor.timerId = c.reactor.timerId ∧
      (∀ i, i ≠ env.timerId → c'.reactor.timers i = c.reactor.timers i) ∧ env.Registers c' := by
  cases hstep with
  | fire hfire =>
      obtain ⟨-, -, -, rfl⟩ := Reactor.fireTimer_eq_some hfire
      exact ⟨rfl, fun i hi => by simp [hi], fun _ _ hentry => by simp at hentry⟩
  | tick _ => exact ⟨rfl, fun _ _ => rfl, h⟩
  | move hmove =>
      have hkeep : ∀ {c' : RepeatCfg}, c'.reactor = c.reactor →
          (∀ inner, c.state ≠ .awaitTimer inner) →
          c'.reactor.timerId = c.reactor.timerId ∧
            (∀ i, i ≠ env.timerId → c'.reactor.timers i = c.reactor.timers i) ∧
            env.Registers c' := fun hr hs =>
        ⟨by rw [hr], fun _ _ => by rw [hr], fun _ _ hentry => by
          rw [hr, h.none_of_not_awaitTimer hs] at hentry; cases hentry⟩
      obtain ⟨m, hm, hmove⟩ := env.moves_of_cfg hmove
      cases hm with
      | timerReady hs _ =>
          cases hmove
          have hid := howned _ hs
          refine ⟨by simp, fun i hi => ?_, fun _ _ hentry => ?_⟩
          · rw [Timer.drop_timers]; split <;> simp [hi, hid]
          · simp only [Timer.drop_timers, hid] at hentry
            split at hentry <;> simp at hentry
      | timerPending hs _ =>
          cases hmove
          have hid := howned _ hs
          refine ⟨by simp, fun i hi => by simp [hi, hid], fun when waker hentry => ?_⟩
          rw [← hid] at hentry
          simp only [Reactor.insertTimer_self, Option.some.injEq, Prod.mk.injEq] at hentry
          exact ⟨_, rfl, by rw [hentry.2], hentry.1.symm⟩
      | overflow _ _ _ _ => cases hmove
      | start hs | genPending hs _ | genNone hs _ _ | build hs _ _ _ | finished hs =>
          cases hmove; exact hkeep rfl fun _ => by rw [hs]; nofun

/-- Dropping the cancelled task changes the reactor only at the loop's id, and leaves no
registration there that was not there before. -/
theorem discard_frame {c : RepeatCfg} (howned : env.TimerOwned c) :
    c.discard.timerId = c.reactor.timerId ∧
      (∀ i, i ≠ env.timerId → c.discard.timers i = c.reactor.timers i) ∧
      (c.reactor.timers env.timerId = none → c.discard.timers env.timerId = none) := by
  unfold RepeatCfg.discard
  split
  · rename_i inner hs
    have hid := howned inner hs
    refine ⟨by simp, fun i hi => ?_, fun hnone => ?_⟩
    · rw [Timer.drop_timers]; split <;> simp [hi, hid]
    · rw [Timer.drop_timers]; split <;> simp [hid, hnone]
  · exact ⟨rfl, fun _ _ => rfl, id⟩

end RepeatEnv

end Scipio
