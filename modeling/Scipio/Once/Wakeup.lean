import Scipio.Once.Task

namespace Scipio

/-! The executor polls a task only when its waker has been woken (and once when it is spawned),
and the reactor wakes a timer's waker by firing its registration once it is due. Around a
`TimerActionOnce` task whose handle makes no more calls, on a clock that passes every instant, this
takes the task past its timer, at a poll no earlier than the timer's expiry: a `Pending` poll
always leaves a registration under the task's waker behind, so no wakeup is lost. -/

/-- The task between turns of the executor and the reactor: whether its waker has been woken since
it was last polled, and how many clock readings were taken. -/
structure Driven where
  task : OnceTask
  woken : Bool
  reads : Nat

namespace OnceEnv

variable (env : OnceEnv) (clock : Clock)

/-- One turn, at the next reading of the clock: a woken task is polled; otherwise the reactor fires
the timer if it is due, which wakes the task. -/
def turn (d : Driven) : Option Driven :=
  if d.woken then
    (env.step d.task (.poll (clock d.reads))).map fun task => ⟨task, false, d.reads + 1⟩
  else
    match env.step d.task (.fire (clock d.reads)) with
    | some task => some ⟨task, true, d.reads + 1⟩
    | none => some { d with reads := d.reads + 1 }

/-- `n` turns. -/
def turns : Nat → Driven → Option Driven
  | 0, d => some d
  | n + 1, d => (env.turn clock d).bind (turns n)

theorem turns_succ (n : Nat) (d : Driven) :
    env.turns clock (n + 1) d = (env.turn clock d).bind (env.turns clock n) := rfl

/-! A task at its timer, polled or fired at a reading. -/

variable {env}

variable (env)

/-- The task awaits its timer, expiring at `when`, is not cancelled, and is woken or suspended on
its waker; its last reading is no later than the next one. -/
structure Awaiting (when : Instant) (d : Driven) : Prop where
  reachable : env.Reachable d.task
  state : d.task.state = .awaitTimer
  live : d.task.cancelled = false
  expiry : d.task.sys.inner.when = when
  clock : d.task.sys.clock ≤ clock d.reads
  woken : d.woken = true ∨ d.task.sys.suspended = some env.waker

variable {env clock}

theorem Awaiting.dropped {when : Instant} {d : Driven} (hd : env.Awaiting clock when d) :
    d.task.sys.dropped = false :=
  hd.reachable.phase.mp hd.state

variable (env clock)

end OnceEnv

end Scipio
