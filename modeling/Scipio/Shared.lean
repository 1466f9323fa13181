import Scipio.Once.Task
import Scipio.Repeat.Loop

namespace Scipio

/-! Everything the timer module hands a timer id to, on the one reactor `Reactor::get()` returns:
`Timer`s, the tasks and handles of `TimerActionOnce`, and the loop tasks and handles of
`TimerActionRepeat`, created and stepped in any interleaving. Each object is kept under the id
`register_timer` handed it. A step of one object touches the reactor only at its own id, so the
others' invariants survive it, and every registration the reactor holds belongs to the object under
its id. All of them read the one clock: a step takes its readings at the world's time, which never
goes back. -/

/-- A `Timer` as the one-timer system has it, without the reactor and the clock it shares. -/
structure TimerCell where
  inner : Inner
  dropped : Bool
  suspended : Option Waker

def TimerCell.sys (cell : TimerCell) (reactor : Reactor) (clock : Instant) : TimerSys :=
  ⟨cell.inner, reactor, clock, cell.dropped, cell.suspended⟩

def TimerSys.cell (s : TimerSys) : TimerCell := ⟨s.inner, s.dropped, s.suspended⟩

@[simp] theorem TimerSys.cell_sys (s : TimerSys) : s.cell.sys s.reactor s.clock = s := rfl

/-- A loop task without the reactor: where its body stands, its calls and readings, and whether
`destroy` cancelled it. -/
structure LoopCell where
  state : RepeatState
  calls : Nat
  reads : Nat
  cancelled : Bool

def LoopCell.cfg (cell : LoopCell) (reactor : Reactor) : RepeatCfg :=
  ⟨cell.state, reactor, cell.calls, cell.reads⟩

/-- What a timer id is handed to: a `Timer`; a `TimerActionOnce`'s task and handle, with the
task's timer; a `TimerActionRepeat`'s loop task and handle. -/
inductive Obj
  | timer (cell : TimerCell)
  | once (env : OnceEnv) (cell : TimerCell) (state : OnceState) (cancelled : Bool)
  | loop (env : RepeatEnv) (cell : LoopCell)

namespace Obj

/-- The id the object registers under. -/
def id : Obj → Nat
  | .timer cell | .once _ cell _ _ => cell.inner.id
  | .loop env _ => env.timerId

/-- The timer cell of a `Timer` or a `TimerActionOnce`. -/
def timerCell : Obj → Option TimerCell
  | .timer cell | .once _ cell _ _ => some cell
  | .loop _ _ => none

/-- The object holds the registration `(when, waker)`: a timer's cell holds the waker and expires
at `when`; a live loop awaits a timer, built under the loop's id, that does. -/
def Holds (when : Instant) (waker : Waker) : Obj → Prop
  | .timer cell | .once _ cell _ _ => cell.inner.waker = some waker ∧ when = cell.inner.when
  | .loop env cell => cell.cancelled = false ∧ ∃ inner, cell.state = .awaitTimer inner ∧
      inner.id = env.timerId ∧ inner.waker = some waker ∧ when = inner.when

/-- What an object kept under `i` keeps against the reactor: it registers under `i`; a timer's cell
is consistent with the reactor; a loop's timers are built under `i`, a registration of `i` is the
timer it awaits, and a cancelled loop has none. -/
def Sound (i : Nat) (reactor : Reactor) (clock : Instant) : Obj → Prop
  | .timer cell | .once _ cell _ _ => cell.inner.id = i ∧ (cell.sys reactor clock).Consistent
  | .loop env cell => env.timerId = i ∧ env.TimerOwned (cell.cfg reactor) ∧
      env.Registers (cell.cfg reactor) ∧ (cell.cancelled = true → reactor.timers i = none)

/-- What an object keeps depends on the reactor only at its own id. -/
theorem Sound.frame {o : Obj} {i : Nat} {reactor reactor' : Reactor} {clock clock' : Instant}
    (h : o.Sound i reactor clock) (hi : reactor'.timers i = reactor.timers i) :
    o.Sound i reactor' clock' := by
  cases o with
  | timer cell | once _ cell _ _ =>
      obtain ⟨hid, hc⟩ := h
      have hi' : reactor'.timers cell.inner.id = reactor.timers cell.inner.id := hid ▸ hi
      exact ⟨hid, fun when waker he => hc.registered when waker (hi' ▸ he),
        fun waker hs => hi'.trans (hc.suspended waker hs), hc.dropped⟩
  | loop env cell =>
      obtain ⟨hid, howned, hreg, hcancel⟩ := h
      subst hid
      exact ⟨rfl, howned, fun when waker he => hreg when waker (hi ▸ he),
        fun hc => hi.trans (hcancel hc)⟩

end Obj

/-- The reactor, the clock the timers read, and the object each id was handed to. -/
structure World where
  reactor : Reactor
  clock : Instant
  objects : Nat → Option Obj

namespace World

/-- The world with a new object under the id `register_timer` hands out next. -/
def insert (w : World) (reactor : Reactor) (clock : Instant) (o : Obj) : World :=
  ⟨reactor, clock, Function.update w.objects w.reactor.timerId (some o)⟩

/-- One step: `Timer::new`, `do_in_into`, `do_at_into` or `repeat_into` creates an object under the
next id, or a spawn into a missing queue leaves that id unused; or one object takes a step of its
own, a `TimerActionRepeat` is destroyed, or its cancelled task is dropped by the executor. A
`Timer` may take any event of the one-timer system, more than its owner can call on it. A loop task
reads its clock at the world's time `now`: its readings are those of the one clock. -/
inductive Step : World → World → Prop
  | new {w : World} {now : Instant} {dur : Duration} {inner : Inner} {reactor : Reactor} :
      w.clock ≤ now → Timer.new w.reactor now dur = some (inner, reactor) →
      Step w (w.insert reactor now (.timer ⟨inner, false, none⟩))
  | doInInto {w : World} {env : OnceEnv} {now : Instant} {when : Duration}
      {tq : TaskQueueHandle} {live : TaskQueueHandle → Bool} {inner : Inner} {reactor : Reactor} :
      w.clock ≤ now →
      TimerActionOnce.doInInto w.reactor now when tq live = some (.ok inner, reactor) →
      Step w (w.insert reactor now (.once env ⟨inner, false, none⟩ .awaitTimer false))
  | doAtInto {w : World} {env : OnceEnv} {now₁ now₂ when : Instant}
      {tq : TaskQueueHandle} {live : TaskQueueHandle → Bool} {inner : Inner} {reactor : Reactor} :
      w.clock ≤ now₁ → now₁ ≤ now₂ →
      TimerActionOnce.doAtInto w.reactor now₁ now₂ when tq live = some (.ok inner, reactor) →
      Step w (w.insert reactor now₂ (.once env ⟨inner, false, none⟩ .awaitTimer false))
  | doInIntoFailed {w : World} {now : Instant} {when : Duration} {tq : TaskQueueHandle}
      {live : TaskQueueHandle → Bool} {e : QueueNotFoundError} {reactor : Reactor} :
      w.clock ≤ now →
      TimerActionOnce.doInInto w.reactor now when tq live = some (.error e, reactor) →
      Step w { w with reactor, clock := now }
  | repeatInto {w : World} {actionGen : Nat → GenFuture} {clock : Clock} {waker : Waker}
      {tq : TaskQueueHandle} {live : TaskQueueHandle → Bool} {id : Nat} {reactor : Reactor} :
      TimerActionRepeat.repeatInto w.reactor tq live = (.ok id, reactor) →
      Step w (w.insert reactor w.clock (.loop ⟨id, actionGen, clock, waker⟩ ⟨.start, 0, 0, false⟩))
  | repeatIntoFailed {w : World} {tq : TaskQueueHandle} {live : TaskQueueHandle → Bool}
      {e : QueueNotFoundError} {reactor : Reactor} :
      TimerActionRepeat.repeatInto w.reactor tq live = (.error e, reactor) →
      Step w { w with reactor }
  | timer {w : World} {i : Nat} {cell : TimerCell} {e : Event} {s : TimerSys} :
      w.objects i = some (.timer cell) → (cell.sys w.reactor w.clock).step e = some s →
      Step w ⟨s.reactor, s.clock, Function.update w.objects i (some (.timer s.cell))⟩
  | once {w : World} {i : Nat} {env : OnceEnv} {cell : TimerCell} {state : OnceState}
      {cancelled : Bool} {e : OnceEvent} {t : OnceTask} :
      w.objects i = some (.once env cell state cancelled) →
      env.step ⟨cell.sys w.reactor w.clock, state, cancelled⟩ e = some t →
      Step w ⟨t.sys.reactor, t.sys.clock,
        Function.update w.objects i (some (.once env t.sys.cell t.state t.cancelled))⟩
  | loop {w : World} {i : Nat} {env : RepeatEnv} {cell : LoopCell} {c : RepeatCfg} {now : Instant} :
      w.objects i = some (.loop env cell) → cell.cancelled = false → w.clock ≤ now →
      (cell.reads < c.reads → env.clock cell.reads = now) → env.Step (cell.cfg w.reactor) c →
      Step w ⟨c.reactor, now,
        Function.update w.objects i (some (.loop env ⟨c.state, c.calls, c.reads, false⟩))⟩
  | loopDestroy {w : World} {i : Nat} {env : RepeatEnv} {cell : LoopCell} :
      w.objects i = some (.loop env cell) →
      Step w { w with
        reactor := (env.destroy (cell.cfg w.reactor)).reactor
        objects := Function.update w.objects i (some (.loop env { cell with cancelled := true })) }
  | loopDiscard {w : World} {i : Nat} {env : RepeatEnv} {cell : LoopCell} :
      w.objects i = some (.loop env cell) → cell.cancelled = true →
      Step w { w with
        reactor := (cell.cfg w.reactor).discard
        objects := Function.update w.objects i none }

/-- The worlds the program reaches: from a reactor with nothing registered and no object, any
steps. -/
inductive Reachable : World → Prop
  | init {reactor : Reactor} {clock : Instant} :
      (∀ i, reactor.timers i = none) → Reachable ⟨reactor, clock, fun _ => none⟩
  | step {w w' : World} : Reachable w → Step w w' → Reachable w'

/-- What the world keeps: no object and no registration from the next id on, every registration
belongs to an object, and every object keeps its own invariant under its id. -/
structure Sound (w : World) : Prop where
  fresh : ∀ i, w.reactor.timerId ≤ i → w.objects i = none ∧ w.reactor.timers i = none
  owned : ∀ i entry, w.reactor.timers i = some entry → w.objects i ≠ none
  objects : ∀ i o, w.objects i = some o → o.Sound i w.reactor w.clock

namespace Sound

variable {w : World}

theorem lt_of_objects (hw : w.Sound) {i : Nat} (hi : w.objects i ≠ none) :
    i < w.reactor.timerId :=
  Nat.lt_of_not_le fun hle => hi (hw.fresh i hle).1

/-- A step of the object under `k` changes the reactor only at `k` and keeps handing out the same
ids; the object is replaced by one that keeps its invariant, or removed with no registration of
`k` left. -/
theorem update (hw : w.Sound) {k : Nat} {reactor : Reactor} {clock : Instant} {o : Option Obj}
    (hk : w.objects k ≠ none) (hnext : reactor.timerId = w.reactor.timerId)
    (hothers : ∀ i, i ≠ k → reactor.timers i = w.reactor.timers i)
    (ho : ∀ o', o = some o' → o'.Sound k reactor clock)
    (hnone : o = none → reactor.timers k = none) :
    Sound ⟨reactor, clock, Function.update w.objects k o⟩ := by
  have hlt := hw.lt_of_objects hk
  refine ⟨fun i hi => ?_, fun i entry hentry => ?_, fun i o' hi => ?_⟩
  · have hik : i ≠ k := by simp only at hi; omega
    rw [hnext] at hi
    simp only [Function.update_noteq hik, hothers i hik]
    exact hw.fresh i hi
  · by_cases hik : i = k
    · subst hik
      cases o with
      | none => simp [hnone rfl] at hentry
      | some o => simp
    · simp only [Function.update_noteq hik]
      exact hw.owned i entry (by rw [← hothers i hik]; exact hentry)
  · by_cases hik : i = k
    · subst hik
      simp only [Function.update_same] at hi
      exact ho o' hi
    · simp only [Function.update_noteq hik] at hi
      exact (hw.objects i o' hi).frame (hothers i hik)

/-- A new object, or none, under the id `register_timer` hands out, which adds no registration. -/
theorem insert (hw : w.Sound) {reactor : Reactor} {clock : Instant} {o : Option Obj}
    (hnext : reactor.timerId = w.reactor.timerId + 1) (htimers : reactor.timers = w.reactor.timers)
    (ho : ∀ o', o = some o' → o'.Sound w.reactor.timerId reactor clock) :
    Sound ⟨reactor, clock, Function.update w.objects w.reactor.timerId o⟩ := by
  refine ⟨fun i hi => ?_, fun i entry hentry => ?_, fun i o' hi => ?_⟩
  · have hik : i ≠ w.reactor.timerId := by simp only at hi; omega
    simp only [Function.update_noteq hik, htimers]
    exact hw.fresh i (by simp only at hi; omega)
  · have hik : i ≠ w.reactor.timerId := fun h => by
      rw [htimers, h, (hw.fresh _ (Nat.le_refl _)).2] at hentry
      cases hentry
    simp only [Function.update_noteq hik]
    exact hw.owned i entry (htimers ▸ hentry)
  · by_cases hik : i = w.reactor.timerId
    · subst hik
      simp only [Function.update_same] at hi
      exact ho o' hi
    · simp only [Function.update_noteq hik] at hi
      exact (hw.objects i o' hi).frame (by rw [htimers])

/-- Handing out an id to nothing, as a spawn into a missing queue does. -/
theorem register (hw : w.Sound) {reactor : Reactor} {clock : Instant}
    (hnext : reactor.timerId = w.reactor.timerId + 1)
    (htimers : reactor.timers = w.reactor.timers) :
    Sound ⟨reactor, clock, w.objects⟩ := by
  refine ⟨fun i hi => ?_, fun i entry hentry => hw.owned i entry (htimers ▸ hentry),
    fun i o hi => (hw.objects i o hi).frame (by rw [htimers])⟩
  simp only [htimers]
  exact hw.fresh i (by simp only at hi; omega)

/-- What `Timer::new` builds, also inside `do_in_into` and `do_at_into`: a cell under the id handed
out, consistent with the reactor, which gains no registration. -/
theorem new {now : Instant} {dur : Duration} {inner : Inner} {reactor : Reactor} (hw : w.Sound)
    (hnew : Timer.new w.reactor now dur = some (inner, reactor)) :
    reactor.timerId = w.reactor.timerId + 1 ∧ reactor.timers = w.reactor.timers ∧
      (Obj.timer ⟨inner, false, none⟩).Sound w.reactor.timerId reactor now := by
  have hcreate : TimerSys.create w.reactor (.new now dur) =
      some (TimerCell.sys ⟨inner, false, none⟩ reactor now) := by
    simp [TimerSys.create, hnew, TimerCell.sys]
  obtain ⟨hid, hnext, htimers⟩ := TimerSys.create_frame hcreate
  exact ⟨hnext, htimers, hid,
    TimerSys.create_consistent (fun i hi => (hw.fresh i hi).2) hcreate⟩

end Sound

theorem Step.sound {w w' : World} (hstep : Step w w') (hw : w.Sound) : w'.Sound := by
  cases hstep with
  | new _ hnew =>
      obtain ⟨hnext, htimers, ho⟩ := hw.new hnew
      exact hw.insert hnext htimers fun _ h => by cases h; exact ho
  | doInInto _ hspawn | doAtInto _ _ hspawn =>
      obtain ⟨hnext, htimers, ho⟩ := hw.new (TimerActionOnce.doInInto_eq_some hspawn).2.2.2
      exact hw.insert hnext htimers fun _ h => by cases h; exact ho
  | doInIntoFailed _ hspawn =>
      obtain ⟨htimers, hnext, -⟩ := TimerActionOnce.doInInto_eq_some hspawn
      exact hw.register hnext htimers
  | repeatInto hspawn =>
      have hid := TimerActionRepeat.repeatInto_ok hspawn
      have hreactor := (congrArg Prod.snd hspawn).symm.trans
        (TimerActionRepeat.repeatInto_reactor _ _ _)
      subst hreactor
      refine hw.insert rfl rfl fun _ h => ?_
      cases h
      refine ⟨hid, fun _ hs => ?_, fun _ _ hentry => ?_, fun h => ?_⟩
      · cases hs
      · simp [LoopCell.cfg, Reactor.registerTimer, hid, (hw.fresh _ (Nat.le_refl _)).2] at hentry
      · cases h
  | repeatIntoFailed hspawn =>
      have hreactor := (congrArg Prod.snd hspawn).symm.trans
        (TimerActionRepeat.repeatInto_reactor _ _ _)
      subst hreactor
      exact hw.register rfl rfl
  | timer hi hstep =>
      obtain ⟨hid, hc⟩ := hw.objects _ _ hi
      have hframe := TimerSys.step_frame hstep
      exact hw.update (by simp [hi]) hframe.timerId (fun j hj => hframe.others j (hid ▸ hj))
        (fun _ h => by cases h; exact ⟨hframe.id.trans hid, TimerSys.step_consistent hc hstep⟩)
        nofun
  | once hi hstep =>
      obtain ⟨hid, hc⟩ := hw.objects _ _ hi
      obtain ⟨_, hrun⟩ := OnceEnv.step_run _ hstep
      have hframe := TimerSys.run_frame hrun
      exact hw.update (by simp [hi]) hframe.timerId (fun j hj => hframe.others j (hid ▸ hj))
        (fun _ h => by cases h; exact ⟨hframe.id.trans hid, TimerSys.run_consistent hc hrun⟩)
        nofun
  | loop hi _ _ _ hstep =>
      obtain ⟨hid, howned, hreg, -⟩ := hw.objects _ _ hi
      obtain ⟨hnext, hothers, hreg'⟩ := RepeatEnv.step_registers hstep howned hreg
      exact hw.update (by simp [hi]) hnext (fun j hj => hothers j (hid ▸ hj))
        (fun _ h => by cases h; exact ⟨hid, RepeatEnv.step_timerOwned _ hstep howned, hreg', nofun⟩)
        nofun
  | loopDestroy hi =>
      obtain ⟨hid, howned, -, -⟩ := hw.objects _ _ hi
      subst hid
      refine hw.update (by simp [hi]) rfl
        (fun j hj => by simp [RepeatEnv.destroy, LoopCell.cfg, hj]) (fun _ h => ?_) nofun
      cases h
      refine ⟨rfl, howned, fun _ _ hentry => ?_, fun _ => by simp [RepeatEnv.destroy, LoopCell.cfg]⟩
      simp [RepeatEnv.destroy, LoopCell.cfg] at hentry
  | loopDiscard hi hcancelled =>
      obtain ⟨hid, howned, -, hcancel⟩ := hw.objects _ _ hi
      obtain ⟨hnext, hothers, hnone⟩ := RepeatEnv.discard_frame howned
      subst hid
      exact hw.update (by simp [hi]) hnext hothers nofun fun _ => hnone (hcancel hcancelled)

theorem Reachable.sound {w : World} (hw : w.Reachable) : w.Sound := by
  induction hw with
  | init hnone => exact ⟨fun i _ => ⟨rfl, hnone i⟩, fun i _ h => by simp [hnone i] at h, nofun⟩
  | step _ hstep ih => exact hstep.sound ih

/-- However the program creates and interleaves timers, once actions and repeat loops on the one
reactor: each object registers under the id it was handed, below the next one; every registration
is its object's expiry and waker; and a suspended `Timer` is registered under its last poll's
waker. -/
theorem registrations_belong_to_their_objects {w : World} (hw : w.Reachable) :
    (∀ i o, w.objects i = some o → o.id = i ∧ i < w.reactor.timerId) ∧
    (∀ i when waker, w.reactor.timers i = some (when, waker) →
      ∃ o, w.objects i = some o ∧ o.Holds when waker) ∧
    (∀ i o cell waker, w.objects i = some o → o.timerCell = some cell →
      cell.suspended = some waker → w.reactor.timers i = some (cell.inner.when, waker)) := by
  have hs := hw.sound
  refine ⟨fun i o hi => ⟨?_, hs.lt_of_objects (by simp [hi])⟩, fun i when waker hentry => ?_,
    fun i o cell waker hi hcell hsusp => ?_⟩
  · have ho := hs.objects i o hi
    cases o <;> exact ho.1
  · obtain ⟨o, hi⟩ := Option.ne_none_iff_exists'.mp (hs.owned i _ hentry)
    refine ⟨o, hi, ?_⟩
    have ho := hs.objects i o hi
    cases o with
    | timer cell | once _ cell _ _ =>
        obtain ⟨hid, hc⟩ := ho
        exact hc.registered when waker (hid ▸ hentry)
    | loop env cell =>
        obtain ⟨hid, howned, hreg, hcancel⟩ := ho
        subst hid
        obtain ⟨inner, hstate, hwaker, hwhen⟩ := hreg when waker hentry
        refine ⟨?_, inner, hstate, howned inner hstate, hwaker, hwhen⟩
        cases hc : cell.cancelled
        · rfl
        · simp [hcancel hc] at hentry
  · have ho := hs.objects i o hi
    cases o with
    | timer cell' | once _ cell' _ _ =>
        cases hcell
        obtain ⟨hid, hc⟩ := ho
        exact hid ▸ hc.suspended waker hsusp
    | loop => cases hcell

/-- `Timer::new(10)` at reading 0 on a fresh reactor, then a `Pending` poll at 0 with waker 1,
then `repeat_into` beside it: the timer's registration is its own, under id 0. -/
theorem registrations_belong_to_their_objects_beside_a_loop :
    ∃ w : World, w.Reachable ∧ w.reactor.timers 0 = some (⟨10, by decide⟩, ⟨1⟩) ∧
      w.objects 1 ≠ none ∧
      ((∀ i o, w.objects i = some o → o.id = i ∧ i < w.reactor.timerId) ∧
        (∀ i when waker, w.reactor.timers i = some (when, waker) →
          ∃ o, w.objects i = some o ∧ o.Holds when waker) ∧
        (∀ i o cell waker, w.objects i = some o → o.timerCell = some cell →
          cell.suspended = some waker → w.reactor.timers i = some (cell.inner.when, waker))) :=
  have hw : World.Reachable _ :=
    .step (.step (.step (@World.Reachable.init Reactor.empty ⟨0, by decide⟩ fun _ => rfl)
        (@World.Step.new _ ⟨0, by decide⟩ ⟨10, by decide⟩ _ _ (Nat.le_refl 0) rfl))
      (@World.Step.timer _ 0 _ (.poll ⟨0, by decide⟩ ⟨1⟩) _ rfl rfl))
      (@World.Step.repeatInto _ (fun _ => ⟨0, none⟩) Clock.ticking ⟨2⟩ ⟨0⟩ (fun _ => true) _ _
        rfl)
  ⟨_, hw, rfl, Option.some_ne_none _, registrations_belong_to_their_objects hw⟩

end World

end Scipio
