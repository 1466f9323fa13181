import Scipio.Repeat.Loop
import Scipio.Timer.Registration
import Scipio.Timer.Expiry

namespace Scipio

/-! The loop task over a generator that yields a list of periods and then `None`. In every run the
id holds a registration only while an iteration awaits its timer, and then that timer's own, kept
until a reading reaches its expiry; a call comes at least a period after the future before it
resolved. Driven by an executor that polls the task only once it is woken, and a reactor that fires
due registrations, on a clock that passes every instant, the task ends after one call more than
there are periods, or panics where a period overflows a reading. -/

namespace RepeatEnv

variable (env : RepeatEnv) (periods : List Duration)

/-- The generator yields `periods` and then `None`: call `i` (from 0) resolves to `periods[i]?`. -/
def Generates : Prop :=
  ∀ i ≤ periods.length, (env.actionGen i).output = periods[i]?

/-- The loop against the periods and the reactor, wherever the body stands: a future is that of the
latest call, and the timer id is registered only while an iteration awaits its timer, under that
timer's expiry and waker. -/
def Scheduled (c : RepeatCfg) : Prop :=
  match c.state with
  | .start => c.calls ≤ periods.length ∧ c.reactor.timers env.timerId = none
  | .awaitGen fut =>
      0 < c.calls ∧ c.calls ≤ periods.length + 1 ∧ fut.output = periods[c.calls - 1]? ∧
        c.reactor.timers env.timerId = none
  | .awaitTimer inner =>
      0 < c.calls ∧ c.calls ≤ periods.length ∧ inner.id = env.timerId ∧
        inner.Registered c.reactor
  | .finished => c.calls = periods.length + 1 ∧ c.reactor.timers env.timerId = none

/-- The most moves a poll can make from `c`: three per iteration left, and those left of the
current one. -/
def budget (c : RepeatCfg) : Nat :=
  match c.state with
  | .start => 3 * (periods.length - c.calls) + 2
  | .awaitGen _ => 3 * (periods.length + 1 - c.calls) + 1
  | .awaitTimer _ => 3 * (periods.length - c.calls) + 3
  | .finished => 1

/-- How the task driven from `c` may end: `Ready(())` once it has made one call more than there
are periods and left no registration, or a panic at a move a run from `c` reaches, where the
iteration's period added to the reading it took passes the last instant. -/
def Ended (c : RepeatCfg) : Turned → Prop
  | .done (.ready c') => c'.calls = periods.length + 1 ∧ c'.reactor.timers env.timerId = none
  | .done .panicked => ∃ b period, env.Reachable c b ∧ env.advance b = .panic ∧
      periods[b.calls - 1]? = some period ∧
      Instant.maxNanos < (env.clock b.reads).nanos + period.nanos
  | _ => False

/-- Driven by the executor and the reactor from `d`, each poll given `3 * periods.length + 2`
moves, the task ends as `Ended` says. -/
def EndsFrom (d : LoopDriven) : Prop :=
  ∃ n, env.Ended periods d.cfg (env.turns (3 * periods.length + 2) n d)

/-- The wait for `period` from the future `fut` resolving at `c`, seen at `b`: before the next call
the loop is still at that future, or on a timer that expires no earlier than
`clock c.reads + period`, or at the top of the loop with such a reading taken; after it, such a
reading was taken before the call. -/
def Waiting (c : RepeatCfg) (fut : GenFuture) (period : Duration) (b : RepeatCfg) : Prop :=
  (c.calls < b.calls ∧
      (env.clock c.reads).nanos + period.nanos ≤ (env.clock (b.reads - 1)).nanos) ∨
    (b.calls = c.calls ∧
      ((b.state = .awaitGen fut ∧ c.reads ≤ b.reads) ∨
        (∃ inner, b.state = .awaitTimer inner ∧
          (env.clock c.reads).nanos + period.nanos ≤ inner.when.nanos) ∨
        (b.state = .start ∧
          (env.clock c.reads).nanos + period.nanos ≤ (env.clock (b.reads - 1)).nanos)))

variable {env periods}

/-! The invariant. -/

theorem scheduled_facts {c : RepeatCfg} (h : env.Scheduled periods c) :
    c.calls ≤ periods.length + 1 ∧ (c.state = .finished → c.calls = periods.length + 1) ∧
      (∀ inner, c.state = .awaitTimer inner → inner.id = env.timerId) ∧
      (∀ when waker, c.reactor.timers env.timerId = some (when, waker) →
        ∃ inner, c.state = .awaitTimer inner ∧ inner.waker = some waker ∧
          when = inner.when) := by
  cases hs : c.state with
  | start =>
      simp only [Scheduled, hs] at h
      exact ⟨by omega, nofun, nofun, fun _ _ hentry => by simp [h.2] at hentry⟩
  | awaitGen fut =>
      simp only [Scheduled, hs] at h
      exact ⟨h.2.1, nofun, nofun, fun _ _ hentry => by simp [h.2.2.2] at hentry⟩
  | awaitTimer inner =>
      simp only [Scheduled, hs] at h
      obtain ⟨-, hcalls, hid, hreg⟩ := h
      refine ⟨by omega, nofun, fun _ hi => by cases hi; exact hid, fun when waker hentry => ?_⟩
      exact ⟨inner, rfl, hreg when waker (hid ▸ hentry)⟩
  | finished =>
      simp only [Scheduled, hs] at h
      exact ⟨by omega, fun _ => h.1, nofun, fun _ _ hentry => by simp [h.2] at hentry⟩

theorem advance_scheduled (hgen : env.Generates periods) {c c' : RepeatCfg}
    (h : env.Scheduled periods c) (hmove : (env.advance c).cfg = some c') :
    env.Scheduled periods c' := by
  obtain ⟨m, hm, hmove⟩ := env.moves_of_cfg hmove
  cases hm with
  | start hs =>
      cases hmove
      simp only [Scheduled, hs] at h ⊢
      exact ⟨Nat.succ_pos _, Nat.succ_le_succ h.1, hgen _ h.1, h.2⟩
  | genPending hs _ =>
      cases hmove
      simp only [Scheduled, hs] at h ⊢
      exact h
  | genNone hs _ hout =>
      cases hmove
      simp only [Scheduled, hs] at h ⊢
      have hnone := h.2.2.1.symm.trans hout
      rw [List.getElem?_eq_none_iff] at hnone
      exact ⟨by omega, h.2.2.2⟩
  | build hs _ hout hb =>
      cases hmove
      simp only [Scheduled, hs] at h ⊢
      have hlt := (List.getElem?_eq_some_iff.mp (h.2.2.1.symm.trans hout)).1
      have hid := (Timer.fromId_eq_some.mp hb).1
      exact ⟨h.1, by omega, hid, Inner.registered_of_none (by rw [hid]; exact h.2.2.2)⟩
  | overflow _ _ _ _ => cases hmove
  | timerReady hs _ =>
      cases hmove
      simp only [Scheduled, hs] at h ⊢
      exact ⟨h.2.1, by rw [← h.2.2.1, Timer.drop_timers]; split <;> simp⟩
  | timerPending hs _ =>
      cases hmove
      simp only [Scheduled, hs] at h ⊢
      exact ⟨h.1, h.2.1, h.2.2.1, Inner.registered_insertTimer _ _ _⟩
  | finished _ => cases hmove; exact h

theorem fire_scheduled {c : RepeatCfg} {waker : Waker} {reactor : Reactor}
    (h : env.Scheduled periods c)
    (hfire : c.reactor.fireTimer env.timerId (env.clock c.reads) = some (waker, reactor)) :
    env.Scheduled periods { c with reactor, reads := c.reads + 1 } := by
  obtain ⟨when, hentry, -, rfl⟩ := Reactor.fireTimer_eq_some hfire
  cases hs : c.state <;> simp only [Scheduled, hs] at h ⊢
  · simp [h.2] at hentry
  · simp [h.2.2.2] at hentry
  · exact ⟨h.1, h.2.1, h.2.2.1, Inner.registered_of_none (by rw [h.2.2.1]; simp)⟩
  · simp [h.2] at hentry

theorem step_scheduled (hgen : env.Generates periods) {c c' : RepeatCfg} (hstep : env.Step c c')
    (h : env.Scheduled periods c) : env.Scheduled periods c' := by
  cases hstep with
  | move hmove => exact advance_scheduled hgen h hmove
  | fire hfire => exact fire_scheduled h hfire
  | tick _ => exact h

theorem Reachable.scheduled (hgen : env.Generates periods) {c₀ c : RepeatCfg}
    (hreach : env.Reachable c₀ c) (h₀ : env.Scheduled periods c₀) :
    env.Scheduled periods c := by
  induction hreach with
  | refl => exact h₀
  | tail _ hstep ih => exact step_scheduled hgen hstep ih

/-! Each poll returns. -/

theorem budget_pos (c : RepeatCfg) : 0 < budget periods c := by
  unfold budget
  split <;> omega

theorem budget_le {c : RepeatCfg} (h : env.Scheduled periods c) :
    budget periods c ≤ 3 * periods.length + 2 := by
  cases hs : c.state <;> simp only [budget, Scheduled, hs] at h ⊢ <;> omega

theorem budget_lt_of_next {c c' : RepeatCfg} (h : env.Scheduled periods c)
    (hnext : env.advance c = .next c') : budget periods c' < budget periods c := by
  have hm := env.moves_advance c
  rw [hnext] at hm
  cases hm with
  | start hs => simp only [budget, hs]; omega
  | build hs _ hout _ =>
      simp only [Scheduled, hs] at h
      have hlt := (List.getElem?_eq_some_iff.mp (h.2.2.1.symm.trans hout)).1
      simp only [budget, hs]
      omega
  | timerReady hs _ => simp only [budget, hs]; omega

/-- A poll returns within `budget` moves. -/
theorem poll_ne_outOfFuel (hgen : env.Generates periods) {fuel : Nat} {c : RepeatCfg}
    (h : env.Scheduled periods c) (hfuel : budget periods c ≤ fuel) :
    env.poll fuel c ≠ .outOfFuel := by
  induction fuel generalizing c with
  | zero => exact absurd hfuel (Nat.not_le.mpr (budget_pos c))
  | succ fuel ih =>
      rw [poll_succ]
      cases hadv : env.advance c with
      | next c' =>
          exact ih (advance_scheduled hgen h (hadv ▸ rfl))
            (Nat.le_of_lt_succ (Nat.lt_of_lt_of_le (budget_lt_of_next h hadv) hfuel))
      | pending c' | ready c' | panic => simp

/-- A move that goes on changes nothing the poll returns. -/
theorem poll_of_next (hgen : env.Generates periods) {c c' : RepeatCfg}
    (h : env.Scheduled periods c) (hnext : env.advance c = .next c') :
    env.poll (3 * periods.length + 2) c = env.poll (3 * periods.length + 2) c' := by
  have hret := poll_ne_outOfFuel hgen (advance_scheduled hgen h (hnext ▸ rfl))
    (Nat.le_of_lt_succ (Nat.lt_of_lt_of_le (budget_lt_of_next h hnext) (budget_le h)))
  rw [show 3 * periods.length + 2 = 3 * periods.length + 1 + 1 from rfl, poll_succ, hnext]
  exact (env.poll_mono (Nat.le_succ _) hret).symm

/-! The task ends under the executor. Each place the body stands ends if the next one does; the
readings left before a timer is due, and the iterations left, bound the inductions. -/

theorem ended_of_reachable {c c' : RepeatCfg} (hreach : env.Reachable c c') :
    ∀ {result : Turned}, env.Ended periods c' result → env.Ended periods c result
  | .done (.ready _), h => h
  | .done .panicked, ⟨b, period, hb, hrest⟩ =>
      ⟨b, period, Relation.ReflTransGen.trans hreach hb, hrest⟩
  | .done (.pending _), h | .done .outOfFuel, h | .pending _, h => nomatch h

/-- A turn that leaves the task pending, along a run, ends if the drive from there does. -/
theorem ends_of_turn {d d' : LoopDriven}
    (hturn : env.turn (3 * periods.length + 2) d = .pending d')
    (hreach : env.Reachable d.cfg d'.cfg) (hend : env.EndsFrom periods d') :
    env.EndsFrom periods d :=
  let ⟨n, hn⟩ := hend
  ⟨n + 1, ended_of_reachable hreach (by simpa only [turns_succ, hturn] using hn)⟩

theorem ends_of_next (hgen : env.Generates periods) {c c' : RepeatCfg}
    (h : env.Scheduled periods c) (hnext : env.advance c = .next c')
    (hend : env.EndsFrom periods ⟨c', true⟩) : env.EndsFrom periods ⟨c, true⟩ := by
  obtain ⟨_ | n, hn⟩ := hend
  · exact absurd hn nofun
  · refine ⟨n + 1, ended_of_reachable (.single (show env.Step c c' from .move (hnext ▸ rfl))) ?_⟩
    simpa only [turns_succ, turn_woken, poll_of_next hgen h hnext] using hn

/-- A task suspended on its registration: the reactor reads the clock until the registration is
due and fires it, which wakes the task, and the task polled then is past the expiry. -/
theorem ends_of_suspended (hmono : env.clock.Monotone) (hreach : ∀ t, ∃ r, t ≤ env.clock r)
    (m : Nat)
    (hready : ∀ c inner, env.Scheduled periods c → c.state = .awaitTimer inner →
      c.calls = m → inner.when ≤ env.clock c.reads → env.EndsFrom periods ⟨c, true⟩) :
    ∀ c inner, env.Scheduled periods c → c.state = .awaitTimer inner → c.calls = m →
      c.reactor.timers env.timerId = some (inner.when, env.waker) →
      env.EndsFrom periods ⟨c, false⟩ := by
  have hfire : ∀ c inner, env.Scheduled periods c → c.state = .awaitTimer inner →
      c.calls = m → c.reactor.timers env.timerId = some (inner.when, env.waker) →
      inner.when ≤ env.clock c.reads → env.EndsFrom periods ⟨c, false⟩ := by
    intro c inner h hs hm hentry hwhen
    have hfired : c.reactor.fireTimer env.timerId (env.clock c.reads) =
        some (env.waker, c.reactor.removeTimer env.timerId) := by
      rw [Reactor.fireTimer_of_entry hentry, if_pos hwhen]
    refine ends_of_turn (by rw [env.turn_fire _ hfired, decide_eq_true rfl])
      (.single (.fire hfired)) (hready _ inner (fire_scheduled h hfired) hs hm ?_)
    exact Instant.le_trans hwhen (hmono _ _ (Nat.le_succ _))
  intro c inner h hs hm hentry
  obtain ⟨R, hR⟩ := hreach inner.when
  obtain ⟨k, hk⟩ : ∃ k, R - c.reads ≤ k := ⟨_, Nat.le_refl _⟩
  induction k generalizing c with
  | zero => exact hfire c inner h hs hm hentry (Instant.le_trans hR (hmono _ _ (by omega)))
  | succ k ih =>
      by_cases hwhen : inner.when ≤ env.clock c.reads
      · exact hfire c inner h hs hm hentry hwhen
      · have hidle : c.reactor.fireTimer env.timerId (env.clock c.reads) = none := by
          rw [Reactor.fireTimer_of_entry hentry, if_neg hwhen]
        exact ends_of_turn (env.turn_tick _ hidle) (.single (.tick hidle))
          (ih _ h hs hm hentry (by simp only; omega))

/-- A task at its timer gets past it: polled at or past the expiry it goes on, polled early it
suspends on a registration under its waker. -/
theorem ends_of_awaitTimer (hgen : env.Generates periods) (hmono : env.clock.Monotone)
    (hreach : ∀ t, ∃ r, t ≤ env.clock r) (m : Nat)
    (hnext : ∀ c, env.Scheduled periods c → c.state = .start → c.calls = m →
      env.EndsFrom periods ⟨c, true⟩) :
    ∀ c inner, env.Scheduled periods c → c.state = .awaitTimer inner → c.calls = m →
      env.EndsFrom periods ⟨c, true⟩ := by
  have hready : ∀ c inner, env.Scheduled periods c → c.state = .awaitTimer inner →
      c.calls = m → inner.when ≤ env.clock c.reads → env.EndsFrom periods ⟨c, true⟩ :=
    fun c _ h hs hm hwhen =>
      have hadv := env.advance_awaitTimer_ready hs hwhen
      ends_of_next hgen h hadv (hnext _ (advance_scheduled hgen h (hadv ▸ rfl)) rfl hm)
  intro c inner h hs hm
  by_cases hwhen : inner.when ≤ env.clock c.reads
  · exact hready c inner h hs hm hwhen
  · have hadv := env.advance_awaitTimer_pending hs (Nat.lt_of_not_le hwhen)
    have hid : inner.id = env.timerId := (scheduled_facts h).2.2.1 inner hs
    exact ends_of_turn (env.turn_of_pending hadv) (.single (.move (hadv ▸ rfl)))
      (ends_of_suspended hmono hreach m hready _ _ (advance_scheduled hgen h (hadv ▸ rfl)) rfl
        hm (by simp [← hid]))

theorem ends_of_awaitGen (hgen : env.Generates periods) (m : Nat)
    (hnext : ∀ c inner, env.Scheduled periods c → c.state = .awaitTimer inner →
      c.calls = m → env.EndsFrom periods ⟨c, true⟩) :
    ∀ c fut, env.Scheduled periods c → c.state = .awaitGen fut → c.calls = m →
      env.EndsFrom periods ⟨c, true⟩ := by
  intro c fut h hs hm
  obtain ⟨p, hp⟩ : ∃ p, fut.pendings = p := ⟨_, rfl⟩
  induction p generalizing c fut with
  | succ p ih =>
      have hadv := env.advance_awaitGen_pending hs hp
      exact ends_of_turn (env.turn_of_pending hadv) (.single (.move (hadv ▸ rfl)))
        (ih _ _ (advance_scheduled hgen h (hadv ▸ rfl)) rfl hm rfl)
  | zero =>
      have hfacts := h
      simp only [Scheduled, hs] at hfacts
      cases hout : fut.output with
      | none =>
          have hnone : periods[c.calls - 1]? = none := hfacts.2.2.1.symm.trans hout
          rw [List.getElem?_eq_none_iff] at hnone
          refine ⟨1, ?_⟩
          simp only [turns_succ, turn_woken, poll_succ, env.advance_awaitGen_none hs hp hout]
          exact ⟨by simp only; omega, hfacts.2.2.2⟩
      | some period =>
          have hadv := env.advance_awaitGen_some hs hp hout
          cases hb : Timer.fromId env.timerId (env.clock c.reads) period with
          | some inner =>
              rw [hb] at hadv
              exact ends_of_next hgen h hadv
                (hnext _ _ (advance_scheduled hgen h (hadv ▸ rfl)) rfl hm)
          | none =>
              rw [hb] at hadv
              have hpanic : env.advance c = .panic := hadv
              refine ⟨1, ?_⟩
              simp only [turns_succ, turn_woken, poll_succ, hpanic]
              exact ⟨c, period, .refl, hpanic, hfacts.2.2.1.symm.trans hout, by simpa using hb⟩

theorem ends_of_start (hgen : env.Generates periods) (m : Nat)
    (hnext : ∀ c fut, env.Scheduled periods c → c.state = .awaitGen fut → c.calls = m + 1 →
      env.EndsFrom periods ⟨c, true⟩) :
    ∀ c, env.Scheduled periods c → c.state = .start → c.calls = m →
      env.EndsFrom periods ⟨c, true⟩ :=
  fun _ h hs hm =>
  have hadv := env.advance_start hs
  ends_of_next hgen h hadv
    (hnext _ _ (advance_scheduled hgen h (hadv ▸ rfl)) rfl (congrArg (· + 1) hm))

/-- One iteration: the loop from the top at call `m` ends if it ends from the top at call
`m + 1`. -/
theorem ends_of_iteration (hgen : env.Generates periods) (hmono : env.clock.Monotone)
    (hreach : ∀ t, ∃ r, t ≤ env.clock r) (m : Nat)
    (hnext : ∀ c, env.Scheduled periods c → c.state = .start → c.calls = m + 1 →
      env.EndsFrom periods ⟨c, true⟩) :
    ∀ c, env.Scheduled periods c → c.state = .start → c.calls = m →
      env.EndsFrom periods ⟨c, true⟩ :=
  ends_of_start hgen m
    (ends_of_awaitGen hgen (m + 1) (ends_of_awaitTimer hgen hmono hreach _ hnext))

theorem ends_of_start_within (hgen : env.Generates periods) (hmono : env.clock.Monotone)
    (hreach : ∀ t, ∃ r, t ≤ env.clock r) (k : Nat) :
    ∀ c, env.Scheduled periods c → c.state = .start → periods.length - c.calls ≤ k →
      env.EndsFrom periods ⟨c, true⟩ := by
  induction k with
  | zero =>
      intro c h hs hk
      refine ends_of_iteration hgen hmono hreach c.calls (fun c' h' hs' hm' => ?_) c h hs rfl
      simp only [Scheduled, hs, hs'] at h h'
      omega
  | succ k ih =>
      intro c h hs hk
      exact ends_of_iteration hgen hmono hreach c.calls
        (fun c' h' hs' hm' => ih c' h' hs' (by omega)) c h hs rfl

/-! Each call waits out the period before it. -/

theorem step_mono {b b' : RepeatCfg} (h : env.Step b b') :
    b.calls ≤ b'.calls ∧ b.reads ≤ b'.reads := by
  cases h with
  | fire _ | tick _ => exact ⟨Nat.le_refl _, Nat.le_succ _⟩
  | move hmove =>
      obtain ⟨m, hm, hmove⟩ := env.moves_of_cfg hmove
      cases hm <;> cases hmove <;> simp

theorem Reachable.reads_le {c b : RepeatCfg} (h : env.Reachable c b) : c.reads ≤ b.reads := by
  induction h with
  | refl => exact Nat.le_refl _
  | tail _ hstep ih => exact Nat.le_trans ih (step_mono hstep).2

theorem waiting_step (hmono : env.clock.Monotone) {c b b' : RepeatCfg} {fut : GenFuture}
    {period : Duration} (hp : fut.pendings = 0) (hout : fut.output = some period)
    (hw : env.Waiting c fut period b) (hstep : env.Step b b') : env.Waiting c fut period b' := by
  obtain ⟨hcalls, hreads⟩ := env.step_mono hstep
  rcases hw with ⟨hlt, hT⟩ | ⟨heq, ⟨hs, hr⟩ | ⟨inner, hs, hT⟩ | ⟨hs, hT⟩⟩
  · exact .inl ⟨by omega, Nat.le_trans hT (hmono _ _ (by omega))⟩
  · cases hstep with
    | fire _ | tick _ => exact .inr ⟨heq, .inl ⟨hs, Nat.le_succ_of_le hr⟩⟩
    | move hmove =>
        rw [env.advance_awaitGen_some hs hp hout] at hmove
        cases hb : Timer.fromId env.timerId (env.clock b.reads) period with
        | none => rw [hb] at hmove; cases hmove
        | some inner =>
            rw [hb] at hmove
            cases hmove
            have hwhen := Instant.checkedAdd_eq_some_iff.mp (Timer.fromId_eq_some.mp hb).2.2
            have hle : (env.clock c.reads).nanos ≤ (env.clock b.reads).nanos := hmono _ _ hr
            exact .inr ⟨heq, .inr (.inl ⟨inner, rfl, by omega⟩)⟩
  · cases hstep with
    | fire _ | tick _ => exact .inr ⟨heq, .inr (.inl ⟨inner, hs, hT⟩)⟩
    | move hmove =>
        by_cases hwhen : inner.when ≤ env.clock b.reads
        · rw [env.advance_awaitTimer_ready hs hwhen] at hmove
          cases hmove
          exact .inr ⟨heq, .inr (.inr ⟨rfl, Nat.le_trans hT hwhen⟩)⟩
        · rw [env.advance_awaitTimer_pending hs (Nat.lt_of_not_le hwhen)] at hmove
          cases hmove
          exact .inr ⟨heq, .inr (.inl ⟨_, rfl, hT⟩)⟩
  · cases hstep with
    | fire _ | tick _ =>
        exact .inr ⟨heq, .inr (.inr ⟨hs,
          Nat.le_trans hT (hmono _ _ (by simp only; omega))⟩)⟩
    | move hmove =>
        rw [env.advance_start hs] at hmove
        cases hmove
        exact .inl ⟨by simp only; omega, hT⟩

theorem Reachable.waiting (hmono : env.clock.Monotone) {c b : RepeatCfg} {fut : GenFuture}
    {period : Duration} (hs : c.state = .awaitGen fut) (hp : fut.pendings = 0)
    (hout : fut.output = some period) (hreach : env.Reachable c b) :
    env.Waiting c fut period b := by
  induction hreach with
  | refl => exact .inr ⟨rfl, .inl ⟨hs, Nat.le_refl _⟩⟩
  | tail _ hstep ih => exact waiting_step hmono hp hout ih hstep

/-! A suspended iteration keeps its registration. -/

/-- An iteration suspended on its timer keeps its registration, under the timer's expiry and the
task's waker, until a reading reaches the expiry: neither a move of the task nor the reactor
removes it before then. -/
theorem Reachable.keeps_registration {c b : RepeatCfg} {inner : Inner}
    (hid : inner.id = env.timerId) (hwaker : inner.waker = some env.waker)
    (hs : c.state = .awaitTimer inner)
    (hentry : c.reactor.timers env.timerId = some (inner.when, env.waker))
    (hreach : env.Reachable c b)
    (hearly : ∀ r, c.reads ≤ r → r < b.reads → env.clock r < inner.when) :
    b.state = .awaitTimer inner ∧
      b.reactor.timers env.timerId = some (inner.when, env.waker) := by
  induction hreach with
  | refl => exact ⟨hs, hentry⟩
  | @tail b b' hcb hstep ih =>
      obtain ⟨hsb, hentryb⟩ :=
        ih fun r hr hrb => hearly r hr (Nat.lt_of_lt_of_le hrb (step_mono hstep).2)
      have hlate : b.reads < b'.reads → env.clock b.reads < inner.when :=
        hearly _ (Reachable.reads_le hcb)
      cases hstep with
      | tick _ => exact ⟨hsb, hentryb⟩
      | fire hfire =>
          obtain ⟨_, hentry', hwhen, -⟩ := Reactor.fireTimer_eq_some hfire
          rw [hentryb] at hentry'
          cases hentry'
          exact absurd hwhen (Nat.not_le.mpr (hlate (Nat.lt_succ_self _)))
      | move hmove =>
          obtain ⟨m, hm, hmove⟩ := env.moves_of_cfg hmove
          cases hm with
          | timerReady hs' hwhen =>
              cases hsb.symm.trans hs'
              cases hmove
              exact absurd hwhen (Nat.not_le.mpr (hlate (Nat.lt_succ_self _)))
          | timerPending hs' _ =>
              cases hsb.symm.trans hs'
              cases hmove
              exact ⟨by rw [← hwaker], by rw [← hid, Reactor.insertTimer_self]⟩
          | start hs' | genPending hs' _ | genNone hs' _ _ | build hs' _ _ _
          | overflow hs' _ _ _ | finished hs' => exact nomatch hsb.symm.trans hs'

/-! The loop over its periods. -/

variable (env)

/-- The loop task over a generator that yields `periods` and then `None`, from the top of its loop
with no registration for its id, on a monotonic clock that passes every instant: under the executor
it ends with `Ready(())` after `periods.length + 1` calls, or panics where a period overflows; and
in every run the calls, registrations and readings keep the schedule. -/
theorem repeat_loop_follows_periods (periods : List Duration) (hgen : env.Generates periods)
    (hmono : env.clock.Monotone) (hreach : ∀ t, ∃ r, t ≤ env.clock r) (c₀ : RepeatCfg)
    (hstart : c₀.state = .start) (hcalls : c₀.calls = 0)
    (hfree : c₀.reactor.timers env.timerId = none) :
    (∃ n, (∃ c, env.turns (3 * periods.length + 2) n ⟨c₀, true⟩ = .done (.ready c) ∧
        c.calls = periods.length + 1 ∧ c.reactor.timers env.timerId = none) ∨
      (env.turns (3 * periods.length + 2) n ⟨c₀, true⟩ = .done .panicked ∧
        ∃ b period, env.Reachable c₀ b ∧ env.advance b = .panic ∧
          periods[b.calls - 1]? = some period ∧
          Instant.maxNanos < (env.clock b.reads).nanos + period.nanos)) ∧
    (∀ c, env.Reachable c₀ c →
      env.poll (3 * periods.length + 2) c ≠ .outOfFuel ∧
      c.calls ≤ periods.length + 1 ∧ (c.state = .finished → c.calls = periods.length + 1) ∧
      (∀ inner, c.state = .awaitTimer inner → inner.id = env.timerId) ∧
      (∀ when waker, c.reactor.timers env.timerId = some (when, waker) →
        ∃ inner, c.state = .awaitTimer inner ∧ inner.waker = some waker ∧
          when = inner.when)) ∧
    (∀ c b inner, env.Reachable c₀ c → c.state = .awaitTimer inner →
      c.reactor.timers env.timerId = some (inner.when, env.waker) → env.Reachable c b →
      (∀ r, c.reads ≤ r → r < b.reads → env.clock r < inner.when) →
      b.state = .awaitTimer inner ∧
        b.reactor.timers env.timerId = some (inner.when, env.waker)) ∧
    (∀ c b fut period, env.Reachable c₀ c → c.state = .awaitGen fut → fut.pendings = 0 →
      periods[c.calls - 1]? = some period → env.Reachable c b → c.calls < b.calls →
      (env.clock c.reads).nanos + period.nanos ≤ (env.clock (b.reads - 1)).nanos) := by
  have h₀ : env.Scheduled periods c₀ := by
    simp only [Scheduled, hstart]
    exact ⟨by omega, hfree⟩
  refine ⟨?_, fun c hc => ?_, fun c b inner hc hs hentry hcb hearly => ?_,
    fun c b fut period hc hs hp hperiod hcb hlt => ?_⟩
  · obtain ⟨n, hn⟩ := ends_of_start_within hgen hmono hreach _ c₀ h₀ hstart (Nat.le_refl _)
    refine ⟨n, ?_⟩
    generalize env.turns (3 * periods.length + 2) n ⟨c₀, true⟩ = result at hn
    cases result with
    | done result =>
        cases result with
        | ready c => exact .inl ⟨c, rfl, hn⟩
        | panicked => exact .inr ⟨rfl, hn⟩
        | pending _ | outOfFuel => exact nomatch hn
    | pending _ => exact nomatch hn
  · have h := hc.scheduled hgen h₀
    exact ⟨poll_ne_outOfFuel hgen h (budget_le h), scheduled_facts h⟩
  · obtain ⟨-, -, howned, hreg⟩ := scheduled_facts (hc.scheduled hgen h₀)
    obtain ⟨inner', hs', hwaker, -⟩ := hreg _ _ hentry
    cases hs.symm.trans hs'
    exact hcb.keeps_registration (howned inner hs) hwaker hs hentry hearly
  · have h := hc.scheduled hgen h₀
    simp only [Scheduled, hs] at h
    rcases hcb.waiting hmono hs hp (h.2.2.1.trans hperiod) with ⟨-, hT⟩ | ⟨heq, -⟩
    · exact hT
    · omega

/-- One period of 5 µs, each future `Pending` once, on the ticking clock. -/
theorem repeat_loop_follows_periods_of_one_period :
    let env : RepeatEnv :=
      ⟨0, fun i => ⟨1, [Duration.fromMicros 5][i]?⟩, Clock.ticking, ⟨0⟩⟩
    let periods := [Duration.fromMicros 5]
    let c₀ : RepeatCfg := ⟨.start, ⟨fun _ => none, 1⟩, 0, 0⟩
    env.Generates periods ∧ env.clock.Monotone ∧ (∀ t, ∃ r, t ≤ env.clock r) ∧
      c₀.state = .start ∧ c₀.calls = 0 ∧ c₀.reactor.timers env.timerId = none ∧
      ((∃ n, (∃ c, env.turns (3 * periods.length + 2) n ⟨c₀, true⟩ = .done (.ready c) ∧
          c.calls = periods.length + 1 ∧ c.reactor.timers env.timerId = none) ∨
        (env.turns (3 * periods.length + 2) n ⟨c₀, true⟩ = .done .panicked ∧
          ∃ b period, env.Reachable c₀ b ∧ env.advance b = .panic ∧
            periods[b.calls - 1]? = some period ∧
            Instant.maxNanos < (env.clock b.reads).nanos + period.nanos)) ∧
      (∀ c, env.Reachable c₀ c →
        env.poll (3 * periods.length + 2) c ≠ .outOfFuel ∧
        c.calls ≤ periods.length + 1 ∧
        (c.state = .finished → c.calls = periods.length + 1) ∧
        (∀ inner, c.state = .awaitTimer inner → inner.id = env.timerId) ∧
        (∀ when waker, c.reactor.timers env.timerId = some (when, waker) →
          ∃ inner, c.state = .awaitTimer inner ∧ inner.waker = some waker ∧
            when = inner.when)) ∧
      (∀ c b inner, env.Reachable c₀ c → c.state = .awaitTimer inner →
        c.reactor.timers env.timerId = some (inner.when, env.waker) → env.Reachable c b →
        (∀ r, c.reads ≤ r → r < b.reads → env.clock r < inner.when) →
        b.state = .awaitTimer inner ∧
          b.reactor.timers env.timerId = some (inner.when, env.waker)) ∧
      (∀ c b fut period, env.Reachable c₀ c → c.state = .awaitGen fut → fut.pendings = 0 →
        periods[c.calls - 1]? = some period → env.Reachable c b → c.calls < b.calls →
        (env.clock c.reads).nanos + period.nanos ≤ (env.clock (b.reads - 1)).nanos)) := by
  intro env periods c₀
  have hgen : env.Generates periods := fun _ _ => rfl
  exact ⟨hgen, Clock.ticking_monotone, Clock.ticking_passes, rfl, rfl, rfl,
    env.repeat_loop_follows_periods periods hgen Clock.ticking_monotone Clock.ticking_passes c₀
      rfl rfl rfl⟩

end RepeatEnv

/-- `repeat` over a generator yielding `Some(Duration::MAX)` once and then `None`, on the ticking
clock: the first poll panics at `Instant::now() + Duration::MAX`, after one call, so the task
never ends with `Ready(())` under the executor. -/
theorem repeat_max_period_panics :
    let env : RepeatEnv :=
      ⟨0, fun i => ⟨0, [Duration.MAX][i]?⟩, Clock.ticking, ⟨0⟩⟩
    let c₀ : RepeatCfg := ⟨.start, ⟨fun _ => none, 1⟩, 0, 0⟩
    env.Generates [Duration.MAX] ∧ env.clock.Monotone ∧
      env.poll 2 c₀ = .panicked ∧ ∀ fuel n c, env.turns fuel n ⟨c₀, true⟩ ≠ .done (.ready c) :=
  ⟨fun _ _ => rfl, Clock.ticking_monotone, rfl, fun fuel n _ => by
      match n, fuel with
      | 0, _ => nofun
      | _ + 1, 0 => nofun
      | _ + 1, 1 => nofun
      | _ + 1, _ + 2 => nofun⟩

end Scipio
