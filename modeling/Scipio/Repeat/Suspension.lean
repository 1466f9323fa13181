import Scipio.Repeat.Loop

namespace Scipio

/-! Where a poll of the loop task returns to the executor. The body has no suspension point of its
own: it returns only where the generator's future returns `Pending`, where the generator yields
`None`, where a period overflows, or where a timer is not yet expired at its poll. An iteration
that meets none of these comes round to `action_gen()` within the same poll. -/

namespace RepeatEnv

variable (env : RepeatEnv)

/-- Iteration `j` of a poll that left the top of the loop with `calls` calls and `reads` readings
made comes round again without returning: its future resolves at once to a period, the timer builds
at reading `reads + 2 * j`, and it has already expired at reading `reads + 2 * j + 1`. -/
def PassesThrough (calls reads j : Nat) : Prop :=
  (env.actionGen (calls + j)).pendings = 0 ∧
    ∃ period inner, (env.actionGen (calls + j)).output = some period ∧
      Timer.fromId env.timerId (env.clock (reads + 2 * j)) period = some inner ∧
      inner.when ≤ env.clock (reads + 2 * j + 1)

theorem passesThrough_succ {calls reads j : Nat} :
    env.PassesThrough calls reads (j + 1) ↔ env.PassesThrough (calls + 1) (reads + 2) j := by
  unfold PassesThrough
  rw [show calls + (j + 1) = calls + 1 + j by omega,
    show reads + 2 * (j + 1) = reads + 2 + 2 * j by omega]

/-- An iteration that passes through is three moves that do not return. -/
theorem poll_passesThrough {c : RepeatCfg} (hstart : c.state = .start)
    (hpass : env.PassesThrough c.calls c.reads 0) :
    ∃ c', c'.state = .start ∧ c'.calls = c.calls + 1 ∧ c'.reads = c.reads + 2 ∧
      ∀ fuel, env.poll (fuel + 3) c = env.poll fuel c' := by
  obtain ⟨hp, period, inner, hout, hbuild, hwhen⟩ := hpass
  simp only [Nat.add_zero, Nat.mul_zero] at hp hout hbuild hwhen
  have hid := (Timer.fromId_eq_some.mp hbuild).1
  refine ⟨{ c with
    state := .start
    reactor := (Timer.drop inner (c.reactor.removeTimer inner.id)).2
    calls := c.calls + 1
    reads := c.reads + 2 }, rfl, rfl, rfl, fun fuel => ?_⟩
  simp only [poll_succ, advance, hstart, hp, hout, hbuild, Timer.poll_of_ready env.waker hwhen]

/-- A poll at the top of the loop whose iterations all pass through never returns. -/
theorem poll_diverges_of_passesThrough {c : RepeatCfg} (hstart : c.state = .start)
    (hpass : ∀ j, env.PassesThrough c.calls c.reads j) (fuel : Nat) :
    env.poll fuel c = .outOfFuel := by
  induction fuel using Nat.strongRecOn generalizing c with
  | ind fuel ih =>
      match fuel with
      | 0 => rfl
      | 1 => simp only [poll_succ, advance, hstart]; rfl
      | 2 =>
          obtain ⟨hp, period, inner, hout, hbuild, -⟩ := hpass 0
          simp only [Nat.add_zero, Nat.mul_zero] at hp hout hbuild
          simp only [poll_succ, advance, hstart, hp, hout, hbuild]
          rfl
      | fuel + 3 =>
          obtain ⟨c', hstart', hcalls, hreads, hpoll⟩ := env.poll_passesThrough hstart (hpass 0)
          rw [hpoll]
          exact ih fuel (by omega) hstart' fun j => by
            rw [hcalls, hreads, ← passesThrough_succ]
            exact hpass (j + 1)

/-- An iteration that does not pass through returns within its three moves: its future is
`Pending` or yields `None`, its period overflows, or its timer is not yet expired. -/
theorem poll_returns_of_not_passesThrough {c : RepeatCfg} (hstart : c.state = .start)
    (hstop : ¬ env.PassesThrough c.calls c.reads 0) (fuel : Nat) :
    env.poll (fuel + 3) c ≠ .outOfFuel := by
  simp only [PassesThrough, Nat.add_zero, Nat.mul_zero, not_and, not_exists] at hstop
  cases hp : (env.actionGen c.calls).pendings with
  | succ p => simp [poll_succ, advance, hstart, hp]
  | zero =>
      cases hout : (env.actionGen c.calls).output with
      | none => simp [poll_succ, advance, hstart, hp, hout]
      | some period =>
          cases hbuild : Timer.fromId env.timerId (env.clock c.reads) period with
          | none => simp [poll_succ, advance, hstart, hp, hout, hbuild]
          | some inner =>
              have hlate : env.clock (c.reads + 1) < inner.when :=
                Nat.lt_of_not_le (hstop hp period inner hout hbuild)
              simp [poll_succ, advance, hstart, hp, hout, hbuild,
                Timer.poll_of_pending env.waker hlate]

theorem poll_returns_of_exists {j : Nat} : ∀ {c : RepeatCfg}, c.state = .start →
    ¬ env.PassesThrough c.calls c.reads j → ∃ fuel, env.poll fuel c ≠ .outOfFuel := by
  induction j with
  | zero => exact fun hstart hstop => ⟨3, env.poll_returns_of_not_passesThrough hstart hstop 0⟩
  | succ j ih =>
      intro c hstart hstop
      by_cases hpass : env.PassesThrough c.calls c.reads 0
      · obtain ⟨c', hstart', hcalls, hreads, hpoll⟩ := env.poll_passesThrough hstart hpass
        obtain ⟨fuel, hfuel⟩ := ih hstart' (by rwa [hcalls, hreads, ← passesThrough_succ])
        exact ⟨fuel + 3, by rwa [hpoll]⟩
      · exact ⟨3, env.poll_returns_of_not_passesThrough hstart hpass 0⟩

theorem poll_returns_iff_at_start {c : RepeatCfg} (hstart : c.state = .start) :
    (∃ fuel, env.poll fuel c ≠ .outOfFuel) ↔
      ∃ j, ¬ env.PassesThrough c.calls c.reads j := by
  refine ⟨fun ⟨fuel, hfuel⟩ => ?_, fun ⟨j, hj⟩ => env.poll_returns_of_exists hstart hj⟩
  by_contra hall
  exact hfuel (env.poll_diverges_of_passesThrough hstart
    (fun j => not_not.mp fun hj => hall ⟨j, hj⟩) fuel)

/-- A poll resumed inside an `await` returns within two moves, or comes to the top of the loop
after at most two moves that do not return. -/
theorem poll_reaches_start (c : RepeatCfg) :
    (∀ fuel, env.poll (fuel + 2) c ≠ .outOfFuel) ∨
      ∃ c' k, c'.state = .start ∧ k ≤ 2 ∧
        ∀ fuel, env.poll (fuel + k) c = env.poll fuel c' := by
  cases hstate : c.state with
  | start => exact .inr ⟨c, 0, hstate, by omega, fun _ => rfl⟩
  | finished => exact .inl fun fuel => by simp [poll_succ, advance, hstate]
  | awaitTimer inner =>
      by_cases hwhen : inner.when ≤ env.clock c.reads
      · refine .inr ⟨{ c with
          state := .start
          reactor := (Timer.drop inner (c.reactor.removeTimer inner.id)).2
          reads := c.reads + 1 }, 1, rfl, by omega, fun fuel => ?_⟩
        simp only [poll_succ, advance, hstate, Timer.poll_of_ready env.waker hwhen]
      · exact .inl fun fuel => by
          simp [poll_succ, advance, hstate,
            Timer.poll_of_pending env.waker (Nat.lt_of_not_le hwhen)]
  | awaitGen fut =>
      cases hp : fut.pendings with
      | succ p => exact .inl fun fuel => by simp [poll_succ, advance, hstate, hp]
      | zero =>
          cases hout : fut.output with
          | none => exact .inl fun fuel => by simp [poll_succ, advance, hstate, hp, hout]
          | some period =>
              cases hbuild : Timer.fromId env.timerId (env.clock c.reads) period with
              | none =>
                  exact .inl fun fuel => by simp [poll_succ, advance, hstate, hp, hout, hbuild]
              | some inner =>
                  by_cases hwhen : inner.when ≤ env.clock (c.reads + 1)
                  · refine .inr ⟨{ c with
                      state := .start
                      reactor := (Timer.drop inner (c.reactor.removeTimer inner.id)).2
                      reads := c.reads + 2 }, 2, rfl, Nat.le_refl _, fun fuel => ?_⟩
                    simp only [poll_succ, advance, hstate, hp, hout, hbuild,
                      Timer.poll_of_ready env.waker hwhen]
                  · exact .inl fun fuel => by
                      simp [poll_succ, advance, hstate, hp, hout, hbuild,
                        Timer.poll_of_pending env.waker (Nat.lt_of_not_le hwhen)]

/-- Where every poll of the loop task returns: within two moves, or, once at the top of the loop,
exactly when one of the iterations it then runs does not pass through. -/
theorem poll_returns_iff_iteration_stops (c : RepeatCfg) :
    (∀ fuel, env.poll (fuel + 2) c ≠ .outOfFuel) ∨
      ∃ c' k, c'.state = .start ∧ k ≤ 2 ∧
        (∀ fuel, env.poll (fuel + k) c = env.poll fuel c') ∧
        ((∃ fuel, env.poll fuel c ≠ .outOfFuel) ↔
          ∃ j, ¬ env.PassesThrough c'.calls c'.reads j) := by
  refine (env.poll_reaches_start c).imp id fun ⟨c', k, hstart, hk, hpoll⟩ =>
    ⟨c', k, hstart, hk, hpoll, ?_⟩
  rw [← env.poll_returns_iff_at_start hstart]
  constructor
  · rintro ⟨fuel, hfuel⟩
    exact ⟨fuel, by rwa [← hpoll, env.poll_mono (by omega) hfuel]⟩
  · rintro ⟨fuel, hfuel⟩
    exact ⟨fuel + k, by rwa [hpoll]⟩

end RepeatEnv

/-- `TimerActionRepeat::repeat(|| async { Some(Duration::from_micros(0)) })` on a clock that reads
the same instant each time: the first poll of the loop task never returns to the executor. -/
theorem zero_period_poll_never_returns :
    let env : RepeatEnv :=
      ⟨0, fun _ => ⟨0, some (Duration.fromMicros 0)⟩, fun _ => ⟨0, by decide⟩, ⟨0⟩⟩
    ¬ ∃ fuel, env.poll fuel ⟨.start, ⟨fun _ => none, 1⟩, 0, 0⟩ ≠ .outOfFuel := by
  intro env ⟨fuel, hfuel⟩
  exact hfuel (env.poll_diverges_of_passesThrough rfl
    (fun _ => ⟨rfl, Duration.fromMicros 0, ⟨0, none, ⟨0, by decide⟩⟩, rfl, rfl,
      Nat.le_refl 0⟩) fuel)

end Scipio
