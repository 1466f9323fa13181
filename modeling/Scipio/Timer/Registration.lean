import Scipio.Timer.System

namespace Scipio

/-! What the reactor holds for a timer's id, against the timer's cell, in every state a timer
reaches: a registration is always the cell's expiry under the cell's waker, a suspended poll's
waker stays registered across resets, and a dropped timer leaves nothing behind. -/

namespace Inner

/-- Any registration of the cell's id is the cell's expiry under the waker the cell holds. -/
def Registered (inner : Inner) (reactor : Reactor) : Prop :=
  ∀ when waker, reactor.timers inner.id = some (when, waker) →
    inner.waker = some waker ∧ when = inner.when

theorem Registered.none_of_waker_none {inner : Inner} {reactor : Reactor}
    (h : inner.Registered reactor) (hwaker : inner.waker = none) :
    reactor.timers inner.id = none := by
  cases hentry : reactor.timers inner.id with
  | none => rfl
  | some entry => simpa [hwaker] using (h entry.1 entry.2 hentry).1

theorem registered_of_none {inner : Inner} {reactor : Reactor}
    (h : reactor.timers inner.id = none) : inner.Registered reactor := by
  intro _ _ hentry
  simp [h] at hentry

/-- A `Pending` poll registers the cell under the waker it now holds. -/
theorem registered_insertTimer (inner : Inner) (reactor : Reactor) (waker : Waker) :
    Inner.Registered { inner with waker := some waker }
      (reactor.insertTimer inner.id inner.when waker) := by
  intro when waker' hentry
  simp only [Reactor.insertTimer_self, Option.some.injEq, Prod.mk.injEq] at hentry
  exact ⟨by rw [hentry.2], hentry.1.symm⟩

/-- `Inner::reset` moves the registration with the expiry: it keeps the id and the waker, keeps the
cell registered, carries a registration under a waker over to the new expiry, and leaves the
reactor alone when no waker is held. -/
theorem reset_registered {inner inner' : Inner} {reactor reactor' : Reactor} {now : Instant}
    {dur : Duration} (h : inner.reset reactor now dur = some (inner', reactor'))
    (hreg : inner.Registered reactor) :
    inner'.id = inner.id ∧ inner'.waker = inner.waker ∧ inner'.Registered reactor' ∧
      (∀ waker, reactor.timers inner.id = some (inner.when, waker) →
        reactor'.timers inner.id = some (inner'.when, waker)) ∧
      (inner.waker = none → reactor' = reactor) := by
  obtain ⟨-, hinner, hreactor⟩ := reset_eq_some h
  rw [hinner]
  cases hwaker : inner.waker with
  | none =>
      simp only [hwaker] at hreactor
      subst hreactor
      have hnone := hreg.none_of_waker_none hwaker
      refine ⟨rfl, rfl, fun _ _ hentry => ?_, fun _ hentry => ?_, fun _ => rfl⟩
      · simp [hnone] at hentry
      · simp [hnone] at hentry
  | some held =>
      simp only [hwaker] at hreactor
      subst hreactor
      refine ⟨rfl, rfl, fun _ _ hentry => ?_, fun waker hentry => ?_, nofun⟩
      · simp only [Reactor.insertTimer_self, Option.some.injEq, Prod.mk.injEq] at hentry
        exact ⟨by rw [← hentry.2], hentry.1.symm⟩
      · obtain ⟨hheld, -⟩ := hreg _ _ hentry
        rw [hwaker] at hheld
        cases hheld
        exact Reactor.insertTimer_self _ _ _ _

end Inner

namespace TimerSys

/-- The reactor against the cell, in every reachable state. -/
structure Consistent (s : TimerSys) : Prop where
  registered : s.inner.Registered s.reactor
  suspended : ∀ waker, s.suspended = some waker →
    s.reactor.timers s.inner.id = some (s.inner.when, waker)
  dropped : s.dropped = true → s.inner.waker = none

theorem create_consistent {reactor : Reactor} {c : Creation} {s : TimerSys}
    (hfresh : reactor.Fresh) (h : create reactor c = some s) : s.Consistent := by
  have hnew : ∀ {now dur}, Timer.new reactor now dur = some (s.inner, s.reactor) →
      s.inner.waker = none ∧ s.reactor.timers s.inner.id = none := by
    intro now dur hnew
    simp only [Timer.new, Option.map_eq_some', Prod.mk.injEq] at hnew
    obtain ⟨inner, hinner, rfl, hreactor⟩ := hnew
    obtain ⟨hid, hwaker, -⟩ := Timer.fromId_eq_some.mp hinner
    rw [← hreactor, hwaker, hid]
    exact ⟨rfl, (Reactor.registerTimer_fresh hfresh).2⟩
  have hfields : s.inner.waker = none ∧ s.reactor.timers s.inner.id = none ∧
      s.dropped = false ∧ s.suspended = none := by
    cases c with
    | new now dur =>
        obtain ⟨⟨inner, reactor'⟩, hcreate, rfl⟩ := Option.map_eq_some'.mp h
        exact ⟨(hnew hcreate).1, (hnew hcreate).2, rfl, rfl⟩
    | doAt now₁ now₂ when =>
        simp only [create] at h
        split at h
        · obtain ⟨⟨inner, reactor'⟩, hcreate, rfl⟩ := Option.map_eq_some'.mp h
          exact ⟨(hnew hcreate).1, (hnew hcreate).2, rfl, rfl⟩
        · cases h
  obtain ⟨hwaker, hentry, hdropped, hsuspended⟩ := hfields
  exact ⟨fun _ _ h => by simp [hentry] at h, fun _ h => by simp [hsuspended] at h,
    fun h => by simp [hdropped] at h⟩

/-- The three ways through `Inner::reset` keep the reactor consistent with the cell. -/
theorem consistent_of_reset {s s' : TimerSys} {now : Instant} {dur : Duration}
    (hs : s.Consistent) (hreset : s.inner.reset s.reactor now dur = some (s'.inner, s'.reactor))
    (hdropped : s'.dropped = s.dropped) (hsuspended : s'.suspended = s.suspended) :
    s'.Consistent := by
  obtain ⟨hid, hwaker, hreg, hmove, -⟩ := Inner.reset_registered hreset hs.registered
  refine ⟨hreg, fun waker h => ?_, fun h => ?_⟩
  · rw [hid]
    exact hmove waker (hs.suspended waker (hsuspended ▸ h))
  · rw [hwaker]
    exact hs.dropped (hdropped ▸ h)

theorem step_consistent {s s' : TimerSys} {e : Event} (hs : s.Consistent)
    (h : s.step e = some s') : s'.Consistent := by
  cases e with
  | poll now waker =>
      obtain ⟨-, -, -, hdropped, hcase⟩ := step_poll h
      have hlive : s'.dropped = true → s'.inner.waker = none := by simp [hdropped]
      rcases hcase with ⟨-, hinner, hreactor, hsuspended⟩ | ⟨-, hinner, hreactor, hsuspended⟩
      · exact ⟨Inner.registered_of_none (by rw [hinner, hreactor]; simp), by simp [hsuspended],
          hlive⟩
      · refine ⟨by rw [hinner, hreactor]; exact Inner.registered_insertTimer _ _ _,
          fun _ hw => ?_, hlive⟩
        rw [hsuspended] at hw
        cases hw
        rw [hinner, hreactor]
        exact Reactor.insertTimer_self _ _ _ _
  | reset now dur =>
      obtain ⟨-, -, hreset, hdropped, hsuspended, -⟩ := step_reset h
      exact consistent_of_reset hs hreset hdropped hsuspended
  | rearmIn now dur =>
      obtain ⟨-, hreset, hdropped, hsuspended, -⟩ := step_rearmIn h
      exact consistent_of_reset hs hreset hdropped hsuspended
  | rearmAt now₁ now₂ when =>
      obtain ⟨-, -, hreset, hdropped, hsuspended, -⟩ := step_rearmAt h
      exact consistent_of_reset hs hreset hdropped hsuspended
  | destroy =>
      obtain ⟨hinner, hreactor, hdropped, hsuspended, -⟩ := step_destroy h
      refine ⟨fun _ _ h => ?_, fun _ h => ?_, fun h => ?_⟩
      · simp [hinner, hreactor] at h
      · simp [hsuspended] at h
      · rw [hinner]; exact hs.dropped (hdropped ▸ h)
  | drop =>
      obtain ⟨-, hdrop, -, hsuspended, -⟩ := step_drop h
      have hinner : s'.inner = { s.inner with waker := none } := by
        rw [show s'.inner = (Timer.drop s.inner s.reactor).1 from congrArg Prod.fst hdrop]
        exact Timer.drop_waker _ _
      have htimers : s'.reactor.timers s.inner.id = none := by
        rw [show s'.reactor = (Timer.drop s.inner s.reactor).2 from congrArg Prod.snd hdrop,
          Timer.drop_timers]
        cases hwaker : s.inner.waker
        · exact hs.registered.none_of_waker_none hwaker
        · simp
      refine ⟨fun _ _ h => ?_, fun _ h => ?_, fun _ => by rw [hinner]⟩
      · rw [hinner] at h
        simp [htimers] at h
      · simp [hsuspended] at h
  | fire now =>
      obtain ⟨-, ⟨waker, hfire⟩, hinner, hdropped, hsuspended, -⟩ := step_fire h
      obtain ⟨-, -, -, hreactor⟩ := Reactor.fireTimer_eq_some hfire
      refine ⟨fun _ _ h => ?_, fun _ h => ?_, fun h => ?_⟩
      · simp [hinner, hreactor] at h
      · simp [hsuspended] at h
      · rw [hinner]; exact hs.dropped (hdropped ▸ h)

theorem run_consistent {s s' : TimerSys} {events : List Event} (hs : s.Consistent)
    (h : s.run events = some s') : s'.Consistent := by
  induction events generalizing s with
  | nil => cases h; exact hs
  | cons e events ih =>
      obtain ⟨mid, hstep, hrest⟩ := Option.bind_eq_some.mp h
      exact ih (step_consistent hs hstep) hrest

theorem Reachable.consistent {s : TimerSys} (hs : s.Reachable) : s.Consistent := by
  induction hs with
  | create hfresh hcreate => exact create_consistent hfresh hcreate
  | step _ hstep ih => exact step_consistent ih hstep

/-- In every state a timer reaches, a registration of its id in the reactor is exactly the cell's
expiry under the waker the cell holds, and while the last poll's `Pending` stands (no destroy, drop
or firing since) the reactor holds the cell's expiry under the waker that poll was given. -/
theorem registration_tracks_cell {s : TimerSys} (hs : s.Reachable) :
    (∀ when waker, s.reactor.timers s.inner.id = some (when, waker) →
      s.inner.waker = some waker ∧ when = s.inner.when) ∧
    (∀ waker, s.suspended = some waker →
      s.reactor.timers s.inner.id = some (s.inner.when, waker)) :=
  ⟨hs.consistent.registered, hs.consistent.suspended⟩

/-- The timer `Timer::new(10)` builds at reading 0 on the empty reactor, suspended by a `Pending`
poll at 0 with waker 1. -/
def suspendedAtZero : TimerSys :=
  { inner := ⟨0, some ⟨1⟩, ⟨10, by decide⟩⟩
    reactor := (Reactor.mk (fun _ => none) 1).insertTimer 0 ⟨10, by decide⟩ ⟨1⟩
    clock := ⟨0, by decide⟩
    dropped := false
    suspended := some ⟨1⟩ }

theorem suspendedAtZero_reachable : suspendedAtZero.Reachable :=
  .step (.create Reactor.empty_fresh
      (show create _ (.new ⟨0, by decide⟩ ⟨10, by decide⟩) = some _ from rfl))
    (show TimerSys.step _ (.poll ⟨0, by decide⟩ ⟨1⟩) = some suspendedAtZero from rfl)

/-- The suspended timer, reset to 20 at reading 2, stays suspended on waker 1, registered at 22. -/
theorem registration_tracks_cell_after_reset :
    ∃ s, suspendedAtZero.step (.reset ⟨2, by decide⟩ ⟨20, by decide⟩) = some s ∧ s.Reachable ∧
      s.suspended = some ⟨1⟩ ∧ s.reactor.timers s.inner.id = some (⟨22, by decide⟩, ⟨1⟩) ∧
      ((∀ when waker, s.reactor.timers s.inner.id = some (when, waker) →
          s.inner.waker = some waker ∧ when = s.inner.when) ∧
        (∀ waker, s.suspended = some waker →
          s.reactor.timers s.inner.id = some (s.inner.when, waker))) :=
  have h : suspendedAtZero.step (.reset ⟨2, by decide⟩ ⟨20, by decide⟩) = some _ := rfl
  ⟨_, h, suspendedAtZero_reachable.step h, rfl, rfl,
    registration_tracks_cell (suspendedAtZero_reachable.step h)⟩

/-- While a timer is suspended on the waker of its last poll, the reactor fires it exactly at the
readings past its expiry, and then wakes that waker: no wakeup is lost and none comes early. -/
theorem suspended_timer_fires_at_expiry {s : TimerSys} (hs : s.Reachable) {waker : Waker}
    (hsuspended : s.suspended = some waker) (now : Instant) :
    s.reactor.fireTimer s.inner.id now =
      if s.inner.when ≤ now then some (waker, s.reactor.removeTimer s.inner.id) else none :=
  Reactor.fireTimer_of_entry (hs.consistent.suspended waker hsuspended) now

/-- The suspended timer, reset to 20 at reading 2, fires at 22 and wakes waker 1. -/
theorem suspended_timer_fires_at_expiry_after_reset :
    ∃ s, suspendedAtZero.step (.reset ⟨2, by decide⟩ ⟨20, by decide⟩) = some s ∧ s.Reachable ∧
      s.suspended = some ⟨1⟩ ∧ s.inner.when = ⟨22, by decide⟩ ∧
      s.reactor.fireTimer s.inner.id ⟨22, by decide⟩ =
        if s.inner.when ≤ ⟨22, by decide⟩ then some (⟨1⟩, s.reactor.removeTimer s.inner.id)
        else none :=
  have h : suspendedAtZero.step (.reset ⟨2, by decide⟩ ⟨20, by decide⟩) = some _ := rfl
  ⟨_, h, suspendedAtZero_reachable.step h, rfl, rfl,
    suspended_timer_fires_at_expiry (suspendedAtZero_reachable.step h) rfl _⟩

/-- The events made through a `TimerActionOnce` handle's reference to the cell. -/
def Event.ViaHandle : Event → Prop
  | .rearmIn _ _ | .rearmAt _ _ _ | .destroy => True
  | _ => False

/-- Once the `Timer` is dropped the reactor holds nothing for its id, and a later `rearm_in`,
`rearm_at` or `destroy` through the handle leaves the reactor's table as it is. -/
theorem dropped_timer_unregistered {s : TimerSys} (hs : s.Reachable) (hdropped : s.dropped = true) :
    s.reactor.timers s.inner.id = none ∧
      ∀ e s', Event.ViaHandle e → s.step e = some s' → s'.reactor.timers = s.reactor.timers := by
  have hwaker := hs.consistent.dropped hdropped
  have hnone := hs.consistent.registered.none_of_waker_none hwaker
  refine ⟨hnone, fun e s' hvia h => ?_⟩
  cases e with
  | rearmIn now dur =>
      obtain ⟨-, hreset, -⟩ := step_rearmIn h
      rw [(Inner.reset_registered hreset hs.consistent.registered).2.2.2.2 hwaker]
  | rearmAt now₁ now₂ when =>
      obtain ⟨-, -, hreset, -⟩ := step_rearmAt h
      rw [(Inner.reset_registered hreset hs.consistent.registered).2.2.2.2 hwaker]
  | destroy =>
      rw [(step_destroy h).2.1]
      exact Reactor.removeTimer_timers_of_none hnone
  | poll | reset | drop | fire => exact hvia.elim

/-- The suspended timer, dropped. -/
theorem dropped_timer_unregistered_after_suspend :
    ∃ s, suspendedAtZero.step .drop = some s ∧ s.Reachable ∧ s.dropped = true ∧
      (s.reactor.timers s.inner.id = none ∧
        ∀ e s', Event.ViaHandle e → s.step e = some s' → s'.reactor.timers = s.reactor.timers) :=
  have h : suspendedAtZero.step .drop = some _ := rfl
  ⟨_, h, suspendedAtZero_reachable.step h, rfl,
    dropped_timer_unregistered (suspendedAtZero_reachable.step h) rfl⟩

/-- A poll's `Ready` and a `destroy` drop the registration but leave the waker in the cell, so a
later `Timer::reset` or `rearm_in` registers the timer again: after `Timer::new(10)` at reading 0,
a `Pending` poll at 0 and a `Ready` poll at 10, `reset(5)` at 10 registers expiry 15; after the
`Pending` poll, `destroy` and `rearm_in(5)` at 1 register expiry 6. -/
theorem reset_after_ready_reregisters :
    ((TimerSys.create Reactor.empty (.new ⟨0, by decide⟩ ⟨10, by decide⟩)).bind
        (·.run [.poll ⟨0, by decide⟩ ⟨1⟩])).map
      (fun s => (Timer.poll s.inner s.reactor ⟨10, by decide⟩ ⟨1⟩).1) =
        some (.ready ⟨10, by decide⟩) ∧
    ((TimerSys.create Reactor.empty (.new ⟨0, by decide⟩ ⟨10, by decide⟩)).bind
        (·.run [.poll ⟨0, by decide⟩ ⟨1⟩, .poll ⟨10, by decide⟩ ⟨1⟩,
          .reset ⟨10, by decide⟩ ⟨5, by decide⟩])).map
      (fun s => s.reactor.timers s.inner.id) = some (some (⟨15, by decide⟩, ⟨1⟩)) ∧
    ((TimerSys.create Reactor.empty (.new ⟨0, by decide⟩ ⟨10, by decide⟩)).bind
        (·.run [.poll ⟨0, by decide⟩ ⟨1⟩, .destroy, .rearmIn ⟨1, by decide⟩ ⟨5, by decide⟩])).map
      (fun s => s.reactor.timers s.inner.id) = some (some (⟨6, by decide⟩, ⟨1⟩)) := by
  decide

/-! Nothing else: a timer's events touch the reactor only at its own id. -/

/-- What a timer's events leave alone: its id, the next id the reactor hands out, and the
registration of every other id. -/
structure Frame (s s' : TimerSys) : Prop where
  id : s'.inner.id = s.inner.id
  timerId : s'.reactor.timerId = s.reactor.timerId
  others : ∀ i, i ≠ s.inner.id → s'.reactor.timers i = s.reactor.timers i

theorem Frame.refl (s : TimerSys) : Frame s s :=
  ⟨rfl, rfl, fun _ _ => rfl⟩

theorem Frame.trans {s₁ s₂ s₃ : TimerSys} (h₁₂ : Frame s₁ s₂) (h₂₃ : Frame s₂ s₃) :
    Frame s₁ s₃ :=
  ⟨h₂₃.id.trans h₁₂.id, h₂₃.timerId.trans h₁₂.timerId,
    fun i hi => (h₂₃.others i (h₁₂.id ▸ hi)).trans (h₁₂.others i hi)⟩

theorem frame_of_reset {s s' : TimerSys} {now : Instant} {dur : Duration}
    (h : s.inner.reset s.reactor now dur = some (s'.inner, s'.reactor)) : Frame s s' := by
  obtain ⟨-, hinner, hreactor⟩ := Inner.reset_eq_some h
  refine ⟨by rw [hinner], by rw [hreactor]; cases s.inner.waker <;> rfl, fun i hi => ?_⟩
  rw [hreactor]
  cases s.inner.waker <;> simp [hi]

theorem step_frame {s s' : TimerSys} {e : Event} (h : s.step e = some s') : Frame s s' := by
  cases e with
  | poll now waker =>
      obtain ⟨-, -, -, -, ⟨-, hinner, hreactor, -⟩ | ⟨-, hinner, hreactor, -⟩⟩ := step_poll h <;>
        exact ⟨by rw [hinner], by simp [hreactor], fun i hi => by simp [hreactor, hi]⟩
  | reset now dur => exact frame_of_reset (step_reset h).2.2.1
  | rearmIn now dur => exact frame_of_reset (step_rearmIn h).2.1
  | rearmAt now₁ now₂ when => exact frame_of_reset (step_rearmAt h).2.2.1
  | destroy =>
      obtain ⟨hinner, hreactor, -⟩ := step_destroy h
      exact ⟨by rw [hinner], by simp [hreactor], fun i hi => by simp [hreactor, hi]⟩
  | drop =>
      obtain ⟨-, hdrop, -⟩ := step_drop h
      have hinner : s'.inner = (Timer.drop s.inner s.reactor).1 := congrArg Prod.fst hdrop
      have hreactor : s'.reactor = (Timer.drop s.inner s.reactor).2 := congrArg Prod.snd hdrop
      refine ⟨by simp [hinner], by simp [hreactor], fun i hi => ?_⟩
      rw [hreactor, Timer.drop_timers]
      split <;> simp [hi]
  | fire now =>
      obtain ⟨-, ⟨waker, hfire⟩, hinner, -⟩ := step_fire h
      obtain ⟨-, -, -, hreactor⟩ := Reactor.fireTimer_eq_some hfire
      exact ⟨by rw [hinner], by simp [hreactor], fun i hi => by simp [hreactor, hi]⟩

theorem run_frame {s s' : TimerSys} {events : List Event} (h : s.run events = some s') :
    Frame s s' := by
  induction events generalizing s with
  | nil => cases h; exact Frame.refl _
  | cons e events ih =>
      rw [run_cons] at h
      cases hstep : s.step e with
      | none => simp [hstep] at h
      | some mid => exact (step_frame hstep).trans (ih (by simpa [hstep] using h))

theorem create_frame {reactor : Reactor} {c : Creation} {s : TimerSys}
    (h : create reactor c = some s) :
    s.inner.id = reactor.timerId ∧ s.reactor.timerId = reactor.timerId + 1 ∧
      s.reactor.timers = reactor.timers := by
  have hnew : ∀ {now dur}, Timer.new reactor now dur = some (s.inner, s.reactor) →
      s.inner.id = reactor.timerId ∧ s.reactor.timerId = reactor.timerId + 1 ∧
        s.reactor.timers = reactor.timers := by
    intro now dur hnew
    simp only [Timer.new, Option.map_eq_some', Prod.mk.injEq] at hnew
    obtain ⟨inner, hinner, rfl, hreactor⟩ := hnew
    rw [← hreactor, (Timer.fromId_eq_some.mp hinner).1]
    exact ⟨rfl, rfl, rfl⟩
  cases c with
  | new now dur =>
      obtain ⟨⟨inner, reactor'⟩, hcreate, rfl⟩ := Option.map_eq_some'.mp h
      exact hnew hcreate
  | doAt now₁ now₂ when =>
      simp only [create] at h
      split at h
      · obtain ⟨⟨inner, reactor'⟩, hcreate, rfl⟩ := Option.map_eq_some'.mp h
        exact hnew hcreate
      · cases h

/-- Over a timer's whole life, built by `Timer::new`, `do_in` or `do_at` and then put through any
events, its id is the one `register_timer` handed out, the next id handed out is another, and the
reactor's table changes only at the timer's own id: timers never disturb each other's
registrations. -/
theorem timer_touches_only_its_id {reactor : Reactor} {c : Creation} {s₀ s : TimerSys}
    {events : List Event} (hcreate : create reactor c = some s₀) (hrun : s₀.run events = some s) :
    s.inner.id = reactor.timerId ∧ s.reactor.timerId = reactor.timerId + 1 ∧
      ∀ i, i ≠ reactor.timerId → s.reactor.timers i = reactor.timers i := by
  obtain ⟨hid, hnext, htimers⟩ := create_frame hcreate
  have hframe := run_frame hrun
  refine ⟨hframe.id.trans hid, hframe.timerId.trans hnext, fun i hi => ?_⟩
  rw [hframe.others i (hid ▸ hi), htimers]

/-- `Timer::new(10)` beside a timer registered under id 5, then a `Pending` poll, `reset(5)` and
the drop. -/
theorem timer_touches_only_its_id_beside_another :
    let reactor : Reactor :=
      ⟨fun i => if i = 5 then some (⟨3, by decide⟩, ⟨7⟩) else none, 0⟩
    ∃ s₀ s, create reactor (.new ⟨0, by decide⟩ ⟨10, by decide⟩) = some s₀ ∧
      s₀.run [.poll ⟨0, by decide⟩ ⟨1⟩, .reset ⟨1, by decide⟩ ⟨5, by decide⟩, .drop] = some s ∧
      (s.inner.id = reactor.timerId ∧ s.reactor.timerId = reactor.timerId + 1 ∧
        ∀ i, i ≠ reactor.timerId → s.reactor.timers i = reactor.timers i) :=
  ⟨_, _, rfl, rfl, @timer_touches_only_its_id _ (.new ⟨0, by decide⟩ ⟨10, by decide⟩) _ _
    [.poll ⟨0, by decide⟩ ⟨1⟩, .reset ⟨1, by decide⟩ ⟨5, by decide⟩, .drop] rfl rfl⟩

end TimerSys

end Scipio
