import Mathlib.Order.Basic

namespace Scipio

/-! `std::time` as the timer module uses it. An `Instant` is a reading of the monotonic clock in
nanoseconds from the clock's origin, a `Duration` a span in nanoseconds. Each carries the bound of
its Rust representation, so no value out of range can be built. -/

/-- The last nanosecond an `Instant` stands for: `i64::MAX` seconds and 999 999 999 nanoseconds
past the clock's origin, the top of a `Timespec`. -/
def Instant.maxNanos : Nat := 9223372036854775807 * 1000000000 + 999999999

/-- `Duration::MAX`: `u64::MAX` seconds and 999 999 999 nanoseconds. -/
def Duration.maxNanos : Nat := 18446744073709551615 * 1000000000 + 999999999

structure Instant where
  nanos : Nat
  le_max : nanos ≤ Instant.maxNanos
deriving DecidableEq

structure Duration where
  nanos : Nat
  le_max : nanos ≤ Duration.maxNanos
deriving DecidableEq

theorem Instant.maxNanos_lt_duration_maxNanos : Instant.maxNanos < Duration.maxNanos := by
  decide

namespace Instant

instance : LE Instant := ⟨fun a b => a.nanos ≤ b.nanos⟩

instance : LT Instant := ⟨fun a b => a.nanos < b.nanos⟩

instance (a b : Instant) : Decidable (a ≤ b) := inferInstanceAs (Decidable (a.nanos ≤ b.nanos))

instance (a b : Instant) : Decidable (a < b) := inferInstanceAs (Decidable (a.nanos < b.nanos))

@[simp] theorem le_iff {a b : Instant} : a ≤ b ↔ a.nanos ≤ b.nanos := Iff.rfl

@[simp] theorem lt_iff {a b : Instant} : a < b ↔ a.nanos < b.nanos := Iff.rfl

theorem le_trans {a b c : Instant} (hab : a ≤ b) (hbc : b ≤ c) : a ≤ c :=
  Nat.le_trans hab hbc

theorem ext_nanos {a b : Instant} (h : a.nanos = b.nanos) : a = b := by
  cases a
  cases b
  cases h
  rfl

/-- `Instant::checked_add`. The module writes `Instant::now() + dur`, which is this followed by
`.expect("overflow when adding duration to instant")`: `none` is where that `+` panics. -/
def checkedAdd (t : Instant) (d : Duration) : Option Instant :=
  if h : t.nanos + d.nanos ≤ Instant.maxNanos then some ⟨t.nanos + d.nanos, h⟩ else none

/-- `Instant::duration_since`. The module calls it only on an earlier instant, where it does not
panic. -/
def durationSince (t earlier : Instant) : Duration :=
  ⟨t.nanos - earlier.nanos, by
    have := t.le_max
    have := Instant.maxNanos_lt_duration_maxNanos
    omega⟩

theorem checkedAdd_eq_some_iff {t : Instant} {d : Duration} {u : Instant} :
    t.checkedAdd d = some u ↔ u.nanos = t.nanos + d.nanos := by
  unfold checkedAdd
  split
  · exact ⟨fun h => by cases h; rfl, fun h => congrArg some (ext_nanos h.symm)⟩
  · exact ⟨nofun, fun h => absurd (h ▸ u.le_max) ‹_›⟩

@[simp] theorem checkedAdd_eq_none_iff {t : Instant} {d : Duration} :
    t.checkedAdd d = none ↔ Instant.maxNanos < t.nanos + d.nanos := by
  unfold checkedAdd
  split <;> simp_all

@[simp] theorem durationSince_nanos (t earlier : Instant) :
    (t.durationSince earlier).nanos = t.nanos - earlier.nanos := rfl

end Instant

/-- `Duration::from_micros`. -/
def Duration.fromMicros (micros : UInt64) : Duration :=
  ⟨micros.toNat * 1000, by
    have : micros.toNat < 18446744073709551616 := micros.val.isLt
    unfold Duration.maxNanos
    omega⟩

@[simp] theorem Duration.fromMicros_nanos (micros : UInt64) :
    (Duration.fromMicros micros).nanos = micros.toNat * 1000 := rfl

@[simp] theorem Duration.fromMicros_zero_nanos : (Duration.fromMicros 0).nanos = 0 := rfl

/-- A clock: the `n`-th call of `Instant::now()` reads `clock n`. -/
abbrev Clock := Nat → Instant

/-- A monotonic clock never reads less than it read before. -/
def Clock.Monotone (clock : Clock) : Prop := ∀ i j, i ≤ j → clock i ≤ clock j

/-- A clock whose `r`-th reading is `r` ns past the origin, until it stops at the last instant. -/
def Clock.ticking : Clock := fun r =>
  if h : r ≤ Instant.maxNanos then ⟨r, h⟩ else ⟨Instant.maxNanos, Nat.le_refl _⟩

theorem Clock.ticking_monotone : Clock.ticking.Monotone := by
  intro i j hij
  unfold Clock.ticking
  split <;> split <;> simp only [Instant.le_iff] <;> omega

theorem Clock.ticking_passes (t : Instant) : ∃ r, t ≤ Clock.ticking r :=
  ⟨t.nanos, by simp [Clock.ticking, t.le_max]⟩

end Scipio
