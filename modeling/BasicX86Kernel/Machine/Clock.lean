import Mathlib.Algebra.Order.Floor.Semiring
import Mathlib.Tactic.Linarith

/-! Clocks that pulse at a fixed frequency, and how much time the pulses that have been counted
tell of: a count that has grown by `n` tells of more than `n - 1` periods and of less than `n + 1`. -/

namespace BasicX86Kernel.Machine

variable {R : Type*} [Field R] [LinearOrder R]

/-- A clock of `hz` pulses in a unit of time; `phase` is the part of a period that has passed when
time begins. -/
structure Clock (R : Type*) [Field R] [LinearOrder R] where
  hz : R
  phase : R
  hz_pos : 0 < hz
  phase_nonneg : 0 ≤ phase

/-- The times of a sequence of instants, which go on for ever. -/
structure Timeline (R : Type*) [Field R] [LinearOrder R] where
  time : ℕ → R
  time_nonneg : 0 ≤ time 0
  mono : Monotone time
  unbounded : ∀ t, ∃ n, t ≤ time n

theorem Timeline.nonneg (T : Timeline R) (n : ℕ) : 0 ≤ T.time n :=
  T.time_nonneg.trans (T.mono (Nat.zero_le n))

variable [FloorSemiring R]

/-- The pulses up to a time. -/
def Clock.pulses (c : Clock R) (t : R) : ℕ := ⌊c.hz * t + c.phase⌋₊

theorem Clock.lt_pulses (c : Clock R) (t : R) : c.hz * t + c.phase < c.pulses t + 1 :=
  Nat.lt_floor_add_one _

variable [IsStrictOrderedRing R]

namespace Clock

variable (c : Clock R) {t t' : R} {n : ℕ}

theorem pulses_mono (h : t ≤ t') : c.pulses t ≤ c.pulses t' := by
  apply Nat.floor_mono
  have := mul_le_mul_of_nonneg_left h c.hz_pos.le
  linarith

theorem pulses_le (ht : 0 ≤ t) : (c.pulses t : R) ≤ c.hz * t + c.phase :=
  Nat.floor_le (add_nonneg (mul_nonneg c.hz_pos.le ht) c.phase_nonneg)

/-- Pulses take their time. -/
theorem lt_of_pulses (ht : 0 ≤ t) (hle : t ≤ t') (h : c.pulses t + n ≤ c.pulses t') :
    (n : R) - 1 < c.hz * (t' - t) := by
  have hcast : (c.pulses t : R) + n ≤ c.pulses t' := by exact_mod_cast h
  have hlow := c.lt_pulses t
  have hhigh := c.pulses_le (ht.trans hle)
  rw [mul_sub]
  linarith

/-- In time there are pulses. -/
theorem pulses_of_le (ht : 0 ≤ t) (h : (n : R) ≤ c.hz * (t' - t)) :
    c.pulses t + n ≤ c.pulses t' := by
  rw [mul_sub] at h
  refine Nat.le_floor ?_
  have hlow := c.pulses_le ht
  push_cast
  linarith

/-- The pulses of a span of time are more than the periods that fit into it, less one. -/
theorem lt_pulses_sub (ht : 0 ≤ t) (hle : t ≤ t') :
    c.hz * (t' - t) - 1 < ((c.pulses t' - c.pulses t : ℕ) : R) := by
  have hmono := c.pulses_mono hle
  have hlow := c.pulses_le ht
  have hhigh := c.lt_pulses t'
  rw [Nat.cast_sub hmono, mul_sub]
  linarith

/-- However many pulses are waited for, they come. -/
theorem exists_pulses (T : Timeline R) (n k : ℕ) :
    ∃ m, c.pulses (T.time n) + k ≤ c.pulses (T.time m) := by
  obtain ⟨m, hm⟩ := T.unbounded (T.time n + k / c.hz)
  refine ⟨m, c.pulses_of_le (T.nonneg n) ?_⟩
  have hk : c.hz * (k / c.hz) = k := mul_div_cancel₀ _ c.hz_pos.ne'
  have := mul_le_mul_of_nonneg_left hm c.hz_pos.le
  rw [mul_sub]
  linarith [mul_add c.hz (T.time n) (k / c.hz)]

end Clock

end BasicX86Kernel.Machine
