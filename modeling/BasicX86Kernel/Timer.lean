import BasicX86Kernel.Machine.Word
import Mathlib.Order.Nat

/-! The timer of the local APIC: its calibration and configuration (drivers/82489DX.c), the delays
that poll its counter (timer.c), and for which arguments they are as long as asked. -/

namespace BasicX86Kernel.Timer

open Machine

/-! ### Configuration -/

/-- The registers of the timer that the kernel writes. -/
structure Lapic where
  dcr : Word
  lvttr : Word
  icr : Word

/-- `lapic_ticks_per_ms` and `lapic_ticks_per_us`. -/
structure Ticks where
  perMs : Word
  perUs : Word

def lapicDcrDiv16 : Word := 0b0011
def lapicLvttrVector (v : Word) : Word := v &&& 0xFF
def lapicLvttrMask : Word := 1 <<< 16
def lapicLvttrOneshot : Word := 0 <<< 17
def lapicLvttrPeriodic : Word := 1 <<< 17
def kernelConfigTimerFallbackFreq : Word := 1000000000

/-- `currentCcr` is what the counter shows after ten milliseconds. -/
def lapicTimerCalibrate (currentCcr : Word) (lapic : Lapic) : Lapic × Ticks :=
  let lapic := { lapic with dcr := lapicDcrDiv16 }
  let lapic := { lapic with lvttr := lapicLvttrOneshot ||| lapicLvttrMask }
  let lapic := { lapic with icr := 0xFFFFFFFF }
  let ticksIn10ms := 0xFFFFFFFF - currentCcr
  let lapic := { lapic with icr := 0 }
  let perMs := ticksIn10ms / 10
  let perMs := if perMs = 0 then kernelConfigTimerFallbackFreq / 16 / 1000 else perMs
  (lapic, { perMs, perUs := perMs / 1000 })

def lapicTimerConfig (currentCcr : Word) (lapic : Lapic) : Lapic × Ticks :=
  let (lapic, ticks) := lapicTimerCalibrate currentCcr lapic
  let lapic := { lapic with dcr := lapicDcrDiv16 }
  let lapic := { lapic with lvttr := lapicLvttrVector 32 ||| lapicLvttrPeriodic ||| lapicLvttrMask }
  let lapic := { lapic with icr := ticks.perMs * 1000 }
  let lapic := { lapic with lvttr := lapic.lvttr &&& ~~~lapicLvttrMask }
  (lapic, ticks)

/-! ### Delays -/

/-- The ticks the loop takes to have passed between two readings of the current count. -/
def delta (initialCount lastCount currentCount : Word) : Word :=
  if currentCount ≤ lastCount then lastCount - currentCount
  else lastCount + (initialCount - currentCount)

/-- The loop of the delays, given what the current count shows at each poll. It returns the number
of the last poll before it ends. -/
def delayLoop (counts : Nat → Word) (initialCount : Word) :
    Nat → Nat → Word → Word → Option Nat
  | 0, _, _, _ => none
  | fuel + 1, poll, waitTicks, lastCount =>
    if waitTicks = 0 then some poll
    else
      let currentCount := counts (poll + 1)
      let delta := delta initialCount lastCount currentCount
      let waitTicks := if delta ≥ waitTicks then 0 else waitTicks - delta
      delayLoop counts initialCount fuel (poll + 1) waitTicks currentCount

section

variable (ticks : Ticks) (initialCount : Word) (counts : Nat → Word) (fuel : Nat)

def timerDelayUs (us : Word) : Option Nat :=
  delayLoop counts initialCount fuel 0 (ticks.perUs * us) (counts 0)

def timerDelayMs (ms : Word) : Option Nat :=
  delayLoop counts initialCount fuel 0 (ticks.perMs * ms) (counts 0)

end

/-! ### The counter -/

/-- The periodic counter at a tick: it counts down from the initial count and starts again. -/
def counter (initialCount : Word) (tick : Nat) : Word :=
  BitVec.ofNat 32 (initialCount.toNat - tick % initialCount.toNat)

/-- The ticks at which the current count is polled, more than once in every period. -/
structure Polls (period : Nat) where
  tick : Nat → Nat
  mono : ∀ k, tick k ≤ tick (k + 1)
  frequent : ∀ k, tick (k + 1) < tick k + period

variable {period : Nat}

/-- The ticks from the first poll to another. -/
def Polls.elapsed (polls : Polls period) (k : Nat) : Nat := polls.tick k - polls.tick 0

/-- What the counter shows at each poll. -/
def Polls.counts {initialCount : Word} (polls : Polls initialCount.toNat) (k : Nat) : Word :=
  counter initialCount (polls.tick k)

theorem counter_toNat (initialCount : Word) (t : Nat) :
    (counter initialCount t).toNat = initialCount.toNat - t % initialCount.toNat := by
  have hlt := initialCount.isLt
  rw [counter, BitVec.toNat_ofNat]
  exact Nat.mod_eq_of_lt (by omega)

/-- The loop adds up the ticks that have passed, across a restart of the counter too. -/
theorem delta_eq {initialCount : Word} {t t' : Nat} (hle : t ≤ t')
    (hlt : t' < t + initialCount.toNat) :
    (delta initialCount (counter initialCount t) (counter initialCount t')).toNat = t' - t := by
  obtain ⟨d, rfl⟩ := Nat.exists_eq_add_of_le hle
  have hlast := counter_toNat initialCount t
  have hcurrent := counter_toNat initialCount (t + d)
  have hmod : t % initialCount.toNat < initialCount.toNat := Nat.mod_lt _ (by omega)
  have hword := initialCount.isLt
  by_cases hrestart : t % initialCount.toNat + d < initialCount.toNat
  · have hnext : (t + d) % initialCount.toNat = t % initialCount.toNat + d := by
      rw [Nat.add_mod, Nat.mod_eq_of_lt (show d < initialCount.toNat by omega),
        Nat.mod_eq_of_lt hrestart]
    rw [hnext] at hcurrent
    rw [delta, if_pos (BitVec.le_def.mpr (by omega))]
    bv_omega
  · have hnext : (t + d) % initialCount.toNat = t % initialCount.toNat + d - initialCount.toNat := by
      rw [Nat.add_mod, Nat.mod_eq_of_lt (show d < initialCount.toNat by omega),
        Nat.mod_eq_sub_mod (by omega), Nat.mod_eq_of_lt (by omega)]
    rw [hnext] at hcurrent
    rw [delta, if_neg (fun h => by have := BitVec.le_def.mp h; omega)]
    bv_omega

/-! ### How long the loop takes -/

/-- One round of the loop takes off the ticks that have passed, as far as there are any left. -/
theorem delayLoop_succ {initialCount : Word} (polls : Polls initialCount.toNat) (fuel poll : Nat)
    {wait : Word} (hwait : wait ≠ 0) :
    delayLoop polls.counts initialCount (fuel + 1) poll wait (polls.counts poll)
      = delayLoop polls.counts initialCount fuel (poll + 1)
          (BitVec.ofNat 32 (wait.toNat - (polls.tick (poll + 1) - polls.tick poll)))
          (polls.counts (poll + 1)) := by
  have hdelta : (delta initialCount (polls.counts poll) (polls.counts (poll + 1))).toNat
      = polls.tick (poll + 1) - polls.tick poll :=
    delta_eq (polls.mono poll) (polls.frequent poll)
  rw [delayLoop, if_neg hwait]
  dsimp only
  congr 1
  generalize delta initialCount (polls.counts poll) (polls.counts (poll + 1)) = d at hdelta ⊢
  rw [← hdelta]
  by_cases hge : d ≥ wait
  · rw [if_pos hge, Nat.sub_eq_zero_of_le (BitVec.le_def.mp hge)]
    rfl
  · rw [if_neg hge]
    have hlt := BitVec.lt_def.mp (BitVec.not_le.mp hge)
    bv_omega

theorem Polls.monotone (polls : Polls period) : Monotone polls.tick :=
  monotone_nat_of_le_succ polls.mono

/-- The loop ends at the first poll by which the ticks it waits for have passed. -/
theorem delayLoop_eq_some_iff {initialCount : Word} (polls : Polls initialCount.toNat)
    {fuel poll k : Nat} {wait : Word} :
    delayLoop polls.counts initialCount fuel poll wait (polls.counts poll) = some k ↔
      (poll ≤ k ∧ k < poll + fuel) ∧ polls.tick poll + wait.toNat ≤ polls.tick k ∧
        ∀ j, poll ≤ j → j < k → polls.tick j < polls.tick poll + wait.toNat := by
  induction fuel generalizing poll wait with
  | zero =>
    refine iff_of_false (by simp [delayLoop]) ?_
    rintro ⟨⟨hle, hlt⟩, -⟩
    omega
  | succ fuel ih =>
    have hmono := polls.mono poll
    by_cases hwait : wait = 0
    · rw [delayLoop, if_pos hwait, hwait, Option.some_inj]
      constructor
      · rintro rfl
        exact ⟨⟨le_rfl, by omega⟩, le_rfl, fun j hj hj' => absurd hj' (Nat.not_lt.mpr hj)⟩
      · rintro ⟨⟨hle, -⟩, -, hfirst⟩
        refine le_antisymm hle (Nat.not_lt.mp fun hlt => ?_)
        exact absurd (hfirst poll le_rfl hlt) (lt_irrefl _)
    · have hpos : wait.toNat ≠ 0 := fun h => hwait (BitVec.eq_of_toNat_eq h)
      have hrest : (BitVec.ofNat 32 (wait.toNat -
          (polls.tick (poll + 1) - polls.tick poll)) : Word).toNat =
          wait.toNat - (polls.tick (poll + 1) - polls.tick poll) := by
        rw [BitVec.toNat_ofNat, Nat.mod_eq_of_lt (by have := wait.isLt; omega)]
      -- what is left to wait for after the next poll ends at the same tick
      have hlater : ∀ j, poll + 1 ≤ j → polls.tick (poll + 1) ≤ polls.tick j :=
        fun j hj => polls.monotone hj
      rw [delayLoop_succ polls fuel poll hwait, ih, hrest]
      constructor
      · rintro ⟨⟨hle, hlt⟩, hk, hfirst⟩
        have := hlater k hle
        refine ⟨⟨by omega, by omega⟩, by omega, fun j hj hjk => ?_⟩
        rcases Nat.eq_or_lt_of_le hj with rfl | hj
        · omega
        · have := hlater j hj
          have := hfirst j hj hjk
          omega
      · rintro ⟨⟨hle, hlt⟩, hk, hfirst⟩
        have hne : poll ≠ k := by
          rintro rfl
          omega
        have := hlater k (by omega)
        refine ⟨⟨by omega, by omega⟩, by omega, fun j hj hjk => ?_⟩
        have := hlater j hj
        have := hfirst j (by omega) hjk
        omega

/-- However long it has been, the loop takes no more ticks to have passed than there have been. -/
theorem delta_le (initialCount : Word) {t t' : Nat} (hle : t ≤ t') :
    (delta initialCount (counter initialCount t) (counter initialCount t')).toNat ≤ t' - t := by
  have hlast := counter_toNat initialCount t
  have hcurrent := counter_toNat initialCount t'
  have hword := initialCount.isLt
  rcases Nat.eq_zero_or_pos initialCount.toNat with hzero | hpos
  · rw [delta, if_pos (BitVec.le_def.mpr (by omega))]
    bv_omega
  have hdiv := Nat.div_add_mod t initialCount.toNat
  have hdiv' := Nat.div_add_mod t' initialCount.toNat
  have hmod := Nat.mod_lt t hpos
  have hmod' := Nat.mod_lt t' hpos
  have hperiods := Nat.div_le_div_right (c := initialCount.toNat) hle
  have hmul := Nat.mul_le_mul_left initialCount.toNat hperiods
  by_cases hrestart : counter initialCount t' ≤ counter initialCount t
  · have hcount := BitVec.le_def.mp hrestart
    rw [delta, if_pos hrestart, BitVec.toNat_sub_of_le hrestart]
    omega
  · have hcount := BitVec.lt_def.mp (BitVec.not_le.mp hrestart)
    -- a period at least has passed
    have hlt : t / initialCount.toNat < t' / initialCount.toNat := by
      refine Nat.lt_of_le_of_ne hperiods fun heq => ?_
      rw [heq] at hdiv
      omega
    have hmore := Nat.mul_le_mul_left initialCount.toNat (Nat.succ_le_of_lt hlt)
    rw [Nat.mul_succ] at hmore
    rw [delta, if_neg hrestart]
    bv_omega

/-- The loop never ends before the ticks it waits for have passed, however seldom it polls. -/
theorem delayLoop_late {initialCount : Word} {tick : Nat → Nat} (hmono : Monotone tick)
    {fuel poll k : Nat} {wait : Word} (h : delayLoop (fun j => counter initialCount (tick j))
      initialCount fuel poll wait (counter initialCount (tick poll)) = some k) :
    tick poll + wait.toNat ≤ tick k := by
  induction fuel generalizing poll wait with
  | zero => simp [delayLoop] at h
  | succ fuel ih =>
    rw [delayLoop] at h
    split at h
    · next hwait =>
      obtain rfl := Option.some_inj.mp h
      rw [hwait]
      exact le_rfl
    · have hstep : tick poll ≤ tick (poll + 1) := hmono (Nat.le_add_right poll 1)
      have hdelta := delta_le initialCount hstep
      have hlate := ih h
      split at hlate
      · next hge =>
        have hwait := BitVec.le_def.mp hge
        have hzero : (0 : Word).toNat = 0 := rfl
        omega
      · next hge =>
        rw [BitVec.toNat_sub_of_le (BitVec.le_of_lt (BitVec.not_le.mp hge))] at hlate
        omega

/-- A poll at every tick. -/
def everyTick {period : Nat} (h : 2 ≤ period) : Polls period where
  tick := id
  mono := by
    intro k
    exact Nat.le_succ k
  frequent := by
    intro k
    simp only [id]
    omega

/-- Polled at every tick, the loop ends as soon as the ticks it waits for have passed. -/
theorem delayLoop_everyTick {initialCount : Word} (h : 2 ≤ initialCount.toNat) (n poll : Nat)
    (hn : n < 2 ^ 32) :
    delayLoop (everyTick h).counts initialCount (n + 1) poll (BitVec.ofNat 32 n)
      ((everyTick h).counts poll) = some (poll + n) := by
  have hwait : (BitVec.ofNat 32 n : Word).toNat = n := by
    rw [BitVec.toNat_ofNat, Nat.mod_eq_of_lt hn]
  rw [delayLoop_eq_some_iff, hwait]
  refine ⟨⟨by omega, by omega⟩, le_rfl, fun j _ hj => ?_⟩
  exact hj

/-- What a delay guarantees whenever it is polled is what it guarantees at every tick. -/
theorem delayLoop_at_least_iff {initialCount : Word} (h : 2 ≤ initialCount.toNat) (wait : Word)
    (asked scale : Nat) :
    (∀ (polls : Polls initialCount.toNat) (fuel k : Nat),
        delayLoop polls.counts initialCount fuel 0 wait (polls.counts 0) = some k →
          asked ≤ scale * polls.elapsed k)
      ↔ asked ≤ scale * wait.toNat := by
  constructor
  · intro hall
    have hret := delayLoop_everyTick h wait.toNat 0 wait.isLt
    rw [BitVec.ofNat_toNat, BitVec.setWidth_eq, Nat.zero_add] at hret
    simpa [Polls.elapsed, everyTick] using hall (everyTick h) _ _ hret
  · intro hasked polls fuel k hret
    have hlate := delayLoop_late polls.monotone hret
    have helapsed : wait.toNat ≤ polls.elapsed k := by
      rw [Polls.elapsed]
      omega
    exact hasked.trans (Nat.mul_le_mul_left scale helapsed)

/-! ### Which poll is the last -/

/-- A subtraction that fails when it wraps around, and an addition that does. -/
def subExact (a b : Word) : Option Word := if b ≤ a then some (a - b) else none

def addExact (a b : Word) : Option Word := if a.toNat + b.toNat < 2 ^ 32 then some (a + b) else none

/-- `delta` with such subtractions and additions. -/
def deltaExact (initialCount lastCount currentCount : Word) : Option Word :=
  if currentCount ≤ lastCount then subExact lastCount currentCount
  else do
    let rest ← subExact initialCount currentCount
    addExact lastCount rest

/-- `delayLoop` with such subtractions and additions. -/
def delayLoopExact (counts : Nat → Word) (initialCount : Word) :
    Nat → Nat → Word → Word → Option Nat
  | 0, _, _, _ => none
  | fuel + 1, poll, waitTicks, lastCount =>
    if waitTicks = 0 then some poll
    else do
      let currentCount := counts (poll + 1)
      let delta ← deltaExact initialCount lastCount currentCount
      let waitTicks ← if delta ≥ waitTicks then some 0 else subExact waitTicks delta
      delayLoopExact counts initialCount fuel (poll + 1) waitTicks currentCount

theorem subExact_of_le {a b : Word} (h : b ≤ a) : subExact a b = some (a - b) := if_pos h

/-- No operation of `delta` wraps around, whichever reading is the greater one. -/
theorem deltaExact_counter (initialCount : Word) (t t' : Nat) :
    deltaExact initialCount (counter initialCount t) (counter initialCount t') =
      some (delta initialCount (counter initialCount t) (counter initialCount t')) := by
  have hlast := counter_toNat initialCount t
  have hcurrent := counter_toNat initialCount t'
  rw [deltaExact, delta]
  split
  · next h => exact subExact_of_le h
  · next h =>
    have hgt := BitVec.lt_def.mp (BitVec.not_le.mp h)
    have hle : counter initialCount t' ≤ initialCount := BitVec.le_def.mpr (by omega)
    have hrest := BitVec.toNat_sub_of_le hle
    rw [subExact_of_le hle]
    refine if_pos ?_
    have := initialCount.isLt
    omega

/-- No operation of the loop wraps around. -/
theorem delayLoopExact_eq {initialCount : Word} (polls : Polls initialCount.toNat) (wait : Word)
    (fuel poll : Nat) :
    delayLoopExact polls.counts initialCount fuel poll wait (polls.counts poll) =
      delayLoop polls.counts initialCount fuel poll wait (polls.counts poll) := by
  induction fuel generalizing poll wait with
  | zero => rfl
  | succ fuel ih =>
    have hdelta : deltaExact initialCount (polls.counts poll) (polls.counts (poll + 1)) =
        some (delta initialCount (polls.counts poll) (polls.counts (poll + 1))) :=
      deltaExact_counter initialCount _ _
    rw [delayLoopExact, delayLoop]
    split
    · rfl
    · dsimp only
      rw [hdelta]
      generalize delta initialCount (polls.counts poll) (polls.counts (poll + 1)) = d
      rw [Option.bind_eq_bind, Option.bind_some]
      by_cases hge : d ≥ wait
      · rw [if_pos hge, if_pos hge]
        exact ih 0 (poll + 1)
      · rw [if_neg hge, if_neg hge, subExact_of_le (BitVec.le_of_lt (BitVec.not_le.mp hge))]
        exact ih (wait - d) (poll + 1)

/-- A delay, run with enough fuel, ends at the first poll that is so many ticks after poll 0. -/
def EndsAtFirst {period : Nat} (polls : Polls period) (wait : Word) (run : Nat → Option Nat) :
    Prop :=
  ∀ fuel k, run fuel = some k ↔ IsLeast { k | wait.toNat ≤ polls.elapsed k } k ∧ k < fuel

theorem delayLoop_endsAtFirst {initialCount : Word} (polls : Polls initialCount.toNat)
    (wait : Word) : EndsAtFirst polls wait fun fuel =>
      delayLoop polls.counts initialCount fuel 0 wait (polls.counts 0) := by
  intro fuel k
  have hle : ∀ j, polls.tick 0 ≤ polls.tick j := fun j => polls.monotone (Nat.zero_le j)
  rw [delayLoop_eq_some_iff]
  constructor
  · rintro ⟨⟨-, hlt⟩, hk, hfirst⟩
    refine ⟨⟨?_, fun j hj => ?_⟩, by omega⟩
    · show wait.toNat ≤ polls.tick k - polls.tick 0
      omega
    · have hj : wait.toNat ≤ polls.tick j - polls.tick 0 := hj
      have := hle j
      refine Nat.not_lt.mp fun hjk => ?_
      have := hfirst j (Nat.zero_le j) hjk
      omega
  · rintro ⟨⟨hk, hfirst⟩, hlt⟩
    have hk : wait.toNat ≤ polls.tick k - polls.tick 0 := hk
    have := hle k
    refine ⟨⟨Nat.zero_le k, by omega⟩, by omega, fun j _ hjk => ?_⟩
    have hj : ¬wait.toNat ≤ polls.tick j - polls.tick 0 := fun hj => absurd (hfirst hj) (by omega)
    have := hle j
    omega

/-- When time goes on, there is such a poll. -/
theorem exists_isLeast {period : Nat} {polls : Polls period} (h : StrictMono polls.tick)
    (wait : Nat) : ∃ k, IsLeast { k | wait ≤ polls.elapsed k } k := by
  have hreached : ∀ n, n ≤ polls.elapsed n := by
    intro n
    have := h.add_le_nat n 0
    rw [Nat.add_zero] at this
    rw [Polls.elapsed]
    omega
  exact ⟨_, Nat.isLeast_find ⟨wait, hreached wait⟩⟩

/-- Both delays end at the first poll that is so many ticks after the first reading, for whatever
number of ticks; no subtraction or addition of the loop wraps around; and such a poll comes when the
polls go on. -/
theorem delays_endAtFirst (ticks : Ticks) {initialCount : Word} (polls : Polls initialCount.toNat) :
    (∀ us, EndsAtFirst polls (ticks.perUs * us) fun fuel =>
        timerDelayUs ticks initialCount polls.counts fuel us) ∧
      (∀ ms, EndsAtFirst polls (ticks.perMs * ms) fun fuel =>
        timerDelayMs ticks initialCount polls.counts fuel ms) ∧
      (∀ wait, EndsAtFirst polls wait fun fuel =>
        delayLoopExact polls.counts initialCount fuel 0 wait (polls.counts 0)) ∧
      (StrictMono polls.tick → ∀ wait, ∃ k, IsLeast { k | wait ≤ polls.elapsed k } k) := by
  refine ⟨fun us => ?_, fun ms => ?_, fun wait => ?_, fun h wait => exists_isLeast h wait⟩
  · exact delayLoop_endsAtFirst polls (ticks.perUs * us)
  · exact delayLoop_endsAtFirst polls (ticks.perMs * ms)
  · simp only [delayLoopExact_eq]
    exact delayLoop_endsAtFirst polls wait

/-! ### Calibration -/

/-- A tenth of the ticks that have been counted, or the fallback if that is nothing. -/
theorem calibrate_perMs_toNat (ccr : Word) (lapic : Lapic) :
    (lapicTimerConfig ccr lapic).2.perMs.toNat =
      if (2 ^ 32 - 1 - ccr.toNat) / 10 = 0 then 62500 else (2 ^ 32 - 1 - ccr.toNat) / 10 := by
  have hticks : ((0xFFFFFFFF - ccr) / 10 : Word).toNat = (2 ^ 32 - 1 - ccr.toNat) / 10 := by
    have hle : ccr ≤ 0xFFFFFFFF := BitVec.le_def.mpr (Nat.le_of_lt_succ ccr.isLt)
    rw [BitVec.toNat_udiv, BitVec.toNat_sub_of_le hle]
    rfl
  have hzero : (0xFFFFFFFF - ccr) / 10 = (0 : Word) ↔ (2 ^ 32 - 1 - ccr.toNat) / 10 = 0 := by
    rw [← hticks]
    exact (BitVec.toNat_inj).symm
  simp only [lapicTimerConfig, lapicTimerCalibrate]
  by_cases h : (2 ^ 32 - 1 - ccr.toNat) / 10 = 0
  · rw [if_pos (hzero.mpr h), if_pos h]
    rfl
  · rw [if_neg (mt hzero.mp h), if_neg h, hticks]

theorem calibrate_perMs (ccr : Word) (lapic : Lapic) :
    1 ≤ (lapicTimerConfig ccr lapic).2.perMs.toNat
      ∧ (lapicTimerConfig ccr lapic).2.perMs.toNat ≤ 429496729 := by
  rw [calibrate_perMs_toNat]
  split <;> omega

theorem calibrate_perUs (ccr : Word) (lapic : Lapic) :
    (lapicTimerConfig ccr lapic).2.perUs.toNat
      = (lapicTimerConfig ccr lapic).2.perMs.toNat / 1000 := by
  simp only [lapicTimerConfig, lapicTimerCalibrate]
  exact BitVec.toNat_udiv

theorem config_icr_toNat (ccr : Word) (lapic : Lapic) :
    (lapicTimerConfig ccr lapic).1.icr.toNat =
      1000 * (lapicTimerConfig ccr lapic).2.perMs.toNat % 2 ^ 32 := by
  have hicr : (lapicTimerConfig ccr lapic).1.icr
      = (lapicTimerConfig ccr lapic).2.perMs * 1000 := by
    simp only [lapicTimerConfig, lapicTimerCalibrate]
  rw [hicr, BitVec.toNat_mul, Nat.mul_comm]
  rfl

/-- The timer is started with more than one tick in a period. -/
theorem config_icr (ccr : Word) (lapic : Lapic) : 2 ≤ (lapicTimerConfig ccr lapic).1.icr.toNat := by
  obtain ⟨hpos, hle⟩ := calibrate_perMs ccr lapic
  rw [config_icr_toNat]
  generalize (lapicTimerConfig ccr lapic).2.perMs.toNat = n at hpos hle ⊢
  omega

/-- The ticks of a millisecond and of a microsecond go together, and the period of the timer is a
thousand times the former. -/
structure CalibrationSound (config : Lapic × Ticks) : Prop where
  perMs_pos : 0 < config.2.perMs.toNat
  perMs_le : config.2.perMs.toNat ≤ (2 ^ 32 - 1) / 10
  perUs : config.2.perUs.toNat = config.2.perMs.toNat / 1000
  icr_ne : config.1.icr ≠ 0
  icr : config.1.icr.toNat = 1000 * config.2.perMs.toNat

/-- The product fits a word just when fewer than 42949680 ticks have been counted. -/
theorem calibration_sound_iff (ccr : Word) (lapic : Lapic) :
    CalibrationSound (lapicTimerConfig ccr lapic) ↔ 2 ^ 32 - 1 - ccr.toNat < 42949680 := by
  have hicr := config_icr_toNat ccr lapic
  have hperMs := calibrate_perMs_toNat ccr lapic
  have hfits : 1000 * (lapicTimerConfig ccr lapic).2.perMs.toNat < 2 ^ 32 ↔
      2 ^ 32 - 1 - ccr.toNat < 42949680 := by
    rw [hperMs]
    split <;> omega
  obtain ⟨hpos, hle⟩ := calibrate_perMs ccr lapic
  rw [← hfits]
  constructor
  · intro h
    rw [← h.icr]
    exact (lapicTimerConfig ccr lapic).1.icr.isLt
  · intro h
    rw [Nat.mod_eq_of_lt h] at hicr
    refine ⟨hpos, hle, calibrate_perUs ccr lapic, fun h0 => ?_, hicr⟩
    have : (lapicTimerConfig ccr lapic).1.icr.toNat = 0 := congrArg BitVec.toNat h0
    omega

/-- A counter that has run out before the ten milliseconds are over. -/
theorem calibration_not_sound : ¬CalibrationSound (lapicTimerConfig 0 ⟨0, 0, 0⟩) := by
  intro h
  have hicr := h.icr
  have hperMs := calibrate_perMs_toNat 0 ⟨0, 0, 0⟩
  rw [config_icr_toNat] at hicr
  generalize (lapicTimerConfig 0 ⟨0, 0, 0⟩).2.perMs.toNat = n at hicr hperMs
  have hn : n = 429496729 := hperMs.trans (by decide)
  omega

/-! ### What is guaranteed -/

/-- However the counter is polled, the delay returns after at least so many milliseconds. -/
def DelaysMs (config : Lapic × Ticks) (ms : Word) : Prop :=
  ∀ (polls : Polls config.1.icr.toNat) (fuel k : Nat),
    timerDelayMs config.2 config.1.icr polls.counts fuel ms = some k →
      ms.toNat * config.2.perMs.toNat ≤ polls.elapsed k

/-- However the counter is polled, the delay returns after at least so many thousandths of a
millisecond. -/
def DelaysUs (config : Lapic × Ticks) (us : Word) : Prop :=
  ∀ (polls : Polls config.1.icr.toNat) (fuel k : Nat),
    timerDelayUs config.2 config.1.icr polls.counts fuel us = some k →
      us.toNat * config.2.perMs.toNat ≤ 1000 * polls.elapsed k

/-- Whole ticks a microsecond, modulo the word, make up the ticks of a millisecond just when
nothing is cut off. -/
theorem truncated_le_iff (u p : Nat) :
    u * p ≤ 1000 * (u * (p / 1000) % 2 ^ 32)
      ↔ u = 0 ∨ 1000 ∣ p ∧ u * (p / 1000) < 2 ^ 32 := by
  have hsplit : u * p = 1000 * (u * (p / 1000)) + u * (p % 1000) := by
    conv_lhs => rw [← Nat.div_add_mod p 1000]
    rw [Nat.mul_add, Nat.mul_left_comm]
  have hmod := Nat.mod_le (u * (p / 1000)) (2 ^ 32)
  constructor
  · intro h
    by_cases hu : u = 0
    · exact .inl hu
    · have hrest : u * (p % 1000) = 0 := by omega
      have hdvd : p % 1000 = 0 := (Nat.mul_eq_zero.mp hrest).resolve_left hu
      refine .inr ⟨Nat.dvd_of_mod_eq_zero hdvd, ?_⟩
      have hlt := Nat.mod_lt (u * (p / 1000)) (show 0 < 2 ^ 32 by omega)
      omega
  · rintro (rfl | ⟨hdvd, hlt⟩)
    · simp
    · rw [hsplit, Nat.mod_eq_zero_of_dvd hdvd, Nat.mod_eq_of_lt hlt]
      omega

/-- A delay in milliseconds is long enough just when the ticks it waits for fit a word, and one in
microseconds just when they do and a microsecond is a whole number of ticks, or none is asked. -/
theorem delays_iff (ccr : Word) (lapic : Lapic) (ms us : Word) :
    (DelaysMs (lapicTimerConfig ccr lapic) ms
      ↔ ms.toNat * (lapicTimerConfig ccr lapic).2.perMs.toNat < 2 ^ 32)
    ∧ (DelaysUs (lapicTimerConfig ccr lapic) us ↔ us = 0
      ∨ 1000 ∣ (lapicTimerConfig ccr lapic).2.perMs.toNat
        ∧ us.toNat * (lapicTimerConfig ccr lapic).2.perUs.toNat < 2 ^ 32) := by
  have hicr := config_icr ccr lapic
  have hperUs := calibrate_perUs ccr lapic
  generalize lapicTimerConfig ccr lapic = config at hicr hperUs ⊢
  refine ⟨?_, ?_⟩
  · have hiff := delayLoop_at_least_iff hicr (config.2.perMs * ms)
      (ms.toNat * config.2.perMs.toNat) 1
    simp only [Nat.one_mul] at hiff
    rw [DelaysMs]
    unfold timerDelayMs
    rw [hiff, BitVec.toNat_mul, Nat.mul_comm config.2.perMs.toNat]
    constructor
    · intro h
      have hmod := Nat.mod_lt (ms.toNat * config.2.perMs.toNat) (show 0 < 2 ^ 32 by omega)
      omega
    · intro h
      rw [Nat.mod_eq_of_lt h]
  · rw [DelaysUs]
    unfold timerDelayUs
    rw [delayLoop_at_least_iff hicr, BitVec.toNat_mul, Nat.mul_comm config.2.perUs.toNat, hperUs,
      truncated_le_iff]
    refine or_congr_left ⟨fun h => BitVec.eq_of_toNat_eq h, fun h => congrArg BitVec.toNat h⟩

/-- With the fallback of 62500 ticks a millisecond, a delay of 1000 microseconds ends early. -/
theorem fallback_delay_short : ¬DelaysUs (lapicTimerConfig 0xFFFFFFFF ⟨0, 0, 0⟩) 1000 := by
  have hicr := config_icr 0xFFFFFFFF ⟨0, 0, 0⟩
  have hperMs : (lapicTimerConfig 0xFFFFFFFF ⟨0, 0, 0⟩).2.perMs = 62500 := by
    simp only [lapicTimerConfig, lapicTimerCalibrate]
    decide
  have hperUs : (lapicTimerConfig 0xFFFFFFFF ⟨0, 0, 0⟩).2.perUs = 62 := by
    simp only [lapicTimerConfig, lapicTimerCalibrate]
    decide
  rw [DelaysUs, hperMs]
  unfold timerDelayUs
  rw [delayLoop_at_least_iff hicr, hperUs]
  decide

end BasicX86Kernel.Timer
