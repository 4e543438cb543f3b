import BasicX86Kernel.Machine.Clock
import BasicX86Kernel.Machine.Peripheral
import BasicX86Kernel.Timer
import Mathlib.Algebra.Order.Archimedean.Real.Basic

/-! The interval timer (drivers/i8254.c), with which the timer of the local APIC is calibrated: how
long `pit_wait_ms` waits, and how long the delays are that rest on the calibration. -/

namespace BasicX86Kernel.Pit

open Machine

/-! ### The driver -/

def pitFrequency : Nat := 1193182
def pitPortCommand : Port := 0x43

/-- Channel 0, a count of two bytes, mode 0. -/
def pitAccessBoth : Byte := 0x30

/-- The port of channel 0, under the name that the driver uses. -/
def pitSelectChannel1 : Port := 0x40

/-- The read-back command that latches the status of channel 0. -/
def readBack : Byte := 0xE2

def latch (ms : Word) : BitVec 16 := (11932 * (ms / 10)).setWidth 16

/-- The loop of `pit_wait_ms`; it has returned if the result is `true`. -/
def pitWaitLoop : Nat → Driver Bool
  | 0 => pure false
  | fuel + 1 => do
    outb pitPortCommand readBack
    let status ← inb pitSelectChannel1
    if status &&& 0x80 ≠ 0 then pure true else pitWaitLoop fuel

def pitWaitMs (fuel : Nat) (ms : Word) : Driver Bool := do
  outb pitPortCommand pitAccessBoth
  outb pitSelectChannel1 ((latch ms &&& 0xFF).setWidth 8)
  outb pitSelectChannel1 (((latch ms >>> 8) &&& 0xFF).setWidth 8)
  pitWaitLoop fuel

/-! ### The timer -/

/-- The number that is counted down for a count that is written as zero is the greatest. -/
def initialCount (v : BitVec 16) : Nat := if v = 0 then 65536 else v.toNat

/-- Channel 0: the first byte of a count that is being written; when the count was written, and the
count; and the status that has been latched. -/
structure Channel where
  low : Option Byte
  count : Option (Nat × Nat)
  status : Option Byte

namespace Channel

variable (c : Channel) (now : Nat)

/-- In mode 0 the output is high from one pulse after the end of the count on. -/
def out : Bool := c.count.any fun count => count.1 + count.2 + 1 ≤ now

/-- The count has not been loaded yet. -/
def null : Bool := !c.count.any fun count => count.1 < now

def statusByte : Byte :=
  (if c.out now then 0x80 else 0) ||| (if c.null now then 0x40 else 0) ||| 0x30

/-- Of the control words, the two that the driver sends. -/
def write (port : Port) (v : Byte) : Channel :=
  if port = pitPortCommand then
    if v = pitAccessBoth then { c with low := none, count := none }
    else if v = readBack ∧ c.status = none then { c with status := some (c.statusByte now) }
    else c
  else if port = pitSelectChannel1 then
    match c.low with
    | none => { c with low := some v, count := none }
    | some low => { c with low := none, count := some (now, initialCount (v ++ low)) }
  else c

variable {c : Channel} {now : Nat} {v w : Byte}

theorem write_control : c.write now pitPortCommand pitAccessBoth =
    { c with low := none, count := none } := rfl

theorem write_low (h : c.low = none) :
    c.write now pitSelectChannel1 v = { c with low := some v, count := none } := by
  rw [write, if_neg (by decide), if_pos rfl, h]

theorem write_high (h : c.low = some w) : c.write now pitSelectChannel1 v =
    { c with low := none, count := some (now, initialCount (v ++ w)) } := by
  rw [write, if_neg (by decide), if_pos rfl, h]

theorem write_readBack (h : c.status = none) :
    c.write now pitPortCommand readBack = { c with status := some (c.statusByte now) } := by
  rw [write, if_pos rfl, if_neg (by decide), if_pos ⟨rfl, h⟩]

theorem out_statusByte : c.statusByte now &&& 0x80 ≠ 0 ↔ c.out now = true := by
  rw [statusByte]
  cases c.out now <;> cases c.null now <;> decide

end Channel

/-- The timer, given the pulses at each transfer; `others` are the reads of everything else. -/
def pit (pulses : Nat → Nat) (others : Nat → Port → Byte) : Peripheral Channel where
  read := fun n c port =>
    if port = pitSelectChannel1 then c.status.getD (others n port) else others n port
  next := fun n c t =>
    match t with
    | .inb port _ => if port = pitSelectChannel1 then { c with status := none } else c
    | .outb port v => c.write (pulses n) port v

/-- The number that the timer counts down for a delay. -/
def counted (ms : Word) : Nat := initialCount (latch ms)

/-! ### The loop -/

section

variable {pulses : Nat → Nat} {others : Nat → Port → Byte} {c : Channel} {n : Nat}

theorem latch_bytes (v : BitVec 16) :
    ((v >>> 8 &&& 0xFF).setWidth 8 : Byte) ++ ((v &&& 0xFF).setWidth 8 : Byte) = v := by
  apply BitVec.eq_of_toNat_eq
  have hlow : (v &&& 0xFF).toNat = v.toNat % 2 ^ 8 := by
    rw [BitVec.toNat_and]
    exact Nat.and_two_pow_sub_one_eq_mod v.toNat 8
  have hhigh : (v >>> 8 &&& 0xFF).toNat = v.toNat / 2 ^ 8 % 2 ^ 8 := by
    rw [BitVec.toNat_and, BitVec.toNat_ushiftRight, Nat.shiftRight_eq_div_pow]
    exact Nat.and_two_pow_sub_one_eq_mod _ 8
  have hv := v.isLt
  rw [BitVec.toNat_append, BitVec.toNat_setWidth, BitVec.toNat_setWidth, hlow, hhigh,
    ← Nat.shiftLeft_add_eq_or_of_lt (by omega), Nat.shiftLeft_eq]
  omega

theorem next_outb (port : Port) (v : Byte) :
    (pit pulses others).next n c (.outb port v) = c.write (pulses n) port v := rfl

/-- The three bytes that program the timer. -/
theorem pitWaitMs_run (fuel : Nat) (ms : Word) :
    (pit pulses others).run n c (pitWaitMs fuel ms) = (pit pulses others).run (n + 3)
      { low := none, count := some (pulses (n + 2), counted ms), status := c.status }
      (pitWaitLoop fuel) := by
  simp only [pitWaitMs, Peripheral.run_bind, Peripheral.run_outb, next_outb, Channel.write_control,
    Channel.write_low]
  rw [Channel.write_high rfl, latch_bytes, counted]

/-- A round of the loop latches the status and reads it. -/
theorem pitWaitLoop_succ (hstatus : c.status = none) (fuel : Nat) :
    (pit pulses others).run n c (pitWaitLoop (fuel + 1)) =
      if c.out (pulses n) then (true, n + 2, c)
      else (pit pulses others).run (n + 2) c (pitWaitLoop fuel) := by
  have hread : (pit pulses others).read (n + 1) { c with status := some (c.statusByte (pulses n)) }
      pitSelectChannel1 = c.statusByte (pulses n) := rfl
  have hcleared : (pit pulses others).next (n + 1)
      { c with status := some (c.statusByte (pulses n)) }
      (.inb pitSelectChannel1 (c.statusByte (pulses n))) = c := by
    show (⟨c.low, c.count, none⟩ : Channel) = c
    rw [← hstatus]
  simp only [pitWaitLoop, Peripheral.run_bind, Peripheral.run_outb, Peripheral.run_inb, next_outb,
    Channel.write_readBack hstatus, hread, hcleared]
  by_cases hout : c.out (pulses n) = true
  · rw [if_pos hout, if_pos (Channel.out_statusByte.mpr hout)]
    rfl
  · rw [if_neg hout, if_neg (mt Channel.out_statusByte.mp hout)]

/-- The loop ends at the first round in which the output is high. -/
theorem pitWaitLoop_run (hstatus : c.status = none) {k : Nat}
    (hbefore : ∀ j < k, c.out (pulses (n + 2 * j)) = false) (fuel : Nat) :
    (pit pulses others).run n c (pitWaitLoop (k + fuel)) =
      (pit pulses others).run (n + 2 * k) c (pitWaitLoop fuel) := by
  induction k generalizing n with
  | zero => rw [Nat.zero_add, Nat.mul_zero, Nat.add_zero]
  | succ k ih =>
    have hfirst := hbefore 0 (Nat.succ_pos k)
    rw [Nat.mul_zero, Nat.add_zero] at hfirst
    have hnext := ih (n := n + 2) fun j hj => by
      have := hbefore (j + 1) (Nat.succ_lt_succ hj)
      rwa [show n + 2 * (j + 1) = n + 2 + 2 * j by omega] at this
    rw [show k + 1 + fuel = k + fuel + 1 by omega, pitWaitLoop_succ hstatus, hfirst, hnext,
      show n + 2 + 2 * k = n + 2 * (k + 1) by omega]
    rfl

end

/-! ### How long it waits -/

theorem toNat_latch (ms : Word) : (latch ms).toNat = 11932 * (ms.toNat / 10) % 65536 := by
  have hdiv : (ms / 10).toNat = ms.toNat / 10 := BitVec.toNat_udiv
  rw [latch, BitVec.toNat_setWidth, BitVec.toNat_mul, hdiv]
  exact Nat.mod_mod_of_dvd _ (by decide)

theorem counted_eq (ms : Word) : counted ms = if 11932 * (ms.toNat / 10) % 65536 = 0 then 65536
    else 11932 * (ms.toNat / 10) % 65536 := by
  have hzero : latch ms = 0 ↔ 11932 * (ms.toNat / 10) % 65536 = 0 := by
    rw [← toNat_latch]
    exact (BitVec.toNat_inj).symm
  rw [counted, initialCount, toNat_latch]
  simp only [hzero]

/-- The delays for which the count is as long as asked. -/
def Countable (ms : Nat) : Prop := ms < 10 ∨ ms % 10 = 0 ∧ ms ≤ 50

instance (ms : Nat) : Decidable (Countable ms) := inferInstanceAs (Decidable (_ ∨ _))

theorem counted_of_countable {ms : Word} (h : Countable ms.toNat) :
    pitFrequency * ms.toNat ≤ 1000 * counted ms := by
  rw [counted_eq, pitFrequency]
  rcases h with h | ⟨hmod, hle⟩
  · rw [Nat.div_eq_of_lt h]
    simp only [Nat.mul_zero, Nat.zero_mod, if_true]
    omega
  · rw [Nat.mod_eq_of_lt (by omega)]
    split <;> omega

/-- Any other count is shorter by more than five pulses. -/
theorem counted_of_not_countable {ms : Word} (h : ¬Countable ms.toNat) :
    1000 * (counted ms + 5) < pitFrequency * ms.toNat := by
  rw [Countable, not_or, not_and, not_lt, not_le] at h
  rw [counted_eq, pitFrequency]
  rcases Nat.lt_or_ge ms.toNat 60 with hlt | hge
  · rw [Nat.mod_eq_of_lt (by omega)]
    split <;> omega
  · split <;> omega

section

variable (T : Timeline ℝ) (clk : Clock ℝ) (others : Nat → Port → Byte)

/-- The timer, on the clock `clk`. -/
noncomputable def timer : Peripheral Channel := pit (fun i => clk.pulses (T.time i)) others

/-- The output is high in round `k` of a loop that has been entered at the instant `n + 3`. -/
def Ended (n : Nat) (ms : Word) (k : Nat) : Prop :=
  clk.pulses (T.time (n + 2)) + counted ms + 1 ≤ clk.pulses (T.time (n + 3 + 2 * k))

noncomputable instance (n : Nat) (ms : Word) : DecidablePred (Ended T clk n ms) :=
  fun _ => inferInstanceAs (Decidable (_ ≤ _))

theorem exists_ended (n : Nat) (ms : Word) : ∃ k, Ended T clk n ms k := by
  obtain ⟨m, hm⟩ := clk.exists_pulses T (n + 2) (counted ms + 1)
  have hmono : clk.pulses (T.time m) ≤ clk.pulses (T.time (n + 3 + 2 * m)) :=
    clk.pulses_mono (T.mono (by omega))
  exact ⟨m, by rw [Ended]; omega⟩

/-- The function returns with enough fuel, after the first round in which the output is high. -/
theorem pitWaitMs_returns (c : Channel) (log : List Transfer) (ms : Word)
    (hstatus : ((timer T clk others).advance 0 c log).status = none) :
    ∃ k, IsLeast { k | Ended T clk log.length ms k } k ∧ ∀ fuel,
      ((pitWaitMs fuel ms).result ((timer T clk others).device c) log = true ↔ k < fuel) ∧
        (k < fuel →
          ((pitWaitMs fuel ms).trace ((timer T clk others).device c) log).length = 5 + 2 * k) := by
  have hended := exists_ended T clk log.length ms
  refine ⟨Nat.find hended, Nat.isLeast_find hended, fun fuel => ?_⟩
  have hrun := (timer T clk others).run_eq c log (pitWaitMs fuel ms)
  have hprogrammed : (timer T clk others).run log.length ((timer T clk others).advance 0 c log)
      (pitWaitMs fuel ms) = _ := pitWaitMs_run fuel ms
  rw [show (timer T clk others).reached c log = (log.length, (timer T clk others).advance 0 c log)
    from rfl, hprogrammed, hstatus] at hrun
  have hout : ∀ j, (⟨none, some (clk.pulses (T.time (log.length + 2)), counted ms), none⟩ :
      Channel).out (clk.pulses (T.time (log.length + 3 + 2 * j))) =
        decide (Ended T clk log.length ms j) := fun j => rfl
  rcases Nat.lt_or_ge (Nat.find hended) fuel with hlt | hge
  · obtain ⟨rest, rfl⟩ : ∃ rest, fuel = Nat.find hended + (rest + 1) :=
      ⟨fuel - Nat.find hended - 1, by omega⟩
    rw [pitWaitLoop_run rfl (fun j hj => by
      rw [hout, decide_eq_false (Nat.find_min hended hj)]), pitWaitLoop_succ rfl, hout,
      decide_eq_true (Nat.find_spec hended), if_pos rfl] at hrun
    obtain ⟨hresult, hreached⟩ := Prod.mk.inj hrun
    have hlen := congrArg Prod.fst hreached
    simp only [Peripheral.reached, List.length_append] at hlen
    refine ⟨iff_of_true hresult.symm hlt, fun _ => ?_⟩
    omega
  · have hbefore : ∀ j < fuel,
        (⟨none, some (clk.pulses (T.time (log.length + 2)), counted ms), none⟩ : Channel).out
          (clk.pulses (T.time (log.length + 3 + 2 * j))) = false := by
      intro j hj
      rw [hout, decide_eq_false (Nat.find_min hended (by omega))]
    have hloop : (pit (fun i => clk.pulses (T.time i)) others).run _ _ (pitWaitLoop fuel) = _ :=
      pitWaitLoop_run rfl hbefore 0
    rw [hloop] at hrun
    obtain ⟨hresult, -⟩ := Prod.mk.inj hrun
    refine ⟨iff_of_false ?_ (by omega), fun h => absurd h (by omega)⟩
    rw [← hresult]
    exact Bool.false_ne_true

/-- The instant of the last transfer of `pit_wait_ms`. -/
noncomputable def lastTransfer (c : Channel) (log : List Transfer) (fuel : Nat) (ms : Word) : Nat :=
  log.length + ((pitWaitMs fuel ms).trace ((timer T clk others).device c) log).length - 1

/-- When the function has returned, more pulses have come between its first transfer and its last
than it counts. -/
theorem pitWaitMs_pulses {c : Channel} {log : List Transfer} (ms : Word)
    (hstatus : ((timer T clk others).advance 0 c log).status = none) (fuel : Nat)
    (hfuel : (pitWaitMs fuel ms).result ((timer T clk others).device c) log = true) :
    (counted ms : ℝ) < clk.hz *
      (T.time (lastTransfer T clk others c log fuel ms) - T.time log.length) := by
  obtain ⟨k, ⟨hended, -⟩, hreturn⟩ := pitWaitMs_returns T clk others c log ms hstatus
  have hlen := (hreturn fuel).2 ((hreturn fuel).1.mp hfuel)
  have hlast : lastTransfer T clk others c log fuel ms = log.length + 4 + 2 * k := by
    rw [lastTransfer]
    omega
  have hpulses : clk.pulses (T.time (log.length + 2)) + (counted ms + 1) ≤
      clk.pulses (T.time (log.length + 3 + 2 * k)) := hended
  have htime := clk.lt_of_pulses (T.nonneg _) (T.mono (by omega)) hpulses
  have hbefore : T.time log.length ≤ T.time (log.length + 2) := T.mono (by omega)
  have hafter : T.time (log.length + 3 + 2 * k) ≤ T.time (log.length + 4 + 2 * k) :=
    T.mono (by omega)
  have hspan : T.time (log.length + 3 + 2 * k) - T.time (log.length + 2) ≤
      T.time (log.length + 4 + 2 * k) - T.time log.length := sub_le_sub hafter hbefore
  have hmul := mul_le_mul_of_nonneg_left hspan clk.hz_pos.le
  rw [hlast]
  push_cast at htime
  linarith

end

/-- Transfers at the pace of the pulses. -/
noncomputable def pace : Timeline ℝ where
  time := fun n => n / pitFrequency
  time_nonneg := by simp
  mono := fun m n h => by
    have : (m : ℝ) ≤ n := by exact_mod_cast h
    exact div_le_div_of_nonneg_right this (Nat.cast_nonneg _)
  unbounded := fun t => by
    obtain ⟨n, hn⟩ := exists_nat_ge (t * pitFrequency)
    have hpos : (0 : ℝ) < pitFrequency := by norm_num [pitFrequency]
    exact ⟨n, (le_div_iff₀ hpos).mpr hn⟩

noncomputable def pitClock : Clock ℝ where
  hz := pitFrequency
  phase := 0
  hz_pos := by norm_num [pitFrequency]
  phase_nonneg := le_rfl

theorem pulses_pace (n : Nat) : pitClock.pulses (pace.time n) = n := by
  have hne : (pitFrequency : ℝ) ≠ 0 := pitClock.hz_pos.ne'
  have hpulse : pitClock.hz * pace.time n + pitClock.phase = n := by
    show (pitFrequency : ℝ) * (n / pitFrequency) + 0 = n
    rw [mul_div_cancel₀ _ hne, add_zero]
  rw [Clock.pulses, hpulse, Nat.floor_natCast]

section

variable (T : Timeline ℝ) (clk : Clock ℝ) (others : Nat → Port → Byte) (c : Channel)
  (log : List Transfer) (ms : Word)

/-- The loop ends: the function returns after some number of rounds, and with any more fuel. -/
def Returns : Prop :=
  ∃ k, ∀ fuel, (pitWaitMs fuel ms).result ((timer T clk others).device c) log = true ↔ k < fuel

/-- Whenever the function has returned, `ms` milliseconds have passed. -/
def Waits : Prop :=
  ∀ fuel, (pitWaitMs fuel ms).result ((timer T clk others).device c) log = true →
    (ms.toNat : ℝ) ≤ 1000 *
      (T.time (lastTransfer T clk others c log fuel ms) - T.time log.length)

end

/-- At whatever times its transfers are made, `pit_wait_ms` returns; and it waits as long as asked
for less than 10 milliseconds and for a multiple of 10 up to 50, and for no other time. -/
theorem pitWaitMs_waits_iff (ms : Word) :
    (∀ (T : Timeline ℝ) (clk : Clock ℝ) (others : Nat → Port → Byte) (c : Channel)
      (log : List Transfer), ((timer T clk others).advance 0 c log).status = none →
        Returns T clk others c log ms) ∧
    ((∀ (T : Timeline ℝ) (clk : Clock ℝ) (others : Nat → Port → Byte) (c : Channel)
      (log : List Transfer), clk.hz = pitFrequency →
        ((timer T clk others).advance 0 c log).status = none → Waits T clk others c log ms)
      ↔ ms.toNat < 10 ∨ ms.toNat % 10 = 0 ∧ ms.toNat ≤ 50) := by
  refine ⟨fun T clk others c log hstatus => ?_, ?_⟩
  · obtain ⟨k, -, hreturn⟩ := pitWaitMs_returns T clk others c log ms hstatus
    exact ⟨k, fun fuel => (hreturn fuel).1⟩
  show _ ↔ Countable ms.toNat
  constructor
  · intro hall
    by_contra hms
    -- at the pace of the pulses the count ends in time, and the count is too short
    obtain ⟨k, ⟨-, hleast⟩, hreturn⟩ := pitWaitMs_returns pace pitClock (fun _ _ => 0)
      ⟨none, none, none⟩ [] ms rfl
    have hk : k ≤ (counted ms + 1) / 2 := by
      refine hleast ?_
      show Ended pace pitClock 0 ms ((counted ms + 1) / 2)
      rw [Ended, pulses_pace, pulses_pace]
      omega
    have hwait := hall pace pitClock (fun _ _ => 0) ⟨none, none, none⟩ [] rfl rfl (k + 1)
      ((hreturn (k + 1)).1.mpr (Nat.lt_succ_self k))
    have hlen := (hreturn (k + 1)).2 (Nat.lt_succ_self k)
    have hlast : lastTransfer pace pitClock (fun _ _ => 0) ⟨none, none, none⟩ [] (k + 1) ms =
        4 + 2 * k := by
      rw [lastTransfer, hlen, List.length_nil]
      omega
    have hpos : (0 : ℝ) < pitFrequency := pitClock.hz_pos
    have htime : pace.time (4 + 2 * k) - pace.time 0 = (4 + 2 * k : ℕ) / pitFrequency := by
      simp [pace]
    rw [hlast, List.length_nil, htime, mul_div_assoc', le_div_iff₀ hpos] at hwait
    have hle : ms.toNat * pitFrequency ≤ 1000 * (4 + 2 * k) := by exact_mod_cast hwait
    have hshort := counted_of_not_countable hms
    rw [Nat.mul_comm pitFrequency] at hshort
    omega
  · intro hms T clk others c log hhz hstatus fuel hfuel
    have hcounted : (pitFrequency : ℝ) * ms.toNat ≤ 1000 * counted ms := by
      exact_mod_cast counted_of_countable hms
    have hlt := pitWaitMs_pulses T clk others ms hstatus fuel hfuel
    rw [hhz] at hlt
    have hpos : (0 : ℝ) < pitFrequency := pitClock.hz_pos
    refine le_of_mul_le_mul_left ?_ hpos
    rw [mul_left_comm]
    linarith

/-! ### The calibration -/

/-- A run of `lapic_timer_calibrate`: the initial count of the local APIC is written before
`pit_wait_ms` is called, and its current count is read afterwards, before it has run out. -/
structure Calibration where
  timeline : Timeline ℝ
  pit : Clock ℝ
  apic : Clock ℝ
  others : Nat → Port → Byte
  channel : Channel
  log : List Transfer
  fuel : Nat
  started : ℝ
  stopped : ℝ
  pit_hz : pit.hz = pitFrequency
  idle : ((timer timeline pit others).advance 0 channel log).status = none
  returned : (pitWaitMs fuel 10).result ((timer timeline pit others).device channel) log = true
  started_nonneg : 0 ≤ started
  before : started ≤ timeline.time log.length
  after : timeline.time (lastTransfer timeline pit others channel log fuel 10) ≤ stopped
  short : apic.pulses stopped - apic.pulses started < 2 ^ 32

namespace Calibration

variable (x : Calibration)

/-- The ticks of the local APIC between the write and the read. -/
noncomputable def elapsed : Nat := x.apic.pulses x.stopped - x.apic.pulses x.started

/-- The current count that is read. -/
noncomputable def ccr : Word := BitVec.ofNat 32 (2 ^ 32 - 1 - x.elapsed)

/-- The ticks are those of more than ten milliseconds. -/
theorem lt_elapsed : x.apic.hz / 100 - 1 < x.elapsed := by
  have hwait := pitWaitMs_pulses x.timeline x.pit x.others 10 x.idle x.fuel x.returned
  have hcounted : counted 10 = 11932 := rfl
  rw [x.pit_hz, hcounted] at hwait
  have hbefore := x.before
  have hafter := x.after
  have hspan : 1 / 100 ≤ x.stopped - x.started := by
    norm_num [pitFrequency] at hwait
    linarith
  have hticks := x.apic.lt_pulses_sub x.started_nonneg (by linarith : x.started ≤ x.stopped)
  have hmul := mul_le_mul_of_nonneg_left hspan x.apic.hz_pos.le
  rw [elapsed]
  linarith

/-- The ticks for a millisecond that are found are short of the true ones by less than one. -/
theorem lt_perMs (lapic : Timer.Lapic) :
    x.apic.hz / 1000 - 1 < (Timer.lapicTimerConfig x.ccr lapic).2.perMs.toNat := by
  have hshort : x.elapsed < 2 ^ 32 := x.short
  have hccr : x.ccr.toNat = 2 ^ 32 - 1 - x.elapsed := by
    rw [ccr, BitVec.toNat_ofNat]
    exact Nat.mod_eq_of_lt (by omega)
  have hperMs : x.elapsed ≤ 10 * (Timer.lapicTimerConfig x.ccr lapic).2.perMs.toNat + 9 := by
    rw [Timer.calibrate_perMs_toNat, hccr]
    split <;> omega
  have hcast : (x.elapsed : ℝ) ≤
      10 * ((Timer.lapicTimerConfig x.ccr lapic).2.perMs.toNat : ℝ) + 9 := by
    exact_mod_cast hperMs
  have helapsed := x.lt_elapsed
  linarith

end Calibration

/-- A delay of `ms` milliseconds after the calibration, with the counter of the local APIC started at
its tick `base` and polled at the times `time`, falls short of them by less than `ms + 1` ticks. -/
theorem calibrated_delay (x : Calibration) (lapic : Timer.Lapic) (initialCount : Word) (base : ℕ)
    (time : ℕ → ℝ) (hstart : 0 ≤ time 0) (hbase : base ≤ x.apic.pulses (time 0))
    (hmono : Monotone time) (ms : Word)
    (hroom : (Timer.lapicTimerConfig x.ccr lapic).2.perMs.toNat * ms.toNat < 2 ^ 32)
    {fuel k : Nat} (hret : Timer.timerDelayMs (Timer.lapicTimerConfig x.ccr lapic).2 initialCount
      (fun j => Timer.counter initialCount (x.apic.pulses (time j) - base)) fuel ms = some k) :
    x.apic.hz * (ms.toNat / 1000) - (ms.toNat + 1) < x.apic.hz * (time k - time 0) := by
  have hticks : Monotone fun j => x.apic.pulses (time j) - base := fun i j hij =>
    Nat.sub_le_sub_right (x.apic.pulses_mono (hmono hij)) base
  have hlate := Timer.delayLoop_late hticks hret
  rw [BitVec.toNat_mul, Nat.mod_eq_of_lt hroom] at hlate
  have hpulses : x.apic.pulses (time 0) +
      (Timer.lapicTimerConfig x.ccr lapic).2.perMs.toNat * ms.toNat ≤ x.apic.pulses (time k) := by
    have hk := x.apic.pulses_mono (hmono (Nat.zero_le k))
    omega
  have hdelay := x.apic.lt_of_pulses hstart (hmono (Nat.zero_le k)) hpulses
  have hperMs := x.lt_perMs lapic
  have hms : (0 : ℝ) ≤ ms.toNat := Nat.cast_nonneg _
  have hmul := mul_le_mul_of_nonneg_right hperMs.le hms
  push_cast at hdelay
  linarith

/-- At the pace of the pulses, ten milliseconds are over after 5966 rounds. -/
theorem pace_returns {fuel : Nat} (hfuel : 5966 < fuel) :
    (pitWaitMs fuel 10).result ((timer pace pitClock fun _ _ => 0).device ⟨none, none, none⟩) [] =
        true ∧
      lastTransfer pace pitClock (fun _ _ => 0) ⟨none, none, none⟩ [] fuel 10 ≤ 11936 := by
  obtain ⟨k, ⟨-, hleast⟩, hreturn⟩ := pitWaitMs_returns pace pitClock (fun _ _ => 0)
    ⟨none, none, none⟩ [] 10 rfl
  have hk : k ≤ 5966 := by
    refine hleast ?_
    show Ended pace pitClock 0 10 5966
    rw [Ended, pulses_pace, pulses_pace]
    decide
  have hlen := (hreturn fuel).2 (by omega)
  refine ⟨(hreturn fuel).1.mpr (by omega), ?_⟩
  rw [lastTransfer, hlen, List.length_nil]
  omega

/-- A local APIC whose timer ticks once in a millisecond. -/
noncomputable def slowClock : Clock ℝ where
  hz := 1000
  phase := 0
  hz_pos := by norm_num
  phase_nonneg := le_rfl

theorem pulses_slow (n : Nat) : slowClock.pulses (n / 1000) = n := by
  have hpulse : slowClock.hz * (n / 1000) + slowClock.phase = n := by
    show (1000 : ℝ) * (n / 1000) + 0 = n
    ring
  rw [Clock.pulses, hpulse, Nat.floor_natCast]

/-- Its current count is read after a hundred milliseconds. -/
noncomputable def slowCalibration : Calibration where
  timeline := pace
  pit := pitClock
  apic := slowClock
  others := fun _ _ => 0
  channel := ⟨none, none, none⟩
  log := []
  fuel := 6000
  started := (0 : ℕ) / 1000
  stopped := (100 : ℕ) / 1000
  pit_hz := rfl
  idle := rfl
  returned := (pace_returns (by decide)).1
  started_nonneg := by norm_num
  before := by simp [pace]
  after := by
    refine (pace.mono (pace_returns (by decide)).2).trans ?_
    norm_num [pace, pitFrequency]
  short := by
    rw [pulses_slow, pulses_slow]
    decide

theorem slow_ccr : slowCalibration.ccr = 0xFFFFFF9B := by
  have helapsed : slowCalibration.elapsed = 100 := by
    show slowClock.pulses ((100 : ℕ) / 1000) - slowClock.pulses ((0 : ℕ) / 1000) = 100
    rw [pulses_slow, pulses_slow]
  rw [Calibration.ccr, helapsed]
  rfl

theorem slow_perMs : (Timer.lapicTimerConfig slowCalibration.ccr ⟨0, 0, 0⟩).2.perMs = 10 := by
  rw [slow_ccr]
  rfl

/-- The counter is started when it has been read, and polled less than once in each of its periods
of a second. -/
theorem calibrated_delay_slow :
    slowCalibration.apic.hz * ((5 : Word).toNat / 1000) - ((5 : Word).toNat + 1) <
      slowCalibration.apic.hz *
        ((1250 * 1 + 100 : ℕ) / 1000 - (1250 * 0 + 100 : ℕ) / 1000) := by
  have hmono : Monotone fun n : ℕ => ((1250 * n + 100 : ℕ) / 1000 : ℝ) := fun m n h => by
    have hle : ((1250 * m + 100 : ℕ) : ℝ) ≤ (1250 * n + 100 : ℕ) := by exact_mod_cast by omega
    exact div_le_div_of_nonneg_right hle (by norm_num)
  have hticks : ∀ n : ℕ, slowCalibration.apic.pulses ((1250 * n + 100 : ℕ) / 1000) =
      1250 * n + 100 := fun n => pulses_slow (1250 * n + 100)
  have hroom : (Timer.lapicTimerConfig slowCalibration.ccr ⟨0, 0, 0⟩).2.perMs.toNat *
      (5 : Word).toNat < 2 ^ 32 := by
    rw [slow_perMs]
    decide
  have hret : Timer.timerDelayMs (Timer.lapicTimerConfig slowCalibration.ccr ⟨0, 0, 0⟩).2 1000
      (fun n => Timer.counter 1000
        (slowCalibration.apic.pulses ((1250 * n + 100 : ℕ) / 1000) - 100)) 2 5 = some 1 := by
    simp only [hticks, Timer.timerDelayMs, slow_perMs]
    decide
  exact calibrated_delay slowCalibration ⟨0, 0, 0⟩ 1000 100 (fun n => (1250 * n + 100 : ℕ) / 1000)
    (by positivity) (hticks 0).ge hmono 5 hroom hret

end BasicX86Kernel.Pit
