import BasicX86Kernel.Drivers.Mc146818
import Mathlib.Logic.Function.Iterate

/-! A clock that goes on while `cmos_read_rtc` reads it: its updates fall anywhere between the
accesses to the ports, and what is returned is the time of one instant exactly when no register
changes between its read and the one of the seconds. -/

namespace BasicX86Kernel.Mc146818

open Machine

/-! ### The clock -/

def leapYear (year : Nat) : Bool := year % 4 = 0 ∧ (year % 100 ≠ 0 ∨ year % 400 = 0)

namespace CalendarTime

/-- The days of the month. -/
def days (t : CalendarTime) : Nat :=
  if t.month = 2 then if leapYear (t.century * 100 + t.year) then 29 else 28
  else if t.month = 4 ∨ t.month = 6 ∨ t.month = 9 ∨ t.month = 11 then 30
  else 31

theorem days_le (t : CalendarTime) : t.days ≤ 31 := by
  unfold days
  split_ifs <;> omega

def endOfMinute (t : CalendarTime) : Prop := t.seconds = 59

def endOfHour (t : CalendarTime) : Prop := t.endOfMinute ∧ t.minutes = 59

def endOfDay (t : CalendarTime) : Prop := t.endOfHour ∧ t.hours = 23

def endOfMonth (t : CalendarTime) : Prop := t.endOfDay ∧ t.days ≤ t.dateOfMonth

def endOfYear (t : CalendarTime) : Prop := t.endOfMonth ∧ t.month = 12

def endOfCentury (t : CalendarTime) : Prop := t.endOfYear ∧ t.year = 99

instance (t : CalendarTime) : Decidable t.endOfMinute := inferInstanceAs (Decidable (_ = _))
instance (t : CalendarTime) : Decidable t.endOfHour := inferInstanceAs (Decidable (_ ∧ _))
instance (t : CalendarTime) : Decidable t.endOfDay := inferInstanceAs (Decidable (_ ∧ _))
instance (t : CalendarTime) : Decidable t.endOfMonth := inferInstanceAs (Decidable (_ ∧ _))
instance (t : CalendarTime) : Decidable t.endOfYear := inferInstanceAs (Decidable (_ ∧ _))
instance (t : CalendarTime) : Decidable t.endOfCentury := inferInstanceAs (Decidable (_ ∧ _))

/-- A field after a second that may end the range of the field below it and its own. -/
def carry (below own : Prop) [Decidable below] [Decidable own] (first value : Nat) : Nat :=
  if own then first else if below then value + 1 else value

theorem carry_lt {below own : Prop} [Decidable below] [Decidable own] {first value bound : Nat}
    (hfirst : first < bound) (hvalue : value < bound)
    (hnext : below → ¬own → value + 1 < bound) : carry below own first value < bound := by
  unfold carry
  split
  · exact hfirst
  · next hown =>
    split
    · next hbelow => exact hnext hbelow hown
    · exact hvalue

theorem le_carry {below own : Prop} [Decidable below] [Decidable own] {first value : Nat}
    (h : first ≤ value) : first ≤ carry below own first value := by
  unfold carry
  split_ifs <;> omega

/-- The time one second later. -/
def tick (t : CalendarTime) : CalendarTime where
  seconds := carry True t.endOfMinute 0 t.seconds
  minutes := carry t.endOfMinute t.endOfHour 0 t.minutes
  hours := carry t.endOfHour t.endOfDay 0 t.hours
  dateOfMonth := carry t.endOfDay t.endOfMonth 1 t.dateOfMonth
  month := carry t.endOfMonth t.endOfYear 1 t.month
  year := carry t.endOfYear t.endOfCentury 0 t.year
  century := if t.endOfCentury then t.century + 1 else t.century
  seconds_lt := carry_lt (by omega) t.seconds_lt fun _ h => by
    have := t.seconds_lt
    have : t.seconds ≠ 59 := h
    omega
  minutes_lt := carry_lt (by omega) t.minutes_lt fun hbelow h => by
    have := t.minutes_lt
    have : t.minutes ≠ 59 := fun h59 => h ⟨hbelow, h59⟩
    omega
  hours_lt := carry_lt (by omega) t.hours_lt fun hbelow h => by
    have := t.hours_lt
    have : t.hours ≠ 23 := fun h23 => h ⟨hbelow, h23⟩
    omega
  date_le := by
    refine ⟨le_carry t.date_le.1, Nat.lt_succ_iff.mp ?_⟩
    refine carry_lt (by omega) (Nat.lt_succ_iff.mpr t.date_le.2) fun hbelow h => ?_
    have := t.days_le
    have : ¬t.days ≤ t.dateOfMonth := fun hdays => h ⟨hbelow, hdays⟩
    omega
  month_le := by
    refine ⟨le_carry t.month_le.1, Nat.lt_succ_iff.mp ?_⟩
    refine carry_lt (by omega) (Nat.lt_succ_iff.mpr t.month_le.2) fun hbelow h => ?_
    have := t.month_le
    have : t.month ≠ 12 := fun h12 => h ⟨hbelow, h12⟩
    omega
  year_lt := carry_lt (by omega) t.year_lt fun hbelow h => by
    have := t.year_lt
    have : t.year ≠ 99 := fun h99 => h ⟨hbelow, h99⟩
    omega
  century_ge := by
    have := t.century_ge
    split_ifs <;> omega

theorem tick_seconds (t : CalendarTime) : t.tick.seconds = (t.seconds + 1) % 60 := by
  have := t.seconds_lt
  change carry True t.endOfMinute 0 t.seconds = _
  unfold carry
  split_ifs with h
  · have : t.seconds = 59 := h
    omega
  · have : t.seconds ≠ 59 := h
    omega

theorem ticks_seconds (t : CalendarTime) (n : Nat) :
    (tick^[n] t).seconds = (t.seconds + n) % 60 := by
  induction n with
  | zero => exact (Nat.mod_eq_of_lt t.seconds_lt).symm
  | succ n ih =>
    rw [Function.iterate_succ_apply', tick_seconds, ih]
    omega

end CalendarTime

/-- The updates that have changed the registers by a phase. There are three phases to an update:
the clock is idle, then it is in progress, first before the registers change and then after. -/
def updates (phase : Nat) : Nat := (phase + 1) / 3

/-- What the clock shows in a phase. -/
def timeAt (start : CalendarTime) (phase : Nat) : CalendarTime :=
  CalendarTime.tick^[updates phase] start

/-- A running clock with decimal digits and 24 hours, and the phase in which each access to its
ports finds it. -/
structure Clock where
  start : CalendarTime
  phase : Nat → Nat
  mono : ∀ i, phase i ≤ phase (i + 1)
  century_lt : ∀ i, (timeAt start (phase i)).century < 100
  rega : Byte
  regb : Byte
  decimal : regb.getLsbD 2 = false
  hours24 : regb.getLsbD 1 = true

def bcd (n : Nat) : Byte := BitVec.ofNat 8 (n / 10 * 16 + n % 10)

def updateInProgress (phase : Nat) : Prop := phase % 3 ≠ 0

instance (phase : Nat) : Decidable (updateInProgress phase) := inferInstanceAs (Decidable (_ ≠ _))

/-- The registers at a time. -/
def registers (rega regb : Byte) (busy : Bool) (t : CalendarTime) (address : Byte) : Byte :=
  if address = cmosRtcRa then (rega &&& 0x7F) ||| if busy then 0x80 else 0
  else if address = cmosRtcRb then regb
  else if address = cmosRtcHours then bcd t.hours
  else if address = cmosRtcMinutes then bcd t.minutes
  else if address = cmosRtcSeconds then bcd t.seconds
  else if address = cmosRtcDateOfMonth then bcd t.dateOfMonth
  else if address = cmosRtcMonth then bcd t.month
  else if address = cmosRtcYear then bcd t.year
  else if address = cmosDateCenturyByte then bcd t.century
  else 0

namespace Clock

variable (c : Clock)

/-- The time that an access finds. -/
def seen (i : Nat) : CalendarTime := timeAt c.start (c.phase i)

/-- The registers as an access finds them. -/
def regs (i : Nat) : Byte → Byte :=
  registers c.rega c.regb (updateInProgress (c.phase i)) (c.seen i)

def device : Device := fun log p => if p = 0x71 then c.regs log.length (selected log) else 0

/-- Once the update flag has been found set for a number of polls and then clear, the registers
that are read before the seconds are the same when these are read, and so are the ones that are
read after. The digits of the century are read one by one. -/
structure Steady (polls : Nat) : Prop where
  hours : (c.seen (polls + 3)).hours = (c.seen (polls + 7)).hours
  minutes : (c.seen (polls + 5)).minutes = (c.seen (polls + 7)).minutes
  dateOfMonth : (c.seen (polls + 9)).dateOfMonth = (c.seen (polls + 7)).dateOfMonth
  month : (c.seen (polls + 11)).month = (c.seen (polls + 7)).month
  year : (c.seen (polls + 13)).year = (c.seen (polls + 7)).year
  centuryLow : (c.seen (polls + 15)).century % 10 = (c.seen (polls + 7)).century % 10
  centuryHigh : (c.seen (polls + 16)).century / 10 = (c.seen (polls + 7)).century / 10

/-- The fields are those of a time that the clock shows during the call. -/
def Untorn (polls : Nat) (rtc : CmosRtc) : Prop :=
  ∃ p, c.phase 0 ≤ p ∧ p ≤ c.phase (polls + 18) ∧ rtc.Tells (timeAt c.start p)
    ∧ rtc.century.toNat = (timeAt c.start p).century

/-! ### What is read -/

/-- What a part of the call returns and how many accesses it makes, given the number of accesses
before it. -/
def Takes {α : Type} (x : Driver α) (n : Nat) (r : Nat → α) : Prop :=
  ∀ log, x.result c.device log = r log.length ∧ (x.trace c.device log).length = n

variable {c}

theorem Takes.bind {α β : Type} {x : Driver α} {f : α → Driver β} {n m : Nat} {r : Nat → α}
    {q : α → Nat → β} (hx : c.Takes x n r) (hf : ∀ a, c.Takes (f a) m (q a)) :
    c.Takes (x >>= f) (n + m) fun i => q (r i) (i + n) := by
  intro log
  obtain ⟨hresult, hlength⟩ := hx log
  obtain ⟨hresult', hlength'⟩ := hf (r log.length) (log ++ x.trace c.device log)
  rw [Driver.result_bind, Driver.trace_bind, hresult, hresult', List.length_append,
    List.length_append, hlength, hlength']
  exact ⟨rfl, rfl⟩

theorem takes_pure {α : Type} (a : α) : c.Takes (pure a) 0 fun _ => a := fun _ => ⟨rfl, rfl⟩

theorem selected_outb (log : List Transfer) (i : Byte) :
    selected (log ++ [.outb 0x70 i]) = i &&& 0x7F := by
  simp [selected, List.foldl_append]

theorem selected_inb (log : List Transfer) (p : Port) (v : Byte) :
    selected (log ++ [.inb p v]) = selected log := by
  simp [selected, List.foldl_append]

theorem device_eq (log : List Transfer) : c.device log 0x71 = c.regs log.length (selected log) :=
  if_pos rfl

/-- A read of the register that has been selected just before it. -/
theorem device_selected (log : List Transfer) {i : Byte} (hi : i &&& 0x7F = i) :
    c.device (log ++ [.outb 0x70 i]) 0x71 = c.regs (log.length + 1) i := by
  rw [device_eq, selected_outb, hi, List.length_append, List.length_singleton]

theorem takes_register {i : Byte} (hi : i &&& 0x7F = i) :
    c.Takes (cmosReadRegister i) 2 fun n => (c.regs (n + 1) i).zeroExtend 32 := by
  intro log
  refine ⟨?_, rfl⟩
  change (c.device (log ++ [.outb 0x70 i]) 0x71).zeroExtend 32 = _
  rw [device_selected log hi]

/-- The digits of the century. -/
def digits (c : Clock) (n : Nat) : Word :=
  ((c.regs (n + 1) cmosDateCenturyByte).zeroExtend 32 &&& 0x0F)
    + (c.regs (n + 2) cmosDateCenturyByte).zeroExtend 32 / 16 * 10

/-- The two reads of the century, on any device. -/
theorem century_result (dev : Device) (log : List Transfer) :
    (cmosSelect cmosDateCenturyByte >>= fun _ => cmosBcd2decRead).result dev log
      = ((dev (log ++ [.outb 0x70 cmosDateCenturyByte]) 0x71).zeroExtend 32 &&& 0x0F)
        + (dev (log ++ [.outb 0x70 cmosDateCenturyByte]
            ++ [.inb 0x71 (dev (log ++ [.outb 0x70 cmosDateCenturyByte]) 0x71)])
            0x71).zeroExtend 32 / 16 * 10 := rfl

theorem takes_century :
    c.Takes (cmosSelect cmosDateCenturyByte >>= fun _ => cmosBcd2decRead) 3 c.digits := by
  intro log
  refine ⟨?_, rfl⟩
  have hlow := device_selected (c := c) log (i := cmosDateCenturyByte) rfl
  have hhigh := device_eq (c := c)
    (log ++ [.outb 0x70 cmosDateCenturyByte]
      ++ [.inb 0x71 (c.regs (log.length + 1) cmosDateCenturyByte)])
  rw [selected_inb, selected_outb] at hhigh
  rw [century_result, hlow, hhigh]
  simp only [List.length_append, List.length_singleton]
  rfl

theorem takes_regb : c.Takes (cmosSelect cmosRtcRb >>= fun _ => cmosRead) 2 fun _ => c.regb := by
  intro log
  refine ⟨?_, rfl⟩
  exact device_selected log rfl

/-- What is read when the first access of the reading follows `n` others. -/
def rawFrom (c : Clock) (n : Nat) : CmosRtc where
  hours := (c.regs (n + 1) cmosRtcHours).zeroExtend 32
  minutes := (c.regs (n + 3) cmosRtcMinutes).zeroExtend 32
  seconds := (c.regs (n + 5) cmosRtcSeconds).zeroExtend 32
  dateOfMonth := (c.regs (n + 7) cmosRtcDateOfMonth).zeroExtend 32
  month := (c.regs (n + 9) cmosRtcMonth).zeroExtend 32
  year := (c.regs (n + 11) cmosRtcYear).zeroExtend 32
  century := c.digits (n + 12)

/-- The update flag is found set for a number of polls, and then clear. -/
structure IdleAfter (c : Clock) (polls : Nat) : Prop where
  busy : ∀ i < polls, updateInProgress (c.phase (i + 1))
  idle : ¬updateInProgress (c.phase (polls + 1))

theorem update_flag (rega : Byte) (busy : Bool) (regb : Byte) (t : CalendarTime) :
    registers rega regb busy t cmosRtcRa &&& 0x80 = 0 ↔ busy = false := by
  change ((rega &&& 0x7F#8) ||| if busy then 0x80#8 else 0#8) &&& 0x80#8 = 0#8 ↔ _
  have hlow : (rega &&& 0x7F#8) &&& 0x80#8 = 0#8 := by
    rw [BitVec.and_assoc]
    exact BitVec.and_zero
  rw [BitVec.and_or_distrib_right, hlow, BitVec.zero_or]
  cases busy <;> decide

/-- A poll of the update flag. -/
theorem waitUpdate_succ (dev : Device) (log : List Transfer) (fuel : Nat) :
    (waitUpdate (fuel + 1)).result dev log
        = (if dev log 0x71 &&& 0x80 = 0 then pure (some ()) else waitUpdate fuel).result dev
            (log ++ [.inb 0x71 (dev log 0x71)]) ∧
      (waitUpdate (fuel + 1)).trace dev log
        = .inb 0x71 (dev log 0x71)
          :: (if dev log 0x71 &&& 0x80 = 0 then pure (some ()) else waitUpdate fuel).trace dev
            (log ++ [.inb 0x71 (dev log 0x71)]) := ⟨rfl, rfl⟩

/-- The polls end with the one that finds the flag clear. -/
theorem waitUpdate_result {n : Nat} (log : List Transfer) (hselected : selected log = cmosRtcRa)
    (hbusy : ∀ i < n, updateInProgress (c.phase (log.length + i)))
    (hidle : ¬updateInProgress (c.phase (log.length + n))) {fuel : Nat} (hfuel : n < fuel) :
    (waitUpdate fuel).result c.device log = some ()
      ∧ ((waitUpdate fuel).trace c.device log).length = n + 1 := by
  induction n generalizing log fuel with
  | zero =>
    obtain ⟨fuel, rfl⟩ := Nat.exists_eq_succ_of_ne_zero (Nat.ne_of_gt hfuel)
    have hclear : c.device log 0x71 &&& 0x80 = 0 := by
      rw [device_eq, hselected, regs, update_flag]
      exact decide_eq_false hidle
    obtain ⟨hresult, htrace⟩ := waitUpdate_succ c.device log fuel
    rw [hresult, htrace, if_pos hclear]
    exact ⟨rfl, rfl⟩
  | succ n ih =>
    obtain ⟨fuel, rfl⟩ := Nat.exists_eq_succ_of_ne_zero (Nat.ne_of_gt (Nat.zero_lt_of_lt hfuel))
    have hset : ¬c.device log 0x71 &&& 0x80 = 0 := by
      rw [device_eq, hselected, regs, update_flag, decide_eq_false_iff_not, not_not]
      exact hbusy 0 (by omega)
    have hlength : ∀ v, (log ++ [Transfer.inb 0x71 v]).length = log.length + 1 := by simp
    obtain ⟨hnext, hnext'⟩ := waitUpdate_succ c.device log fuel
    obtain ⟨hresult, hcount⟩ := ih (log ++ [.inb 0x71 (c.device log 0x71)])
      ((selected_inb ..).trans hselected)
      (fun i hi => by rw [hlength, Nat.add_assoc, Nat.add_comm 1]; exact hbusy (i + 1) (by omega))
      (by rw [hlength, Nat.add_assoc, Nat.add_comm 1]; exact hidle)
      (Nat.lt_of_succ_lt_succ hfuel)
    rw [hnext, hnext', if_neg hset, hresult, List.length_cons, hcount]
    exact ⟨rfl, rfl⟩

/-- What the call returns. -/
theorem cmosReadRtc_eq {polls : Nat} (h : c.IdleAfter polls) {fuel : Nat} (hfuel : polls < fuel) :
    (cmosReadRtc fuel).result c.device []
      = some (cmosDecode c.regb (c.rawFrom (polls + 2))) := by
  have hwait := waitUpdate_result (c := c) (n := polls) ([] ++ [.outb 0x70 cmosRtcRa])
    (selected_outb ..) (fun i hi => by rw [Nat.add_comm]; exact h.busy i hi)
    (by rw [Nat.add_comm]; exact h.idle) hfuel
  obtain ⟨hresult, hlength⟩ := hwait
  rw [cmosReadRtc, cmosSelect, Driver.result_bind, Driver.trace_outb, Driver.result_bind, hresult]
  generalize hlog : [] ++ [Transfer.outb 0x70 cmosRtcRa] ++ _ = log
  have hn : log.length = polls + 2 := by
    rw [← hlog, List.length_append, hlength]
    exact Nat.add_comm _ _
  rw [← hn]
  exact ((takes_register (c := c) (i := cmosRtcHours) rfl).bind fun _ =>
    (takes_register (i := cmosRtcMinutes) rfl).bind fun _ =>
    (takes_register (i := cmosRtcSeconds) rfl).bind fun _ =>
    (takes_register (i := cmosRtcDateOfMonth) rfl).bind fun _ =>
    (takes_register (i := cmosRtcMonth) rfl).bind fun _ =>
    (takes_register (i := cmosRtcYear) rfl).bind fun _ =>
    takes_century.bind fun _ => takes_regb.bind fun _ => takes_pure _) log |>.1

/-! ### What it tells -/

theorem bcd_toNat {n : Nat} (hn : n < 100) : (bcd n).toNat = n / 10 * 16 + n % 10 := by
  rw [bcd, BitVec.toNat_ofNat]
  omega

theorem bcd_convert {n : Nat} (hn : n < 100) :
    (cmosBcd2dec ((bcd n).zeroExtend 32)).toNat = n := by
  rw [cmosBcd2dec_toNat, bcd_toNat hn]
  omega

theorem toNat_byte (b : Byte) : (b.zeroExtend 32).toNat = b.toNat := by
  rw [BitVec.zeroExtend, BitVec.toNat_setWidth]
  omega

/-- The century comes from the low digit of one read and the high digit of the next. -/
theorem digits_toNat (c : Clock) (n : Nat) :
    (c.digits n).toNat = (c.seen (n + 1)).century % 10 + (c.seen (n + 2)).century / 10 * 10 := by
  have hlow := bcd_toNat (c.century_lt (n + 1))
  have hhigh := bcd_toNat (c.century_lt (n + 2))
  have hlt := c.century_lt (n + 1)
  have hlt' := c.century_lt (n + 2)
  change (((bcd (c.seen (n + 1)).century).zeroExtend 32 &&& 0x0F#32)
    + (bcd (c.seen (n + 2)).century).zeroExtend 32 / 16#32 * 10#32).toNat = _
  simp only [seen] at *
  rw [BitVec.toNat_add, BitVec.toNat_and, BitVec.toNat_mul, BitVec.toNat_udiv, toNat_byte,
    toNat_byte, hlow, hhigh]
  change ((_ &&& 2 ^ 4 - 1) + _ / 16 * 10 % 4294967296) % 4294967296 = _
  rw [Nat.and_two_pow_sub_one_eq_mod]
  omega

/-- The fields of what is returned, each from the access that read it. -/
structure Fields (c : Clock) (polls : Nat) (rtc : CmosRtc) : Prop where
  hours : rtc.hours.toNat = (c.seen (polls + 3)).hours
  minutes : rtc.minutes.toNat = (c.seen (polls + 5)).minutes
  seconds : rtc.seconds.toNat = (c.seen (polls + 7)).seconds
  dateOfMonth : rtc.dateOfMonth.toNat = (c.seen (polls + 9)).dateOfMonth
  month : rtc.month.toNat = (c.seen (polls + 11)).month
  century : rtc.century.toNat
    = (c.seen (polls + 15)).century % 10 + (c.seen (polls + 16)).century / 10 * 10
  year : rtc.year.toNat = (c.seen (polls + 13)).year + rtc.century.toNat * 100

theorem fields_rawFrom (c : Clock) (polls : Nat) :
    c.Fields polls (cmosDecode c.regb (c.rawFrom (polls + 2))) := by
  have hdecimal := (dataMode c.regb).mpr c.decimal
  have hhours : ¬c.regb &&& 0x02 = 0 := by
    rw [hourMode, c.hours24]
    exact nofun
  have hcentury : (c.digits (polls + 14)).toNat = (c.seen (polls + 15)).century % 10
      + (c.seen (polls + 16)).century / 10 * 10 := c.digits_toNat (polls + 14)
  have hlow : (c.seen (polls + 15)).century < 100 := c.century_lt (polls + 15)
  have hhigh : (c.seen (polls + 16)).century < 100 := c.century_lt (polls + 16)
  have hyear : (cmosBcd2dec ((bcd (c.seen (polls + 13)).year).zeroExtend 32)).toNat
      = (c.seen (polls + 13)).year := bcd_convert (c.seen (polls + 13)).year_lt
  have hlt := (c.seen (polls + 13)).year_lt
  rw [cmosDecode_eq]
  simp only [if_pos hdecimal, if_neg hhours]
  refine ⟨?_, ?_, ?_, ?_, ?_, hcentury, ?_⟩
  · rw [show ∀ w : Word, w + 0 = w from BitVec.add_zero]
    exact bcd_convert (lt_trans (CalendarTime.hours_lt _) (by omega))
  · exact bcd_convert (lt_trans (CalendarTime.minutes_lt _) (by omega))
  · exact bcd_convert (lt_trans (CalendarTime.seconds_lt _) (by omega))
  · exact bcd_convert (lt_of_le_of_lt (CalendarTime.date_le _).2 (by omega))
  · exact bcd_convert (lt_of_le_of_lt (CalendarTime.month_le _).2 (by omega))
  · change (cmosBcd2dec ((bcd (c.seen (polls + 13)).year).zeroExtend 32)
      + c.digits (polls + 14) * 100#32).toNat = _ + (c.digits (polls + 14)).toNat * 100
    rw [BitVec.toNat_add, BitVec.toNat_mul, hyear]
    change (_ + _ * 100 % 4294967296) % 4294967296 = _
    omega

theorem phase_le (c : Clock) {i j : Nat} (hij : i ≤ j) : c.phase i ≤ c.phase j :=
  monotone_nat_of_le_succ c.mono hij

theorem Fields.untorn {polls : Nat} {rtc : CmosRtc} (h : c.Fields polls rtc)
    (hsteady : c.Steady polls) : c.Untorn polls rtc := by
  have hcentury : rtc.century.toNat = (c.seen (polls + 7)).century := by
    have hlow := hsteady.centuryLow
    have hhigh := hsteady.centuryHigh
    have hrtc := h.century
    omega
  refine ⟨c.phase (polls + 7), c.phase_le (by omega), c.phase_le (by omega), ⟨?_, ?_, ?_, ?_, ?_,
    ?_⟩, hcentury⟩
  · exact h.hours.trans hsteady.hours
  · exact h.minutes.trans hsteady.minutes
  · exact h.seconds
  · exact h.dateOfMonth.trans hsteady.dateOfMonth
  · exact h.month.trans hsteady.month
  · have hyear := h.year
    rw [hcentury] at hyear
    exact hyear.trans (by rw [Nat.add_comm]; exact congrArg _ hsteady.year)

/-- In a call of less than a minute, the seconds tell when they were read. -/
theorem Fields.steady {polls : Nat} {rtc : CmosRtc} (h : c.Fields polls rtc)
    (hshort : updates (c.phase (polls + 18)) < updates (c.phase 0) + 60)
    (huntorn : c.Untorn polls rtc) : c.Steady polls := by
  obtain ⟨p, hfirst, hlast, htells, hcentury⟩ := huntorn
  have hbefore := c.phase_le (show 0 ≤ polls + 7 by omega)
  have hafter := c.phase_le (show polls + 7 ≤ polls + 18 by omega)
  have hseconds := h.seconds.symm.trans htells.seconds
  rw [seen, timeAt, timeAt, CalendarTime.ticks_seconds, CalendarTime.ticks_seconds] at hseconds
  have hsame : timeAt c.start p = c.seen (polls + 7) := by
    have hupdates : updates p = updates (c.phase (polls + 7)) := by
      unfold updates at *
      omega
    rw [seen, timeAt, timeAt, hupdates]
  rw [hsame] at htells hcentury
  have hdigits := h.century.symm.trans hcentury
  have hyear := h.year.symm.trans htells.year
  rw [hcentury] at hyear
  refine ⟨?_, ?_, ?_, ?_, ?_, ?_, ?_⟩
  · exact h.hours.symm.trans htells.hours
  · exact h.minutes.symm.trans htells.minutes
  · exact h.dateOfMonth.symm.trans htells.dateOfMonth
  · exact h.month.symm.trans htells.month
  · omega
  · omega
  · omega

end Clock

/-- What `cmos_read_rtc` returns is the time of one instant of the call when the registers are the
same at their read and at the one of the seconds, and, unless a minute goes by, only then. -/
theorem cmosReadRtc_untorn (c : Clock) (polls : Nat) (fuel : Nat) (hidle : c.IdleAfter polls)
    (hfuel : polls < fuel) :
    ∃ rtc, (cmosReadRtc fuel).result c.device [] = some rtc
      ∧ (c.Steady polls → c.Untorn polls rtc)
      ∧ (updates (c.phase (polls + 18)) < updates (c.phase 0) + 60 →
          c.Untorn polls rtc → c.Steady polls) := by
  have hfields := c.fields_rawFrom polls
  exact ⟨_, Clock.cmosReadRtc_eq hidle hfuel, hfields.untorn, hfields.steady⟩

/-- A second before ten in the morning. -/
def beforeTen : CalendarTime :=
  { morningTime with minutes := 59, seconds := 59, minutes_lt := by decide, seconds_lt := by decide }

/-- A clock that is updated after the first accesses, or not at all. -/
def tenClock (first : Nat) : Clock where
  start := beforeTen
  phase := fun i => if i ≤ first then 0 else 3
  mono := by
    intro i
    split_ifs <;> omega
  century_lt := by
    intro i
    split
    · decide
    · decide
  rega := 0x26
  regb := 0x02
  decimal := rfl
  hours24 := rfl

theorem tenClock_idle (first : Nat) : (tenClock first).IdleAfter 0 := by
  refine ⟨fun i hi => absurd hi (Nat.not_lt_zero i), ?_⟩
  change ¬(if 1 ≤ first then 0 else 3) % 3 ≠ 0
  split <;> decide

/-- Ten o'clock is read when the clock is updated before the first register, and a time that it
never shows when it is updated behind it. -/
theorem cmosReadRtc_untorn_ten :
    (∃ rtc, (cmosReadRtc 1).result (tenClock 2).device [] = some rtc
      ∧ (tenClock 2).Untorn 0 rtc) ∧
    ∃ rtc, (cmosReadRtc 1).result (tenClock 3).device [] = some rtc
      ∧ ¬(tenClock 3).Untorn 0 rtc := by
  constructor
  · obtain ⟨rtc, hread, huntorn, -⟩ :=
      cmosReadRtc_untorn (tenClock 2) 0 1 (tenClock_idle 2) (by decide)
    refine ⟨rtc, hread, huntorn ?_⟩
    constructor <;> decide
  · obtain ⟨rtc, hread, -, hsteady⟩ :=
      cmosReadRtc_untorn (tenClock 3) 0 1 (tenClock_idle 3) (by decide)
    refine ⟨rtc, hread, fun huntorn => ?_⟩
    exact absurd (hsteady (by decide) huntorn).hours (by decide)

/-- With the update between the hours and the minutes, nine o'clock is read. -/
theorem cmosReadRtc_torn :
    ∃ rtc, (cmosReadRtc 1).result (tenClock 3).device [] = some rtc
      ∧ rtc.hours = 9 ∧ rtc.minutes = 0 ∧ ¬(tenClock 3).Untorn 0 rtc := by
  refine ⟨_, Clock.cmosReadRtc_eq (tenClock_idle 3) (by decide), by decide, by decide, ?_⟩
  intro h
  have hsteady := ((tenClock 3).fields_rawFrom 0).steady (by decide) h
  exact absurd hsteady.hours (by decide)

end BasicX86Kernel.Mc146818
