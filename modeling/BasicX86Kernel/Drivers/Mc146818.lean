import BasicX86Kernel.Machine.Port
import BasicX86Kernel.Machine.Word

/-! The real-time clock (drivers/MC146818.c): the registers `cmos_read_rtc` reads, what it makes of
them, and for which formats of register B that is the time the registers hold. -/

namespace BasicX86Kernel.Mc146818

open Machine

/-! ### Reading -/

/-- `cmos_rtc_t`. -/
structure CmosRtc where
  hours : Word
  minutes : Word
  seconds : Word
  dateOfMonth : Word
  month : Word
  year : Word
  century : Word
  deriving DecidableEq

def cmosRtcSeconds : Byte := 0x00
def cmosRtcMinutes : Byte := 0x02
def cmosRtcHours : Byte := 0x04
def cmosRtcDateOfMonth : Byte := 0x07
def cmosRtcMonth : Byte := 0x08
def cmosRtcYear : Byte := 0x09
def cmosRtcRa : Byte := 0x0A
def cmosRtcRb : Byte := 0x0B
def cmosDateCenturyByte : Byte := 0x32

def cmosSelect (address : Byte) : Driver Unit := outb 0x70 address

def cmosRead : Driver Byte := inb 0x71

/-- The macro `cmos_bcd2dec`, applied to a variable. -/
def cmosBcd2dec (char : Word) : Word := (char &&& 0x0F) + char / 16 * 10

/-- `cmos_bcd2dec(cmos_read())`: the macro reads the port twice. -/
def cmosBcd2decRead : Driver Word := do
  let low ← cmosRead
  let high ← cmosRead
  pure ((low.zeroExtend 32 &&& 0x0F) + high.zeroExtend 32 / 16 * 10)

/-- A register that is selected and read into a word. -/
def cmosReadRegister (address : Byte) : Driver Word := do
  cmosSelect address
  let value ← cmosRead
  pure (value.zeroExtend 32)

/-- `while( (cmos_read() & 0x80) );`, for at most the given number of reads. -/
def waitUpdate : Nat → Driver (Option Unit)
  | 0 => pure none
  | fuel + 1 => do
    let a ← cmosRead
    if a &&& 0x80 = 0 then pure (some ()) else waitUpdate fuel

/-- What `cmos_read_rtc` makes of the bytes it has read. -/
def cmosDecode (regb : Byte) (rtc : CmosRtc) : CmosRtc :=
  let rtc := if regb &&& 0x04 = 0 then
    { rtc with
      hours := cmosBcd2dec rtc.hours
      minutes := cmosBcd2dec rtc.minutes
      seconds := cmosBcd2dec rtc.seconds
      dateOfMonth := cmosBcd2dec rtc.dateOfMonth
      month := cmosBcd2dec rtc.month
      year := cmosBcd2dec rtc.year }
  else rtc
  let rtc := if regb &&& 0x02 = 0 then { rtc with hours := rtc.hours + 12 } else rtc
  if rtc.century ≠ 0 then { rtc with year := rtc.year + rtc.century * 100 } else rtc

/-- The registers are read once the update flag of register A has been seen clear. -/
def cmosReadRtc (fuel : Nat) : Driver (Option CmosRtc) := do
  cmosSelect cmosRtcRa
  match ← waitUpdate fuel with
  | none => pure none
  | some () => do
    let hours ← cmosReadRegister cmosRtcHours
    let minutes ← cmosReadRegister cmosRtcMinutes
    let seconds ← cmosReadRegister cmosRtcSeconds
    let dateOfMonth ← cmosReadRegister cmosRtcDateOfMonth
    let month ← cmosReadRegister cmosRtcMonth
    let year ← cmosReadRegister cmosRtcYear
    cmosSelect cmosDateCenturyByte
    let century ← cmosBcd2decRead
    cmosSelect cmosRtcRb
    let regb ← cmosRead
    pure (some (cmosDecode regb { hours, minutes, seconds, dateOfMonth, month, year, century }))

/-! ### The clock -/

/-- The index of the register that has been selected last. -/
def selected (log : List Transfer) : Byte :=
  log.foldl (fun i t => match t with
    | .outb p v => if p = 0x70 then v &&& 0x7F else i
    | .inb _ _ => i) 0

/-- A clock whose registers do not change. -/
def cmos (regs : Byte → Byte) : Device := fun log p => if p = 0x71 then regs (selected log) else 0

/-- A time of the calendar. -/
structure CalendarTime where
  hours : Nat
  minutes : Nat
  seconds : Nat
  dateOfMonth : Nat
  month : Nat
  year : Nat
  century : Nat
  hours_lt : hours < 24
  minutes_lt : minutes < 60
  seconds_lt : seconds < 60
  date_le : 1 ≤ dateOfMonth ∧ dateOfMonth ≤ 31
  month_le : 1 ≤ month ∧ month ≤ 12
  year_lt : year < 100
  century_ge : 19 ≤ century

/-- The data mode and the hour mode of register B. -/
structure Format where
  binary : Bool
  hours24 : Bool
  deriving DecidableEq

/-- The byte is the number in the data mode of the format. -/
def Format.Holds (fmt : Format) (b : Byte) (n : Nat) : Prop :=
  if fmt.binary then b.toNat = n
  else b.toNat / 16 ≤ 9 ∧ b.toNat % 16 ≤ 9 ∧ b.toNat / 16 * 10 + b.toNat % 16 = n

instance (fmt : Format) (b : Byte) (n : Nat) : Decidable (fmt.Holds b n) :=
  inferInstanceAs (Decidable (ite _ _ _))

/-- The hour on the dial of a 12-hour clock. -/
def dial (hours : Nat) : Nat := if hours % 12 = 0 then 12 else hours % 12

/-- The byte is the hour in the format, with bit 7 for the afternoon on a 12-hour clock. -/
def Format.HoldsHours (fmt : Format) (b : Byte) (hours : Nat) : Prop :=
  if fmt.hours24 then fmt.Holds b hours
  else fmt.Holds (b &&& 0x7F) (dial hours) ∧ b.getLsbD 7 = decide (12 ≤ hours)

instance (fmt : Format) (b : Byte) (hours : Nat) : Decidable (fmt.HoldsHours b hours) :=
  inferInstanceAs (Decidable (ite _ _ _))

/-- The registers hold the time in the format, and no update is in progress. -/
structure RegistersHold (regs : Byte → Byte) (fmt : Format) (t : CalendarTime) : Prop where
  idle : regs cmosRtcRa &&& 0x80 = 0
  binary : (regs cmosRtcRb).getLsbD 2 = fmt.binary
  hours24 : (regs cmosRtcRb).getLsbD 1 = fmt.hours24
  hours : fmt.HoldsHours (regs cmosRtcHours) t.hours
  minutes : fmt.Holds (regs cmosRtcMinutes) t.minutes
  seconds : fmt.Holds (regs cmosRtcSeconds) t.seconds
  dateOfMonth : fmt.Holds (regs cmosRtcDateOfMonth) t.dateOfMonth
  month : fmt.Holds (regs cmosRtcMonth) t.month
  year : fmt.Holds (regs cmosRtcYear) t.year
  century : fmt.Holds (regs cmosDateCenturyByte) t.century

/-- The fields are those of the time, the year in full. -/
structure CmosRtc.Tells (rtc : CmosRtc) (t : CalendarTime) : Prop where
  hours : rtc.hours.toNat = t.hours
  minutes : rtc.minutes.toNat = t.minutes
  seconds : rtc.seconds.toNat = t.seconds
  dateOfMonth : rtc.dateOfMonth.toNat = t.dateOfMonth
  month : rtc.month.toNat = t.month
  year : rtc.year.toNat = t.century * 100 + t.year

/-! ### What is read -/

/-- The registers that are read, as they come. -/
def raw (regs : Byte → Byte) : CmosRtc where
  hours := (regs cmosRtcHours).zeroExtend 32
  minutes := (regs cmosRtcMinutes).zeroExtend 32
  seconds := (regs cmosRtcSeconds).zeroExtend 32
  dateOfMonth := (regs cmosRtcDateOfMonth).zeroExtend 32
  month := (regs cmosRtcMonth).zeroExtend 32
  year := (regs cmosRtcYear).zeroExtend 32
  century := cmosBcd2dec ((regs cmosDateCenturyByte).zeroExtend 32)

theorem cmosReadRtc_result {regs : Byte → Byte} (h : regs cmosRtcRa &&& 0x80 = 0)
    (log : List Transfer) (fuel : Nat) : (cmosReadRtc (fuel + 1)).result (cmos regs) log
      = some (cmosDecode (regs cmosRtcRb) (raw regs)) := by
  have hsel : ∀ l i, selected (l ++ [.outb 0x70 i]) = i &&& 0x7F := by
    intro l i
    simp [selected, List.foldl_append]
  have hread : ∀ l p v, selected (l ++ [.inb p v]) = selected l := by
    intro l p v
    simp [selected, List.foldl_append]
  have hdev : ∀ l, cmos regs l 0x71 = regs (selected l) := fun l => if_pos rfl
  have hregister : ∀ l i, i &&& 0x7F = i → (cmosReadRegister i).result (cmos regs) l
      = (regs i).zeroExtend 32 := by
    intro l i hi
    simp only [cmosReadRegister, cmosSelect, cmosRead, Driver.result_bind, Driver.trace_outb,
      Driver.result_inb, Driver.result_pure, hdev, hsel, hi]
  have hwait : ∀ l, selected l = cmosRtcRa →
      (waitUpdate (fuel + 1)).result (cmos regs) l = some () := by
    intro l hl
    simp only [waitUpdate, cmosRead, Driver.result_bind, Driver.result_inb, hdev, hl, if_pos h,
      Driver.result_pure]
  have hcentury : ∀ l, selected l = cmosDateCenturyByte →
      cmosBcd2decRead.result (cmos regs) l
        = cmosBcd2dec ((regs cmosDateCenturyByte).zeroExtend 32) := by
    intro l hl
    simp only [cmosBcd2decRead, cmosRead, Driver.result_bind, Driver.result_inb, Driver.trace_inb,
      Driver.result_pure, hdev, hread, hl]
    rfl
  simp only [cmosReadRtc, cmosSelect, cmosRead, Driver.result_bind, Driver.trace_outb]
  rw [hwait _ (hsel ..)]
  simp only [Driver.result_bind, Driver.trace_outb, Driver.result_inb, Driver.result_pure]
  rw [hcentury _ (hsel ..), hdev, hsel]
  simp only [hregister _ cmosRtcHours rfl, hregister _ cmosRtcMinutes rfl,
    hregister _ cmosRtcSeconds rfl, hregister _ cmosRtcDateOfMonth rfl,
    hregister _ cmosRtcMonth rfl, hregister _ cmosRtcYear rfl]
  rfl

/-! ### What it tells -/

theorem cmosBcd2dec_toNat (b : Byte) :
    (cmosBcd2dec (b.zeroExtend 32)).toNat = b.toNat / 16 * 10 + b.toNat % 16 := by
  have hb := b.isLt
  have hmod : b.toNat &&& 15 = b.toNat % 16 := Nat.and_two_pow_sub_one_eq_mod b.toNat 4
  have hword : (b.zeroExtend 32).toNat = b.toNat := by
    rw [BitVec.zeroExtend, BitVec.toNat_setWidth]
    omega
  rw [cmosBcd2dec, BitVec.toNat_add, BitVec.toNat_and, BitVec.toNat_mul, BitVec.toNat_udiv, hword]
  simp only [show (0x0F : Word).toNat = 15 from rfl, show (16 : Word).toNat = 16 from rfl,
    show (10 : Word).toNat = 10 from rfl, hmod]
  omega

/-- The conversions that register B asks for, field by field. -/
theorem cmosDecode_eq (regb : Byte) (rtc : CmosRtc) : cmosDecode regb rtc =
    let convert := fun w => if regb &&& 0x04 = 0 then cmosBcd2dec w else w
    { hours := convert rtc.hours + if regb &&& 0x02 = 0 then 12 else 0
      minutes := convert rtc.minutes
      seconds := convert rtc.seconds
      dateOfMonth := convert rtc.dateOfMonth
      month := convert rtc.month
      year := convert rtc.year + rtc.century * 100
      century := rtc.century } := by
  obtain ⟨hours, minutes, seconds, dateOfMonth, month, year, century⟩ := rtc
  by_cases hbcd : regb &&& 0x04 = 0 <;> by_cases h12 : regb &&& 0x02 = 0 <;>
    by_cases hc : century = 0 <;> simp only [cmosDecode, hbcd, h12, hc, ne_eq, reduceIte,
      not_true_eq_false, not_false_eq_true] <;> simp

theorem dataMode (regb : Byte) : regb &&& 0x04 = 0 ↔ regb.getLsbD 2 = false :=
  and_twoPow_eq_zero_iff regb (k := 2) (by omega)

theorem hourMode (regb : Byte) : regb &&& 0x02 = 0 ↔ regb.getLsbD 1 = false :=
  and_twoPow_eq_zero_iff regb (k := 1) (by omega)

/-- A converted byte is the number it holds. -/
theorem Format.Holds.convert {fmt : Format} {b regb : Byte} {n : Nat} (h : fmt.Holds b n)
    (hb : regb.getLsbD 2 = fmt.binary) :
    (if regb &&& 0x04 = 0 then cmosBcd2dec (b.zeroExtend 32) else b.zeroExtend 32).toNat = n := by
  have hbit := dataMode regb
  rw [hb] at hbit
  unfold Format.Holds at h
  cases hf : fmt.binary with
  | false =>
    rw [hf] at h hbit
    rw [if_pos (hbit.mpr rfl), cmosBcd2dec_toNat]
    exact h.2.2
  | true =>
    rw [hf] at h hbit
    rw [if_neg (fun h0 => nomatch hbit.mp h0), BitVec.zeroExtend, BitVec.toNat_setWidth]
    have hlt := b.isLt
    rw [if_pos rfl] at h
    omega

theorem Format.Holds.lt {fmt : Format} {b : Byte} {n : Nat} (h : fmt.Holds b n) : n < 256 := by
  have hb := b.isLt
  unfold Format.Holds at h
  split at h <;> omega

/-- A century byte in binary is decoded as if it were decimal digits, and falls short. -/
theorem century_binary {fmt : Format} {b : Byte} {c : Nat} (h : fmt.Holds b c) (hc : 19 ≤ c)
    (hbinary : fmt.binary = true) : (cmosBcd2dec (b.zeroExtend 32)).toNat < c := by
  rw [cmosBcd2dec_toNat]
  rw [Format.Holds, if_pos hbinary] at h
  omega

/-- An hour with the afternoon flag is never twelve more than what the register converts to. -/
theorem hours_twelve {fmt : Format} {b : Byte} {hours : Nat} (h : fmt.HoldsHours b hours)
    (hlt : hours < 24) (h12 : fmt.hours24 = false) (hbcd : fmt.binary = false) :
    (cmosBcd2dec (b.zeroExtend 32)).toNat + 12 ≠ hours := by
  rw [cmosBcd2dec_toNat]
  rw [Format.HoldsHours, h12] at h
  obtain ⟨hdial, hflag⟩ := h
  have hlow : (b &&& 0x7F).toNat = b.toNat % 128 := by
    rw [BitVec.toNat_and]
    exact Nat.and_two_pow_sub_one_eq_mod b.toNat 7
  rw [Format.Holds, hbcd, hlow] at hdial
  obtain ⟨-, -, hdial⟩ := hdial
  have hpm : 12 ≤ hours → 128 ≤ b.toNat := by
    intro hpm
    by_contra hsmall
    have hbit : b.getLsbD 7 = false := Nat.testBit_lt_two_pow (by omega)
    rw [hbit] at hflag
    exact absurd hpm (of_decide_eq_false hflag.symm)
  have hpos : 1 ≤ dial hours := by
    unfold dial
    split <;> omega
  omega

/-- `cmos_read_rtc` tells the time its registers hold exactly when register B asks for decimal
digits and a 24-hour clock. -/
theorem cmosReadRtc_tells_iff (regs : Byte → Byte) (fmt : Format) (t : CalendarTime)
    (log : List Transfer) (fuel : Nat) (h : RegistersHold regs fmt t) :
    ∃ rtc, (cmosReadRtc (fuel + 1)).result (cmos regs) log = some rtc
      ∧ (rtc.Tells t ↔ fmt.binary = false ∧ fmt.hours24 = true) := by
  refine ⟨_, cmosReadRtc_result h.idle log fuel, ?_⟩
  rw [cmosDecode_eq]
  have hyear := h.year.convert h.binary
  have hcentury := h.century.lt
  have h100 : (100 : Word).toNat = 100 := rfl
  have hlt := t.year_lt
  constructor
  · intro htells
    have hbcd : fmt.binary = false := by
      by_contra hbinary
      have hshort := century_binary h.century t.century_ge (by simpa using hbinary)
      have hfull := htells.year
      simp only [raw, BitVec.toNat_add, BitVec.toNat_mul, hyear, h100] at hfull
      omega
    refine ⟨hbcd, ?_⟩
    by_contra h24
    have h12 : fmt.hours24 = false := by simpa using h24
    have hdigits := (dataMode (regs cmosRtcRb)).mpr (h.binary.trans hbcd)
    have htwelve := (hourMode (regs cmosRtcRb)).mpr (h.hours24.trans h12)
    have hwrong := hours_twelve h.hours t.hours_lt h12 hbcd
    have hsmall := cmosBcd2dec_toNat (regs cmosRtcHours)
    have hbyte := (regs cmosRtcHours).isLt
    have hhours := htells.hours
    simp only [raw, if_pos hdigits, if_pos htwelve, BitVec.toNat_add,
      show (12 : Word).toNat = 12 from rfl] at hhours
    omega
  · rintro ⟨hbcd, h24⟩
    have htwelve : ¬regs cmosRtcRb &&& 0x02 = 0 := by
      rw [hourMode, h.hours24, h24]
      exact nofun
    have hhours := h.hours
    rw [Format.HoldsHours, if_pos h24] at hhours
    have hcent := h.century
    rw [Format.Holds, hbcd] at hcent
    refine ⟨?_, h.minutes.convert h.binary, h.seconds.convert h.binary,
      h.dateOfMonth.convert h.binary, h.month.convert h.binary, ?_⟩
    · simp only [raw, if_neg htwelve]
      exact (congrArg BitVec.toNat (BitVec.add_zero _)).trans (hhours.convert h.binary)
    · simp only [raw, BitVec.toNat_add, BitVec.toNat_mul, hyear, h100, cmosBcd2dec_toNat]
      obtain ⟨-, -, hcent⟩ := hcent
      omega

/-- 2026-07-01 09:30:15, in decimal digits on a clock of the given hour mode. -/
def morning (hours24 : Bool) (address : Byte) : Byte :=
  if address = cmosRtcHours then 0x09
  else if address = cmosRtcMinutes then 0x30
  else if address = cmosRtcSeconds then 0x15
  else if address = cmosRtcDateOfMonth then 0x01
  else if address = cmosRtcMonth then 0x07
  else if address = cmosRtcYear then 0x26
  else if address = cmosDateCenturyByte then 0x20
  else if address = cmosRtcRb then if hours24 then 0x02 else 0x00
  else 0x00

def morningTime : CalendarTime where
  hours := 9
  minutes := 30
  seconds := 15
  dateOfMonth := 1
  month := 7
  year := 26
  century := 20
  hours_lt := by decide
  minutes_lt := by decide
  seconds_lt := by decide
  date_le := by decide
  month_le := by decide
  year_lt := by decide
  century_ge := by decide

theorem morning_holds (hours24 : Bool) :
    RegistersHold (morning hours24) { binary := false, hours24 } morningTime := by
  cases hours24 <;> constructor <;> decide

theorem morning_24_hours : ∃ rtc,
    (cmosReadRtc 3).result (cmos (morning true)) [.outb 0x70 cmosRtcRb] = some rtc
      ∧ rtc.Tells morningTime := by
  obtain ⟨rtc, hread, htells⟩ := cmosReadRtc_tells_iff (morning true) ⟨false, true⟩ morningTime
    [.outb 0x70 cmosRtcRb] 2 (morning_holds true)
  exact ⟨rtc, hread, htells.mpr ⟨rfl, rfl⟩⟩

/-- Half past nine in the morning, on a 12-hour clock, is read as half past nine in the evening. -/
theorem morning_12_hours : RegistersHold (morning false) ⟨false, false⟩ morningTime
    ∧ ∃ rtc, (cmosReadRtc 1).result (cmos (morning false)) [] = some rtc ∧ rtc.hours = 21
      ∧ ¬rtc.Tells morningTime := by
  refine ⟨morning_holds false, _, cmosReadRtc_result rfl [] 0, rfl, ?_⟩
  intro h
  exact absurd h.hours (by decide)

end BasicX86Kernel.Mc146818
