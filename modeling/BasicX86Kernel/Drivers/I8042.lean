import BasicX86Kernel.Machine.Retry

/-! The keyboard and mouse controller (drivers/i8042.c): polling with a retry counter, commands, and
the initialisation. Messages, handler addresses and interrupt masks go to memory, not to a port. -/

namespace BasicX86Kernel.I8042

open Machine

/-! ### Registers -/

def outputBufferFull (status : Byte) : Bool := status.getLsbD 0
def inputBufferFull (status : Byte) : Bool := status.getLsbD 1
def mouseOutputBufferFull (status : Byte) : Bool := status.getLsbD 5

/-- Assigns a one-bit field of the command byte. -/
def setField (byte : Byte) (bit : Nat) (value : Bool) : Byte :=
  if value then byte ||| (1#8 <<< bit) else byte &&& ~~~(1#8 <<< bit)

def keyboardInterrupt (cb : Byte) : Bool := cb.getLsbD 0
def mouseInterrupt (cb : Byte) : Bool := cb.getLsbD 1
def withKeyboardInterrupt (cb : Byte) (value : Bool) : Byte := setField cb 0 value
def withMouseInterrupt (cb : Byte) (value : Bool) : Byte := setField cb 1 value
def withSystemFlag (cb : Byte) (value : Bool) : Byte := setField cb 2 value
def mousePortClock (cb : Byte) : Bool := cb.getLsbD 5
def withKeyboardTranslation (cb : Byte) (value : Bool) : Byte := setField cb 6 value

/-- The port of the status register and of commands. -/
def controlPort : Port := 0x64

def dataPort : Port := 0x60

theorem controlPort_ne_dataPort : controlPort ≠ dataPort := by decide

def readCommandByte : Byte := 0x20
def writeCommandByte : Byte := 0x60
def disableMouseInterface : Byte := 0xA7
def enableMouseInterface : Byte := 0xA8
def mouseInterfaceTest : Byte := 0xA9
def controllerSelfTest : Byte := 0xAA
def keyboardInterfaceTest : Byte := 0xAB
def disableKeyboardInterface : Byte := 0xAD
def enableKeyboardInterface : Byte := 0xAE
def writeMouseDevice : Byte := 0xD4

def keyboardSetLeds : Byte := 0xED
def keyboardEcho : Byte := 0xEE
def keyboardEnableScanning : Byte := 0xF4
def mouseEnableDataReporting : Byte := 0xF4

/-! ### Transfers -/

def i8042Status : Driver Byte := inb controlPort

def i8042Command (command : Byte) : Driver Unit := outb controlPort command

/-- `while( retry-- ) { s = i8042_status(); if( ready ) break; }`, and `retry` afterwards. -/
def pollStatus (ready : Byte → Bool) : Nat → Driver Word
  -- the test that ends the loop decrements too, so that an unsigned zero wraps around
  | 0 => pure (0 - 1)
  | retry + 1 => do
    let s ← i8042Status
    if ready s then pure (BitVec.ofNat 32 retry) else pollStatus ready retry

/-- The status shows a byte to read. -/
def readable (status : Byte) : Bool := outputBufferFull status || mouseOutputBufferFull status

def i8042Read : Driver Byte := do
  let retry ← pollStatus readable 500
  if retry = 0 then pure 0x00 else inb dataPort

def i8042Write (data : Byte) : Driver Unit := do
  let retry ← pollStatus (fun s => !inputBufferFull s) 500
  if retry = 0 then pure () else outb dataPort data

def i8042CommandSet (command value : Byte) : Driver Unit := do
  i8042Command command
  i8042Write value

def i8042CommandGet (command : Byte) : Driver Byte := do
  i8042Command command
  i8042Read

/-- `dual_channel && i8042_command_get(I8042_COMMAND_MOUSE_INTERFACE_TEST) == 0x00`. -/
def mouseTested (dualChannel : Bool) : Driver Bool :=
  if dualChannel then do
    let data ← i8042CommandGet mouseInterfaceTest
    pure (data = 0x00)
  else pure false

def commandIf (enabled : Bool) (command : Byte) : Driver Unit :=
  if enabled then i8042Command command else pure ()

/-- The part of `i8042_init` behind the self test. -/
def i8042Interfaces (cb : Byte) (dualChannel : Bool) : Driver Unit := do
  let keyboard ← i8042CommandGet keyboardInterfaceTest
  let cb := if keyboard = 0x00 then withKeyboardInterrupt cb true else cb
  let mouse ← mouseTested dualChannel
  let cb := if mouse then withMouseInterrupt cb true else cb
  let cb := withKeyboardTranslation cb true
  let cb := withSystemFlag cb true
  i8042CommandSet writeCommandByte cb
  commandIf (keyboardInterrupt cb) enableKeyboardInterface
  commandIf (mouseInterrupt cb) enableMouseInterface

def i8042Init : Driver Unit := do
  i8042Command disableKeyboardInterface
  i8042Command disableMouseInterface
  let _ ← i8042Read
  let cb ← i8042CommandGet readCommandByte
  let cb := withKeyboardInterrupt cb false
  let cb := withMouseInterrupt cb false
  let dualChannel := mousePortClock cb
  let test ← i8042CommandGet controllerSelfTest
  if test = 0x55 then i8042Interfaces cb dualChannel

/-! ### Polling -/

/-- The statuses up to the first one that is ready, or all of them. -/
def upTo (ready : Byte → Bool) : List Byte → List Byte
  | [] => []
  | s :: ss => if ready s then [s] else s :: upTo ready ss

/-- The polls of 500 statuses, up to the first that is ready. -/
def polled (ready : Byte → Bool) (dev : Device) (log : List Transfer) : List Transfer :=
  inputs ((upTo ready (answers dev controlPort log 500)).map (controlPort, ·))

/-- The controller takes a byte. -/
def writable (status : Byte) : Bool := !inputBufferFull status

section

variable {ready : Byte → Bool} (dev : Device) (log : List Transfer)

theorem upTo_subset {ss : List Byte} : upTo ready ss ⊆ ss := by
  induction ss with
  | nil => exact fun s hs => hs
  | cons s ss ih =>
    rw [upTo]
    split
    · simp
    · exact List.cons_subset_cons s ih

theorem upTo_of_none {ss : List Byte} (h : ∀ s ∈ ss, ¬ready s) : upTo ready ss = ss := by
  induction ss with
  | nil => rfl
  | cons s ss ih =>
    have hs : ¬ready s := h s (by simp)
    rw [upTo, if_neg hs, ih fun s' hs' => h s' (by simp [hs'])]

/-- The last status of a poll that found one ready is the ready one. -/
theorem upTo_of_exists {ss : List Byte} (h : ∃ s ∈ ss, ready s) :
    ∃ before s, upTo ready ss = before ++ [s] ∧ ready s := by
  induction ss with
  | nil => simp at h
  | cons s ss ih =>
    by_cases hs : ready s
    · exact ⟨[], s, by rw [upTo, if_pos hs, List.nil_append], hs⟩
    · obtain ⟨before, s', heq, hs'⟩ := ih (by simpa [hs] using h)
      exact ⟨s :: before, s', by rw [upTo, if_neg hs, heq, List.cons_append], hs'⟩

theorem pollStatus_trace (n : Nat) : (pollStatus ready n).trace dev log
    = inputs ((upTo ready (answers dev controlPort log n)).map (controlPort, ·)) := by
  induction n generalizing log with
  | zero => rfl
  | succ n ih =>
    by_cases hs : ready (dev log controlPort)
    · simp [pollStatus, i8042Status, answers, upTo, hs]
    · simp [pollStatus, i8042Status, answers, upTo, hs, ih]

theorem pollStatus_eq_retry (ready : Byte → Bool) (n : Nat) :
    pollStatus ready n = retry i8042Status ready n := by
  induction n with
  | zero => rfl
  | succ n ih => rw [pollStatus, retry, ih]

/-- A counter that is not zero tells whether a status was ready when one of the first 499 is. -/
theorem pollStatus_ne_zero_iff (ready : Byte → Bool) : ((pollStatus ready 500).result dev log ≠ 0
      ↔ ∃ s ∈ answers dev controlPort log 500, ready s)
    ↔ ∃ s ∈ answers dev controlPort log 499, ready s := by
  rw [pollStatus_eq_retry, ← replies_inb, ← replies_inb]
  exact retry_ne_zero_iff dev i8042Status ready log (by decide)

/-- A poll of up to 500 statuses leaves the counter at zero just when the last one is the first
that is ready. -/
theorem pollStatus_eq_zero_iff (ready : Byte → Bool) : (pollStatus ready 500).result dev log = 0
    ↔ (∀ s ∈ answers dev controlPort log 499, ¬ready s)
      ∧ ready (dev (afterReads dev controlPort log 499) controlPort) := by
  rw [pollStatus_eq_retry, retry_eq_zero_iff dev i8042Status ready log (by decide), i8042Status,
    replies_inb, replies_inb]
  refine and_congr_right fun hnone => ?_
  rw [answers_succ dev controlPort log 499]
  constructor
  · rintro ⟨s, hs, hr⟩
    rcases List.mem_append.mp hs with hs | hs
    · exact absurd hr (hnone s hs)
    · rwa [List.mem_singleton.mp hs] at hr
  · exact fun hr => ⟨_, by simp, hr⟩

/-- What `i8042_write` transfers: the byte is written unless the last poll is the first that
succeeds. -/
theorem i8042Write_trace (data : Byte) : (i8042Write data).trace dev log = polled writable dev log
    ++ if (pollStatus writable 500).result dev log = 0 then [] else [.outb dataPort data] := by
  rw [i8042Write, Driver.trace_bind, show (fun s => !inputBufferFull s) = writable from rfl,
    pollStatus_trace]
  refine congrArg _ ?_
  split <;> rfl

end

end BasicX86Kernel.I8042
