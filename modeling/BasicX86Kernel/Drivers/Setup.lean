import BasicX86Kernel.Drivers.Ioapic
import BasicX86Kernel.Drivers.Kbd
import BasicX86Kernel.Idt
import BasicX86Kernel.System

/-! The initialisation of the controller, of the keyboard and of the mouse, with the messages, the
callbacks and the interrupt masks that leave the ports alone, and whether an acknowledgement is
reported. -/

namespace BasicX86Kernel.Drivers

open Machine I8042

/-- The callbacks of the drivers, and the table they are registered in. -/
structure DriverImage where
  idt : IdtLayout
  i8042IrqHandler : Word
  kbdIrqHandler : Word
  mouseIrqHandler : Word

/-- What the drivers change beside the ports. -/
structure Kernel where
  sys : System
  ioapic : Ioapic.State

abbrev Setup := StateT Kernel Driver

/-! ### Calls -/

/-- A change of the kernel's state. -/
def effect (f : Kernel → Kernel) : Setup Unit := modify f

def printk (fmt : String) : Setup Unit := effect fun k => { k with sys := k.sys.printk fmt [] }

def setInterruptHandler (K : DriverImage) (interrupt : BitVec 8) (handler : Word) : Setup Unit :=
  effect fun k => { k with
    sys := { k.sys with mem := idtSetInterruptHandler K.idt k.sys.mem interrupt handler } }

def maskInterrupt (vector : BitVec 8) : Setup Unit :=
  effect fun k => { k with ioapic := Ioapic.idtMaskInterrupt vector k.ioapic }

def unmaskInterrupt (vector : BitVec 8) : Setup Unit :=
  effect fun k => { k with ioapic := Ioapic.idtUnmaskInterrupt vector k.ioapic }

/-! ### The functions -/

def printkIf (condition : Bool) (fmt : String) : Setup Unit :=
  if condition then printk fmt else pure ()

/-- What `i8042_init` makes of an interface test, apart from the bit in the command byte. -/
def interfaceTested (K : DriverImage) (passed : Bool) (vector : BitVec 8) : Setup Unit :=
  if passed then do
    printk "pass\n"
    setInterruptHandler K vector K.i8042IrqHandler
  else printk "fail\n"

def enableIf (enabled : Bool) (fmt : String) (command : Byte) : Setup Unit :=
  if enabled then do
    printk fmt
    i8042Command command
  else pure ()

/-- The part of `i8042_init` behind the self test. -/
def i8042Interfaces (K : DriverImage) (cb : Byte) (dualChannel : Bool) : Setup Unit := do
  printk "    keyboard interface test: "
  let keyboard ← i8042CommandGet keyboardInterfaceTest
  let cb := if keyboard = 0x00 then withKeyboardInterrupt cb true else cb
  interfaceTested K (keyboard = 0x00) 33
  printk "    mouse interface test: "
  let mouse ← mouseTested dualChannel
  let cb := if mouse then withMouseInterrupt cb true else cb
  interfaceTested K mouse 44
  let cb := withKeyboardTranslation cb true
  let cb := withSystemFlag cb true
  i8042CommandSet writeCommandByte cb
  enableIf (keyboardInterrupt cb) "    enabling keyboard interface\n" enableKeyboardInterface
  enableIf (mouseInterrupt cb) "    enabling mouse interface\n" enableMouseInterface

def i8042Init (K : DriverImage) : Setup Unit := do
  printk "Initializing Keyborad & Mouse i8042 !\n"
  i8042Command disableKeyboardInterface
  i8042Command disableMouseInterface
  let _ ← i8042Read
  let cb ← i8042CommandGet readCommandByte
  let cb := withKeyboardInterrupt cb false
  let cb := withMouseInterrupt cb false
  let dualChannel := mousePortClock cb
  printkIf dualChannel "    detected dual channel controller\n"
  printk "    controller self test: "
  let test ← i8042CommandGet controllerSelfTest
  if test = 0x55 then do
    printk "pass\n"
    i8042Interfaces K cb dualChannel
  else printk "fail\n"

/-- Sets up a device, with its interrupt masked in the meantime. -/
def deviceInit (K : DriverImage) (vector : BitVec 8) (handler : Word) (device : Driver Bool)
    (fmt : String) : Setup Unit := do
  maskInterrupt vector
  setInterruptHandler K vector handler
  let ack ← device
  printkIf ack fmt
  unmaskInterrupt vector

def kbdInit (K : DriverImage) : Setup Unit :=
  deviceInit K 33 K.kbdIrqHandler I8042.kbdInit "    keyboard ACK !\n"

def mouseInit (K : DriverImage) : Setup Unit :=
  deviceInit K 44 K.mouseIrqHandler I8042.mouseInit "    mouse ACK !\n"

/-- The part of `kmain` that sets up keyboard and mouse. -/
def keyboardAndMouse (K : DriverImage) : Setup Unit := do
  i8042Init K
  kbdInit K
  mouseInit K

/-! ### Runs -/

section

variable {α β : Type} (dev : Device) (log : List Transfer) (k : Kernel)

@[simp] theorem run_effect (f : Kernel → Kernel) : (effect f).run k = pure ((), f k) := rfl

@[simp] theorem run_driver (d : Driver α) :
    (liftM d : Setup α).run k = d >>= fun a => pure (a, k) := rfl

/-- What follows a driver runs behind its transfers. -/
theorem result_driver_bind (d : Driver α) (f : α → Setup β) :
    (((liftM d : Setup α) >>= f).run k).result dev log
      = ((f (d.result dev log)).run k).result dev (log ++ d.trace dev log) := by
  simp

theorem result_effect_bind (f : Kernel → Kernel) (x : Setup β) :
    ((do effect f; x).run k).result dev log = (x.run (f k)).result dev log := rfl

/-- The setup makes the transfers of the driver and returns what it returns. -/
def Does (x : Setup α) (d : Driver α) : Prop :=
  ∀ dev log k, (x.run k).trace dev log = d.trace dev log
    ∧ ((x.run k).result dev log).1 = d.result dev log

variable {x : Setup α} {d : Driver α}

theorem Does.bind {f : α → Setup β} {g : α → Driver β} (hx : Does x d)
    (hf : ∀ a, Does (f a) (g a)) : Does (x >>= f) (d >>= g) := by
  intro dev log k
  obtain ⟨ht, hr⟩ := hx dev log k
  rw [StateT.run_bind, Driver.trace_bind, Driver.result_bind, Driver.trace_bind,
    Driver.result_bind, ht, hr]
  obtain ⟨ht', hr'⟩ := hf (d.result dev log) dev (log ++ d.trace dev log)
    ((x.run k).result dev log).2
  exact ⟨congrArg _ ht', hr'⟩

theorem does_driver (d : Driver α) : Does (liftM d : Setup α) d := by
  intro dev log k
  simp

theorem does_pure (a : α) : Does (pure a) (pure a) := fun _ _ _ => ⟨rfl, rfl⟩

/-- A change of the kernel's state is no transfer. -/
theorem does_effect (f : Kernel → Kernel) : Does (effect f) (pure ()) := fun _ _ _ => ⟨rfl, rfl⟩

theorem Does.effect (f : Kernel → Kernel) (hx : Does x d) : Does (do effect f; x) d :=
  (does_effect f).bind fun _ => hx

theorem Does.ite {y : Setup α} {e : Driver α} (c : Prop) [Decidable c] (hx : Does x d)
    (hy : Does y e) : Does (if c then x else y) (if c then d else e) := by
  split
  · exact hx
  · exact hy

/-- A message that may be printed changes the state, but not the memory. -/
theorem printkIf_effect (c : Bool) (fmt : String) :
    ∃ f, printkIf c fmt = effect f ∧ ∀ k, (f k).sys.mem = k.sys.mem := by
  cases c with
  | false => exact ⟨id, rfl, fun _ => rfl⟩
  | true => exact ⟨_, rfl, fun _ => rfl⟩

/-- A callback is registered when the test is passed. -/
theorem interfaceTested_effect (K : DriverImage) (passed : Bool) (vector : BitVec 8) :
    ∃ f, interfaceTested K passed vector = effect f ∧ ∀ k, (f k).sys.mem =
      setHandlers K.idt k.sys.mem (if passed then [(vector, K.i8042IrqHandler)] else []) := by
  cases passed with
  | false => exact ⟨_, rfl, fun _ => rfl⟩
  | true =>
    refine ⟨fun k => { k with
      sys := { k.sys.printk "pass\n" [] with
        mem := idtSetInterruptHandler K.idt k.sys.mem vector K.i8042IrqHandler } }, rfl, ?_⟩
    exact fun _ => rfl

theorem does_enableIf (enabled : Bool) (fmt : String) (command : Byte) :
    Does (enableIf enabled fmt command) (commandIf enabled command) := by
  cases enabled with
  | false => exact does_pure ()
  | true => exact (does_driver _).effect _

theorem does_i8042Interfaces (K : DriverImage) (cb : Byte) (dualChannel : Bool) :
    Does (i8042Interfaces K cb dualChannel) (I8042.i8042Interfaces cb dualChannel) := by
  refine Does.effect _ ((does_driver _).bind fun keyboard => ?_)
  obtain ⟨f, hf, -⟩ := interfaceTested_effect K (keyboard = 0x00) 33
  rw [hf]
  refine Does.effect f (Does.effect _ ((does_driver _).bind fun mouse => ?_))
  obtain ⟨g, hg, -⟩ := interfaceTested_effect K mouse 44
  rw [hg]
  refine Does.effect g ((does_driver _).bind fun _ => ?_)
  exact (does_enableIf _ _ _).bind fun _ => does_enableIf _ _ _

/-- `i8042_init` makes the transfers of its port part. -/
theorem does_i8042Init (K : DriverImage) : Does (i8042Init K) I8042.i8042Init := by
  refine Does.effect _ ((does_driver _).bind fun _ => (does_driver _).bind fun _ => ?_)
  refine (does_driver _).bind fun _ => (does_driver _).bind fun cb => ?_
  obtain ⟨f, hf, -⟩ := printkIf_effect (mousePortClock (withMouseInterrupt
    (withKeyboardInterrupt cb false) false)) "    detected dual channel controller\n"
  dsimp only
  rw [hf]
  refine Does.effect f (Does.effect _ ((does_driver _).bind fun test => ?_))
  exact Does.ite _ ((does_i8042Interfaces K _ _).effect _) (does_effect _)

theorem does_deviceInit (K : DriverImage) (vector : BitVec 8) (handler : Word)
    (device : Driver Bool) (fmt : String) :
    Does (deviceInit K vector handler device fmt) (do let _ ← device; pure ()) := by
  refine Does.effect _ (Does.effect _ ((does_driver _).bind fun ack => ?_))
  obtain ⟨f, hf, -⟩ := printkIf_effect ack fmt
  rw [hf]
  exact Does.effect f (does_effect _)

/-- The messages, the callbacks and the masks leave the transfers as they are. -/
theorem does_keyboardAndMouse (K : DriverImage) :
    Does (keyboardAndMouse K) I8042.keyboardAndMouse := by
  refine (does_i8042Init K).bind fun _ => ?_
  have h := (does_deviceInit K 33 K.kbdIrqHandler I8042.kbdInit "    keyboard ACK !\n").bind
    fun _ => does_deviceInit K 44 K.mouseIrqHandler I8042.mouseInit "    mouse ACK !\n"
  rwa [Driver.bind_assoc] at h

theorem deviceInit_printed (K : DriverImage) (vector : BitVec 8) (handler : Word)
    (device : Driver Bool) (fmt : String) :
    (((deviceInit K vector handler device fmt).run k).result dev log).2.sys.printed
      = k.sys.printed ++ if device.result dev log then [⟨fmt, []⟩] else [] := by
  rw [deviceInit]
  simp only [maskInterrupt, setInterruptHandler, unmaskInterrupt, StateT.run_bind, run_effect,
    run_driver, Driver.result_bind, Driver.result_pure, Driver.trace_pure, List.append_nil]
  cases device.result dev log with
  | false => simp [printkIf]
  | true => simp [printkIf, printk, System.printk]

end

/-! ### Acknowledgements -/

/-- The transfers of `kbd_init` before it waits for the last acknowledgement. -/
def kbdCommands : Driver Unit := do
  i8042Write keyboardEnableScanning
  let _ ← awaitReply 0xFA 512
  i8042Write keyboardEcho
  let _ ← awaitReply 0xEE 512
  i8042Write keyboardSetLeds
  let _ ← awaitReply 0xFA 512
  i8042Write 0x00

/-- Those of `mouse_init`. -/
def mouseCommands : Driver Unit := i8042CommandSet writeMouseDevice mouseEnableDataReporting

/-- What both make of the replies that follow. -/
def acknowledged : Driver Bool := do
  let timeout ← awaitReply 0xFA 512
  pure (decide (timeout > 0))

/-- The setup prints the message and nothing else if, after the transfers of `sent`, one of 512
calls of `i8042_read` returns the acknowledgement, and nothing if none does. -/
def Reports (x : Setup Unit) (fmt : String) (sent : Driver Unit) (dev : Device)
    (log : List Transfer) (k : Kernel) : Prop :=
  let heard := replies dev i8042Read (log ++ sent.trace dev log) 512
  let printed := ((x.run k).result dev log).2.sys.printed
  (0xFA ∈ heard → printed = k.sys.printed ++ [⟨fmt, []⟩])
    ∧ (0xFA ∉ heard → printed = k.sys.printed)

section

variable (dev : Device) (log : List Transfer) (k : Kernel)

/-- The counter tells whether an acknowledgement was read when one of the first 511 bytes is. -/
theorem awaitReply_pos_iff : (((awaitReply 0xFA 512).result dev log > 0)
      ↔ 0xFA ∈ replies dev i8042Read log 512)
    ↔ 0xFA ∈ replies dev i8042Read log 511 := by
  have hmem : ∀ n, (∃ a ∈ replies dev i8042Read log n, decide (a = 0xFA) = true)
      ↔ 0xFA ∈ replies dev i8042Read log n := by
    intro n
    simp
  have hretry := retry_ne_zero_iff dev i8042Read (fun data => data = 0xFA) log
    (show 511 < 2 ^ 32 by decide)
  rw [hmem, hmem, ← awaitReply_eq_retry] at hretry
  have hpos : ∀ w : Word, w > 0 ↔ w ≠ 0 := fun w => by bv_omega
  rw [← hretry, hpos]

/-- An element that is appended under one condition is there just when another holds. -/
theorem append_ite_iff {α : Type} (l : List α) (a : α) (p q : Prop) [Decidable p] :
    ((q → (l ++ if p then [a] else []) = l ++ [a]) ∧ (¬q → (l ++ if p then [a] else []) = l))
      ↔ (p ↔ q) := by
  by_cases hp : p
  · by_cases hq : q <;> simp [hp, hq]
  · by_cases hq : q <;> simp [hp, hq]

theorem deviceInit_reports_iff (K : DriverImage) (vector : BitVec 8) (handler : Word)
    {device : Driver Bool} {sent : Driver Unit} (fmt : String)
    (hdevice : device = sent >>= fun _ => acknowledged) :
    Reports (deviceInit K vector handler device fmt) fmt sent dev log k
      ↔ 0xFA ∈ replies dev i8042Read (log ++ sent.trace dev log) 511 := by
  rw [Reports, deviceInit_printed, hdevice, Driver.result_bind, acknowledged,
    Driver.result_bind, Driver.result_pure, ← awaitReply_pos_iff]
  simp only [decide_eq_true_eq]
  exact append_ite_iff ..

end

theorem kbdInit_eq : I8042.kbdInit = kbdCommands >>= fun _ => acknowledged := by
  simp only [I8042.kbdInit, kbdCommands, acknowledged, Driver.bind_assoc]

/-- Each message is right just when the acknowledgement is one of the first 511 bytes read. -/
theorem acknowledgements_reported_iff (K : DriverImage) (dev : Device) (log : List Transfer)
    (k : Kernel) :
    (Reports (kbdInit K) "    keyboard ACK !\n" kbdCommands dev log k
        ↔ 0xFA ∈ replies dev i8042Read (log ++ kbdCommands.trace dev log) 511)
      ∧ (Reports (mouseInit K) "    mouse ACK !\n" mouseCommands dev log k
        ↔ 0xFA ∈ replies dev i8042Read (log ++ mouseCommands.trace dev log) 511) :=
  ⟨deviceInit_reports_iff dev log k K 33 _ _ kbdInit_eq,
    deviceInit_reports_iff dev log k K 44 _ _ rfl⟩

def smallDrivers : DriverImage where
  idt := smallLayout
  i8042IrqHandler := 0xC0100400#32
  kbdIrqHandler := 0xC0100500#32
  mouseIrqHandler := 0xC0100600#32

/-- A controller that answers zero to everything is said to have acknowledged. -/
theorem silent_keyboard_acknowledged : ¬Reports (kbdInit smallDrivers) "    keyboard ACK !\n"
    kbdCommands (fun _ _ => 0x00) [] ⟨System.blank, Ioapic.reset⟩ := by
  rw [kbdInit, deviceInit_reports_iff _ _ _ _ _ _ _ kbdInit_eq]
  have hzero : ∀ t, i8042Read.result (fun _ _ => 0x00) t = 0x00 := by
    intro t
    rw [i8042Read, Driver.result_bind]
    split <;> rfl
  intro h
  exact absurd (forall_replies (P := (· = 0x00)) _ _ _ hzero 511 _ h) (by decide)

end BasicX86Kernel.Drivers
