import BasicX86Kernel.Acpi
import BasicX86Kernel.Drivers.Lapic
import BasicX86Kernel.Drivers.Pic
import BasicX86Kernel.Drivers.Setup
import BasicX86Kernel.IdtStub

/-! The functions that the stubs call for an interrupt of a device: what they read, what they print,
and the end of interrupt that each of them sends to the local APIC when it returns. -/

namespace BasicX86Kernel.Handlers

open Machine

/-- The kernel, and the local APIC. -/
structure Board where
  kernel : Drivers.Kernel
  lapic : Lapic.State

abbrev Handling := StateT Board Driver

/-- The drivers' handlers, the file name in the message of the power button, and the variable that
holds the address of the FADT. -/
structure HandlerImage extends Drivers.DriverImage where
  acpiInterruptHandlerPower : Word
  fileName : Word
  globalFadt : Word

/-- How a handler ends. -/
inductive Ended where
  | returned
  | halted
  deriving DecidableEq

def change (f : Board → Board) : Handling Unit := modify f

def printk (fmt : String) (args : List Word) : Handling Unit :=
  change fun b => { b with kernel := { b.kernel with sys := b.kernel.sys.printk fmt args } }

/-- `LAPIC_EIO` -/
def lapicEioReg : Word := 0x00B0

def lapicEio (val : Word) : Handling Unit :=
  change fun b => { b with lapic := Lapic.lapicWrite lapicEioReg val b.lapic }

/-! ### The functions -/

def idtInterruptHandler (args : HandlerArgs) : Handling Ended := do
  printk "Int %u, esp 0x%x || " [args.vector, args.esp]
  Pic.picEio (args.vector.setWidth 8)
  lapicEio args.vector
  return .returned

/-- What the handlers of the two devices share. -/
def deviceIrqHandler (fmt : String) (args : HandlerArgs) : Handling Ended := do
  let data ← inb I8042.dataPort
  lapicEio args.vector
  if data = 0xFA then return .returned
  printk fmt [data.setWidth 32, args.vector]
  return .returned

def kbdIrqHandler : HandlerArgs → Handling Ended := deviceIrqHandler "KBD %u, IRQ %d |"

def mouseIrqHandler : HandlerArgs → Handling Ended := deviceIrqHandler "MOUSE %u, IRQ %d |"

def i8042IrqHandler (args : HandlerArgs) : Handling Ended := do
  let c ← I8042.i8042Read
  lapicEio args.vector
  printk "i8042: %u|" [c.setWidth 32]
  return .returned

/-- The power button is known, and its status bit is set; `status` is what the ports of 16 bits
answer. -/
def powerButtonPressed (K : HandlerImage) (status : Port → BitVec 16) (mem : Mem) : Bool :=
  let fadt := mem.read32 K.globalFadt
  if fadt ≠ 0 then
    let statusA := status ((mem.read32 (fadt + Acpi.pm1aEvtBlk)).setWidth 16)
    statusA &&& (1#16 <<< 8) ≠ 0
  else false

def acpiInterruptHandlerPower (K : HandlerImage) (status : Port → BitVec 16) (args : HandlerArgs) :
    Handling Ended := do
  printk "\n *** %s(%d) POWER INTERRUPT *** VECTOR: %u!\n" [K.fileName, 18, args.vector]
  let mem := (← get).kernel.sys.mem
  if powerButtonPressed K status mem then return .halted
  lapicEio args.vector
  return .returned

/-- The function at an address that the stubs may call for an interrupt of a device. -/
def handlerAt (K : HandlerImage) (status : Port → BitVec 16) (address : Word) :
    Option (HandlerArgs → Handling Ended) :=
  if address = K.idt.idtInterruptHandler then some idtInterruptHandler
  else if address = K.i8042IrqHandler then some i8042IrqHandler
  else if address = K.kbdIrqHandler then some kbdIrqHandler
  else if address = K.mouseIrqHandler then some mouseIrqHandler
  else if address = K.acpiInterruptHandlerPower then some (acpiInterruptHandlerPower K status)
  else none

/-! ### Ends of interrupts -/

section

variable (dev : Device) (log : List Transfer) (b : Board)

@[simp] theorem run_change (f : Board → Board) : (change f).run b = pure ((), f b) := rfl

@[simp] theorem run_transfer {α : Type} (d : Driver α) :
    (liftM d : Handling α).run b = d >>= fun a => pure (a, b) := rfl

@[simp] theorem run_get : (get : Handling Board).run b = pure (b, b) := rfl

end

/-- Nothing is asked of the power button when its status bit is clear. -/
theorem powerButtonPressed_zero (K : HandlerImage) (mem : Mem) :
    powerButtonPressed K (fun _ => 0) mem = false := by
  rw [powerButtonPressed]
  split
  · exact decide_eq_false fun h => h BitVec.zero_and
  · rfl

/-- What a handler that returns has done: it has sent one end of interrupt to the local APIC; one
that halts has sent none, and the power button is pressed. Neither has changed memory or the I/O
APIC. -/
structure EndsOnce (K : HandlerImage) (status : Port → BitVec 16) (vector : Word) (b : Board)
    (r : Ended × Board) : Prop where
  lapic : r.2.lapic = match r.1 with
    | .returned => Lapic.lapicWrite lapicEioReg vector b.lapic
    | .halted => b.lapic
  mem : r.2.kernel.sys.mem = b.kernel.sys.mem
  ioapic : r.2.kernel.ioapic = b.kernel.ioapic
  pressed : r.1 = .halted → powerButtonPressed K status b.kernel.sys.mem = true

section

variable (dev : Device) (log : List Transfer) (b : Board) (args : HandlerArgs) (K : HandlerImage)
  (status : Port → BitVec 16)

theorem endsOnce_idtInterruptHandler :
    EndsOnce K status args.vector b (((idtInterruptHandler args).run b).result dev log) := by
  simp only [idtInterruptHandler, printk, lapicEio, StateT.run_bind, run_change, run_transfer,
    Driver.result_bind, Driver.result_pure]
  exact ⟨rfl, rfl, rfl, nofun⟩

theorem endsOnce_deviceIrqHandler (fmt : String) :
    EndsOnce K status args.vector b (((deviceIrqHandler fmt args).run b).result dev log) := by
  simp only [deviceIrqHandler, printk, lapicEio, StateT.run_bind, run_change, run_transfer,
    Driver.result_bind, Driver.result_pure]
  split
  · exact ⟨rfl, rfl, rfl, nofun⟩
  · exact ⟨rfl, rfl, rfl, nofun⟩

theorem endsOnce_i8042IrqHandler :
    EndsOnce K status args.vector b (((i8042IrqHandler args).run b).result dev log) := by
  simp only [i8042IrqHandler, printk, lapicEio, StateT.run_bind, run_change, run_transfer,
    Driver.result_bind, Driver.result_pure]
  exact ⟨rfl, rfl, rfl, nofun⟩

theorem endsOnce_acpiInterruptHandlerPower :
    EndsOnce K status args.vector b
      (((acpiInterruptHandlerPower K status args).run b).result dev log) := by
  simp only [acpiInterruptHandlerPower, printk, lapicEio, StateT.run_bind, run_change, run_get,
    Driver.result_bind, Driver.result_pure, Driver.trace_pure, List.append_nil, System.printk_mem]
  by_cases hpressed : powerButtonPressed K status b.kernel.sys.mem = true
  · simp only [hpressed, if_true, StateT.run_pure, Driver.result_pure]
    exact ⟨rfl, rfl, rfl, fun _ => hpressed⟩
  · simp only [hpressed]
    exact ⟨rfl, rfl, rfl, nofun⟩

end

/-- Whichever handler is called, it ends its interrupt once when it returns. -/
theorem endsOnce_handlerAt {K : HandlerImage} {status : Port → BitVec 16} {address : Word}
    {handler : HandlerArgs → Handling Ended} (h : handlerAt K status address = some handler)
    (dev : Device) (log : List Transfer) (b : Board) (args : HandlerArgs) :
    EndsOnce K status args.vector b (((handler args).run b).result dev log) := by
  rw [handlerAt] at h
  split at h
  · obtain rfl := Option.some.inj h
    apply endsOnce_idtInterruptHandler
  · split at h
    · obtain rfl := Option.some.inj h
      apply endsOnce_i8042IrqHandler
    · split at h
      · obtain rfl := Option.some.inj h
        apply endsOnce_deviceIrqHandler
      · split at h
        · obtain rfl := Option.some.inj h
          apply endsOnce_deviceIrqHandler
        · split at h
          · obtain rfl := Option.some.inj h
            apply endsOnce_acpiInterruptHandlerPower
          · cases h

end BasicX86Kernel.Handlers
