import BasicX86Kernel.Idt
import BasicX86Kernel.Machine.Port
import BasicX86Kernel.Mmu.Window

/-! `ksrc/acpi.c`: the search for the RSDP, the walk over the tables that the RSDT names, and the
power button.  The firmware's tables are read through the active page tables, where each of them
stands at its physical address plus `KERNEL_CONFIG_VMA`. -/

namespace BasicX86Kernel.Acpi

open Machine Klib Mmu

/-- The bytes apart from the page directory and the page tables. -/
def Apart (L : Layout) (a : Word) (n : Nat) : Prop :=
  (a.toNat + n ≤ L.pgdir.toNat ∨ L.pgdir.toNat + 4096 ≤ a.toNat) ∧
    (a.toNat + n ≤ L.pgtbls.toNat ∨ L.pgtbls.toNat + 40960 ≤ a.toNat) ∧ a.toNat + n ≤ 2 ^ 32

instance (L : Layout) (a : Word) (n : Nat) : Decidable (Apart L a n) :=
  inferInstanceAs (Decidable (_ ∧ _))

/-- A kernel image with the variables that `acpi.c` stores to.  There are four more bytes after the
table of the callbacks. -/
structure AcpiImage extends Image where
  idt : IdtLayout
  globalFadt : Word
  acpiInterruptHandlerPower : Word
  fadt_apart : Apart toLayout globalFadt 4
  callback_apart : Apart toLayout idt.idtGateCallback 1024

/-- A word moved between the processor and a port. -/
inductive PortAccess where
  | inw (port : Port) (value : BitVec 16)
  | indw (port : Port) (value : Word)
  | outw (port : Port) (value : BitVec 16)

/-- What the devices answer to a read of a port, after the accesses made so far. -/
abbrev Ports := List PortAccess → Port → Word

/-- What the loop of `acpi_init` does: it reads pointer `i`, and calls `init_acpi_power_button`. -/
inductive Visit where
  | pointer (i : Nat)
  | powerButton (fadt : Word)
  deriving DecidableEq

/-- The machine, the accesses made to the ports, and what the loop has done so far. -/
structure AcpiState where
  sys : System
  ports : List PortAccess
  visits : List Visit

namespace AcpiState

abbrev mem (s : AcpiState) : Mem := s.sys.mem

/-- A load through the active tables; `none` is a page fault. -/
def read (s : AcpiState) (a : Word) : Option Byte :=
  (translate s.sys.mem s.sys.cr3 a).map fun p => s.sys.mem.byte (p + kernelConfigVma)

/-- The active tables map `a` to the physical byte that it stands for. -/
def Direct (s : AcpiState) (a : Word) : Prop :=
  translate s.sys.mem s.sys.cr3 a = some (a - kernelConfigVma)

end AcpiState

/-! ### Calls -/

def printk (fmt : String) : Code AcpiState Unit :=
  effect fun s => { s with sys := s.sys.printk fmt [] }

def store32 (a v : Word) : Code AcpiState Unit :=
  effect fun s => { s with sys := s.sys.store32 a v }

def ioPortInw (dev : Ports) (port : Port) : Code AcpiState (BitVec 16) := do
  let v ← value fun s =>
    (dev s.ports port, { s with ports := s.ports ++ [.inw port ((dev s.ports port).setWidth 16)] })
  return v.setWidth 16

def ioPortIndw (dev : Ports) (port : Port) : Code AcpiState Word :=
  value fun s => (dev s.ports port, { s with ports := s.ports ++ [.indw port (dev s.ports port)] })

def ioPortOutw (port : Port) (v : BitVec 16) : Code AcpiState Unit :=
  effect fun s => { s with ports := s.ports ++ [.outw port v] }

def setInterruptHandler (K : AcpiImage) (interrupt : BitVec 8) : Code AcpiState Unit :=
  effect fun s => { s with
    sys := { s.sys with
      mem := idtSetInterruptHandler K.idt s.sys.mem interrupt K.acpiInterruptHandlerPower } }

def visit (v : Visit) : Code AcpiState Unit :=
  effect fun s => { s with visits := s.visits ++ [v] }

def map4kb (K : AcpiImage) (phyaddr linaddr flags : Word) : Code AcpiState Unit :=
  effect fun s => { s with sys := pagingMap4kb K.toLayout s.sys phyaddr linaddr flags }

/-! ### The tables of the firmware -/

/-- `"RSD PTR "` -/
def rsdpSignature : List Byte :=
  [0x52#8, 0x53#8, 0x44#8, 0x20#8, 0x50#8, 0x54#8, 0x52#8, 0x20#8]

/-- `"FACP"` -/
def fadtSignature : List Byte := [0x46#8, 0x41#8, 0x43#8, 0x50#8]

/-- The offset of `rsdt_address` in `struct acpi_RSDPDescriptor`. -/
def rsdtAddress : Word := 16

/-- The offset of `length` in `struct acpi_SDTHeader`, and the size of the structure. -/
def sdtLength : Word := 4
def sdtHeaderSize : Word := 36

/-- The offsets of the fields of `struct acpi_FADT` that are read. -/
def sciInterrupt : Word := 46
def pm1aEvtBlk : Word := 56
def pm1bEvtBlk : Word := 60
def pm1EvtLen : Word := 88
def fadtFlags : Word := 112

/-! ### The functions -/

/-- The enable register of an event block: the second half of it. -/
def enableReg (evtBlk : Word) (evtLen : Byte) : Port :=
  (evtBlk + (evtLen / 2).setWidth 32).setWidth 16

def enablePm1a (dev : Ports) (fadt : Word) : Code AcpiState Unit := do
  let evtBlk ← load32 (fadt + pm1aEvtBlk)
  let evtLen ← load8 (fadt + pm1EvtLen)
  let enValA ← ioPortIndw dev (enableReg evtBlk evtLen)
  ioPortOutw (enableReg evtBlk evtLen) (enValA.setWidth 16 ||| BitVec.twoPow 16 8)

def enablePm1b (dev : Ports) (fadt : Word) : Code AcpiState Unit := do
  let evtBlk ← load32 (fadt + pm1bEvtBlk)
  if evtBlk ≠ 0 then do
    let evtBlk ← load32 (fadt + pm1bEvtBlk)
    let evtLen ← load8 (fadt + pm1EvtLen)
    let enValB ← ioPortInw dev (enableReg evtBlk evtLen)
    ioPortOutw (enableReg evtBlk evtLen) (enValB ||| BitVec.twoPow 16 8)
  else
    return ()

def initAcpiPowerButton (K : AcpiImage) (dev : Ports) (fadt : Word) : Code AcpiState Unit := do
  visit (.powerButton fadt)
  store32 K.globalFadt fadt
  let flags ← load32 (fadt + fadtFlags)
  if flags &&& BitVec.twoPow 32 4 ≠ 0 then
    printk "    ACPI: Power button requires an AML interpreter. Direct FADT init aborted.\n"
  else do
    enablePm1a dev fadt
    enablePm1b dev fadt
    let sci ← load16 (fadt + sciInterrupt)
    setInterruptHandler K (32 + sci.setWidth 8)

/-- The values of `addr` in a loop from `start` below `stop` in steps of 16. -/
def every16 (start stop : Word) : List Word :=
  (List.range ((stop.toNat - start.toNat + 15) / 16)).map fun i => start + 16 * BitVec.ofNat 32 i

/-- The first of the addresses at which the signature of the RSDP stands. -/
def findSignature : List Word → Code AcpiState (Option Word)
  | [] => return none
  | addr :: rest => do
    let differ ← memcmp addr rsdpSignature
    if differ = 0 then
      return some addr
    else
      findSignature rest

def ebdaAddresses (ebdaSegment : BitVec 16) : List Word :=
  let ebdaAddress := (ebdaSegment.setWidth 32 <<< 4) + kernelConfigVma
  every16 ebdaAddress (ebdaAddress + 1024)

def biosAddresses : List Word :=
  every16 (0x000E0000#32 + kernelConfigVma) (0x000FFFFF#32 + kernelConfigVma)

/-- `acpi_find_rsdp`; 0 is `NULL`. -/
def acpiFindRsdp : Code AcpiState Word := do
  let ebdaSegment ← load16 (0x040E#32 + kernelConfigVma)
  match ← findSignature (ebdaAddresses ebdaSegment) with
  | some addr => return addr
  | none =>
    match ← findSignature biosAddresses with
    | some addr => return addr
    | none => return 0

/-- One turn of the loop of `acpi_init`. -/
def acpiInitTurn (K : AcpiImage) (dev : Ports) (pointers : Word) (i : Nat) :
    Code AcpiState Unit := do
  let pointer ← load32 (pointers + 4 * BitVec.ofNat 32 i)
  visit (.pointer i)
  let header := pointer + kernelConfigVma
  let differ ← memcmp header fadtSignature
  if differ = 0 then
    initAcpiPowerButton K dev header
  else
    return ()

/-- The loop of `acpi_init` over the pointers of the RSDT, from pointer `i` on. -/
def acpiInitLoop (K : AcpiImage) (dev : Ports) (pointers : Word) :
    Nat → Nat → Code AcpiState Unit
  | 0, _ => return ()
  | n + 1, i => do
    acpiInitTurn K dev pointers i
    acpiInitLoop K dev pointers n (i + 1)

/-- The part of `acpi_init` after the RSDT is mapped; `entries`, at most `0x3FFFFFFF`, is not
negative as an `int`. -/
def acpiInitTables (K : AcpiImage) (dev : Ports) (rsdt : Word) : Code AcpiState Unit := do
  let length ← load32 (rsdt + sdtLength)
  let entries := (length - sdtHeaderSize) / 4
  let pointers := rsdt + sdtHeaderSize
  acpiInitLoop K dev pointers entries.toNat 0

def acpiInit (K : AcpiImage) (dev : Ports) : Code AcpiState Unit := do
  printk "Initializing ACPI !\n"
  let rsdp ← acpiFindRsdp
  let rsdt ← load32 (rsdp + rsdtAddress)
  let physBase := rsdt &&& 0xFFFFF000#32
  let virtBase := physBase + kernelConfigVma
  let flags := pagingPdePresent ||| pagingPdeReadwrite ||| pagingPdeSupervisor
  map4kb K physBase virtBase flags
  map4kb K (physBase + 0x1000#32) (virtBase + 0x1000#32) flags
  let offset := rsdt &&& 0x00000FFF#32
  acpiInitTables K dev (virtBase + offset)

/-! ### What the memory says -/

/-- The RSDP that `acpi_find_rsdp` finds. -/
def rsdp (m : Mem) : Option Word :=
  (ebdaAddresses (m.read16 (0x040E#32 + kernelConfigVma)) ++ biosAddresses).find? fun a =>
    Holds m a rsdpSignature

/-- The number of pointers of the RSDT at `rsdt`, by its length field. -/
def entries (m : Mem) (rsdt : Word) : Nat := ((m.read32 (rsdt + sdtLength) - sdtHeaderSize) / 4).toNat

/-- The address of pointer `i` of the RSDT at `rsdt`, and of the table that it names. -/
def slot (rsdt : Word) (i : Nat) : Word := rsdt + sdtHeaderSize + 4 * BitVec.ofNat 32 i
def header (m : Mem) (rsdt : Word) (i : Nat) : Word := m.read32 (slot rsdt i) + kernelConfigVma

/-- The button of the FADT is not a fixed one. -/
def needsInterpreter (m : Mem) (fadt : Word) : Prop :=
  m.read32 (fadt + fadtFlags) &&& BitVec.twoPow 32 4 ≠ 0

instance (m : Mem) (fadt : Word) : Decidable (needsInterpreter m fadt) :=
  inferInstanceAs (Decidable (_ ≠ _))

/-- What `init_acpi_power_button` leaves in memory. -/
def powerButtonMem (K : AcpiImage) (m : Mem) (fadt : Word) : Mem :=
  let m := m.write32 K.globalFadt fadt
  if needsInterpreter m fadt then m
  else
    idtSetInterruptHandler K.idt m (32 + (m.read16 (fadt + sciInterrupt)).setWidth 8)
      K.acpiInterruptHandlerPower

/-- The memory when the loop of `acpi_init` comes to pointer `i`. -/
def loopMem (K : AcpiImage) (m : Mem) (rsdt : Word) : Nat → Mem
  | 0 => m
  | i + 1 =>
    let m := loopMem K m rsdt i
    if Holds m (header m rsdt i) fadtSignature then powerButtonMem K m (header m rsdt i) else m

/-- What the loop does with pointer `i`. -/
def visitsAt (K : AcpiImage) (m : Mem) (rsdt : Word) (i : Nat) : List Visit :=
  let m := loopMem K m rsdt i
  .pointer i ::
    if Holds m (header m rsdt i) fadtSignature then [.powerButton (header m rsdt i)] else []

/-- The fields that `init_acpi_power_button` reads are good. -/
structure FadtIn (good : Word → Prop) (m : Mem) (fadt : Word) : Prop where
  flags : Span good (fadt + fadtFlags) 4
  pm1a : ¬needsInterpreter m fadt → Span good (fadt + pm1aEvtBlk) 4
  len : ¬needsInterpreter m fadt → good (fadt + pm1EvtLen)
  pm1b : ¬needsInterpreter m fadt → Span good (fadt + pm1bEvtBlk) 4
  sci : ¬needsInterpreter m fadt → Span good (fadt + sciInterrupt) 2

/-- What the loop reads for pointer `i` is good. -/
structure PointerIn (K : AcpiImage) (good : Word → Prop) (m : Mem) (rsdt : Word) (i : Nat) :
    Prop where
  pointer : Span good (slot rsdt i) 4
  signature : Span good (header m rsdt i) (examined m (header m rsdt i) fadtSignature)
  fadt : Holds m (header m rsdt i) fadtSignature →
    FadtIn good (m.write32 K.globalFadt (header m rsdt i)) (header m rsdt i)

/-! ### The addresses that are searched -/

theorem toNat_add_16_mul {start : Word} {i : Nat} (h : start.toNat + 16 * i < 2 ^ 32) :
    (start + 16 * BitVec.ofNat 32 i).toNat = start.toNat + 16 * i := by
  rw [show (16 : Word) = 16#32 from rfl, BitVec.toNat_add, BitVec.toNat_mul, BitVec.toNat_ofNat,
    BitVec.toNat_ofNat]
  omega

/-- The loop runs over the addresses in range that are a multiple of 16 bytes from its start. -/
theorem mem_every16_iff {start stop a : Word} :
    a ∈ every16 start stop ↔
      start.toNat ≤ a.toNat ∧ a.toNat < stop.toNat ∧ (a.toNat - start.toNat) % 16 = 0 := by
  have hlt := stop.isLt
  rw [every16, List.mem_map]
  simp only [List.mem_range]
  constructor
  · rintro ⟨i, hi, rfl⟩
    rw [toNat_add_16_mul (by omega)]
    omega
  · rintro ⟨hle, hlt', hmod⟩
    refine ⟨(a.toNat - start.toNat) / 16, by omega, BitVec.eq_of_toNat_eq ?_⟩
    rw [toNat_add_16_mul (by omega)]
    omega

theorem toNat_ebdaAddress (seg : BitVec 16) :
    (seg.setWidth 32 <<< 4 + kernelConfigVma : Word).toNat = 16 * seg.toNat + 0xC0000000 := by
  have := seg.isLt
  rw [BitVec.toNat_add, BitVec.toNat_shiftLeft, BitVec.toNat_setWidth, Nat.shiftLeft_eq,
    toNat_kernelConfigVma]
  omega

theorem toNat_sub_vma {a : Word} (h : 0xC0000000 ≤ a.toNat) :
    (a - kernelConfigVma).toNat = a.toNat - 0xC0000000 :=
  BitVec.toNat_sub_of_le h

theorem mem_ebdaAddresses_iff {seg : BitVec 16} {a : Word} :
    a ∈ ebdaAddresses seg ↔ 0xC0000000 + 16 * seg.toNat ≤ a.toNat ∧
      a.toNat < 0xC0000000 + 16 * seg.toNat + 1024 ∧ a.toNat % 16 = 0 := by
  have := seg.isLt
  have hstart := toNat_ebdaAddress seg
  have hstop : (seg.setWidth 32 <<< 4 + kernelConfigVma + 1024 : Word).toNat =
      16 * seg.toNat + 0xC0000000 + 1024 := by
    rw [BitVec.toNat_add, hstart, show (1024 : Word).toNat = 1024 from rfl]
    omega
  rw [ebdaAddresses, mem_every16_iff, hstart, hstop]
  omega

theorem biosAddresses_eq : biosAddresses =
    every16 (0x000E0000#32 + kernelConfigVma) (0x000FFFFF#32 + kernelConfigVma) := rfl

theorem mem_biosAddresses_iff {a : Word} :
    a ∈ biosAddresses ↔ 0xC00E0000 ≤ a.toNat ∧ a.toNat < 0xC0100000 ∧ a.toNat % 16 = 0 := by
  have hstart : (0x000E0000#32 + kernelConfigVma).toNat = 0xC00E0000 := by decide
  have hstop : (0x000FFFFF#32 + kernelConfigVma).toNat = 0xC00FFFFF := by decide
  rw [biosAddresses_eq, mem_every16_iff, hstart, hstop]
  omega

-- the list is too long to be computed by unification
attribute [irreducible] biosAddresses

section Runs

variable (s : AcpiState) {good : Word → Prop}

theorem run_findSignature (addrs : List Word) :
    (findSignature addrs).run (fun s => s.mem.byte) s =
      (addrs.find? fun a => Holds s.mem a rsdpSignature, s) := by
  induction addrs with
  | nil => rfl
  | cons a addrs ih =>
    have hiff := run_memcmp_eq_zero_iff AcpiState.mem s a rsdpSignature
    rw [findSignature, Code.run_bind, run_memcmp_state AcpiState.mem]
    by_cases h : Holds s.mem a rsdpSignature
    · rw [if_pos (hiff.mpr h), List.find?_cons, decide_eq_true h]
      rfl
    · rw [if_neg (mt hiff.mp h), ih, List.find?_cons, decide_eq_false h]

theorem safe_findSignature {addrs : List Word} (h : ∀ a ∈ addrs, Span good a 8) :
    (findSignature addrs).Safe (fun s => s.mem.byte) (fun _ => good) s := by
  induction addrs with
  | nil => trivial
  | cons a addrs ih =>
    rw [findSignature, Code.safe_bind, safe_memcmp AcpiState.mem,
      run_memcmp_state AcpiState.mem]
    refine ⟨(h a List.mem_cons_self).mono (examined_le _ _ _), ?_⟩
    split
    · trivial
    · exact ih fun b hb => h b (List.mem_cons_of_mem a hb)

theorem run_acpiFindRsdp :
    acpiFindRsdp.run (fun s => s.mem.byte) s = ((rsdp s.mem).getD 0, s) := by
  rw [acpiFindRsdp, Code.run_bind, run_load16 AcpiState.mem, Code.run_bind,
    run_findSignature, rsdp, List.find?_append]
  generalize (ebdaAddresses _).find? _ = found
  cases found with
  | some a => rfl
  | none =>
    simp only [Code.run_bind, run_findSignature, Option.none_or]
    generalize biosAddresses.find? _ = found
    cases found <;> rfl

/-- The accesses to the ports of the event blocks leave alone what does not depend on them. -/
theorem keeps_enablePm1a {inv : AcpiState → Prop}
    (hports : ∀ s ports, inv s → inv { s with ports }) (dev : Ports) (fadt : Word) :
    (enablePm1a dev fadt).Keeps inv :=
  (keeps_load32 _).bind fun _ => (keeps_load8 _).bind fun _ =>
    (keeps_value fun s => hports s _).bind fun _ => keeps_effect fun s => hports s _

theorem keeps_enablePm1b {inv : AcpiState → Prop}
    (hports : ∀ s ports, inv s → inv { s with ports }) (dev : Ports) (fadt : Word) :
    (enablePm1b dev fadt).Keeps inv := by
  refine (keeps_load32 _).bind fun _ => ?_
  split
  · exact (keeps_load32 _).bind fun _ => (keeps_load8 _).bind fun _ =>
      ((keeps_value fun s => hports s _).bind fun _ => Code.keeps_pure _).bind fun _ =>
        keeps_effect fun s => hports s _
  · exact Code.keeps_pure _

theorem run_initAcpiPowerButton (K : AcpiImage) (dev : Ports) (fadt : Word) :
    let s' := ((initAcpiPowerButton K dev fadt).run (fun s => s.mem.byte) s).2
    s'.mem = powerButtonMem K s.mem fadt ∧ s'.visits = s.visits ++ [.powerButton fadt] := by
  intro s'
  let inv : AcpiState → Prop := fun t =>
    t.mem = s.mem.write32 K.globalFadt fadt ∧ t.visits = s.visits ++ [.powerButton fadt]
  have hports : ∀ t ports, inv t → inv { t with ports } := fun t ports h => h
  have hload32 := run_load32 AcpiState.mem
  have hload16 := run_load16 AcpiState.mem
  simp only [s', initAcpiPowerButton, visit, store32, Code.run_bind, run_effect, hload32]
  generalize hs₁ : AcpiState.mk _ _ _ = s₁
  have h₁ : inv s₁ := by
    subst hs₁
    exact ⟨rfl, rfl⟩
  rw [powerButtonMem, h₁.1]
  by_cases hflags : (s.mem.write32 K.globalFadt fadt).read32 (fadt + fadtFlags) &&&
      BitVec.twoPow 32 4 ≠ 0
  · rw [if_pos hflags, if_pos (show needsInterpreter _ fadt from hflags)]
    exact h₁
  · rw [if_neg hflags, if_neg (show ¬needsInterpreter _ fadt from hflags)]
    have h₂ := (keeps_enablePm1a hports dev fadt).run (fun s => s.mem.byte) h₁
    simp only [Code.run_bind, hload16]
    generalize ((enablePm1a dev fadt).run _ s₁).2 = s₂ at h₂ ⊢
    have h₃ := (keeps_enablePm1b hports dev fadt).run (fun s => s.mem.byte) h₂
    generalize ((enablePm1b dev fadt).run _ s₂).2 = s₃ at h₃ ⊢
    rw [← h₃.1]
    exact ⟨rfl, h₃.2⟩

theorem run_acpiInitTurn (K : AcpiImage) (dev : Ports) (m : Mem) (rsdt : Word) (i : Nat)
    (hs : s.mem = loopMem K m rsdt i) :
    let s' := ((acpiInitTurn K dev (rsdt + sdtHeaderSize) i).run (fun s => s.mem.byte) s).2
    s'.mem = loopMem K m rsdt (i + 1) ∧ s'.visits = s.visits ++ visitsAt K m rsdt i := by
  intro s'
  have hload32 := run_load32 AcpiState.mem
  simp only [s', acpiInitTurn, visit, Code.run_bind, run_effect, hload32]
  rw [run_memcmp_state AcpiState.mem, loopMem, visitsAt, ← hs, header, slot]
  generalize hs₁ : AcpiState.mk _ _ _ = s₁
  generalize s.mem.read32 (rsdt + sdtHeaderSize + 4 * BitVec.ofNat 32 i) + kernelConfigVma = fadt
  have hmem : s₁.mem = s.mem := by rw [← hs₁]
  have hvisits : s₁.visits = s.visits ++ [.pointer i] := by rw [← hs₁]
  have hiff := run_memcmp_eq_zero_iff AcpiState.mem s₁ fadt fadtSignature
  rw [hmem] at hiff
  by_cases h : Holds s.mem fadt fadtSignature
  · obtain ⟨hm, hv⟩ := run_initAcpiPowerButton s₁ K dev fadt
    rw [if_pos (hiff.mpr h), if_pos h, if_pos h, hm, hv, hmem, hvisits, List.append_assoc]
    exact ⟨rfl, rfl⟩
  · rw [if_neg (mt hiff.mp h), if_neg h, if_neg h]
    exact ⟨hmem, hvisits⟩

theorem run_acpiInitLoop (K : AcpiImage) (dev : Ports) (m : Mem) (rsdt : Word) (n i : Nat)
    (s : AcpiState) (hs : s.mem = loopMem K m rsdt i) :
    ((acpiInitLoop K dev (rsdt + sdtHeaderSize) n i).run (fun s => s.mem.byte) s).2.visits =
      s.visits ++ (List.range' i n).flatMap (visitsAt K m rsdt) := by
  induction n generalizing i s with
  | zero => exact (List.append_nil _).symm
  | succ n ih =>
    obtain ⟨hm, hv⟩ := run_acpiInitTurn s K dev m rsdt i hs
    rw [acpiInitLoop, Code.run_bind, ih (i + 1) _ hm, hv, List.append_assoc, List.range'_succ,
      List.flatMap_cons]

theorem safe_enablePm1a (dev : Ports) (fadt : Word) :
    (enablePm1a dev fadt).Safe (fun s => s.mem.byte) (fun _ => good) s ↔
      Span good (fadt + pm1aEvtBlk) 4 ∧ good (fadt + pm1EvtLen) := by
  simp only [enablePm1a, ioPortIndw, ioPortOutw, Code.safe_bind,
    safe_load32 AcpiState.mem, safe_load8 AcpiState.mem,
    run_load32 AcpiState.mem, run_load8 AcpiState.mem, safe_value, safe_effect,
    and_true]

theorem safe_enablePm1b (dev : Ports) (fadt : Word) (hlen : good (fadt + pm1EvtLen)) :
    (enablePm1b dev fadt).Safe (fun s => s.mem.byte) (fun _ => good) s ↔
      Span good (fadt + pm1bEvtBlk) 4 := by
  rw [enablePm1b, Code.safe_bind, safe_load32 AcpiState.mem,
    run_load32 AcpiState.mem]
  split
  · simp only [ioPortInw, ioPortOutw, Code.safe_bind,
      safe_load32 AcpiState.mem, safe_load8 AcpiState.mem,
      run_load32 AcpiState.mem, run_load8 AcpiState.mem, safe_value,
      safe_effect, hlen, Code.safe_pure, and_true, and_self]
  · simp only [Code.safe_pure, and_true]

theorem safe_initAcpiPowerButton (K : AcpiImage) (dev : Ports) (fadt : Word) :
    (initAcpiPowerButton K dev fadt).Safe (fun s => s.mem.byte) (fun _ => good) s ↔
      FadtIn good (s.mem.write32 K.globalFadt fadt) fadt := by
  simp only [initAcpiPowerButton, visit, store32, Code.safe_bind, safe_effect, run_effect,
    safe_load32 AcpiState.mem, run_load32 AcpiState.mem, true_and]
  generalize hs₁ : AcpiState.mk _ _ _ = s₁
  have hmem : s₁.mem = s.mem.write32 K.globalFadt fadt := by rw [← hs₁]; rfl
  simp only [hmem]
  by_cases hflags : (s.mem.write32 K.globalFadt fadt).read32 (fadt + fadtFlags) &&&
      BitVec.twoPow 32 4 ≠ 0
  · have hneeds : needsInterpreter (s.mem.write32 K.globalFadt fadt) fadt := hflags
    rw [if_pos hflags, printk]
    constructor
    · rintro ⟨h, -⟩
      exact ⟨h, fun hn => absurd hneeds hn, fun hn => absurd hneeds hn,
        fun hn => absurd hneeds hn, fun hn => absurd hneeds hn⟩
    · exact fun h => ⟨h.flags, trivial⟩
  · have hneeds : ¬needsInterpreter (s.mem.write32 K.globalFadt fadt) fadt := hflags
    rw [if_neg hflags]
    simp only [Code.safe_bind, safe_enablePm1a, safe_load16 AcpiState.mem,
      setInterruptHandler, safe_effect, and_true]
    constructor
    · rintro ⟨h, ⟨hpm1a, hlen⟩, hpm1b, hsci⟩
      exact ⟨h, fun _ => hpm1a, fun _ => hlen, fun _ => (safe_enablePm1b _ dev fadt hlen).mp hpm1b,
        fun _ => hsci⟩
    · intro h
      have hlen := h.len hneeds
      exact ⟨h.flags, ⟨h.pm1a hneeds, hlen⟩,
        (safe_enablePm1b _ dev fadt hlen).mpr (h.pm1b hneeds), h.sci hneeds⟩

theorem safe_acpiInitTurn (K : AcpiImage) (dev : Ports) (rsdt : Word) (i : Nat) :
    (acpiInitTurn K dev (rsdt + sdtHeaderSize) i).Safe (fun s => s.mem.byte) (fun _ => good) s ↔
      PointerIn K good s.mem rsdt i := by
  simp only [acpiInitTurn, visit, Code.safe_bind, safe_effect, run_effect,
    safe_load32 AcpiState.mem, run_load32 AcpiState.mem, true_and]
  rw [safe_memcmp AcpiState.mem, run_memcmp_state AcpiState.mem]
  generalize hs₁ : AcpiState.mk _ _ _ = s₁
  have hmem : s₁.mem = s.mem := by rw [← hs₁]
  have hiff := run_memcmp_eq_zero_iff AcpiState.mem s₁ (header s.mem rsdt i) fadtSignature
  rw [hmem] at hiff ⊢
  rw [header, slot] at hiff
  by_cases h : Holds s.mem (header s.mem rsdt i) fadtSignature
  · rw [if_pos (hiff.mpr h), safe_initAcpiPowerButton, hmem]
    constructor
    · rintro ⟨hp, hsig, hf⟩
      exact ⟨hp, hsig, fun _ => hf⟩
    · exact fun hi => ⟨hi.pointer, hi.signature, hi.fadt h⟩
  · rw [if_neg (mt hiff.mp h)]
    constructor
    · rintro ⟨hp, hsig, -⟩
      exact ⟨hp, hsig, fun hf => absurd hf h⟩
    · exact fun hi => ⟨hi.pointer, hi.signature, trivial⟩

theorem safe_acpiInitLoop (K : AcpiImage) (dev : Ports) (m : Mem) (rsdt : Word) (n i : Nat)
    (s : AcpiState) (hs : s.mem = loopMem K m rsdt i) :
    (acpiInitLoop K dev (rsdt + sdtHeaderSize) n i).Safe (fun s => s.mem.byte) (fun _ => good) s ↔
      ∀ j, i ≤ j → j < i + n → PointerIn K good (loopMem K m rsdt j) rsdt j := by
  induction n generalizing i s with
  | zero => exact iff_of_true trivial fun j h h' => absurd (lt_of_le_of_lt h h') (lt_irrefl i)
  | succ n ih =>
    have hm := (run_acpiInitTurn s K dev m rsdt i hs).1
    rw [acpiInitLoop, Code.safe_bind, safe_acpiInitTurn, ih (i + 1) _ hm, hs]
    constructor
    · rintro ⟨hi, hrest⟩ j hij hj
      rcases Nat.eq_or_lt_of_le hij with rfl | hlt
      · exact hi
      · exact hrest j hlt (by omega)
    · intro h
      exact ⟨h i le_rfl (by omega), fun j hij hj => h j (by omega) (by omega)⟩

end Runs

end BasicX86Kernel.Acpi
