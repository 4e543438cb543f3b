import BasicX86Kernel.Machine.Memory
import BasicX86Kernel.Machine.Tlb

/-! The machine that the kernel's C code runs on: memory as the kernel's pointers see it, the
control registers, and the translation lookaside buffer. -/

namespace BasicX86Kernel

open Machine

/-- The load address of the kernel. -/
def kernelConfigLma : Word := 0x00100000#32

/-- The start of the higher half: physical address `p` is linear address `p + kernelConfigVma`. -/
def kernelConfigVma : Word := 0xC0000000#32

theorem toNat_kernelConfigVma : kernelConfigVma.toNat = 0xC0000000 := rfl

/-- A call of `printk`: the format and the argument words. -/
structure Printed where
  fmt : String
  args : List Word

/-- The state of the machine.  `mem` is indexed by the linear addresses of the higher half, so that
a C pointer `p` of the kernel designates `mem.byte p` and physical address `p` is at
`p + kernelConfigVma`.  `fills n` is what the processor tries to cache after its `n`-th store,
flush or load of CR3, and `printed` is what has been handed to `printk`. -/
structure System where
  mem : Mem
  cr0 : Word
  cr3 : Word
  cr4 : Word
  tlb : Tlb
  fills : Nat → Set TlbEntry
  clock : Nat
  printed : List Printed

/-- The walk that the processor performs over `m` with `cr3` in the register CR3. -/
def walkAt (m : Mem) (cr3 : Word) (a : Word) : Option Translation :=
  walk (m.entry (frame cr3 + kernelConfigVma)) (fun t => m.entry (t + kernelConfigVma)) a

/-- The physical address that the tables at `cr3` give for `a`. -/
def translate (m : Mem) (cr3 : Word) (a : Word) : Option Word :=
  (walkAt m cr3 a).map Translation.phys

/-- The tables at `cr3` map a 4 MiB page around `a`. -/
def largeAt (m : Mem) (cr3 : Word) (a : Word) : Bool :=
  let pde := m.entry (frame cr3 + kernelConfigVma) (dirIndex a)
  present pde && large pde

namespace System

/-- A machine with zeros in memory and in its registers, which caches translations eagerly. -/
def blank : System where
  mem := ⟨fun _ => 0⟩
  cr0 := 0
  cr3 := 0
  cr4 := 0
  tlb := ∅
  fills := fun _ => Set.univ
  clock := 0
  printed := []

/-- The processor caches translations of its choice. -/
def fill (s : System) : System :=
  { s with tlb := s.tlb.fill (translate s.mem s.cr3) (s.fills s.clock), clock := s.clock + 1 }

def store32 (s : System) (a v : Word) : System :=
  fill { s with mem := s.mem.write32 a v }

def invlpg (s : System) (a : Word) : System :=
  fill { s with tlb := s.tlb.invlpg (largeAt s.mem s.cr3) a }

/-- A load of CR3 empties the translation lookaside buffer. -/
def loadCr3 (s : System) (v : Word) : System :=
  fill { s with cr3 := v, tlb := ∅ }

def printk (s : System) (fmt : String) (args : List Word) : System :=
  { s with printed := s.printed ++ [⟨fmt, args⟩] }

/-- A 32-bit load through the active tables; `none` is a page fault. -/
def load32 (s : System) (a : Word) : Option Word :=
  (translate s.mem s.cr3 a).map fun p => s.mem.read32 (p + kernelConfigVma)

section

variable (s : System) (a v : Word) (fmt : String) (args : List Word)

@[simp] theorem fill_mem : s.fill.mem = s.mem := rfl
@[simp] theorem fill_cr3 : s.fill.cr3 = s.cr3 := rfl
@[simp] theorem store32_mem : (s.store32 a v).mem = s.mem.write32 a v := rfl
@[simp] theorem store32_cr3 : (s.store32 a v).cr3 = s.cr3 := rfl
@[simp] theorem invlpg_mem : (s.invlpg a).mem = s.mem := rfl
@[simp] theorem invlpg_cr3 : (s.invlpg a).cr3 = s.cr3 := rfl
@[simp] theorem loadCr3_mem : (s.loadCr3 v).mem = s.mem := rfl
@[simp] theorem loadCr3_cr3 : (s.loadCr3 v).cr3 = v := rfl
@[simp] theorem printk_mem : (s.printk fmt args).mem = s.mem := rfl
@[simp] theorem printk_cr3 : (s.printk fmt args).cr3 = s.cr3 := rfl
@[simp] theorem printk_tlb : (s.printk fmt args).tlb = s.tlb := rfl

/-! ### Coherence of the translation lookaside buffer -/

/-- The cached translations of the pages that are not stale agree with the active tables. -/
def CoherentOutside (stale : BitVec 20 → Prop) : Prop :=
  Tlb.CoherentOutside (translate s.mem s.cr3) stale s.tlb

/-- All cached translations agree with the active tables. -/
def Coherent : Prop := Tlb.Coherent (translate s.mem s.cr3) s.tlb

variable {s a v} {stale : BitVec 20 → Prop}

/-- A store keeps the agreement on the pages whose translations it keeps. -/
theorem CoherentOutside.store32 (h : s.CoherentOutside stale)
    (hkeep : ∀ x p, ¬stale (pageOf x) → translate s.mem s.cr3 x = some p →
      translate (s.mem.write32 a v) s.cr3 x = some p) :
    (s.store32 a v).CoherentOutside stale :=
  (Tlb.CoherentOutside.change h hkeep).fill _

/-- A flush of a page that covers the stale pages restores the agreement on all pages. -/
theorem CoherentOutside.invlpg (h : s.CoherentOutside stale)
    (hstale : ∀ p, stale p → Tlb.InPage (largeAt s.mem s.cr3) a p) : (s.invlpg a).Coherent :=
  (Tlb.CoherentOutside.invlpg h hstale).fill _

theorem coherent_loadCr3 : (s.loadCr3 v).Coherent := Tlb.Coherent.empty.fill _

/-- The processor may cache any translation that the tables give, right after a load of CR3. -/
theorem mem_tlb_loadCr3 {e : TlbEntry} (he : e.Agrees (translate s.mem v))
    (hfill : ∀ n, e ∈ s.fills n) : e ∈ (s.loadCr3 v).tlb := Or.inr ⟨hfill _, he⟩

end

end System

end BasicX86Kernel
