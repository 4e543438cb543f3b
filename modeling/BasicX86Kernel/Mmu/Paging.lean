import BasicX86Kernel.Klib.Mem
import BasicX86Kernel.System

/-! `ksrc/mmu/paging.c` and `paging.h`: the page directory and the page tables of the kernel, the
functions that map pages into them, and `paging_init`. -/

namespace BasicX86Kernel.Mmu

open Machine Klib

/-- The number of kernel page tables, `KERNEL_CONFIG_PAGING_PAGE_TABLES`. -/
def kernelConfigPagingPageTables : Nat := 10

def pagingPdePresent : Word := 0x001#32
def pagingPdeReadwrite : Word := 0x002#32
def pagingPdeSupervisor : Word := 0x000#32
def pagingPdeSize : Word := 0x080#32

def pagingPtePresent : Word := 0x001#32
def pagingPteReadwrite : Word := 0x002#32
def pagingPteSupervisor : Word := 0x000#32
def pagingPteWriteThrough : Word := 0x008#32
def pagingPteCacheDisable : Word := 0x010#32

/-- Where the linker puts `_pgdir` and `_pgtbls`: aligned to 4 KiB, apart from each other, and in
the kernel image, which starts at `KERNEL_CONFIG_LMA + KERNEL_CONFIG_VMA`. -/
structure Layout where
  pgdir : Word
  pgtbls : Word
  pgdir_aligned : pgdir.toNat % 4096 = 0
  pgtbls_aligned : pgtbls.toNat % 4096 = 0
  pgdir_image : 0xC0100000 ≤ pgdir.toNat
  pgtbls_image : 0xC0100000 ≤ pgtbls.toNat
  pgtbls_end : pgtbls.toNat + 40960 ≤ 2 ^ 32
  disjoint : pgdir.toNat + 4096 ≤ pgtbls.toNat ∨ pgtbls.toNat + 40960 ≤ pgdir.toNat

namespace Layout

variable (L : Layout)

/-- The linear address of page table `t`. -/
def table (t : Nat) : Word := L.pgtbls + 4096 * BitVec.ofNat 32 t

/-- The physical address of page table `t`. -/
def tablePhys (t : Nat) : Word := L.pgtbls - kernelConfigVma + 4096 * BitVec.ofNat 32 t

/-- The physical address of the page directory, which `paging_init` loads into CR3. -/
def cr3 : Word := L.pgdir - kernelConfigVma

end Layout

/-- Some entry of the page table at `tbl` is present. -/
def pagingTableUsed (m : Mem) (tbl : Word) : Bool :=
  (List.range 1024).any fun entryIdx => present (m.entry tbl (BitVec.ofNat 32 entryIdx))

/-- The first page table that is not used, by its physical address, and 0 when all are. -/
def pagingFreeTable (L : Layout) (m : Mem) : Word :=
  match (List.range kernelConfigPagingPageTables).find?
      fun idx => !pagingTableUsed m (L.table idx) with
  | some idx => L.tablePhys idx
  | none => 0

def pagingGetPageTable (L : Layout) (s : System) : Word × System :=
  let s := s.printk "    number of kernel page tables: %d\n"
    [BitVec.ofNat 32 kernelConfigPagingPageTables]
  (pagingFreeTable L s.mem, s)

def pagingFlushPtblEntry (s : System) (linaddr : Word) : System := s.invlpg linaddr

def pagingSetPageDirectory (s : System) (pd : Word) : System := s.loadCr3 pd

def pagingGetPageDirectory (s : System) : Word := s.cr3

def pagingMap4mb (L : Layout) (s : System) (phyaddr linaddr flags : Word) : System :=
  let pgdir := L.pgdir
  let s := s.store32 (pgdir + (4 : Word) * (linaddr >>> 22))
    ((phyaddr &&& 0xFFC00000#32) ||| pagingPdeSize ||| flags)
  pagingFlushPtblEntry s linaddr

def pagingMap4kb (L : Layout) (s : System) (phyaddr linaddr flags : Word) : System :=
  let pgdir := L.pgdir
  let pdIndex := linaddr >>> 22
  let currentPde := s.mem.read32 (pgdir + (4 : Word) * pdIndex)
  let (pgtbl, s) :=
    if currentPde &&& pagingPdePresent = 0 then
      let (pgtbl, s) := pagingGetPageTable L s
      (pgtbl, s.store32 (pgdir + (4 : Word) * pdIndex)
        ((pgtbl &&& 0xFFFFF000#32) ||| pagingPdePresent ||| pagingPdeReadwrite |||
          pagingPdeSupervisor))
    else (currentPde &&& 0xFFFFF000#32, s)
  let pgtbl := pgtbl + kernelConfigVma
  let ptIndex := (linaddr >>> 12) &&& 0x3FF#32
  let s := s.store32 (pgtbl + (4 : Word) * ptIndex) ((phyaddr &&& 0xFFFFF000#32) ||| flags)
  pagingFlushPtblEntry s linaddr

/-- `paging_get_phyaddr`, with its loads going through the active tables; `none` is a page
fault. -/
def pagingGetPhyaddr (s : System) (linaddr : Word) : Option Word := do
  let pgdir := pagingGetPageDirectory s
  let entry ← s.load32 (pgdir + (4 : Word) * (linaddr >>> 22))
  if entry &&& pagingPdePresent = 0 then
    return 0
  if entry &&& pagingPdeSize ≠ 0 then
    return (entry &&& 0xFFC00000#32) ||| (linaddr &&& 0x003FFFFF#32)
  let pgtbl := entry &&& 0xFFFFF000#32
  let ptIndex := (linaddr >>> 12) &&& 0x3FF#32
  let pte ← s.load32 (pgtbl + (4 : Word) * ptIndex)
  if pte &&& pagingPtePresent = 0 then
    return 0
  return (pte &&& 0xFFFFF000#32) ||| (linaddr &&& 0x00000FFF#32)

/-! ### Initialization -/

/-- A kernel image: the layout, and the value of the linker symbol `__kernel_physical_end`, a
physical address past the image. -/
structure Image extends Layout where
  kernelPhysicalEnd : Word
  end_aligned : kernelPhysicalEnd.toNat % 4 = 0
  end_bound : kernelPhysicalEnd.toNat < 0x3EC00000
  pgdir_end : pgdir.toNat + 4096 ≤ 0xC0000000 + kernelPhysicalEnd.toNat
  pgtbls_below : pgtbls.toNat + 40960 ≤ 0xC0000000 + kernelPhysicalEnd.toNat

/-- The symbols of the image `build/ksrc/Kernel.elf`. -/
def kernelElf : Image where
  pgdir := 0xC0110000#32
  pgtbls := 0xC0111000#32
  pgdir_aligned := by decide
  pgtbls_aligned := by decide
  pgdir_image := by decide
  pgtbls_image := by decide
  pgtbls_end := by decide
  disjoint := by decide
  kernelPhysicalEnd := 0x0011B014#32
  end_aligned := by decide
  end_bound := by decide
  pgdir_end := by decide
  pgtbls_below := by decide

/-- The directory `entry_page_directory` of `_entry.s`, which is active until `paging_init` loads
its own: entry `i` maps 4 MiB at `i` times 4 MiB, starting over from 0 at `KERNEL_CONFIG_VMA`. -/
def entryPageDirectory (i : Word) : Word :=
  let addr := if i < 768#32 then i <<< 22 else (i - 768#32) <<< 22
  addr ||| 0x87#32

/-- The translation of `entry_page_directory`, which references no page tables. -/
def bootTranslate (a : Word) : Option Word :=
  (walk entryPageDirectory (fun _ _ => 0) a).map Translation.phys

/-- The rvalue of an object at linear address `a` while `entry_page_directory` is active. -/
def bootLoad32 (s : System) (a : Word) : Option Word :=
  (bootTranslate a).map fun p => s.mem.read32 (p + kernelConfigVma)

/-- The loop of `paging_init` over the kernel's memory.  After 1024 iterations `map_addr` is back
at 0 and the loop does not end, which is `none`. -/
def pagingInitMap (I : Image) : Nat → System → Word → Option System
  | 0, _, _ => none
  | fuel + 1, s, mapAddr => do
    let kernelPhysicalEnd ← bootLoad32 s I.kernelPhysicalEnd
    if mapAddr ≤ kernelPhysicalEnd then
      let s := s.printk "    mapping 4MiB from phyaddr 0x%x to virtaddr 0x%x\n"
        [mapAddr, mapAddr + kernelConfigVma]
      let s := pagingMap4mb I.toLayout s mapAddr (mapAddr + kernelConfigVma)
        (pagingPdePresent ||| pagingPdeReadwrite ||| pagingPdeSupervisor)
      pagingInitMap I fuel s (mapAddr + 0x400000#32)
    else
      return s

def pagingInit (I : Image) (s : System) : Option System := do
  let s := s.printk "Initializing PAGING !\n" []
  let s := { s with mem := memset s.mem I.pgdir 0x00#32 4096#32 }
  let s := { s with mem := memset s.mem I.pgtbls 0x00#32 40960#32 }
  let s ← pagingInitMap I 1025 s 0
  let apicFlags := pagingPtePresent ||| pagingPteReadwrite ||| pagingPteSupervisor |||
    pagingPteCacheDisable ||| pagingPteWriteThrough
  let s := pagingMap4kb I.toLayout s 0xFEC00000#32 0xFEC00000#32 apicFlags
  let s := pagingMap4kb I.toLayout s 0xFEE00000#32 0xFEE00000#32 apicFlags
  let s := pagingSetPageDirectory s (I.pgdir - kernelConfigVma)
  let s := { s with cr4 := s.cr4 ||| 0x00000010#32 }
  let s := { s with cr0 := s.cr0 ||| 0x80000000#32 }
  return s

end BasicX86Kernel.Mmu
