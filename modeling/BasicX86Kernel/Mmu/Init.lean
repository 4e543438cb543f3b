import BasicX86Kernel.Mmu.Directory
import BasicX86Kernel.Mmu.Refinement

/-! `paging_init`: the tables that it builds, and how much of the kernel image they map.  The loop
over the kernel's memory compares with the word that the linker script emits at
`__kernel_physical_end`, not with the address of that symbol, and maps the first 4 MiB only. -/

namespace BasicX86Kernel.Mmu

open Machine Klib

/-! ### The boot directory -/

theorem entryPageDirectory_eq {i : Word} (hi : i.toNat < 1024) :
    (entryPageDirectory i).toNat = i.toNat % 768 * 4194304 + 0x87 := by
  have hshift : ∀ j : Word, j.toNat < 1024 →
      (j <<< 22 ||| 0x87#32).toNat = j.toNat * 4194304 + 0x87 := by
    intro j hj
    have hj' : (j <<< 22).toNat = j.toNat * 4194304 := by
      rw [BitVec.toNat_shiftLeft, Nat.shiftLeft_eq]
      omega
    rw [toNat_or_low (k := 22) (by omega) (by decide), hj']
    rfl
  rw [entryPageDirectory]
  split
  · rw [hshift _ hi]
    bv_omega
  · rw [hshift _ (by bv_omega)]
    bv_omega

theorem getLsbD_entryPageDirectory (i : Word) {k : Nat} (hk : k < 22) :
    (entryPageDirectory i).getLsbD k = (0x87#32).getLsbD k := by
  have hshift : ∀ j : Word, (j <<< 22 ||| 0x87#32).getLsbD k = (0x87#32).getLsbD k := by
    intro j
    rw [BitVec.getLsbD_or, BitVec.getLsbD_shiftLeft]
    simp [hk]
  rw [entryPageDirectory]
  split <;> exact hshift _

/-- The boot directory maps the addresses below `KERNEL_CONFIG_VMA` to themselves, and those above
to the physical addresses from 0 on. -/
theorem bootTranslate_eq (a : Word) :
    bootTranslate a = some (if a < kernelConfigVma then a else a - kernelConfigVma) := by
  have hdir := entryPageDirectory_eq (dirIndex_lt a)
  rw [bootTranslate, walk_large (getLsbD_entryPageDirectory _ (by decide))
    (getLsbD_entryPageDirectory _ (by decide)), Option.map_some, Option.some_inj]
  apply BitVec.eq_of_toNat_eq
  rw [toNat_largeFrame_or_offset, hdir, toNat_dirIndex]
  split
  · next h =>
    have : a.toNat < 0xC0000000 := h
    omega
  · next h =>
    have : ¬a.toNat < 0xC0000000 := h
    rw [BitVec.toNat_sub, toNat_kernelConfigVma]
    omega

namespace Image

variable (I : Image)

theorem bootLoad32_end (s : System) : bootLoad32 s I.kernelPhysicalEnd =
    some (s.mem.read32 (I.kernelPhysicalEnd + kernelConfigVma)) := by
  have hend : I.kernelPhysicalEnd < kernelConfigVma := by
    have := I.end_bound
    exact show I.kernelPhysicalEnd.toNat < 0xC0000000 by omega
  rw [bootLoad32, bootTranslate_eq, if_pos hend, Option.map_some]

/-- The word at `__kernel_physical_end` lies past the page directory and the page tables. -/
theorem read32_end_congr {m m' : Mem} (h : ∀ x : Word, m'.byte x ≠ m.byte x →
      (x - I.pgdir).toNat < 4096 ∨ (x - I.pgtbls).toNat < 40960) :
    m'.read32 (I.kernelPhysicalEnd + kernelConfigVma) =
      m.read32 (I.kernelPhysicalEnd + kernelConfigVma) := by
  have hbound := I.end_bound
  have hdir := I.pgdir_end
  have htbl := I.pgtbls_below
  have hend : (I.kernelPhysicalEnd + kernelConfigVma).toNat =
      I.kernelPhysicalEnd.toNat + 0xC0000000 := by
    rw [BitVec.toNat_add, toNat_kernelConfigVma]
    omega
  refine Mem.read32_congr fun x hx => ?_
  by_contra hne
  have := h x hne
  bv_omega

end Image

/-! ### The zeroed tables -/

/-- The state in which the loop over the kernel's memory starts: both tables hold zeros. -/
def zeroTables (I : Image) (s : System) : System :=
  let s := s.printk "Initializing PAGING !\n" []
  { s with mem := memset (memset s.mem I.pgdir 0x00#32 4096#32) I.pgtbls 0x00#32 40960#32 }

theorem zeroTables_mem (I : Image) (s : System) : (zeroTables I s).mem =
    memset (memset s.mem I.pgdir 0x00#32 4096#32) I.pgtbls 0x00#32 40960#32 := rfl

theorem byte_zeroTables (I : Image) (s : System) (x : Word) :
    (zeroTables I s).mem.byte x =
      if (x - I.pgtbls).toNat < 40960 ∨ (x - I.pgdir).toNat < 4096 then 0 else s.mem.byte x := by
  have hdir : (4096#32).toNat = 4096 := rfl
  have htbl : (40960#32).toNat = 40960 := rfl
  rw [zeroTables_mem, byte_memset, byte_memset, hdir, htbl]
  by_cases h : (x - I.pgtbls).toNat < 40960
  · rw [if_pos h, if_pos (Or.inl h)]
    rfl
  · by_cases h' : (x - I.pgdir).toNat < 4096
    · rw [if_neg h, if_pos h', if_pos (Or.inr h')]
      rfl
    · rw [if_neg h, if_neg h', if_neg (not_or.mpr ⟨h, h'⟩)]

theorem zeroed_zeroTables (I : Image) (s : System) : Zeroed I.toLayout (zeroTables I s).mem := by
  constructor
  · intro i hi
    have := Mem.toNat_entry I.pgdir_pageAligned hi
    refine Mem.read32_of_zero fun x hx => ?_
    rw [byte_zeroTables, if_pos (Or.inr (by bv_omega))]
  · intro t ht j hj
    have := Mem.toNat_entry (I.table_pageAligned ht) hj
    have := I.toNat_table ht
    refine Mem.read32_of_zero fun x hx => ?_
    rw [byte_zeroTables, if_pos (Or.inl (by bv_omega))]

theorem read32_end_zeroTables (I : Image) (s : System) :
    (zeroTables I s).mem.read32 (I.kernelPhysicalEnd + kernelConfigVma) =
      s.mem.read32 (I.kernelPhysicalEnd + kernelConfigVma) := by
  refine I.read32_end_congr fun x hx => ?_
  rw [byte_zeroTables] at hx
  by_contra hno
  rw [not_or] at hno
  exact hx (if_neg (not_or.mpr ⟨hno.2, hno.1⟩))

theorem read32_end_map4mb (I : Image) (s : System) (p l f : Word) :
    (pagingMap4mb I.toLayout s p l f).mem.read32 (I.kernelPhysicalEnd + kernelConfigVma) =
      s.mem.read32 (I.kernelPhysicalEnd + kernelConfigVma) := by
  have hentry := Mem.toNat_entry I.pgdir_pageAligned (dirIndex_lt l)
  have := dirIndex_lt l
  refine I.read32_end_congr fun x hx => Or.inl ?_
  by_contra hno
  rw [pagingMap4mb_mem, Mem.setEntry] at hx
  exact hx (Mem.byte_write32_ne (by bv_omega))

/-! ### The calls of `paging_init` -/

/-- The one `paging_map_4mb` that the loop makes, and the two `paging_map_4kb` for the APICs. -/
def initCalls : List PagingCall :=
  [.map4mb 0#32 0xC0000000#32 0x3#32, .map4kb 0xFEC00000#32 0xFEC00000#32 0x1B#32,
    .map4kb 0xFEE00000#32 0xFEE00000#32 0x1B#32]

/-- The state in which `paging_init` makes its first call. -/
def initStart (I : Image) (s : System) : System :=
  (zeroTables I s).printk "    mapping 4MiB from phyaddr 0x%x to virtaddr 0x%x\n"
    [0#32, kernelConfigVma]

/-- The loop over the kernel's memory stops after its first iteration when the word at
`__kernel_physical_end` is 0. -/
theorem pagingInitMap_of_zero {I : Image} {s : System}
    (h : s.mem.read32 (I.kernelPhysicalEnd + kernelConfigVma) = 0) (fuel : Nat) :
    pagingInitMap I (fuel + 2) s 0 = some (pagingMap4mb I.toLayout
      (s.printk "    mapping 4MiB from phyaddr 0x%x to virtaddr 0x%x\n" [0#32, kernelConfigVma])
      0#32 0xC0000000#32 0x3#32) := by
  rw [pagingInitMap, I.bootLoad32_end, h]
  show pagingInitMap I (fuel + 1) (pagingMap4mb I.toLayout _ 0#32 0xC0000000#32 0x3#32)
    0x400000#32 = _
  rw [pagingInitMap, I.bootLoad32_end, read32_end_map4mb, System.printk_mem, h]
  rfl

/-- The state in which `paging_init` returns. -/
def initEnd (I : Image) (s : System) : System :=
  let s := (initCalls.foldl (pagingStep I.toLayout) (initStart I s)).loadCr3 I.cr3
  { s with cr4 := s.cr4 ||| 0x10#32, cr0 := s.cr0 ||| 0x80000000#32 }

theorem pagingInit_of_zero {I : Image} {s : System}
    (h : s.mem.read32 (I.kernelPhysicalEnd + kernelConfigVma) = 0) :
    pagingInit I s = some (initEnd I s) := by
  have hloop := pagingInitMap_of_zero (s := zeroTables I s)
    ((read32_end_zeroTables I s).trans h) 1023
  show (pagingInitMap I 1025 (zeroTables I s) 0).bind _ = _
  rw [hloop]
  rfl

theorem initEnd_mem (I : Image) (s : System) :
    (initEnd I s).mem = (initCalls.foldl (pagingStep I.toLayout) (initStart I s)).mem := rfl

theorem initEnd_cr3 (I : Image) (s : System) : (initEnd I s).cr3 = I.cr3 := rfl

/-- The load of CR3 leaves nothing stale in the translation lookaside buffer. -/
theorem coherent_initEnd (I : Image) (s : System) : (initEnd I s).Coherent :=
  System.coherent_loadCr3 (s := initCalls.foldl (pagingStep I.toLayout) (initStart I s))

theorem zeroTables_fills (I : Image) (s : System) : (zeroTables I s).fills = s.fills := by
  rw [zeroTables]
  rfl

theorem initStart_fills (I : Image) (s : System) : (initStart I s).fills = s.fills := by
  rw [initStart, ← zeroTables_fills I s]
  rfl

theorem initCalls_fills (L : Layout) (s : System) :
    (initCalls.foldl (pagingStep L) s).fills = s.fills := by
  simp only [initCalls, List.foldl_cons, List.foldl_nil, pagingStep, pagingMap4kb_fills,
    pagingMap4mb_fills]

theorem mem_tlb_initEnd {I : Image} {s : System} {e : TlbEntry}
    (he : e.Agrees (translate (initEnd I s).mem (initEnd I s).cr3)) (hfill : ∀ n, e ∈ s.fills n) :
    e ∈ (initEnd I s).tlb := by
  have hfills := (initCalls_fills I.toLayout (initStart I s)).trans (initStart_fills I s)
  rw [initEnd_mem, initEnd_cr3] at he
  rw [← hfills] at hfill
  rw [initEnd]
  generalize initCalls.foldl (pagingStep I.toLayout) (initStart I s) = s' at he hfill ⊢
  exact System.mem_tlb_loadCr3 he hfill

theorem zeroed_initStart (I : Image) (s : System) : Zeroed I.toLayout (initStart I s).mem :=
  zeroed_zeroTables I s

/-- The calls of `paging_init` map present pages, and none is inside a 4 MiB page. -/
theorem allowed_initCalls {L : Layout} {s₀ : System} (hz : Zeroed L s₀.mem) :
    Allowed (pagingStep L) (MapsPresent L) s₀ initCalls := by
  have h₀ := InOrder.of_zeroed hz
  have hmaps₁ : MapsPresent L s₀ (.map4mb 0#32 0xC0000000#32 0x3#32) :=
    ⟨by decide, by decide, trivial⟩
  have h₁ := (h₀.step hmaps₁ (Nat.zero_le 10)).1
  have habs : present (pdeOf L (pagingStep L s₀ (.map4mb 0#32 0xC0000000#32 0x3#32)).mem
      0xFEC00000#32) = false := by
    rw [pde_step_ne (h₀.sparesDirectory hmaps₁) (by decide)]
    exact hz.absent 0xFEC00000#32
  rw [initCalls]
  refine ⟨hmaps₁, ?_⟩
  generalize pagingStep L s₀ (.map4mb 0#32 0xC0000000#32 0x3#32) = s₁ at h₁ habs ⊢
  -- the page of the IOAPIC is in a region that is not mapped yet
  have hmaps₂ : MapsPresent L s₁ (.map4kb 0xFEC00000#32 0xFEC00000#32 0x1B#32) :=
    ⟨by decide, by decide, fun h => absurd h.1 (ne_true_of_eq_false habs)⟩
  have hapic : HasTable L (pagingStep L s₁ (.map4kb 0xFEC00000#32 0xFEC00000#32 0x1B#32)).mem
      0xFEC00000#32 :=
    (hasTable_map4kb (h₁.sparesDirectory hmaps₂)
      fun h => absurd h (ne_true_of_eq_false habs)).1
  refine ⟨hmaps₂, ?_, trivial⟩
  generalize pagingStep L s₁ (.map4kb 0xFEC00000#32 0xFEC00000#32 0x1B#32) = s₂ at hapic ⊢
  -- the page of the LAPIC is in the same region, which has a page table now
  have hlapic : HasTable L s₂.mem 0xFEE00000#32 := by
    have hd : dirIndex 0xFEE00000#32 = dirIndex 0xFEC00000#32 := by decide
    rwa [HasTable, pdeOf, hd]
  exact ⟨by decide, by decide, fun h => absurd h.2 (ne_true_of_eq_false hlapic.2)⟩

/-! ### The tables that `paging_init` builds -/

/-- What `paging_init` leaves in the tables: 4 MiB at `KERNEL_CONFIG_VMA`, one page table for the
region of the APICs, and nothing else. -/
structure Initialized (I : Image) (m : Mem) : Prop where
  inOrder : InOrder I.toLayout 1 m
  dirOk : DirOk I.toLayout m
  kernel : ∀ a, dirIndex a = 768#32 → pdeOf I.toLayout m a = largeEntry 0#32 0x3#32
  apic : ∀ a, dirIndex a = 0x3FB#32 → HasTable I.toLayout m a
  absent : ∀ a, dirIndex a ≠ 768#32 → dirIndex a ≠ 0x3FB#32 →
    present (pdeOf I.toLayout m a) = false
  translate : ∀ a, translate m I.cr3 a = lastWriter PagingCall.maps initCalls a

theorem initialized_initEnd (I : Image) (s : System) : Initialized I (initEnd I s).mem := by
  have hz := zeroed_initStart I s
  rw [initEnd_mem]
  generalize initStart I s = s₀ at hz ⊢
  generalize hL : I.toLayout = L at hz ⊢
  have hrun := allowed_initCalls hz
  obtain ⟨hmaps₁, hmaps₂, hmaps₃, -⟩ := allowed_initCalls hz
  -- the kernel's 4 MiB page
  have h₀ := InOrder.of_zeroed hz
  have h₁ := (h₀.step hmaps₁ (Nat.zero_le 10)).1
  have hok₁ := hz.dirOk.step (h₀.sparesDirectory hmaps₁) hmaps₁.1
  have hpde₁ : ∀ a, dirIndex a ≠ 768#32 → present (pdeOf L
      (pagingStep L s₀ (.map4mb 0#32 0xC0000000#32 0x3#32)).mem a) = false := fun a ha => by
    rw [pde_step_ne (h₀.sparesDirectory hmaps₁) ha]
    exact hz.absent a
  have hker₁ : ∀ a, dirIndex a = 768#32 → pdeOf L
      (pagingStep L s₀ (.map4mb 0#32 0xC0000000#32 0x3#32)).mem a = largeEntry 0#32 0x3#32 :=
    fun a ha => pde_map4mb_same ha
  generalize hs₁ : pagingStep L s₀ (.map4mb 0#32 0xC0000000#32 0x3#32) = s₁
    at h₁ hok₁ hpde₁ hker₁ hmaps₂ hmaps₃
  -- the page of the IOAPIC, which takes the first page table
  have habs := hpde₁ 0xFEC00000#32 (by decide)
  have halloc₂ : allocates L s₁ (.map4kb 0xFEC00000#32 0xFEC00000#32 0x1B#32) = true := by
    rw [allocates, habs]
    rfl
  have h₂ : InOrder L 1 (pagingStep L s₁ (.map4kb 0xFEC00000#32 0xFEC00000#32 0x1B#32)).mem := by
    have h := (h₁.step hmaps₂ (by rw [halloc₂, allocates]; decide)).1
    rwa [halloc₂] at h
  have hok₂ := hok₁.step (h₁.sparesDirectory hmaps₂) hmaps₂.1
  have hpde₂ : ∀ a, dirIndex a ≠ 0x3FB#32 → pdeOf L
      (pagingStep L s₁ (.map4kb 0xFEC00000#32 0xFEC00000#32 0x1B#32)).mem a = pdeOf L s₁.mem a :=
    fun a ha => pde_step_ne (h₁.sparesDirectory hmaps₂) ha
  have hapic₂ : HasTable L (pagingStep L s₁ (.map4kb 0xFEC00000#32 0xFEC00000#32 0x1B#32)).mem
      0xFEC00000#32 :=
    (hasTable_map4kb (h₁.sparesDirectory hmaps₂)
      fun h => absurd h (ne_true_of_eq_false habs)).1
  generalize hs₂ : pagingStep L s₁ (.map4kb 0xFEC00000#32 0xFEC00000#32 0x1B#32) = s₂
    at h₂ hok₂ hpde₂ hapic₂ hmaps₃
  -- the page of the LAPIC, in the same region
  have hlapic₂ : HasTable L s₂.mem 0xFEE00000#32 := by
    have hd : dirIndex 0xFEE00000#32 = dirIndex 0xFEC00000#32 := by decide
    rwa [HasTable, pdeOf, hd]
  have halloc₃ : allocates L s₂ (.map4kb 0xFEE00000#32 0xFEE00000#32 0x1B#32) = false := by
    rw [allocates, hlapic₂.1]
    rfl
  have hpde₃ : ∀ a, pdeOf L (pagingStep L s₂ (.map4kb 0xFEE00000#32 0xFEE00000#32 0x1B#32)).mem a =
      pdeOf L s₂.mem a := fun a => h₂.owned.pde_map4kb hlapic₂ a
  have hok₃ := hok₂.step (h₂.sparesDirectory hmaps₃) hmaps₃.1
  have halloc : allocations L s₀ initCalls = 1 := by
    simp only [initCalls, allocations, hs₁, hs₂, halloc₂, halloc₃]
    rfl
  obtain ⟨h₃, htr⟩ := InOrder.run hz hrun (by rw [halloc]; decide)
  rw [halloc] at h₃
  simp only [initCalls, List.foldl_cons, List.foldl_nil, hs₁, hs₂] at h₃ htr ⊢
  subst hL
  refine ⟨h₃, hok₃, fun a ha => ?_, fun a ha => ?_, fun a ha hb => ?_, htr⟩
  · rw [hpde₃, hpde₂ a (by rw [ha]; decide), hker₁ a ha]
  · rw [HasTable, hpde₃, pdeOf, ha]
    exact hapic₂
  · rw [hpde₃, hpde₂ a hb]
    exact hpde₁ a ha

/-! ### How much of the kernel is mapped -/

section Calls

variable {a : Word}

theorem lastWriter_initCalls : lastWriter PagingCall.maps initCalls a =
    (if a >>> 12 = 0xFEE00#32 then some (frame 0xFEE00000#32 ||| (a &&& 0xFFF#32)) else none).or
      ((if a >>> 12 = 0xFEC00#32 then some (frame 0xFEC00000#32 ||| (a &&& 0xFFF#32))
        else none).or
      (if dirIndex a = 768#32 then some (largeFrame 0#32 ||| (a &&& 0x3FFFFF#32)) else none)) := by
  rw [initCalls, ← List.nil_append [_, _, _], List.append_cons, List.append_cons,
    lastWriter_append_singleton, lastWriter_append_singleton, List.nil_append,
    ← List.nil_append [_], lastWriter_append_singleton, lastWriter_nil, Option.or_none]
  rfl

theorem initCalls_kernel (h : dirIndex a = 768#32) :
    lastWriter PagingCall.maps initCalls a = some (a - kernelConfigVma) := by
  have hd := congrArg BitVec.toNat h
  rw [toNat_dirIndex, show (768#32).toNat = 768 from rfl] at hd
  have hne : ∀ b : Word, 0xFE000 ≤ b.toNat → a >>> 12 ≠ b := by
    rintro b hb rfl
    rw [BitVec.toNat_ushiftRight, Nat.shiftRight_eq_div_pow] at hb
    omega
  rw [lastWriter_initCalls, if_neg (hne _ (by decide)), if_neg (hne _ (by decide)), if_pos h,
    Option.none_or, Option.none_or, Option.some_inj]
  apply BitVec.eq_of_toNat_eq
  rw [toNat_largeFrame_or_offset, BitVec.toNat_sub, toNat_kernelConfigVma]
  show 0 + a.toNat % 4194304 = _
  omega

theorem frame_or_offset {p : Word} (h : a >>> 12 = p >>> 12) : frame p ||| (a &&& 0xFFF#32) = a := by
  have h := congrArg BitVec.toNat h
  simp only [BitVec.toNat_ushiftRight, Nat.shiftRight_eq_div_pow] at h
  apply BitVec.eq_of_toNat_eq
  rw [toNat_frame_or_offset]
  omega

theorem initCalls_apic (h : a >>> 12 = 0xFEC00#32 ∨ a >>> 12 = 0xFEE00#32) :
    lastWriter PagingCall.maps initCalls a = some a := by
  rw [lastWriter_initCalls]
  rcases h with h | h
  · rw [if_neg (by rw [h]; decide), if_pos h, Option.none_or, Option.some_or,
      frame_or_offset (p := 0xFEC00000#32) h]
  · rw [if_pos h, Option.some_or, frame_or_offset (p := 0xFEE00000#32) h]

theorem initCalls_none (hd : dirIndex a ≠ 768#32) (hio : a >>> 12 ≠ 0xFEC00#32)
    (hlocal : a >>> 12 ≠ 0xFEE00#32) : lastWriter PagingCall.maps initCalls a = none := by
  rw [lastWriter_initCalls, if_neg hlocal, if_neg hio, if_neg hd]
  rfl

end Calls

/-- The active tables map the kernel image as the boot directory does, the two APIC pages to
themselves, and nothing else outside the 4 MiB pages that the image reaches. -/
structure MapsKernel (I : Image) (s : System) : Prop where
  kernel : ∀ p ≤ I.kernelPhysicalEnd,
    translate s.mem s.cr3 (p + kernelConfigVma) = some p ∧
      bootTranslate (p + kernelConfigVma) = some p
  ioapic : ∀ a : Word, a >>> 12 = 0xFEC00#32 → translate s.mem s.cr3 a = some a
  lapic : ∀ a : Word, a >>> 12 = 0xFEE00#32 → translate s.mem s.cr3 a = some a
  nothingElse : ∀ a : Word, a >>> 12 ≠ 0xFEC00#32 → a >>> 12 ≠ 0xFEE00#32 →
    (dirIndex a < dirIndex kernelConfigVma ∨
      dirIndex (I.kernelPhysicalEnd + kernelConfigVma) < dirIndex a) →
    translate s.mem s.cr3 a = none

theorem toNat_add_vma {p : Word} (hp : p.toNat < 0x40000000) :
    (p + kernelConfigVma).toNat = p.toNat + 0xC0000000 := by
  rw [BitVec.toNat_add, toNat_kernelConfigVma]
  omega

theorem bootTranslate_add_vma {p : Word} (hp : p.toNat < 0x40000000) :
    bootTranslate (p + kernelConfigVma) = some p := by
  have h : ¬p + kernelConfigVma < kernelConfigVma := by
    rw [BitVec.lt_def, toNat_add_vma hp, toNat_kernelConfigVma]
    omega
  rw [bootTranslate_eq, if_neg h, BitVec.add_sub_cancel]

theorem dirIndex_add_vma {p : Word} (hp : p.toNat < 0x40000000) :
    (dirIndex (p + kernelConfigVma)).toNat = 768 + p.toNat / 4194304 := by
  rw [toNat_dirIndex, toNat_add_vma hp]
  omega

variable {I : Image} {s : System}

theorem translate_initEnd (a : Word) : translate (initEnd I s).mem (initEnd I s).cr3 a =
    lastWriter PagingCall.maps initCalls a := (initialized_initEnd I s).translate a

/-- An image that ends in its first 4 MiB is mapped. -/
theorem mapsKernel_initEnd (h : I.kernelPhysicalEnd < 0x400000#32) : MapsKernel I (initEnd I s) := by
  have hend : I.kernelPhysicalEnd.toNat < 0x400000 := h
  constructor
  · intro p hp
    have hp : p.toNat ≤ I.kernelPhysicalEnd.toNat := hp
    have hd : dirIndex (p + kernelConfigVma) = 768#32 := by
      apply BitVec.eq_of_toNat_eq
      rw [dirIndex_add_vma (by omega), show (768#32).toNat = 768 from rfl]
      omega
    rw [translate_initEnd, initCalls_kernel hd, BitVec.add_sub_cancel]
    exact ⟨rfl, bootTranslate_add_vma (by omega)⟩
  · intro a ha
    rw [translate_initEnd, initCalls_apic (Or.inl ha)]
  · intro a ha
    rw [translate_initEnd, initCalls_apic (Or.inr ha)]
  · intro a hio hlocal hd
    rw [translate_initEnd, initCalls_none _ hio hlocal]
    rintro heq
    rw [heq, BitVec.lt_def, BitVec.lt_def, dirIndex_add_vma (by omega)] at hd
    rcases hd with hd | hd
    · exact absurd hd (by decide)
    · have : (768#32).toNat = 768 := rfl
      omega

/-- Physical address 4 MiB is not mapped. -/
theorem not_mapsKernel_initEnd (h : 0x400000#32 ≤ I.kernelPhysicalEnd) :
    ¬MapsKernel I (initEnd I s) := by
  intro hmaps
  have hnone : translate (initEnd I s).mem (initEnd I s).cr3 (0x400000#32 + kernelConfigVma) =
      none := by
    rw [translate_initEnd, initCalls_none] <;> decide
  have hsome := (hmaps.kernel _ h).1
  rw [hnone] at hsome
  exact Option.some_ne_none _ hsome.symm

/-- `paging_init` maps exactly the images that end in their first 4 MiB. -/
theorem pagingInit_mapsKernel_iff (I : Image) (s : System)
    (hword : s.mem.read32 (I.kernelPhysicalEnd + kernelConfigVma) = 0) :
    (∃ s', pagingInit I s = some s' ∧ MapsKernel I s') ↔ I.kernelPhysicalEnd < 0x400000#32 := by
  rw [pagingInit_of_zero hword]
  constructor
  · rintro ⟨s', hs', hmaps⟩
    obtain rfl := Option.some_inj.mp hs'
    by_contra hno
    exact not_mapsKernel_initEnd (BitVec.not_lt.mp hno) hmaps
  · intro h
    exact ⟨_, rfl, mapsKernel_initEnd h⟩

theorem pagingInit_mapsKernel_kernelElf :
    ∃ s', pagingInit kernelElf System.blank = some s' ∧ MapsKernel kernelElf s' :=
  (pagingInit_mapsKernel_iff kernelElf System.blank (read32_blank _)).mpr (by decide)

/-- An image with 4 MiB of further data before the page directory. -/
def kernelElf5mb : Image where
  pgdir := 0xC0510000#32
  pgtbls := 0xC0511000#32
  pgdir_aligned := by decide
  pgtbls_aligned := by decide
  pgdir_image := by decide
  pgtbls_image := by decide
  pgtbls_end := by decide
  disjoint := by decide
  kernelPhysicalEnd := 0x0051B014#32
  end_aligned := by decide
  end_bound := by decide
  pgdir_end := by decide
  pgtbls_below := by decide

/-- The second 4 MiB of the larger image are not mapped. -/
theorem pagingInit_not_mapsKernel_kernelElf5mb :
    System.blank.mem.read32 (kernelElf5mb.kernelPhysicalEnd + kernelConfigVma) = 0 ∧
      ¬∃ s', pagingInit kernelElf5mb System.blank = some s' ∧ MapsKernel kernelElf5mb s' := by
  refine ⟨read32_blank _, ?_⟩
  rintro ⟨s', hs', hmaps⟩
  rw [pagingInit_of_zero (read32_blank _)] at hs'
  obtain rfl := Option.some_inj.mp hs'
  exact not_mapsKernel_initEnd (by decide) hmaps

end BasicX86Kernel.Mmu
