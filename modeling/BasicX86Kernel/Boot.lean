import BasicX86Kernel.System
import BasicX86Kernel.Machine.Cpu

/-! `ksrc/_entry.s`: the way from the boot loader to `kmain`.

The memory is indexed as in `System`, so that the stack is at its linear addresses after the jump to
the higher half, and `kernelConfigVma` above them before it. -/

namespace BasicX86Kernel

open Machine

def multibootMagic : Word := 0x2BADB002#32

/-- A function of the kernel that the boot code calls.  Of the stack, which ends at
`kernelStackTop`, it keeps what its callers have pushed; it does not touch CR0. -/
structure BootFunction (kernelStackTop off : Word) where
  run : Cpu → Cpu
  cdecl : ∀ s n, (kernelStackTop - (s.reg .esp + 4 + off)).toNat = 4 * n → n ≤ 4096 →
    Cpu.Cdecl off n s (run s)
  cr0 : ∀ s, (run s).cr0 = s.cr0

/-- Enable 4 MiB pages: the same instructions in `entry_init_paging` and in `paging_init`. -/
def enableLargePages (s : Cpu) : Cpu :=
  let s := s.set .eax s.cr4
  let s := s.or .eax 0x00000010#32
  { s with cr4 := s.reg .eax }

/-- Enable paging: the same instructions in `entry_init_paging` and in `paging_init`. -/
def enablePaging (s : Cpu) : Cpu :=
  let s := s.set .eax s.cr0
  let s := s.or .eax 0x80000000#32
  { s with cr0 := s.reg .eax }

/-- `paging_init` as it is compiled: a body that does not touch CR0, the two blocks of inline
assembly, and the epilogue of a function without a result, which does not touch EAX. -/
structure PagingInit (kernelStackTop : Word) where
  body : Cpu → Cpu
  epilogue : Cpu → Cpu
  cdecl : ∀ s n, (kernelStackTop - (s.reg .esp + 4 + 0)).toNat = 4 * n → n ≤ 4096 →
    Cpu.Cdecl 0 n s (epilogue (enablePaging (enableLargePages (body s))))
  cr0 : ∀ s, (body s).cr0 = s.cr0
  eax : ∀ s, (epilogue s).reg .eax = s.reg .eax

def PagingInit.run {top : Word} (p : PagingInit top) (s : Cpu) : Cpu :=
  p.epilogue (enablePaging (enableLargePages (p.body s)))

/-- The kernel as it is linked: where its stack is, the functions that the boot code calls, the
page directory for the boot, and the addresses that calls leave on the stack. -/
structure BootImage where
  kernelStackTop : Word
  stack_linked : (kernelConfigLma + kernelConfigVma).toNat ≤ kernelStackTop.toNat
  entryPageDirectory : Word
  gdtInit : BootFunction kernelStackTop kernelConfigVma
  idtInit : BootFunction kernelStackTop kernelConfigVma
  pagingInit : PagingInit kernelStackTop
  ret : Nat → Word

/-- Set the page directory. -/
def setPageDirectory (b : BootImage) (s : Cpu) : Cpu :=
  let s := s.set .eax s.cr3
  let s := s.or .eax (b.entryPageDirectory - kernelConfigVma)
  { s with cr3 := s.reg .eax }

/-- Initialize the page directory, to allow the jump to the higher half. -/
def entryInitPaging (b : BootImage) (s : Cpu) : Cpu :=
  let s := s.push kernelConfigVma (s.reg .ebp)
  let s := s.set .ebp (s.reg .esp)
  let s := setPageDirectory b s
  let s := enableLargePages s
  let s := enablePaging s
  let s := s.leave kernelConfigVma
  s.ret kernelConfigVma

/-- From the entry point to the long jump. -/
def entry (b : BootImage) (s : Cpu) : Cpu :=
  let s := s.set .esp (b.kernelStackTop - kernelConfigVma)
  let s := s.push kernelConfigVma (s.reg .ebp)
  let s := s.set .ebp (s.reg .esp)
  let s := s.add .ebx kernelConfigVma
  let s := s.push kernelConfigVma (s.reg .ebx)
  let s := s.push kernelConfigVma (s.reg .eax)
  let s := s.call kernelConfigVma (b.ret 0) (entryInitPaging b)
  let s := s.call kernelConfigVma (b.ret 1) b.gdtInit.run
  let s := s.call kernelConfigVma (b.ret 2) b.idtInit.run
  let s := s.pop kernelConfigVma .eax
  let s := s.pop kernelConfigVma .ebx
  { s with cs := 0x08#32 }

/-- From the long jump to the entry of `kmain`. -/
def entryHigherHalf (b : BootImage) (s : Cpu) : Cpu :=
  let s := s.add .esp kernelConfigVma
  let s := s.call 0 (b.ret 3) b.pagingInit.run
  let s := s.push 0 (s.reg .ebx)
  let s := s.push 0 (s.reg .eax)
  s.push 0 (b.ret 4)

/-- The state in which `kmain` is entered. -/
def boot (b : BootImage) (s : Cpu) : Cpu := entryHigherHalf b (entry b s)

/-- The parameters of `kmain`. -/
def kmainMagic (s : Cpu) : Word := s.mem.read32 (s.reg .esp + 4)

def kmainMbi (s : Cpu) : Word := s.mem.read32 (s.reg .esp + 8)

/-! ### The boot code keeps its stack -/

section

variable (b : BootImage) (s : Cpu)

theorem reg_setPageDirectory_ne {r : Reg} (h : r ≠ .eax) :
    (setPageDirectory b s).reg r = s.reg r := by
  simp [setPageDirectory, h]

theorem reg_enableLargePages_ne {r : Reg} (h : r ≠ .eax) :
    (enableLargePages s).reg r = s.reg r := by
  simp [enableLargePages, h]

theorem reg_enablePaging_ne {r : Reg} (h : r ≠ .eax) : (enablePaging s).reg r = s.reg r := by
  simp [enablePaging, h]

theorem eax_enablePaging : (enablePaging s).reg .eax = s.cr0 ||| 0x80000000#32 := by
  simp [enablePaging]

theorem cr0_enablePaging : (enablePaging s).cr0 = s.cr0 ||| 0x80000000#32 :=
  eax_enablePaging s

/-- `entry_init_paging` between its prologue and its epilogue. -/
def entryPagingBlocks : Cpu := enablePaging (enableLargePages (setPageDirectory b s))

theorem reg_entryPagingBlocks_ne {r : Reg} (h : r ≠ .eax) :
    (entryPagingBlocks b s).reg r = s.reg r := by
  rw [entryPagingBlocks, reg_enablePaging_ne _ h, reg_enableLargePages_ne _ h,
    reg_setPageDirectory_ne _ _ h]

theorem mem_entryPagingBlocks : (entryPagingBlocks b s).mem = s.mem := rfl

theorem cr0_entryPagingBlocks : (entryPagingBlocks b s).cr0 = s.cr0 ||| 0x80000000#32 :=
  cr0_enablePaging _

theorem entryInitPaging_eq : entryInitPaging b s =
    ((entryPagingBlocks b ((s.push kernelConfigVma (s.reg .ebp)).set .ebp
      ((s.push kernelConfigVma (s.reg .ebp)).reg .esp))).leave kernelConfigVma).ret
        kernelConfigVma := by
  unfold entryInitPaging entryPagingBlocks
  rfl

/-- `entry_init_paging` follows the calling convention. -/
theorem entryInitPaging_cdecl {n : Nat} (hn : 4 * (n + 2) ≤ 2 ^ 32) :
    Cpu.Cdecl kernelConfigVma n s (entryInitPaging b s) := by
  rw [entryInitPaging_eq]
  exact Cpu.Cdecl.frame hn (fun s _ hr => reg_entryPagingBlocks_ne b s hr)
    (fun s => mem_entryPagingBlocks b s)

theorem cr0_entryInitPaging : (entryInitPaging b s).cr0 = s.cr0 ||| 0x80000000#32 := by
  rw [entryInitPaging_eq]
  exact cr0_entryPagingBlocks b _

/-- `paging_init` leaves in EAX what it has stored into CR0. -/
theorem PagingInit.eax_run {top : Word} (p : PagingInit top) :
    (p.run s).reg .eax = s.cr0 ||| 0x80000000#32 := by
  have hbody : (enableLargePages (p.body s)).cr0 = s.cr0 := p.cr0 s
  rw [PagingInit.run, p.eax, eax_enablePaging, hbody]

/-- The stack of the boot code: `ws` on it, from `kernelStackTop` down. -/
structure BootStack (off : Word) (s : Cpu) (ws : List Word) : Prop where
  esp : s.reg .esp + off = b.kernelStackTop - 4 * BitVec.ofNat 32 ws.length
  words : s.Stacked off ws

variable {b s} {off v w : Word} {ws : List Word}

theorem BootStack.congr {s' : Cpu} (h : BootStack b off s ws) (hesp : s'.reg .esp = s.reg .esp)
    (hmem : s'.mem = s.mem) : BootStack b off s' ws where
  esp := by rw [hesp, h.esp]
  words := h.words.congr hesp hmem

theorem BootStack.push (h : BootStack b off s ws) (hlen : ws.length ≤ 16) (v : Word) :
    BootStack b off (s.push off v) (v :: ws) where
  esp := by
    have hesp := h.esp
    rw [Cpu.esp_push, List.length_cons]
    bv_omega
  words := h.words.push (by omega) v

theorem BootStack.pop {r : Reg} (h : BootStack b off s (w :: ws)) (hr : r ≠ .esp) :
    BootStack b off (s.pop off r) ws where
  esp := by
    have hesp := h.esp
    rw [List.length_cons] at hesp
    rw [Cpu.esp_pop hr]
    bv_omega
  words := h.words.pop hr

/-- A call of a function that keeps the stack of its callers. -/
theorem BootStack.call (h : BootStack b off s ws) (hlen : ws.length ≤ 16) (ret : Word)
    {f : Cpu → Cpu} (hf : ∀ s n, (b.kernelStackTop - (s.reg .esp + 4 + off)).toNat = 4 * n →
      n ≤ 4096 → Cpu.Cdecl off n s (f s)) :
    BootStack b off (s.call off ret f) ws ∧ (s.call off ret f).reg .ebx = s.reg .ebx := by
  rw [Cpu.call]
  have hesp := h.esp
  have hn : (b.kernelStackTop - ((s.push off ret).reg .esp + 4 + off)).toNat =
      4 * ws.length := by
    rw [Cpu.esp_push]
    bv_omega
  have hcdecl := hf _ ws.length hn (by omega)
  obtain ⟨hwords, hret⟩ := hcdecl.stacked h.words le_rfl (by omega)
  exact ⟨⟨by rw [hret, hesp], hwords⟩, hcdecl.ebx.trans (Cpu.reg_push_ne (by decide))⟩

/-- A call of a function changes CR0 as the function does. -/
theorem cr0_call (ret : Word) {f : Cpu → Cpu} {g : Word → Word}
    (hf : ∀ s, (f s).cr0 = g s.cr0) : (s.call off ret f).cr0 = g s.cr0 := by
  rw [Cpu.call, hf]
  rfl

theorem eax_call (ret : Word) {f : Cpu → Cpu} {g : Word → Word}
    (hf : ∀ s, (f s).reg .eax = g s.cr0) : (s.call off ret f).reg .eax = g s.cr0 := by
  rw [Cpu.call, hf]
  rfl

/-- The values of the boot loader are on the stack at the call of `entry_init_paging`, and in their
registers again at the long jump. -/
theorem entry_spec (b : BootImage) (s : Cpu) :
    ∃ ebp, BootStack b kernelConfigVma (entry b s) [ebp] ∧
      (entry b s).reg .eax = s.reg .eax ∧
      (entry b s).reg .ebx = s.reg .ebx + kernelConfigVma ∧
      (entry b s).cr0 = s.cr0 ||| 0x80000000#32 := by
  generalize hfin : entry b s = fin
  unfold entry at hfin
  extract_lets s₁ s₂ s₃ s₄ s₅ s₆ s₇ s₈ s₉ s₁₀ s₁₁ at hfin
  have h₁ : BootStack b kernelConfigVma s₁ [] := ⟨by simp [s₁], trivial⟩
  have heax₁ : s₁.reg .eax = s.reg .eax := by simp [s₁]
  have hebx₁ : s₁.reg .ebx = s.reg .ebx := by simp [s₁]
  have hcr₁ : s₁.cr0 = s.cr0 := rfl
  clear_value s₁
  have h₂ : BootStack b kernelConfigVma s₂ [s₁.reg .ebp] := h₁.push (by simp) _
  have heax₂ : s₂.reg .eax = s₁.reg .eax := Cpu.reg_push_ne (by decide)
  have hebx₂ : s₂.reg .ebx = s₁.reg .ebx := Cpu.reg_push_ne (by decide)
  have hcr₂ : s₂.cr0 = s₁.cr0 := rfl
  clear_value s₂
  have h₄ : BootStack b kernelConfigVma s₄ [s₁.reg .ebp] := h₂.congr (by simp [s₄, s₃]) rfl
  have heax₄ : s₄.reg .eax = s₂.reg .eax := by simp [s₄, s₃]
  have hebx₄ : s₄.reg .ebx = s₂.reg .ebx + kernelConfigVma := by simp [s₄, s₃]
  have hcr₄ : s₄.cr0 = s₂.cr0 := rfl
  clear_value s₄
  have h₅ : BootStack b kernelConfigVma s₅ [s₄.reg .ebx, s₁.reg .ebp] := h₄.push (by simp) _
  have heax₅ : s₅.reg .eax = s₄.reg .eax := Cpu.reg_push_ne (by decide)
  have hcr₅ : s₅.cr0 = s₄.cr0 := rfl
  clear_value s₅
  have h₆ : BootStack b kernelConfigVma s₆ [s₅.reg .eax, s₄.reg .ebx, s₁.reg .ebp] := h₅.push (by simp) _
  have hcr₆ : s₆.cr0 = s₅.cr0 := rfl
  clear_value s₆
  -- the three calls keep the stack, and the last two keep CR0
  have h₇ : BootStack b kernelConfigVma s₇ [s₅.reg .eax, s₄.reg .ebx, s₁.reg .ebp] :=
    (h₆.call (by simp) (b.ret 0) fun s n _ hn => entryInitPaging_cdecl b s (by omega)).1
  have hcr₇ : s₇.cr0 = s₆.cr0 ||| 0x80000000#32 :=
    cr0_call (g := (· ||| 0x80000000#32)) (b.ret 0) (cr0_entryInitPaging b)
  clear_value s₇
  have h₈ : BootStack b kernelConfigVma s₈ [s₅.reg .eax, s₄.reg .ebx, s₁.reg .ebp] :=
    (h₇.call (by simp) (b.ret 1) b.gdtInit.cdecl).1
  have hcr₈ : s₈.cr0 = s₇.cr0 := cr0_call (g := id) (b.ret 1) b.gdtInit.cr0
  clear_value s₈
  have h₉ : BootStack b kernelConfigVma s₉ [s₅.reg .eax, s₄.reg .ebx, s₁.reg .ebp] :=
    (h₈.call (by simp) (b.ret 2) b.idtInit.cdecl).1
  have hcr₉ : s₉.cr0 = s₈.cr0 := cr0_call (g := id) (b.ret 2) b.idtInit.cr0
  clear_value s₉
  have h₁₀ : BootStack b kernelConfigVma s₁₀ [s₄.reg .ebx, s₁.reg .ebp] := h₉.pop (by decide)
  have heax₁₀ : s₁₀.reg .eax = s₅.reg .eax := Cpu.reg_pop_same.trans h₉.words.top
  have hcr₁₀ : s₁₀.cr0 = s₉.cr0 := rfl
  clear_value s₁₀
  have h₁₁ : BootStack b kernelConfigVma s₁₁ [s₁.reg .ebp] := h₁₀.pop (by decide)
  have heax₁₁ : s₁₁.reg .eax = s₁₀.reg .eax := Cpu.reg_pop_ne (by decide) (by decide)
  have hebx₁₁ : s₁₁.reg .ebx = s₄.reg .ebx := Cpu.reg_pop_same.trans h₁₀.words.top
  have hcr₁₁ : s₁₁.cr0 = s₁₀.cr0 := rfl
  clear_value s₁₁
  subst hfin
  refine ⟨s₁.reg .ebp, h₁₁.congr rfl rfl, ?_, ?_, ?_⟩
  · show s₁₁.reg .eax = _
    rw [heax₁₁, heax₁₀, heax₅, heax₄, heax₂, heax₁]
  · show s₁₁.reg .ebx = _
    rw [hebx₁₁, hebx₄, hebx₂, hebx₁]
  · show s₁₁.cr0 = _
    rw [hcr₁₁, hcr₁₀, hcr₉, hcr₈, hcr₇, hcr₆, hcr₅, hcr₄, hcr₂, hcr₁]

/-- What `kmain` gets: what `paging_init` has left in EAX, and the information of the boot loader. -/
theorem boot_spec (b : BootImage) (s : Cpu) :
    kmainMagic (boot b s) = s.cr0 ||| 0x80000000#32 ∧
      kmainMbi (boot b s) = s.reg .ebx + kernelConfigVma := by
  obtain ⟨ebp, hentry, -, hebx, hcr⟩ := entry_spec b s
  rw [boot]
  generalize entry b s = s₀ at hentry hebx hcr ⊢
  generalize hfin : entryHigherHalf b s₀ = fin
  unfold entryHigherHalf at hfin
  extract_lets s₁ s₂ s₃ s₄ at hfin
  have hesp : s₁.reg .esp = s₀.reg .esp + kernelConfigVma := by simp [s₁]
  have hmem : s₁.mem = s₀.mem := Cpu.mem_add
  have hebx₁ : s₁.reg .ebx = s₀.reg .ebx := by simp [s₁]
  have hcr₁ : s₁.cr0 = s₀.cr0 := Cpu.cr0_add
  clear_value s₁
  have h₁ : BootStack b 0 s₁ [ebp] := by
    refine ⟨by rw [hesp, add_zero, hentry.esp], ?_⟩
    rw [Cpu.Stacked, hesp, add_zero, hmem]
    exact hentry.words
  obtain ⟨h₂, hebx₂⟩ : BootStack b 0 s₂ [ebp] ∧ s₂.reg .ebx = s₁.reg .ebx :=
    h₁.call (by simp) (b.ret 3) b.pagingInit.cdecl
  have heax₂ : s₂.reg .eax = s₁.cr0 ||| 0x80000000#32 :=
    eax_call (g := (· ||| 0x80000000#32)) (b.ret 3) fun s => b.pagingInit.eax_run s
  clear_value s₂
  have h₃ : BootStack b 0 s₃ [s₂.reg .ebx, ebp] := h₂.push (by simp) _
  have heax₃ : s₃.reg .eax = s₂.reg .eax := Cpu.reg_push_ne (by decide)
  clear_value s₃
  have h₄ : BootStack b 0 s₄ [s₃.reg .eax, s₂.reg .ebx, ebp] := h₃.push (by simp) _
  clear_value s₄
  have h₅ : BootStack b 0 fin [b.ret 4, s₃.reg .eax, s₂.reg .ebx, ebp] := by
    rw [← hfin]
    exact h₄.push (by simp) _
  obtain ⟨-, hmagic, hmbi, -⟩ := h₅.words
  have hadd : fin.reg .esp + 4 + 4 = fin.reg .esp + 8 := by bv_omega
  rw [add_zero] at hmagic hmbi
  rw [hadd] at hmbi
  rw [kmainMagic, kmainMbi, hmagic, hmbi, heax₃, heax₂, hcr₁, hcr, BitVec.or_assoc, BitVec.or_self,
    hebx₂, hebx₁, hebx]
  exact ⟨rfl, rfl⟩

/-- The Multiboot magic number of the boot loader never gets to `kmain`: the bit that enables paging
is set in what does. -/
theorem kmainMagic_ne_multibootMagic : kmainMagic (boot b s) ≠ multibootMagic := by
  rw [(boot_spec b s).1]
  intro h
  have hbit := congrArg (·.getLsbD 31) h
  simp [multibootMagic] at hbit

end

/-- The arguments of `kmain` are the magic number in EAX at the entry point and the information in
EBX, with the test of `kmain` as good as one of the first, exactly when EAX at the entry point is
what `paging_init` later stores into CR0; the second argument is always right. -/
theorem boot_handoff_iff (b : BootImage) (s : Cpu) :
    kmainMbi (boot b s) = s.reg .ebx + kernelConfigVma ∧
      ((kmainMagic (boot b s) = s.reg .eax ∧
          kmainMbi (boot b s) = s.reg .ebx + kernelConfigVma ∧
          (kmainMagic (boot b s) = multibootMagic ↔ s.reg .eax = multibootMagic)) ↔
        s.reg .eax = s.cr0 ||| 0x80000000#32) := by
  obtain ⟨hmagic, hmbi⟩ := boot_spec b s
  refine ⟨hmbi, fun h => h.1.symm.trans hmagic, fun h => ?_⟩
  have heax : kmainMagic (boot b s) = s.reg .eax := hmagic.trans h.symm
  exact ⟨heax, hmbi, by rw [heax]⟩

/-! ### A boot -/

/-- A function that returns at once. -/
def returns (top off : Word) : BootFunction top off where
  run := fun s => s.ret off
  cdecl := fun s n _ _ => Cpu.Cdecl.ret off n s
  cr0 := fun _ => rfl

/-- A kernel whose C functions do nothing but what the boot needs. -/
def smallImage : BootImage where
  kernelStackTop := 0xC0105000#32
  stack_linked := by decide
  entryPageDirectory := 0xC0106000#32
  gdtInit := returns _ _
  idtInit := returns _ _
  pagingInit :=
    { body := id
      epilogue := fun s => s.ret 0
      cdecl := fun s n _ _ => by
        have hret := Cpu.Cdecl.ret 0 n (enablePaging (enableLargePages s))
        have hreg : ∀ r, r ≠ .eax → (enablePaging (enableLargePages s)).reg r = s.reg r :=
          fun r hr => (reg_enablePaging_ne _ hr).trans (reg_enableLargePages_ne _ hr)
        refine ⟨?_, ?_, ?_, ?_, ?_, fun ws _ h => h⟩
        · exact hret.esp.trans (by rw [hreg _ (by decide)])
        · exact hret.ebx.trans (hreg _ (by decide))
        · exact hret.ebp.trans (hreg _ (by decide))
        · exact hret.esi.trans (hreg _ (by decide))
        · exact hret.edi.trans (hreg _ (by decide))
      cr0 := fun _ => rfl
      eax := fun s => by simp }
  ret := fun _ => 0

/-- The machine as a boot loader leaves it: protected mode, with the magic number in EAX. -/
def loaded : Cpu where
  reg := fun r => if r = .eax then multibootMagic else 0
  eip := 0x00100000#32
  cs := 0x08#32
  eflags := 0x2#32
  cr0 := 0x11#32
  cr3 := 0
  cr4 := 0
  mem := ⟨fun _ => 0⟩

/-- `kmain` gets CR0 in place of the magic number. -/
theorem boot_loses_magic : ¬∀ (b : BootImage) (s : Cpu),
    kmainMagic (boot b s) = s.reg .eax ∧ kmainMbi (boot b s) = s.reg .ebx + kernelConfigVma ∧
      (kmainMagic (boot b s) = multibootMagic ↔ s.reg .eax = multibootMagic) := by
  intro h
  obtain ⟨-, -, htest⟩ := h smallImage loaded
  exact kmainMagic_ne_multibootMagic (htest.mpr rfl)

end BasicX86Kernel
