import BasicX86Kernel.Acpi

/-! Which of the firmware's tables `acpi_init` can reach: the active page tables map those in the
first 4 MiB of physical memory and in the two pages from the RSDT on. -/

namespace BasicX86Kernel.Acpi

open Machine Klib Mmu

/-- The byte that `a` stands for is in the first 4 MiB of physical memory, or in the page of the
RSDT or the page after it. -/
def InWindow (rsdt a : Word) : Prop :=
  (a - kernelConfigVma).toNat < 0x400000 ∨ (a - kernelConfigVma) >>> 12 = rsdt >>> 12 ∨
    (a - kernelConfigVma) >>> 12 = (rsdt + 0x1000#32) >>> 12

/-- The state after the two calls of `paging_map_4kb`. -/
@[irreducible] def mapRsdt (K : AcpiImage) (s : System) (rsdt : Word) : System :=
  pagingMap4kb K.toLayout
    (pagingMap4kb K.toLayout s (frame rsdt) (frame rsdt + kernelConfigVma) 0x3#32)
    (frame rsdt + 0x1000#32) (frame rsdt + 0x1000#32 + kernelConfigVma) 0x3#32

theorem mapRsdt_mem_congr (K : AcpiImage) {s s' : System} (h : s'.mem = s.mem) (rsdt : Word) :
    (mapRsdt K s' rsdt).mem = (mapRsdt K s rsdt).mem := by
  rw [mapRsdt, mapRsdt]
  exact pagingMap4kb_mem_congr _ _ _ _ _ (pagingMap4kb_mem_congr _ _ _ _ _ h)

/-- There is an RSDP, and all that the loop reads of the RSDT that it names and of the tables that
this names lies in the window. -/
def TablesInWindow (K : AcpiImage) (s : System) : Prop :=
  ∃ a, rsdp s.mem = some a ∧
    let rsdt := s.mem.read32 (a + rsdtAddress)
    let m := (mapRsdt K s rsdt).mem
    ∀ i < entries m (rsdt + kernelConfigVma),
      PointerIn K (InWindow rsdt) (loopMem K m (rsdt + kernelConfigVma) i)
        (rsdt + kernelConfigVma) i

/-! ### The window -/

/-- The active tables map to the bytes that they stand for the addresses of the kernel's region and
those of `P`. -/
structure Windowed (K : AcpiImage) (P : Word → Prop) (s : AcpiState) : Prop where
  window : ∃ k ≤ 3, Window K.toLayout k P s.mem
  cr3 : s.sys.cr3 = K.cr3

section Windowed

variable {K : AcpiImage} {P : Word → Prop} {s : AcpiState}

theorem Windowed.direct_iff (h : Windowed K P s) (a : Word) :
    s.Direct a ↔ dirIndex a = 768#32 ∨ P a := by
  obtain ⟨k, -, hk⟩ := h.window
  rw [AcpiState.Direct, h.cr3]
  exact hk.direct a

/-- A store apart from the tables keeps the window. -/
theorem Windowed.write32 (h : Windowed K P s) {a v : Word} {n : Nat}
    (ha : Apart K.toLayout a n) {i : Nat} (hi : i + 4 ≤ n) {s' : AcpiState}
    (hmem : s'.mem = s.mem.write32 (a + BitVec.ofNat 32 i) v) (hcr3 : s'.sys.cr3 = s.sys.cr3) :
    Windowed K P s' := by
  obtain ⟨k, hk, hw⟩ := h.window
  obtain ⟨hdir, htbl, hend⟩ := ha
  have haddr : (a + BitVec.ofNat 32 i).toNat = a.toNat + i := by
    rw [BitVec.toNat_add, BitVec.toNat_ofNat]
    omega
  refine ⟨⟨k, hk, hw.congr fun x hx => ?_⟩, hcr3.trans h.cr3⟩
  rw [hmem]
  refine Mem.byte_write32_ne ?_
  have := K.pgtbls_end
  have := K.pgdir_aligned
  rcases hx with hx | hx <;> bv_omega

theorem keeps_initAcpiPowerButton (dev : Ports) (fadt : Word) :
    (initAcpiPowerButton K dev fadt).Keeps (Windowed K P) := by
  have hports : ∀ s ports, Windowed K P s → Windowed K P { s with ports } :=
    fun s ports h => ⟨h.window, h.cr3⟩
  refine (keeps_effect fun s h => ⟨h.window, h.cr3⟩).bind fun _ => ?_
  refine (keeps_effect fun s h => ?_).bind fun _ => ?_
  · exact h.write32 K.fadt_apart (i := 0) (v := fadt) (by decide) (by simp [AcpiState.mem]) rfl
  refine (keeps_load32 _).bind fun flags => ?_
  split
  · exact keeps_effect fun s h => ⟨h.window, h.cr3⟩
  · refine (keeps_enablePm1a hports dev fadt).bind fun _ => ?_
    refine (keeps_enablePm1b hports dev fadt).bind fun _ => ?_
    refine (keeps_load16 _).bind fun sci => keeps_effect fun s h => ?_
    have hlt := (32 + sci.setWidth 8 : BitVec 8).isLt
    refine h.write32 K.callback_apart (i := 4 * (32 + sci.setWidth 8 : BitVec 8).toNat)
      (v := K.acpiInterruptHandlerPower) (by omega) ?_ rfl
    rw [BitVec.ofNat_mul]
    rfl

theorem keeps_acpiInitLoop (dev : Ports) (pointers : Word) (n i : Nat) :
    (acpiInitLoop K dev pointers n i).Keeps (Windowed K P) := by
  induction n generalizing i with
  | zero => exact Code.keeps_pure _
  | succ n ih =>
    refine Code.Keeps.bind ?_ fun _ => ih (i + 1)
    refine (keeps_load32 _).bind fun pointer => ?_
    refine (keeps_effect fun s h => ⟨h.window, h.cr3⟩).bind fun _ => ?_
    refine (keeps_memcmp _ _).bind fun differ => ?_
    split
    · exact keeps_initAcpiPowerButton dev _
    · exact Code.keeps_pure _

end Windowed

/-! ### The search for the RSDP -/

theorem keeps_findSignature {inv : AcpiState → Prop} (addrs : List Word) :
    (findSignature addrs).Keeps inv := by
  induction addrs with
  | nil => exact Code.keeps_pure _
  | cons a addrs ih =>
    refine (keeps_memcmp a rsdpSignature).bind fun differ => ?_
    split
    · exact Code.keeps_pure _
    · exact ih

theorem keeps_acpiFindRsdp {inv : AcpiState → Prop} : acpiFindRsdp.Keeps inv := by
  rw [acpiFindRsdp]
  refine (keeps_load16 _).bind fun seg => ?_
  refine (keeps_findSignature (ebdaAddresses seg)).bind fun found => ?_
  cases found with
  | some a => exact Code.keeps_pure a
  | none =>
    refine (keeps_findSignature biosAddresses).bind fun found => ?_
    cases found with
    | some a => exact Code.keeps_pure a
    | none => exact Code.keeps_pure 0

/-- The bytes from an address of the search on are in the first 4 MiB. -/
theorem span_low {good : Word → Prop} {a : Word} {n : Nat}
    (hgood : ∀ x : Word, (x - kernelConfigVma).toNat < 0x400000 → good x)
    (ha : (a - kernelConfigVma).toNat + n ≤ 0x400000) : Span good a n := by
  intro i hi
  refine hgood _ ?_
  have hsub : a + BitVec.ofNat 32 i - kernelConfigVma =
      a - kernelConfigVma + BitVec.ofNat 32 i := by
    rw [BitVec.sub_eq_add_neg, BitVec.sub_eq_add_neg, add_right_comm]
  rw [hsub, BitVec.toNat_add, BitVec.toNat_ofNat]
  omega

theorem lt_of_mem_search {seg : BitVec 16} {a : Word}
    (ha : a ∈ ebdaAddresses seg ++ biosAddresses) : (a - kernelConfigVma).toNat < 0x110000 := by
  have := seg.isLt
  rcases List.mem_append.mp ha with ha | ha
  · have := mem_ebdaAddresses_iff.mp ha
    rw [toNat_sub_vma (by omega)]
    omega
  · have := mem_biosAddresses_iff.mp ha
    rw [toNat_sub_vma (by omega)]
    omega

theorem safe_acpiFindRsdp {good : Word → Prop} (s : AcpiState)
    (hgood : ∀ x : Word, (x - kernelConfigVma).toNat < 0x400000 → good x) :
    acpiFindRsdp.Safe (fun s => s.mem.byte) (fun _ => good) s := by
  have hspan : ∀ seg, ∀ a ∈ ebdaAddresses seg ++ biosAddresses, Span good a 8 := fun seg a ha =>
    span_low hgood (by have := lt_of_mem_search ha; omega)
  rw [acpiFindRsdp, Code.safe_bind, safe_load16 AcpiState.mem,
    run_load16 AcpiState.mem, Code.safe_bind, run_findSignature]
  generalize s.mem.read16 _ = seg
  refine ⟨span_low hgood (by decide), safe_findSignature s fun a ha =>
    hspan seg a (List.mem_append_left biosAddresses ha), ?_⟩
  generalize (ebdaAddresses seg).find? _ = found
  cases found with
  | some a => trivial
  | none =>
    have hbios := safe_findSignature s fun a ha =>
      hspan seg a (List.mem_append_right (ebdaAddresses seg) ha)
    refine (Code.safe_bind _ _ _ _ _).mpr ⟨hbios, ?_⟩
    rw [run_findSignature]
    generalize biosAddresses.find? _ = found
    cases found <;> trivial

/-! ### `acpi_init` -/

section Init

variable {K : AcpiImage} {s : AcpiState}

/-- The two calls of `paging_map_4kb` open the window on the RSDT. -/
theorem windowed_mapRsdt (h : Window K.toLayout 1 (fun _ => False) s.mem) (hcr3 : s.sys.cr3 = K.cr3)
    (rsdt : Word) (s' : AcpiState) (hs' : s'.sys = mapRsdt K s.sys rsdt) :
    Windowed K (fun a => (False ∨ a >>> 12 = (frame rsdt + kernelConfigVma) >>> 12) ∨
      a >>> 12 = (frame rsdt + 0x1000#32 + kernelConfigVma) >>> 12) s' := by
  have hframe : frame (frame rsdt) = frame rsdt := by
    apply BitVec.eq_of_toNat_eq
    rw [toNat_frame, toNat_frame]
    omega
  have hnext : frame (frame rsdt + 0x1000#32) = frame rsdt + 0x1000#32 := by
    have := toNat_frame rsdt
    apply BitVec.eq_of_toNat_eq
    rw [toNat_frame, BitVec.toNat_add, BitVec.toNat_ofNat]
    omega
  obtain ⟨k₁, hk₁, h₁⟩ := h.map4kb (by decide) hframe
  obtain ⟨k₂, hk₂, h₂⟩ := h₁.map4kb (by omega) hnext
  refine ⟨⟨k₂, by omega, ?_⟩, ?_⟩
  · rw [AcpiState.mem, hs', mapRsdt]
    exact h₂
  · rw [hs', mapRsdt, pagingMap4kb_cr3, pagingMap4kb_cr3, hcr3]

theorem page_frame_add (rsdt c : Word) (hc : c.toNat % 4096 = 0) :
    (frame rsdt + c) >>> 12 = (rsdt + c) >>> 12 := by
  have hframe := toNat_frame rsdt
  rw [← BitVec.toNat_inj, toNat_page_add hc, toNat_page_add hc, hframe,
    Nat.mul_div_cancel _ (by decide)]

theorem Windowed.direct_iff_inWindow {rsdt : Word}
    (h : Windowed K (fun a => (False ∨ a >>> 12 = (frame rsdt + kernelConfigVma) >>> 12) ∨
      a >>> 12 = (frame rsdt + 0x1000#32 + kernelConfigVma) >>> 12) s) (a : Word) :
    s.Direct a ↔ InWindow rsdt a := by
  have hpage := page_frame_add rsdt 0 (by decide)
  have hnext := page_frame_add rsdt 0x1000#32 (by decide)
  rw [add_zero, add_zero] at hpage
  rw [h.direct_iff, dirIndex_eq_kernel_iff, page_sub_vma_iff, page_sub_vma_iff, hpage, hnext,
    false_or, InWindow]

/-- The header of the RSDT is in the window, also when it goes on in the next page. -/
theorem span_length (rsdt : Word) :
    Span (InWindow rsdt) (rsdt + kernelConfigVma + sdtLength) 4 := by
  intro i hi
  have hcancel : ∀ x v l o : Word, x + v + l + o - v = x + (l + o) := fun x v l o => by bv_omega
  have hsub : sdtLength + BitVec.ofNat 32 i = BitVec.ofNat 32 (4 + i) :=
    (BitVec.ofNat_add 4 i).symm
  have hlt := rsdt.isLt
  have hnext := toNat_page_add (c := 0x1000#32) (by decide) rsdt
  rw [InWindow, hcancel, hsub]
  right
  rw [← BitVec.toNat_inj, ← BitVec.toNat_inj, hnext, BitVec.toNat_ushiftRight,
    BitVec.toNat_ushiftRight, Nat.shiftRight_eq_div_pow, Nat.shiftRight_eq_div_pow,
    BitVec.toNat_add, BitVec.toNat_ofNat, show (0x1000#32).toNat = 4096 from rfl,
    Nat.mod_eq_of_lt (show 4 + i < 2 ^ 32 by omega), show 2 ^ 32 = 2 ^ 12 * 1048576 from rfl,
    Nat.mod_mul_right_div_self]
  omega

theorem rsdt_add_vma (rsdt : Word) :
    frame rsdt + kernelConfigVma + (rsdt &&& 0xFFF#32) = rsdt + kernelConfigVma := by
  rw [add_right_comm, add_left_inj]
  have h1 := toNat_frame rsdt
  have h2 := toNat_and_0xFFF rsdt
  have := rsdt.isLt
  apply BitVec.eq_of_toNat_eq
  rw [BitVec.toNat_add, h1, h2]
  omega

/-- The rest of `acpi_init` reads in the window when the tables that it comes to lie there. -/
theorem safe_acpiInitTables (dev : Ports) {rsdt : Word} {P : Word → Prop} (h : Windowed K P s)
    (hdirect : ∀ t a, Windowed K P t → (t.Direct a ↔ InWindow rsdt a)) :
    (acpiInitTables K dev (rsdt + kernelConfigVma)).Safe (fun s => s.mem.byte) AcpiState.Direct s ↔
      ∀ i < entries s.mem (rsdt + kernelConfigVma),
        PointerIn K (InWindow rsdt) (loopMem K s.mem (rsdt + kernelConfigVma) i)
          (rsdt + kernelConfigVma) i := by
  have hkeeps : (acpiInitTables K dev (rsdt + kernelConfigVma)).Keeps (Windowed K P) :=
    (keeps_load32 _).bind fun length => keeps_acpiInitLoop dev _ _ 0
  rw [hkeeps.safe_congr hdirect h, acpiInitTables, Code.safe_bind,
    safe_load32 AcpiState.mem, run_load32 AcpiState.mem,
    safe_acpiInitLoop K dev s.mem _ _ 0 s rfl, and_iff_right (span_length rsdt), entries]
  simp only [Nat.zero_le, true_imp_iff, Nat.zero_add]

/-- The two calls of `paging_map_4kb` in `acpi_init`, and the rest after them. -/
theorem acpiInit_eq (K : AcpiImage) (dev : Ports) : acpiInit K dev = (do
    printk "Initializing ACPI !\n"
    let rsdp ← acpiFindRsdp
    let rsdt ← load32 (rsdp + rsdtAddress)
    map4kb K (frame rsdt) (frame rsdt + kernelConfigVma) 0x3#32
    map4kb K (frame rsdt + 0x1000#32) (frame rsdt + 0x1000#32 + kernelConfigVma) 0x3#32
    acpiInitTables K dev (rsdt + kernelConfigVma)) := by
  have hflags : pagingPdePresent ||| pagingPdeReadwrite ||| pagingPdeSupervisor = 0x3#32 := by
    decide
  rw [acpiInit]
  refine bind_congr fun _ => bind_congr fun rsdp => bind_congr fun rsdt => ?_
  rw [hflags, ← frame]
  dsimp only
  rw [add_right_comm (frame rsdt) kernelConfigVma, rsdt_add_vma]

/-- `NULL` is not mapped: the load of `rsdt_address` faults when there is no RSDP. -/
theorem not_direct_null (h : Windowed K (fun _ => False) s) : ¬s.Direct rsdtAddress := by
  rw [h.direct_iff, or_false]
  decide

/-- In the page tables that `paging_init` leaves, `acpi_init` reads through its mapping when all it
reads is in the window. -/
theorem safe_acpiInit (dev : Ports) (h : Window K.toLayout 1 (fun _ => False) s.mem)
    (hcr3 : s.sys.cr3 = K.cr3) :
    (acpiInit K dev).Safe (fun s => s.mem.byte) AcpiState.Direct s ↔ TablesInWindow K s.sys := by
  rw [acpiInit_eq, Code.safe_bind, printk, run_effect, and_iff_right (safe_effect _ _ _)]
  generalize hs₀ : AcpiState.mk _ _ _ = s₀
  have hmem : s₀.mem = s.mem := by rw [← hs₀]; rfl
  have hw : Windowed K (fun _ => False) s₀ := by
    subst hs₀
    exact ⟨⟨1, by decide, h⟩, hcr3⟩
  have hlow : ∀ x : Word, (x - kernelConfigVma).toNat < 0x400000 → s₀.Direct x := fun x hx =>
    (hw.direct_iff x).mpr (Or.inl ((dirIndex_eq_kernel_iff x).mpr hx))
  have hstate : ∀ (t : AcpiState) a, t = s₀ → (t.Direct a ↔ s₀.Direct a) := fun t a ht => by rw [ht]
  have hfind : acpiFindRsdp.Safe (fun s => s.mem.byte) AcpiState.Direct s₀ :=
    (keeps_acpiFindRsdp.safe_congr hstate rfl).mpr (safe_acpiFindRsdp s₀ hlow)
  rw [Code.safe_bind, and_iff_right hfind, run_acpiFindRsdp, Code.safe_bind,
    safe_load32 AcpiState.mem, run_load32 AcpiState.mem, hmem, TablesInWindow]
  generalize hfound : rsdp s.mem = found
  cases found with
  | none =>
    refine iff_of_false ?_ ?_
    · rintro ⟨hspan, -⟩
      exact not_direct_null hw (by simpa using hspan 0 (by decide))
    · rintro ⟨a, ha, -⟩
      exact Option.some_ne_none a ha.symm
  | some a =>
    have hmem_a := lt_of_mem_search (List.mem_of_find?_eq_some hfound)
    have hsub : a + rsdtAddress - kernelConfigVma = a - kernelConfigVma + 16#32 := by
      rw [BitVec.sub_eq_add_neg, add_right_comm, ← BitVec.sub_eq_add_neg]
      rfl
    have hspan : Span s₀.Direct (a + rsdtAddress) 4 := by
      refine span_low hlow ?_
      rw [hsub, BitVec.toNat_add, show (16#32).toNat = 16 from rfl]
      omega
    simp only [Option.getD_some, Option.some_inj, exists_eq_left', and_iff_right hspan]
    generalize s.mem.read32 (a + rsdtAddress) = rsdt
    rw [Code.safe_bind, map4kb, run_effect, and_iff_right (safe_effect _ _ _), Code.safe_bind,
      map4kb, run_effect, and_iff_right (safe_effect _ _ _)]
    generalize hs₂ : AcpiState.mk _ _ _ = s₂
    have hsys : s₂.sys = mapRsdt K s₀.sys rsdt := by rw [← hs₂, mapRsdt]
    have hmem₂ : s₂.mem = (mapRsdt K s.sys rsdt).mem := by
      rw [AcpiState.mem, hsys, mapRsdt_mem_congr K hmem]
    have hw₂ := windowed_mapRsdt (by rw [hmem]; exact h) hw.cr3 rsdt s₂ hsys
    rw [safe_acpiInitTables dev hw₂ fun t a ht => ht.direct_iff_inWindow a, hmem₂]

end Init

theorem AcpiState.read_of_direct (s : AcpiState) (a : Word) (h : s.Direct a) :
    s.read a = some (s.mem.byte a) := by
  have h : translate s.sys.mem s.sys.cr3 a = some (a - kernelConfigVma) := h
  rw [AcpiState.read, h, Option.map_some, BitVec.sub_add_cancel]

/-- Every address that `acpi_init` and `init_acpi_power_button` read from is mapped to the byte that
it stands for. -/
def ReadsMapped (K : AcpiImage) (dev : Ports) (s : System) : Prop :=
  ∀ x ∈ (acpiInit K dev).loads AcpiState.read ⟨s, [], []⟩, x.1.Direct x.2

theorem readsMapped_initEnd_iff (K : AcpiImage) (dev : Ports) (s : System) :
    ReadsMapped K dev (initEnd K.toImage s) ↔ TablesInWindow K (initEnd K.toImage s) := by
  rw [ReadsMapped, Code.forall_loads_iff (fun s => s.mem.byte) _ AcpiState.read_of_direct]
  exact safe_acpiInit dev (window_initEnd K.toImage s) rfl

/-- After `paging_init`, the reads of `acpi_init` are mapped exactly when there is an RSDP and the
tables that it leads to lie in the first 4 MiB or in the two pages from the RSDT on. -/
theorem acpiInit_readsMapped_iff (K : AcpiImage) (dev : Ports) (s₀ s : System)
    (hword : s₀.mem.read32 (K.kernelPhysicalEnd + kernelConfigVma) = 0)
    (hs : pagingInit K.toImage s₀ = some s) :
    ReadsMapped K dev s ↔ TablesInWindow K s := by
  rw [pagingInit_of_zero hword, Option.some_inj] at hs
  subst hs
  exact readsMapped_initEnd_iff K dev s₀

/-! ### Two machines -/

/-- The symbols of `build/ksrc/Kernel.elf`. -/
def acpiKernelElf : AcpiImage where
  toImage := kernelElf
  idt :=
    { idtGate := 0xC010F080#32
      idtGateCallback := 0xC010F880#32
      idtGateHandler := 0xC010C000#32
      idtExceptionHandler := 0xC010260A#32
      idtInterruptHandler := 0xC010272A#32
      gate_end := by decide
      callback_end := by decide
      handler_end := by decide
      gate_callback := by decide
      gate_handler := by decide
      callback_handler := by decide }
  globalFadt := 0xC010F004#32
  acpiInterruptHandlerPower := 0xC0101147#32
  fadt_apart := by decide
  callback_apart := by decide

theorem mem_of_low {m m' : Mem} {a : Word} {n : Nat} (hn : n < 2 ^ 32)
    (h : ∀ x : Word, (x - kernelConfigVma).toNat < 0x110000 → m'.byte x = m.byte x)
    (ha : (a - kernelConfigVma).toNat + n ≤ 0x110000) (x : Word) (hx : (x - a).toNat < n) :
    m'.byte x = m.byte x := by
  refine h x ?_
  have hsum : x - kernelConfigVma = a - kernelConfigVma + (x - a) := by
    generalize kernelConfigVma = v
    bv_omega
  rw [hsum, BitVec.toNat_add]
  omega

/-- The memory below the page directory of the image is as it was before `paging_init`. -/
theorem byte_initEnd_low (s : System) {x : Word} (hx : (x - kernelConfigVma).toNat < 0x110000) :
    (initEnd acpiKernelElf.toImage s).mem.byte x = s.mem.byte x := by
  refine byte_initEnd s ?_
  have hdir : acpiKernelElf.pgdir = kernelConfigVma + 0x110000#32 := by decide
  have htbl : acpiKernelElf.pgtbls = kernelConfigVma + 0x111000#32 := by decide
  rw [InTables, hdir, htbl]
  generalize kernelConfigVma = v at hx ⊢
  rintro (h | h) <;> bv_omega

/-- Without an RSDP `acpi_init` reads through a `NULL` pointer. -/
theorem acpiInit_null_blank :
    pagingInit acpiKernelElf.toImage System.blank =
        some (initEnd acpiKernelElf.toImage System.blank) ∧
      ¬ReadsMapped acpiKernelElf (fun _ _ => 0)
        (initEnd acpiKernelElf.toImage System.blank) := by
  refine ⟨pagingInit_of_zero (read32_blank _), ?_⟩
  rw [readsMapped_initEnd_iff]
  rintro ⟨a, ha, -⟩
  have hlow := lt_of_mem_search (List.mem_of_find?_eq_some ha)
  have hholds := List.find?_some ha
  rw [decide_eq_true_eq] at hholds
  have hbyte := hholds.1
  rw [byte_initEnd_low System.blank hlow] at hbyte
  exact absurd hbyte (show 0#8 ≠ 0x52#8 by decide)

/-- A memory with an RSDP at the start of the EBDA, an RSDT whose length field is `length` and whose
first pointer is that to a FADT. -/
def firmware (length : Word) : Mem :=
  let m := System.blank.mem
  let m := m.write16 (kernelConfigVma + 0x40E#32) 0x9FC0#16
  let m := m.write32 (kernelConfigVma + 0x9FC00#32) 0x20445352#32
  let m := m.write32 (kernelConfigVma + 0x9FC04#32) 0x20525450#32
  let m := m.write32 (kernelConfigVma + 0x9FC10#32) 0x2000#32
  let m := m.write32 (kernelConfigVma + 0x2004#32) length
  let m := m.write32 (kernelConfigVma + 0x2024#32) 0x3000#32
  m.write32 (kernelConfigVma + 0x3000#32) 0x50434146#32

/-- The machine before `paging_init` with that memory. -/
def firmwareMachine (length : Word) : System := { System.blank with mem := firmware length }

/-- The first paragraph of the EBDA is searched first. -/
theorem rsdp_of_first {m : Mem}
    (h : Holds m ((m.read16 (0x040E#32 + kernelConfigVma)).setWidth 32 <<< 4 + kernelConfigVma)
      rsdpSignature) :
    rsdp m = some
      ((m.read16 (0x040E#32 + kernelConfigVma)).setWidth 32 <<< 4 + kernelConfigVma) := by
  have hstart := toNat_ebdaAddress (m.read16 (0x040E#32 + kernelConfigVma))
  rw [rsdp, ebdaAddresses]
  generalize m.read16 (0x040E#32 + kernelConfigVma) = seg at h hstart ⊢
  have := seg.isLt
  generalize (seg.setWidth 32 <<< 4 + kernelConfigVma : Word) = start at h hstart ⊢
  have hcount : ((start + 1024).toNat - start.toNat + 15) / 16 = 63 + 1 := by
    rw [BitVec.toNat_add, show (1024 : Word).toNat = 1024 from rfl]
    omega
  rw [every16, hcount, List.range_succ_eq_map, List.map_cons, List.cons_append, List.find?_cons,
    show start + 16 * BitVec.ofNat 32 0 = start by simp, decide_eq_true h]

theorem holds_congr {m m' : Mem} (a : Word) (bs : List Byte) (hlen : bs.length < 2 ^ 32)
    (h : ∀ x : Word, (x - a).toNat < bs.length → m'.byte x = m.byte x) :
    Holds m' a bs ↔ Holds m a bs := by
  induction bs generalizing a with
  | nil => exact Iff.rfl
  | cons c cs ih =>
    have hlen : cs.length + 1 < 2 ^ 32 := hlen
    have h : ∀ x : Word, (x - a).toNat < cs.length + 1 → m'.byte x = m.byte x := h
    rw [Holds, Holds, h a (by simp)]
    refine and_congr_right fun _ => ih (a + 1) (by omega) fun x hx => h x ?_
    bv_omega

/-- The window does not close: the memory from the second page on is as it was. -/
theorem byte_mapRsdt_low {K : AcpiImage} {s : System} {rsdt x : Word}
    (h : Window K.toLayout 1 (fun _ => False) s.mem)
    (hrsdt : rsdt.toNat + 0x1000 < 0x400000) (hx : 4096 ≤ (x - kernelConfigVma).toNat) :
    (mapRsdt K s rsdt).mem.byte x = s.mem.byte x := by
  have hframe := toNat_frame rsdt
  have hkernel : ∀ p : Word, p.toNat < 0x400000 → dirIndex (p + kernelConfigVma) = 768#32 :=
    fun p hp => (dirIndex_eq_kernel_iff _).mpr (by rwa [BitVec.add_sub_cancel])
  have h₁ : dirIndex (frame rsdt + kernelConfigVma) = 768#32 := hkernel _ (by omega)
  have h₂ : dirIndex (frame rsdt + 0x1000#32 + kernelConfigVma) = 768#32 := by
    refine hkernel _ ?_
    rw [BitVec.toNat_add, show (0x1000#32).toNat = 4096 from rfl]
    omega
  have hw₁ := h.map4kb_kernel h₁
  rw [mapRsdt, byte_map4kb_kernel (hw₁.kernel _ h₂) hx, byte_map4kb_kernel (h.kernel _ h₁) hx]

section Low

variable {m₀ : Mem} {s : System}
  (hlow : ∀ x : Word, (x - kernelConfigVma).toNat < 0x110000 → s.mem.byte x = m₀.byte x)
include hlow

/-- The EBDA at `0x9FC00` starts with an RSDP. -/
theorem rsdp_of_low (hseg : m₀.read16 (0x040E#32 + kernelConfigVma) = 0x9FC0#16)
    (hholds : Holds m₀ (kernelConfigVma + 0x9FC00#32) rsdpSignature) :
    rsdp s.mem = some (kernelConfigVma + 0x9FC00#32) := by
  have hseg' : s.mem.read16 (0x040E#32 + kernelConfigVma) = 0x9FC0#16 := by
    rw [← hseg, Mem.read16, Mem.read16, hlow _ (by decide), hlow _ (by decide)]
  have hstart : (0x9FC0#16).setWidth 32 <<< 4 + kernelConfigVma =
      kernelConfigVma + 0x9FC00#32 := by decide
  have hholds' : Holds s.mem (kernelConfigVma + 0x9FC00#32) rsdpSignature :=
    (holds_congr _ _ (by decide) (mem_of_low (by decide) hlow (by decide))).mpr hholds
  have h := rsdp_of_first (m := s.mem) (by rwa [hseg', hstart])
  rwa [hseg', hstart] at h

theorem rsdtAddress_of_low :
    s.mem.read32 (kernelConfigVma + 0x9FC00#32 + rsdtAddress) =
      m₀.read32 (kernelConfigVma + 0x9FC00#32 + rsdtAddress) :=
  Mem.read32_congr (mem_of_low (by decide) hlow (by decide))

theorem read32_mapRsdt_low (hwindow : Window acpiKernelElf.toLayout 1 (fun _ => False) s.mem)
    {a : Word} (ha : 4096 ≤ (a - kernelConfigVma).toNat)
    (ha' : (a - kernelConfigVma).toNat + 4 ≤ 0x110000) :
    (mapRsdt acpiKernelElf s 0x2000#32).mem.read32 a = m₀.read32 a := by
  refine Mem.read32_congr fun x hx =>
    (byte_mapRsdt_low hwindow (by decide) ?_).trans (hlow x ?_)
  all_goals
    generalize kernelConfigVma = v at ha ha' ⊢
    bv_omega

end Low

theorem tablesInWindow_firmware :
    TablesInWindow acpiKernelElf (initEnd acpiKernelElf.toImage (firmwareMachine 40#32)) := by
  have hlow : ∀ x : Word, (x - kernelConfigVma).toNat < 0x110000 →
      (initEnd acpiKernelElf.toImage (firmwareMachine 40#32)).mem.byte x =
        (firmware 40#32).byte x := fun x hx => byte_initEnd_low (firmwareMachine 40#32) hx
  have hwindow := window_initEnd acpiKernelElf.toImage (firmwareMachine 40#32)
  generalize initEnd acpiKernelElf.toImage (firmwareMachine 40#32) = s at hlow hwindow ⊢
  have hrsdt := rsdtAddress_of_low hlow
  rw [show (firmware 40#32).read32 _ = 0x2000#32 by decide] at hrsdt
  refine ⟨_, rsdp_of_low hlow (by decide) (by decide), ?_⟩
  simp only [hrsdt]
  have hread : ∀ a : Word, 4096 ≤ (a - kernelConfigVma).toNat →
      (a - kernelConfigVma).toNat + 4 ≤ 0x110000 →
      (mapRsdt acpiKernelElf s 0x2000#32).mem.read32 a = (firmware 40#32).read32 a :=
    fun a ha ha' => read32_mapRsdt_low hlow hwindow ha ha'
  generalize (mapRsdt acpiKernelElf s 0x2000#32).mem = m at hread
  have hlength : m.read32 (0x2000#32 + kernelConfigVma + sdtLength) = 40#32 := by
    rw [hread _ (by decide) (by decide)]
    decide
  have hpointer : m.read32 (slot (0x2000#32 + kernelConfigVma) 0) = 0x3000#32 := by
    rw [hread _ (by decide) (by decide)]
    decide
  have hheader : header m (0x2000#32 + kernelConfigVma) 0 = 0x3000#32 + kernelConfigVma := by
    rw [header, hpointer]
  have hin : ∀ (a : Word) (n : Nat), (a - kernelConfigVma).toNat + n ≤ 0x400000 →
      Span (InWindow 0x2000#32) a n := fun a n ha => span_low (fun x hx => Or.inl hx) ha
  rw [entries, hlength]
  intro i hi
  obtain rfl : i = 0 := Nat.lt_one_iff.mp hi
  refine ⟨hin _ _ (by decide), ?_, fun _ => ?_⟩
  · rw [loopMem, hheader]
    exact (hin _ 4 (by decide)).mono (examined_le _ _ _)
  · rw [loopMem, hheader]
    refine ⟨hin _ _ (by decide), fun _ => hin _ _ (by decide), fun _ => ?_, fun _ =>
      hin _ _ (by decide), fun _ => hin _ _ (by decide)⟩
    exact Or.inl (by decide)

/-- The tables of that machine are all in the first 4 MiB. -/
theorem acpiInit_readsMapped_firmware :
    ReadsMapped acpiKernelElf (fun _ _ => 0) (initEnd acpiKernelElf.toImage (firmwareMachine 40#32)) :=
  (acpiInit_readsMapped_iff acpiKernelElf (fun _ _ => 0) (firmwareMachine 40#32)
    (initEnd acpiKernelElf.toImage (firmwareMachine 40#32)) (by decide)
    (pagingInit_of_zero (by decide))).mpr tablesInWindow_firmware

end BasicX86Kernel.Acpi
