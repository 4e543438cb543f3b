import BasicX86Kernel.Acpi.Mapped

/-! What `acpi_find_rsdp` returns, and which pointers of the RSDT `acpi_init` examines. -/

namespace BasicX86Kernel.Acpi

open Machine Klib Mmu

/-! ### The search as loops -/

/-- The loop `for (addr; addr < stop; addr += 16)` of `acpi_find_rsdp` for at most `fuel` tests of
its condition; the outer `none` is a loop that goes on. -/
def searchLoop (stop : Word) : Nat → Word → Code AcpiState (Option (Option Word))
  | 0, _ => return none
  | fuel + 1, addr =>
    if addr < stop then do
      let differ ← memcmp addr rsdpSignature
      if differ = 0 then
        return some (some addr)
      else
        searchLoop stop fuel (addr + 16)
    else
      return some none

theorem every16_of_lt {start stop : Word} (hstop : stop.toNat + 16 ≤ 2 ^ 32)
    (h : start.toNat < stop.toNat) :
    every16 start stop = start :: every16 (start + 16) stop := by
  have hnext : (start + 16).toNat = start.toNat + 16 := by
    rw [BitVec.toNat_add, show (16 : Word).toNat = 16 from rfl]
    omega
  have hcount : (stop.toNat - start.toNat + 15) / 16 =
      (stop.toNat - (start.toNat + 16) + 15) / 16 + 1 := by omega
  rw [every16, every16, hnext, hcount, List.range_succ_eq_map, List.map_cons, List.map_map]
  refine congrArg₂ List.cons (by simp) (List.map_congr_left fun i _ => ?_)
  rw [Function.comp_apply, Nat.succ_eq_add_one, BitVec.ofNat_add]
  generalize BitVec.ofNat 32 i = x
  bv_omega

theorem every16_of_le {start stop : Word} (h : stop.toNat ≤ start.toNat) :
    every16 start stop = [] := by
  rw [every16, Nat.sub_eq_zero_of_le h]
  rfl

/-- The loop ends, and tries the addresses of `every16` one after the other. -/
theorem searchLoop_eq {stop : Word} (hstop : stop.toNat + 16 ≤ 2 ^ 32) (fuel : Nat) (addr : Word)
    (hfuel : stop.toNat - addr.toNat + 16 ≤ 16 * fuel) :
    searchLoop stop fuel addr = (findSignature (every16 addr stop)).bind fun r => .done (some r) := by
  induction fuel generalizing addr with
  | zero => omega
  | succ fuel ih =>
    rw [searchLoop]
    by_cases h : addr < stop
    · have hlt : addr.toNat < stop.toNat := h
      have hnext : (addr + 16).toNat = addr.toNat + 16 := by
        rw [BitVec.toNat_add, show (16 : Word).toNat = 16 from rfl]
        omega
      rw [if_pos h, every16_of_lt hstop hlt, findSignature, Code.bind_assoc]
      refine bind_congr fun differ => ?_
      split
      · rfl
      · exact ih (addr + 16) (by omega)
    · rw [if_neg h, every16_of_le (Nat.le_of_not_lt h)]
      rfl

/-! ### The RSDP -/

/-- The physical address is in the first 1024 bytes of the EBDA. -/
def InEbda (m : Mem) (p : Word) : Prop :=
  let seg := (m.read16 (0x040E#32 + kernelConfigVma)).toNat
  16 * seg ≤ p.toNat ∧ p.toNat < 16 * seg + 1024

/-- The physical address is in the BIOS area. -/
def InBios (p : Word) : Prop := 0xE0000 ≤ p.toNat ∧ p.toNat ≤ 0xFFFFF

/-- An RSDP stands at the physical address. -/
structure IsRsdp (m : Mem) (p : Word) : Prop where
  aligned : p.toNat % 16 = 0
  area : InEbda m p ∨ InBios p
  signature : Holds m (p + kernelConfigVma) rsdpSignature

/-- The search comes to `p` before `q`, or they are one: the EBDA is searched before the BIOS area,
and both from their start on. -/
def SearchedBefore (m : Mem) (p q : Word) : Prop :=
  (InEbda m p ∧ ¬InEbda m q) ∨ ((InEbda m p ↔ InEbda m q) ∧ p.toNat ≤ q.toNat)

theorem find?_le {start stop a b : Word} {p : Word → Bool}
    (h : (every16 start stop).find? p = some a) (hb : b ∈ every16 start stop) (hp : p b = true) :
    a.toNat ≤ b.toNat := by
  have hlt := stop.isLt
  have hsorted : (every16 start stop).Pairwise fun a b => a.toNat ≤ b.toNat := by
    rw [every16, List.pairwise_map]
    refine List.Pairwise.imp_of_mem ?_ List.pairwise_lt_range
    intro i j hi hj hij
    rw [List.mem_range] at hi hj
    rw [toNat_add_16_mul (by omega), toNat_add_16_mul (by omega)]
    omega
  obtain ⟨-, pre, post, heq, hpre⟩ := List.find?_eq_some_iff_append.mp h
  rw [heq] at hb hsorted
  rcases List.mem_append.mp hb with hmem | hmem
  · have := hpre b hmem
    rw [hp] at this
    exact absurd this (by decide)
  · rcases List.mem_cons.mp hmem with rfl | hmem
    · exact le_rfl
    · exact (List.pairwise_cons.mp (List.pairwise_append.mp hsorted).2.1).1 b hmem

section Search

variable {m : Mem} {p : Word}

theorem toNat_add_vma_cases (p : Word) :
    p.toNat < 0x40000000 ∧ (p + kernelConfigVma).toNat = p.toNat + 0xC0000000 ∨
      0x40000000 ≤ p.toNat ∧ (p + kernelConfigVma).toNat < 0xC0000000 := by
  have hlt := p.isLt
  by_cases hp : p.toNat < 0x40000000
  · exact Or.inl ⟨hp, toNat_add_vma hp⟩
  · right
    rw [BitVec.toNat_add, toNat_kernelConfigVma]
    omega

theorem mem_ebda_iff : p + kernelConfigVma ∈ ebdaAddresses (m.read16 (0x040E#32 + kernelConfigVma)) ↔
    InEbda m p ∧ p.toNat % 16 = 0 := by
  have hseg := (m.read16 (0x040E#32 + kernelConfigVma)).isLt
  rw [mem_ebdaAddresses_iff, InEbda]
  rcases toNat_add_vma_cases p with ⟨hp, heq⟩ | ⟨hp, hlt⟩
  · rw [heq]
    omega
  · omega

theorem mem_bios_iff : p + kernelConfigVma ∈ biosAddresses ↔ InBios p ∧ p.toNat % 16 = 0 := by
  rw [mem_biosAddresses_iff, InBios]
  rcases toNat_add_vma_cases p with ⟨hp, heq⟩ | ⟨hp, hlt⟩
  · rw [heq]
    omega
  · omega

theorem isRsdp_iff : IsRsdp m p ↔
    p + kernelConfigVma ∈ ebdaAddresses (m.read16 (0x040E#32 + kernelConfigVma)) ++ biosAddresses ∧
      Holds m (p + kernelConfigVma) rsdpSignature := by
  rw [List.mem_append, mem_ebda_iff, mem_bios_iff, ← or_and_right]
  exact ⟨fun h => ⟨⟨h.area, h.aligned⟩, h.signature⟩, fun h => ⟨h.1.2, h.1.1, h.2⟩⟩

theorem rsdp_eq_none_iff : rsdp m = none ↔ ∀ p, ¬IsRsdp m p := by
  rw [rsdp, List.find?_eq_none]
  constructor
  · intro h p hp
    obtain ⟨hmem, hholds⟩ := isRsdp_iff.mp hp
    exact h _ hmem (decide_eq_true hholds)
  · intro h a ha hholds
    have hsub : a - kernelConfigVma + kernelConfigVma = a := BitVec.sub_add_cancel a _
    refine h (a - kernelConfigVma) (isRsdp_iff.mpr ?_)
    rw [hsub]
    exact ⟨ha, of_decide_eq_true hholds⟩

/-- Of the addresses of one area the search finds the lowest. -/
theorem rsdp_le {addrs : List Word} {start stop a p : Word} (haddrs : addrs = every16 start stop)
    (h : addrs.find? (fun a => Holds m a rsdpSignature) = some a)
    (hhigh : ∀ b ∈ addrs, 0xC0000000 ≤ b.toNat) (hp : p + kernelConfigVma ∈ addrs)
    (hholds : Holds m (p + kernelConfigVma) rsdpSignature) :
    (a - kernelConfigVma).toNat ≤ p.toNat := by
  have ha := hhigh a (List.mem_of_find?_eq_some h)
  have hb := hhigh _ hp
  rw [haddrs] at h hp
  have hle := find?_le h hp (decide_eq_true hholds)
  rw [toNat_sub_vma ha]
  rcases toNat_add_vma_cases p with ⟨-, heq⟩ | ⟨-, hlt⟩ <;> omega

/-- The RSDP that is found is one, and the search comes to no other before it. -/
theorem rsdp_eq_some {a : Word} (h : rsdp m = some a) :
    IsRsdp m (a - kernelConfigVma) ∧
      ∀ p, IsRsdp m p → SearchedBefore m (a - kernelConfigVma) p := by
  have hsub : a - kernelConfigVma + kernelConfigVma = a := BitVec.sub_add_cancel a _
  have hholds : Holds m a rsdpSignature := by
    have h := List.find?_some (p := fun a => decide (Holds m a rsdpSignature)) h
    exact of_decide_eq_true h
  refine ⟨isRsdp_iff.mpr ⟨by rw [hsub]; exact List.mem_of_find?_eq_some h, by rwa [hsub]⟩,
    fun p hp => ?_⟩
  have hpholds := (isRsdp_iff.mp hp).2
  have hmem : ∀ q, InEbda m q → IsRsdp m q → q + kernelConfigVma ∈
      ebdaAddresses (m.read16 (0x040E#32 + kernelConfigVma)) := fun q hq hr =>
    mem_ebda_iff.mpr ⟨hq, hr.aligned⟩
  rw [rsdp, List.find?_append] at h
  cases hfound : (ebdaAddresses (m.read16 (0x040E#32 + kernelConfigVma))).find? fun a =>
      Holds m a rsdpSignature with
  | some b =>
    rw [hfound, Option.some_or, Option.some_inj] at h
    subst h
    have hebda : InEbda m (b - kernelConfigVma) :=
      (mem_ebda_iff.mp (by rw [hsub]; exact List.mem_of_find?_eq_some hfound)).1
    by_cases hpe : InEbda m p
    · refine Or.inr ⟨iff_of_true hebda hpe, rsdp_le rfl hfound (fun b hb => ?_) (hmem p hpe hp)
        hpholds⟩
      have := mem_ebdaAddresses_iff.mp hb
      omega
    · exact Or.inl ⟨hebda, hpe⟩
  | none =>
    -- nothing in the EBDA
    rw [hfound, Option.none_or] at h
    have hnone : ∀ q, IsRsdp m q → ¬InEbda m q := fun q hr hq =>
      List.find?_eq_none.mp hfound _ (hmem q hq hr) (decide_eq_true hr.signature)
    have hpbios : p + kernelConfigVma ∈ biosAddresses :=
      mem_bios_iff.mpr ⟨hp.area.resolve_left (hnone p hp), hp.aligned⟩
    have habios : a - kernelConfigVma + kernelConfigVma ∈ biosAddresses := by
      rw [hsub]
      exact List.mem_of_find?_eq_some h
    have ha : ¬InEbda m (a - kernelConfigVma) := by
      obtain ⟨hbios, halign⟩ := mem_bios_iff.mp habios
      exact hnone _ ⟨halign, Or.inr hbios, by rw [hsub]; exact hholds⟩
    obtain ⟨start, stop, haddrs⟩ : ∃ start stop, biosAddresses = every16 start stop :=
      ⟨_, _, biosAddresses_eq⟩
    refine Or.inr ⟨iff_of_false ha (hnone p hp), rsdp_le haddrs h (fun b hb => ?_) hpbios hpholds⟩
    have := mem_biosAddresses_iff.mp hb
    omega

end Search

/-- `acpi_find_rsdp` returns the first RSDP of the EBDA and the BIOS area, or `NULL` when there is
none; the loads of its second loop are below 1 MiB; and both loops end. -/
structure SearchExact (s : AcpiState) : Prop where
  result : let r := (acpiFindRsdp.run (fun s => s.mem.byte) s).1
    (r = 0 ∧ ∀ p, ¬IsRsdp s.mem p) ∨
      ∃ p, r = p + kernelConfigVma ∧ r ≠ 0 ∧ IsRsdp s.mem p ∧
        ∀ q, IsRsdp s.mem q → SearchedBefore s.mem p q
  bios_loads : ∀ x ∈ (findSignature biosAddresses).loads (fun s a => some (s.mem.byte a)) s,
    (x.2 - kernelConfigVma).toNat ≤ 0xFFFFF
  ebda_ends : ∀ (seg : BitVec 16) (fuel : Nat), 65 ≤ fuel →
    searchLoop (seg.setWidth 32 <<< 4 + kernelConfigVma + 1024) fuel
        (seg.setWidth 32 <<< 4 + kernelConfigVma) =
      (findSignature (ebdaAddresses seg)).bind fun r => .done (some r)
  bios_ends : ∀ fuel : Nat, 8193 ≤ fuel →
    searchLoop (0x000FFFFF#32 + kernelConfigVma) fuel (0x000E0000#32 + kernelConfigVma) =
      (findSignature biosAddresses).bind fun r => .done (some r)

theorem acpiFindRsdp_exact (s : AcpiState) : SearchExact s := by
  refine ⟨?_, ?_, fun seg fuel hfuel => ?_, fun fuel hfuel => ?_⟩
  · rw [run_acpiFindRsdp]
    cases h : rsdp s.mem with
    | none => exact Or.inl ⟨rfl, rsdp_eq_none_iff.mp h⟩
    | some a =>
      obtain ⟨hrsdp, hfirst⟩ := rsdp_eq_some h
      refine Or.inr ⟨a - kernelConfigVma, (BitVec.sub_add_cancel a _).symm, ?_, hrsdp, hfirst⟩
      rintro rfl
      have hlow := lt_of_mem_search (List.mem_of_find?_eq_some h)
      exact absurd hlow (by decide)
  · have hread : ∀ (s : AcpiState) a, (a - kernelConfigVma).toNat ≤ 0xFFFFF →
        some (s.mem.byte a) = some (s.mem.byte a) := fun s a _ => rfl
    have h := Code.forall_loads_iff _ _ hread s (findSignature biosAddresses)
    refine h.mpr (safe_findSignature s fun a ha i hi => ?_)
    have hbios := mem_biosAddresses_iff.mp ha
    have haddr : (a + BitVec.ofNat 32 i).toNat = a.toNat + i := by
      rw [BitVec.toNat_add, BitVec.toNat_ofNat]
      omega
    rw [toNat_sub_vma (by omega), haddr]
    omega
  · have hstart := toNat_ebdaAddress seg
    have := seg.isLt
    have hstop : (seg.setWidth 32 <<< 4 + kernelConfigVma + 1024 : Word).toNat =
        16 * seg.toNat + 0xC0000000 + 1024 := by
      rw [BitVec.toNat_add, hstart, show (1024 : Word).toNat = 1024 from rfl]
      omega
    exact searchLoop_eq (by omega) fuel _ (by omega)
  · have hstart : (0x000E0000#32 + kernelConfigVma).toNat = 0xC00E0000 := by decide
    have hstop : (0x000FFFFF#32 + kernelConfigVma).toNat = 0xC00FFFFF := by decide
    rw [biosAddresses_eq]
    exact searchLoop_eq (by omega) fuel _ (by omega)

/-! ### The pointers of the RSDT -/

/-- The RSDT, by its physical address. -/
def rsdtOf (m : Mem) : Word := m.read32 ((rsdp m).getD 0 + rsdtAddress)

/-- The number of pointers of a table of the given length. -/
def pointerCount (length : Word) : Nat := if 36 ≤ length.toNat then (length.toNat - 36) / 4 else 0

/-- What the loop has done at the end of a run. -/
def finalVisits (r : Unit × AcpiState) : List Visit := r.2.visits

/-- What the loop of `acpi_init` does in a run from the given machine. -/
def visitsOf (K : AcpiImage) (dev : Ports) (s : System) (ports : List PortAccess) : List Visit :=
  finalVisits ((acpiInit K dev).run (fun s => s.mem.byte) ⟨s, ports, []⟩)

/-- `acpi_init` examines, in order, the pointers in the first `length` bytes of the RSDT, and calls
`init_acpi_power_button` for those that name a FADT; `m` is the memory with the RSDT mapped. -/
structure WalksTable (K : AcpiImage) (dev : Ports) (s : System) (ports : List PortAccess)
    (m : Mem) (rsdt : Word) : Prop where
  visits : visitsOf K dev s ports =
    (List.range (pointerCount (m.read32 (rsdt + sdtLength)))).flatMap (visitsAt K m rsdt)
  inside : ∀ i, .pointer i ∈ visitsOf K dev s ports →
    36 + 4 * i + 4 ≤ (m.read32 (rsdt + sdtLength)).toNat

section Walk

variable (K : AcpiImage) (dev : Ports) (s : System) (ports : List PortAccess)

/-- The RSDT as `acpi_init` sees it: the machine after the two calls of `paging_map_4kb`, and the
address of the table. -/
def rsdtMachine : System := mapRsdt K s (rsdtOf s.mem)
def rsdtAt : Word := rsdtOf s.mem + kernelConfigVma

theorem visits_acpiInit : visitsOf K dev s ports =
    (List.range (entries (rsdtMachine K s).mem (rsdtAt s))).flatMap
      (visitsAt K (rsdtMachine K s).mem (rsdtAt s)) := by
  rw [visitsOf, acpiInit_eq, Code.run_bind, printk, run_effect, Code.run_bind, run_acpiFindRsdp,
    Code.run_bind, run_load32 AcpiState.mem]
  simp only [AcpiState.mem, System.printk_mem]
  rw [← rsdtOf, Code.run_bind, map4kb, run_effect, Code.run_bind, map4kb, run_effect]
  generalize hs₂ : AcpiState.mk _ _ _ = s₂
  have hsys : s₂.sys = mapRsdt K (s.printk "Initializing ACPI !\n" []) (rsdtOf s.mem) := by
    rw [← hs₂, mapRsdt]
  have hmem : s₂.mem = (rsdtMachine K s).mem := by
    rw [AcpiState.mem, hsys, mapRsdt_mem_congr K (s.printk_mem _ _), rsdtMachine]
  have hvisits : s₂.visits = [] := by rw [← hs₂]
  rw [← rsdtAt]
  generalize (rsdtMachine K s).mem = m at hmem ⊢
  generalize rsdtAt s = rsdt
  have hstart : s₂.mem = loopMem K m rsdt 0 := by rw [loopMem, hmem]
  have hloop := run_acpiInitLoop K dev m rsdt (entries m rsdt) 0 s₂ hstart
  rw [hvisits, List.nil_append, ← List.range_eq_range', entries] at hloop
  rw [entries, ← hloop, acpiInitTables, Code.run_bind, run_load32 AcpiState.mem, hmem,
    finalVisits]

theorem pointer_mem_visits {m : Mem} {rsdt : Word} {n i : Nat} :
    .pointer i ∈ (List.range n).flatMap (visitsAt K m rsdt) ↔ i < n := by
  rw [List.mem_flatMap]
  constructor
  · rintro ⟨j, hj, hmem⟩
    rw [visitsAt, List.mem_cons] at hmem
    rcases hmem with heq | hmem
    · rw [Visit.pointer.inj heq]
      exact List.mem_range.mp hj
    · split at hmem
      · exact absurd (List.mem_singleton.mp hmem) (by simp)
      · exact absurd hmem List.not_mem_nil
  · exact fun hi => ⟨i, List.mem_range.mpr hi, List.mem_cons_self⟩

theorem entries_eq_pointerCount {m : Mem} {rsdt : Word}
    (h : 36 ≤ (m.read32 (rsdt + sdtLength)).toNat) :
    entries m rsdt = pointerCount (m.read32 (rsdt + sdtLength)) := by
  rw [entries, pointerCount, if_pos h]
  generalize m.read32 (rsdt + sdtLength) = length at h
  rw [BitVec.toNat_udiv, BitVec.toNat_sub_of_le (show sdtHeaderSize ≤ length from h)]
  rfl

/-- A length below the size of the header wraps around. -/
theorem entries_pos {m : Mem} {rsdt : Word} (h : (m.read32 (rsdt + sdtLength)).toNat < 36) :
    0 < entries m rsdt := by
  rw [entries]
  generalize m.read32 (rsdt + sdtLength) = length at h
  have hsub : (length - sdtHeaderSize).toNat = 2 ^ 32 - 36 + length.toNat := by
    rw [BitVec.toNat_sub, show sdtHeaderSize.toNat = 36 from rfl]
    omega
  rw [BitVec.toNat_udiv, hsub, show (4 : Word).toNat = 4 from rfl]
  omega

/-- With a length below the size of the header the loop examines pointer 0. -/
theorem not_walksTable
    (h : ((rsdtMachine K s).mem.read32 (rsdtAt s + sdtLength)).toNat < 36) :
    ¬WalksTable K dev s ports (rsdtMachine K s).mem (rsdtAt s) := by
  intro hwalks
  have hmem : .pointer 0 ∈ visitsOf K dev s ports := by
    rw [visits_acpiInit, pointer_mem_visits]
    exact entries_pos h
  have := hwalks.inside 0 hmem
  omega

/-- The walk is that over the table exactly when the length field covers the header. -/
theorem acpiInit_walks_iff :
    WalksTable K dev s ports (rsdtMachine K s).mem (rsdtAt s) ↔
      36 ≤ ((rsdtMachine K s).mem.read32 (rsdtAt s + sdtLength)).toNat := by
  constructor
  · intro h
    by_contra hlt
    exact not_walksTable K dev s ports (Nat.lt_of_not_le hlt) h
  · intro h
    have hvisits := visits_acpiInit K dev s ports
    rw [entries_eq_pointerCount h] at hvisits
    refine ⟨hvisits, fun i hi => ?_⟩
    rw [hvisits, pointer_mem_visits, pointerCount, if_pos h] at hi
    omega

end Walk

/-- An RSDT whose length field is 8 is read on past its end. -/
theorem acpiInit_length_8 :
    ¬WalksTable acpiKernelElf (fun _ _ => 0)
      (initEnd acpiKernelElf.toImage (firmwareMachine 8#32)) []
      (rsdtMachine acpiKernelElf (initEnd acpiKernelElf.toImage (firmwareMachine 8#32))).mem
      (rsdtAt (initEnd acpiKernelElf.toImage (firmwareMachine 8#32))) := by
  have hlow : ∀ x : Word, (x - kernelConfigVma).toNat < 0x110000 →
      (initEnd acpiKernelElf.toImage (firmwareMachine 8#32)).mem.byte x =
        (firmware 8#32).byte x := fun x hx => byte_initEnd_low (firmwareMachine 8#32) hx
  have hwindow := window_initEnd acpiKernelElf.toImage (firmwareMachine 8#32)
  generalize initEnd acpiKernelElf.toImage (firmwareMachine 8#32) = s at hlow hwindow ⊢
  have hrsdt : rsdtOf s.mem = 0x2000#32 := by
    rw [rsdtOf, rsdp_of_low hlow (by decide) (by decide), Option.getD_some,
      rsdtAddress_of_low hlow]
    decide
  have hlength : (rsdtMachine acpiKernelElf s).mem.read32 (rsdtAt s + sdtLength) = 8#32 := by
    rw [rsdtMachine, rsdtAt, hrsdt, read32_mapRsdt_low hlow hwindow (by decide) (by decide)]
    decide
  refine not_walksTable acpiKernelElf _ s [] ?_
  rw [hlength]
  decide

end BasicX86Kernel.Acpi
