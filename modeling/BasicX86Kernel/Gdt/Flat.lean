import BasicX86Kernel.Gdt
import BasicX86Kernel.Klib.Mem
import BasicX86Kernel.Machine.Segment

/-! `gdt_init` and `gdt_flush` of `ksrc/gdt.c`, on a processor that checks what it loads into its
segment registers: the flat model, and what keeps it. -/

namespace BasicX86Kernel.Gdt

open Machine Klib Selector

/-! ### The functions -/

def gdtLimit : Nat := 10

def gdtTypeDataRw : Word := 2#32 <<< 8
def gdtTypeCodeEr : Word := 10#32 <<< 8

def gdtFlagS : Word := 1#32 <<< 12
def gdtFlagDpl0 : Word := 0#32 <<< 13
def gdtFlagP : Word := 1#32 <<< 15
def gdtFlagDb : Word := 1#32 <<< 22
def gdtFlagG : Word := 1#32 <<< 23

/-- Where the linker puts `gdt` and `gdtl`. -/
structure GdtLayout where
  gdt : Word
  gdtl : Word
  gdt_end : gdt.toNat + 8 * gdtLimit ≤ 2 ^ 32
  gdtl_end : gdtl.toNat + 6 ≤ 2 ^ 32
  gdt_gdtl : gdt.toNat + 8 * gdtLimit ≤ gdtl.toNat ∨ gdtl.toNat + 6 ≤ gdt.toNat

/-- What `lgdt` loads in `gdt_init`. -/
def GdtLayout.register (g : GdtLayout) : TableRegister := ⟨g.gdt, BitVec.ofNat 16 (8 * gdtLimit)⟩

def gdtSetTable (lgdt : Word) (c : Core) : Core :=
  { c with gdtr := ⟨c.cpu.mem.read32 (lgdt + 2), c.cpu.mem.read16 lgdt⟩ }

/-- `label` is where the far return leads, and `off` the distance from the linear addresses of the
stack to where they are in memory. -/
def gdtFlush (off label : Word) (cs ss ds es fs gs : BitVec 16) (c : Core) : Except Exit Core := do
  let c ← c.load .fs fs
  let c ← c.load .gs gs
  let c ← c.load .es es
  let c ← c.load .ds ds
  let c ← c.load .ss ss
  let csSelector : Word := ((cs >>> 3).setWidth 32 <<< 3) ||| (cs &&& 3).setWidth 32
  let c ← c.push off csSelector
  let c ← c.push off label
  c.farReturn off

/-- The memory when `gdt_init` calls `gdt_set_table`. -/
def gdtInitTable (g : GdtLayout) (m : Mem) : Mem :=
  let flags := gdtFlagS ||| gdtFlagP ||| gdtFlagDb ||| gdtFlagG ||| gdtFlagDpl0
  let m := memset m g.gdt 0 (BitVec.ofNat 32 (8 * gdtLimit))
  let m := gdtSetGate m (g.gdt + 8) 0xFFFFF#32 0 gdtTypeCodeEr flags
  let m := gdtSetGate m (g.gdt + 16) 0xFFFFF#32 0 gdtTypeDataRw flags
  let m := m.write16 g.gdtl (BitVec.ofNat 16 (8 * gdtLimit))
  m.write32 (g.gdtl + 2) g.gdt

def gdtInit (g : GdtLayout) (off label : Word) (c : Core) : Except Exit Core :=
  let c := { c with cpu := { c.cpu with mem := gdtInitTable g c.cpu.mem } }
  gdtFlush off label 0x08#16 0x10#16 0x10#16 0x10#16 0x10#16 0x10#16 (gdtSetTable g.gdtl c)

/-! ### The table -/

/-- The segments of the kernel. -/
def kernelCode : Descriptor where
  base := 0
  limit := 0xFFFFF#20
  rw := true
  dc := false
  ex := true
  s := true
  dpl := 0
  present := true
  db := true
  g := true

def kernelData : Descriptor := { kernelCode with ex := false }

/-- The entries of the table. -/
def gdtEntries : Nat → Descriptor
  | 1 => kernelCode
  | 2 => kernelData
  | _ => .ofBits 0

/-- What `gdt_set_gate` gets for them. -/
def codeSegment : Segment where
  limit := 0xFFFFF#32
  base := 0
  type := gdtTypeCodeEr
  flags := gdtFlagS ||| gdtFlagP ||| gdtFlagDb ||| gdtFlagG ||| gdtFlagDpl0
  limit_lt := by decide
  type_within := by decide
  flags_within := by decide

def dataSegment : Segment where
  limit := 0xFFFFF#32
  base := 0
  type := gdtTypeDataRw
  flags := gdtFlagS ||| gdtFlagP ||| gdtFlagDb ||| gdtFlagG ||| gdtFlagDpl0
  limit_lt := by decide
  type_within := by decide
  flags_within := by decide

theorem kernelCode_flat : kernelCode.Flat :=
  Descriptor.flat_of rfl (by decide) rfl

theorem kernelData_flat : kernelData.Flat :=
  Descriptor.flat_of rfl (by decide) rfl

/-- The selectors that a segment register takes. -/
def Loadable (r : DataReg) (sel : BitVec 16) : Prop :=
  sel = 0x10#16 ∨ r ≠ .ss ∧ (sel = 0x08#16 ∨ null sel = true)

instance (r : DataReg) (sel : BitVec 16) : Decidable (Loadable r sel) :=
  inferInstanceAs (Decidable (_ ∨ _))

/-- The processor uses the table, in the most privileged level. -/
structure TableLoaded (g : GdtLayout) (c : Core) : Prop where
  gdtr : c.gdtr = g.register
  cpl : c.cpl = 0
  entries : ∀ sel, ti sel = false → index sel < gdtLimit → c.descriptor sel = gdtEntries (index sel)

section Table

variable {g : GdtLayout} {c t : Core} {r : DataReg} {sel : BitVec 16}

/-- The limit is one more than the offset of the last byte, and does not let another entry in. -/
theorem TableLoaded.holds_iff (h : TableLoaded g c) {i : Nat} :
    c.gdtr.holds i = true ↔ i < gdtLimit := by
  rw [h.gdtr, TableRegister.holds, decide_eq_true_iff]
  show 8 * i + 7 ≤ 80 ↔ i < 10
  omega

theorem TableLoaded.entry_cases (h : TableLoaded g c) (hti : ti sel = false)
    (hindex : index sel < gdtLimit) :
    index sel = 1 ∧ c.descriptor sel = kernelCode ∨
      index sel = 2 ∧ c.descriptor sel = kernelData ∨
      index sel ≠ 1 ∧ index sel ≠ 2 ∧ c.descriptor sel = .ofBits 0 := by
  rw [h.entries sel hti hindex]
  by_cases h1 : index sel = 1
  · exact Or.inl ⟨h1, by rw [h1]; rfl⟩
  · by_cases h2 : index sel = 2
    · exact Or.inr (Or.inl ⟨h2, by rw [h2]; rfl⟩)
    · exact Or.inr (Or.inr ⟨h1, h2, gdtEntries.eq_3 _ h1 h2⟩)

/-- What a selector of the global table is made of. -/
theorem selector_eq (hti : ti sel = false) : sel.toNat = 8 * index sel + (rpl sel).toNat := by
  have hbit : sel.toNat / 4 % 2 = 0 := by
    rw [ti, BitVec.getLsbD, Nat.testBit_eq_decide_div_mod_eq] at hti
    have := of_decide_eq_false hti
    omega
  have hrpl : (rpl sel).toNat = sel.toNat % 4 := by
    rw [rpl, BitVec.extractLsb'_toNat, Nat.shiftRight_zero]
  rw [hrpl, index]
  omega

theorem TableLoaded.descriptor_data (h : TableLoaded g c) : c.descriptor 0x10#16 = kernelData :=
  h.entries _ rfl (by decide)

theorem TableLoaded.descriptor_code (h : TableLoaded g c) : c.descriptor 0x08#16 = kernelCode :=
  h.entries _ rfl (by decide)

theorem TableLoaded.holds_not (h : TableLoaded g c) (hti : ti sel = false)
    (hindex : index sel < gdtLimit) : (!(c.table sel).holds (index sel)) = false := by
  rw [Core.table_global hti, h.holds_iff.mpr hindex]
  rfl

theorem TableLoaded.load_data (h : TableLoaded g c) (r : DataReg) :
    c.load r 0x10#16 = .ok ((c.touch 0x10#16).setData r ⟨0x10#16, some kernelData⟩) := by
  have hholds : (!(c.table 0x10#16).holds (index 0x10#16)) = false := h.holds_not rfl (by decide)
  by_cases hr : r = .ss
  · subst hr
    rw [Core.load_ss, Core.loadStack, h.descriptor_data, hholds, h.cpl]
    rfl
  · rw [Core.load_ne_ss hr, Core.loadData, h.descriptor_data, hholds, h.cpl]
    rfl

theorem TableLoaded.load_code (h : TableLoaded g c) (hr : r ≠ .ss) :
    c.load r 0x08#16 = .ok ((c.touch 0x08#16).setData r ⟨0x08#16, some kernelCode⟩) := by
  have hholds : (!(c.table 0x08#16).holds (index 0x08#16)) = false := h.holds_not rfl (by decide)
  rw [Core.load_ne_ss hr, Core.loadData, h.descriptor_code, hholds, h.cpl]
  rfl

theorem error_of_null (h : null sel = true) : error sel false = 0 := by
  have hall : ∀ i < 4, error (BitVec.ofNat 16 i) false = 0 := by decide
  have hsel := hall sel.toNat (of_decide_eq_true h)
  rwa [BitVec.ofNat_toNat, BitVec.setWidth_eq] at hsel

/-- What is wrong with a selector of an entry: its level, or the entry. -/
theorem TableLoaded.refused (h : TableLoaded g c) (hti : ti sel = false)
    (hindex : index sel < gdtLimit) (hdata : sel ≠ 0x10#16) :
    (rpl sel ≠ 0 ∨ (c.descriptor sel).writable = false) ∧
      (sel ≠ 0x08#16 → (c.descriptor sel).conforming = false ∧ (c.descriptor sel).dpl < rpl sel ∨
        (c.descriptor sel).readable = false) := by
  have heq := selector_eq hti
  rcases h.entry_cases hti hindex with ⟨h1, hd⟩ | ⟨h2, hd⟩ | ⟨-, -, hd⟩
  · rw [hd]
    refine ⟨Or.inr rfl, fun hcode => Or.inl ⟨rfl, ?_⟩⟩
    show 0#2 < rpl sel
    bv_omega
  · rw [hd]
    refine ⟨Or.inl (by bv_omega), fun _ => Or.inl ⟨rfl, ?_⟩⟩
    show 0#2 < rpl sel
    bv_omega
  · rw [hd]
    exact ⟨Or.inr rfl, fun _ => Or.inr rfl⟩

theorem TableLoaded.load_fault (h : TableLoaded g c) (hti : ti sel = false)
    (hsel : ¬Loadable r sel) : c.load r sel = .error (.fault 13 (error sel false)) := by
  have hdata : sel ≠ 0x10#16 := fun hsel' => hsel (Or.inl hsel')
  by_cases hindex : index sel < gdtLimit
  · have hholds := h.holds_not hti hindex
    obtain ⟨hstack, hother⟩ := h.refused hti hindex hdata
    by_cases hr : r = .ss
    · subst hr
      rw [Core.load_ss, Core.loadStack, hholds, h.cpl]
      split
      · next hnull => rw [error_of_null hnull]
      · have hcheck : (rpl sel != 0 || !(c.descriptor sel).writable ||
            (c.descriptor sel).dpl != 0) = true := by
          rcases hstack with hrpl | hwrite
          · rw [bne_iff_ne.mpr hrpl, Bool.true_or, Bool.true_or]
          · simp [hwrite]
        rw [if_neg Bool.false_ne_true, if_pos hcheck]
    · have hnull : ¬null sel = true := fun hnull => hsel (Or.inr ⟨hr, Or.inr hnull⟩)
      have hcode : sel ≠ 0x08#16 := fun hcode => hsel (Or.inr ⟨hr, Or.inl hcode⟩)
      have hcheck : (!(c.descriptor sel).readable || (!(c.descriptor sel).conforming &&
          ((c.descriptor sel).dpl < rpl sel || (c.descriptor sel).dpl < 0))) = true := by
        rcases hother hcode with ⟨hconforming, hdpl⟩ | hread
        · simp [hconforming, hdpl]
        · simp [hread]
      rw [Core.load_ne_ss hr, Core.loadData, hholds, h.cpl, if_neg hnull,
        if_neg Bool.false_ne_true, if_pos hcheck]
  · have hbeyond : (!(c.table sel).holds (index sel)) = true := by
      rw [Core.table_global hti]
      have hnot : ¬c.gdtr.holds (index sel) = true := fun hheld => hindex (h.holds_iff.mp hheld)
      simpa using hnot
    have hnull : ¬null sel = true := by
      intro hnull
      have hlt := of_decide_eq_true hnull
      unfold index gdtLimit at hindex
      omega
    by_cases hr : r = .ss
    · subst hr
      rw [Core.load_ss, Core.loadStack, if_neg hnull, if_pos hbeyond]
    · rw [Core.load_ne_ss hr, Core.loadData, if_neg hnull, if_pos hbeyond]

end Table

/-! ### The set-up -/

/-- The address is in the table. -/
def GdtLayout.InGdt (g : GdtLayout) (x : Word) : Prop := (x - g.gdt).toNat < 8 * gdtLimit

section SetUp

variable {g : GdtLayout} {c t : Core} {off label : Word}

theorem inGdt_of_entry {i : Nat} (hi : i < gdtLimit) {x : Word}
    (hx : (x - g.register.addr i).toNat < 8) : g.InGdt x := by
  have hmul : 8 * BitVec.ofNat 32 i = BitVec.ofNat 32 (8 * i) := (BitVec.ofNat_mul 8 i).symm
  have hsub : x - g.gdt = x - g.register.addr i + BitVec.ofNat 32 (8 * i) := by
    rw [GdtLayout.register, TableRegister.addr, hmul]
    bv_omega
  unfold gdtLimit at hi
  rw [GdtLayout.InGdt, hsub, BitVec.toNat_add, BitVec.toNat_ofNat]
  unfold gdtLimit
  omega

theorem entries_gdtInitTable (g : GdtLayout) (m : Mem) {i : Nat} (hi : i < gdtLimit) :
    Descriptor.ofBits ((gdtInitTable g m).read64 (g.register.addr i)) = gdtEntries i := by
  have hgdtl := g.gdt_gdtl
  have hend := g.gdt_end
  have hend' := g.gdtl_end
  unfold gdtInitTable
  extract_lets flags m₁ m₂ m₃ m₄
  have hcode : m₂ = m₁.write64 (g.register.addr 1) codeSegment.value :=
    codeSegment.written_eq m₁ (g.gdt + 8)
  have hdata : m₃ = m₂.write64 (g.register.addr 2) dataSegment.value :=
    dataSegment.written_eq m₂ (g.gdt + 16)
  have hfar : ∀ j < gdtLimit, j ≠ i → ∀ (m : Mem) (v : BitVec 64),
      (m.write64 (g.register.addr j) v).read64 (g.register.addr i) =
        m.read64 (g.register.addr i) := by
    intro j hj hne m v
    unfold gdtLimit at hi hj
    obtain ⟨hle, hle'⟩ := g.register.addr_sub_addr (i := j) (j := i) (by omega) (by omega) hne
    exact Mem.read64_write64_far hle hle'
  have hgdtlBytes : (m₄.write32 (g.gdtl + 2) g.gdt).read64 (g.register.addr i) =
      m₃.read64 (g.register.addr i) := by
    refine Mem.read64_congr fun x hx => ?_
    have hx := inGdt_of_entry hi hx
    unfold GdtLayout.InGdt at hx
    unfold gdtLimit at hx hgdtl hend
    rw [Mem.byte_write32_ne (by bv_omega), Mem.byte_write16_ne (by bv_omega)]
  rw [hgdtlBytes, hdata]
  by_cases h2 : i = 2
  · subst h2
    rw [Mem.read64_write64_same]
    decide
  rw [hfar 2 (by decide) (Ne.symm h2), hcode]
  by_cases h1 : i = 1
  · subst h1
    rw [Mem.read64_write64_same]
    decide
  rw [hfar 1 (by decide) (Ne.symm h1), gdtEntries.eq_3 _ h1 h2, Mem.read64_of_zero]
  intro x hx
  exact (byte_memset m g.gdt 0 _ x).trans (if_pos (inGdt_of_entry hi hx))

theorem TableLoaded.reloaded (h : TableLoaded g c) (ht : Core.Reloaded c t) : TableLoaded g t where
  gdtr := ht.gdtr.trans h.gdtr
  cpl := by
    obtain ⟨m, hm⟩ := ht.cpu
    rw [Core.cpl, hm]
    exact h.cpl
  entries := fun sel hti hindex => (ht.descriptor sel hti).trans (h.entries sel hti hindex)

theorem TableLoaded.congr (h : TableLoaded g c) (hgdtr : t.gdtr = c.gdtr) (hcpl : t.cpl = 0)
    (hbyte : ∀ x, g.InGdt x → t.cpu.mem.byte x = c.cpu.mem.byte x) : TableLoaded g t where
  gdtr := hgdtr.trans h.gdtr
  cpl := hcpl
  entries := fun sel hti hindex => by
    rw [← h.entries sel hti hindex, Core.descriptor, Core.descriptor, Core.entry_eq hti,
      Core.entry_eq hti, hgdtr]
    exact congrArg Descriptor.ofBits
      (Mem.read64_congr fun x hx => hbyte x (inGdt_of_entry hindex (by rwa [h.gdtr] at hx)))

theorem byte_gdtInitTable (m : Mem) {x : Word} (hgdt : ¬g.InGdt x)
    (hgdtl : 6 ≤ (x - g.gdtl).toNat) : (gdtInitTable g m).byte x = m.byte x := by
  have hentry : ∀ i < gdtLimit, 8 ≤ (x - g.register.addr i).toNat := by
    intro i hi
    by_contra hnot
    exact hgdt (inGdt_of_entry hi (by omega))
  unfold gdtInitTable
  extract_lets flags m₁ m₂ m₃ m₄
  have hcode : m₂ = m₁.write64 (g.register.addr 1) codeSegment.value :=
    codeSegment.written_eq m₁ (g.gdt + 8)
  have hdata : m₃ = m₂.write64 (g.register.addr 2) dataSegment.value :=
    dataSegment.written_eq m₂ (g.gdt + 16)
  rw [Mem.byte_write32_ne (by bv_omega), Mem.byte_write16_ne (by omega), hdata,
    Mem.byte_write64_ne (hentry 2 (by decide)), hcode, Mem.byte_write64_ne (hentry 1 (by decide))]
  exact (byte_memset m g.gdt 0 _ x).trans (if_neg hgdt)

/-- `gdt_set_table` loads the register with what `gdt_init` has stored. -/
theorem gdtr_gdtSetTable (g : GdtLayout) (m : Mem) (hc : c.cpu.mem = gdtInitTable g m) :
    (gdtSetTable g.gdtl c).gdtr = g.register := by
  have hbase : c.cpu.mem.read32 (g.gdtl + 2) = g.gdt := by
    rw [hc]
    exact Mem.read32_write32_same _ _ _
  have hlimit : c.cpu.mem.read16 g.gdtl = BitVec.ofNat 16 (8 * gdtLimit) := by
    rw [hc]
    unfold gdtInitTable
    extract_lets flags m₁ m₂ m₃ m₄
    rw [Mem.read16, Mem.byte_write32_ne (by bv_omega), Mem.byte_write32_ne (by bv_omega)]
    exact Mem.read16_write16_same _ _ _
  rw [gdtSetTable, hbase, hlimit, GdtLayout.register]

theorem TableLoaded.load_data_spec (h : TableLoaded g c) (r : DataReg) :
    ∃ t, c.load r 0x10#16 = .ok t ∧ TableLoaded g t ∧ Core.Reloaded c t ∧
      t.data = Function.update c.data r ⟨0x10#16, some kernelData⟩ := by
  have hload := h.load_data r
  have hreloaded := Core.load_reloaded rfl hload
  refine ⟨_, hload, h.reloaded hreloaded, hreloaded, ?_⟩
  rw [Core.setData, Core.data_touch]

end SetUp

/-- The processor in the flat model. -/
structure FlatLoaded (g : GdtLayout) (c : Core) : Prop extends TableLoaded g c where
  cs : c.cpu.cs = 0x08#32
  code : c.code = kernelCode
  data : ∀ r d, (c.data r).descriptor = some d → d = kernelCode ∨ d = kernelData
  stack : (c.data .ss).descriptor = some kernelData
  accessed : (c.entry 0x08#16).getLsbD 40 = true

section Flush

variable {g : GdtLayout} {c t : Core} {off label : Word}

theorem FlatLoaded.reloaded (h : FlatLoaded g c) (ht : Core.Reloaded c t) : FlatLoaded g t := by
  have hentry : ∀ sel, ti sel = false → c.gdtr.holds (index sel) = true →
      (c.descriptor sel).readable = true →
        c.descriptor sel = kernelCode ∨ c.descriptor sel = kernelData := by
    intro sel hti hholds hread
    rcases h.entry_cases hti (h.holds_iff.mp hholds) with ⟨-, hd⟩ | ⟨-, hd⟩ | ⟨-, -, hd⟩
    · exact Or.inl hd
    · exact Or.inr hd
    · rw [hd] at hread
      exact absurd hread (by decide)
  refine { toTableLoaded := h.toTableLoaded.reloaded ht, cs := ?_, code := ht.code.trans h.code,
           data := ?_, stack := ?_, accessed := ht.accessed _ rfl h.accessed }
  · obtain ⟨m, hm⟩ := ht.cpu
    rw [hm]
    exact h.cs
  · intro r d hd
    rcases ht.data r d hd with hold | ⟨sel, hti, hholds, rfl, hread⟩
    · exact h.data r d hold
    · exact hentry sel hti hholds hread
  · rcases ht.stack with hold | ⟨sel, hti, hholds, hd, hwrite⟩
    · rw [hold, h.stack]
    · rcases hentry sel hti hholds (Core.readable_of_writable hwrite) with hcode | hdata
      · rw [hcode] at hwrite
        exact absurd hwrite (by decide)
      · rw [hd, hdata]

/-- What keeps the segments and does not write to the table keeps the flat model. -/
theorem FlatLoaded.congr (h : FlatLoaded g c) (hgdtr : t.gdtr = c.gdtr) (hcs : t.cpu.cs = 0x08#32)
    (hcode : t.code = c.code) (hdata : t.data = c.data)
    (hbyte : ∀ x, g.InGdt x → t.cpu.mem.byte x = c.cpu.mem.byte x) : FlatLoaded g t where
  toTableLoaded := by
    refine h.toTableLoaded.congr hgdtr ?_ hbyte
    rw [Core.cpl, hcs]
    decide
  cs := hcs
  code := hcode.trans h.code
  data := fun r d hd => h.data r d (by rwa [hdata] at hd)
  stack := by rw [hdata, h.stack]
  accessed := by
    have hentry : t.entry 0x08#16 = c.entry 0x08#16 := by
      rw [Core.entry_eq rfl, Core.entry_eq rfl, hgdtr, h.gdtr]
      exact Mem.read64_congr fun x hx => hbyte x (inGdt_of_entry (by decide) hx)
    rw [hentry, h.accessed]

theorem stackWithin_flat (h : (c.data .ss).descriptor = some kernelData) {offset : Word}
    (hoffset : offset.toNat + 4 ≤ 2 ^ 32) : c.stackWithin offset = true := by
  rw [Core.stackWithin, h]
  exact kernelData_flat.within hoffset

theorem stackBase_flat (h : (c.data .ss).descriptor = some kernelData) : c.stackBase = 0 := by
  rw [Core.stackBase, h]
  rfl

theorem pushesWithin_flat (h : (c.data .ss).descriptor = some kernelData) {n : Nat}
    (hroom : 4 * n ≤ (c.cpu.reg .esp).toNat) : c.pushesWithin n = true := by
  rw [Core.pushesWithin, List.all_eq_true]
  intro i hi
  have hi := List.mem_range.mp hi
  have hmul : 4 * BitVec.ofNat 32 (i + 1) = BitVec.ofNat 32 (4 * (i + 1)) :=
    (BitVec.ofNat_mul 4 (i + 1)).symm
  have hesp := (c.cpu.reg .esp).isLt
  refine stackWithin_flat h ?_
  rw [hmul, BitVec.toNat_sub, BitVec.toNat_ofNat,
    Nat.mod_eq_of_lt (show 4 * (i + 1) < 2 ^ 32 by omega)]
  omega

theorem popsWithin_flat (h : (c.data .ss).descriptor = some kernelData) {n : Nat}
    (hroom : (c.cpu.reg .esp).toNat + 4 * n ≤ 2 ^ 32) : c.popsWithin n = true := by
  rw [Core.popsWithin, List.all_eq_true]
  intro i hi
  have hi := List.mem_range.mp hi
  have hmul : 4 * BitVec.ofNat 32 i = BitVec.ofNat 32 (4 * i) := (BitVec.ofNat_mul 4 i).symm
  have hesp := (c.cpu.reg .esp).isLt
  refine stackWithin_flat h ?_
  rw [hmul, BitVec.toNat_add, BitVec.toNat_ofNat]
  omega

theorem push_flat (h : (c.data .ss).descriptor = some kernelData)
    (hroom : 4 ≤ (c.cpu.reg .esp).toNat) (v : Word) :
    c.push off v = .ok { c with cpu := c.cpu.push off v } := by
  rw [Core.push, pushesWithin_flat h hroom, stackBase_flat h, zero_add]
  rfl

/-- A return leads to the code segment only. -/
theorem TableLoaded.returnCode_eq (h : TableLoaded g c) {sel : BitVec 16} {d : Descriptor}
    (hti : ti sel = false) (hreturn : c.returnCode sel = .ok d) : sel = 0x08#16 := by
  rw [Core.returnCode] at hreturn
  split at hreturn
  · cases hreturn
  split at hreturn
  · cases hreturn
  split at hreturn
  · cases hreturn
  next hholds hcheck =>
    rw [Core.table_global hti] at hholds
    have hindex : index sel < gdtLimit := h.holds_iff.mp (by simpa using hholds)
    have hreturnable : (c.descriptor sel).returnable (rpl sel) = true := by
      by_contra hnot
      exact hcheck (by simp [hnot])
    rcases h.entry_cases hti hindex with ⟨h1, hd⟩ | ⟨-, hd⟩ | ⟨-, -, hd⟩
    · have heq := selector_eq hti
      rw [hd] at hreturnable
      have hrpl : 0#2 = rpl sel := eq_of_beq hreturnable
      rw [← hrpl] at heq
      bv_omega
    · rw [hd] at hreturnable
      cases hreturnable
    · rw [hd] at hreturnable
      cases hreturnable

theorem TableLoaded.returnCode (h : TableLoaded g c) : c.returnCode 0x08#16 = .ok kernelCode := by
  have hholds : (!(c.table 0x08#16).holds (index 0x08#16)) = false := h.holds_not rfl (by decide)
  rw [Core.returnCode, h.descriptor_code, hholds, h.cpl]
  rfl

theorem farReturn_flat (h : TableLoaded g c) (hstack : (c.data .ss).descriptor = some kernelData)
    (hroom : (c.cpu.reg .esp).toNat + 8 ≤ 2 ^ 32) (htop : c.cpu.top off = label)
    (htop' : c.cpu.drop.top off = 0x08#32) :
    c.farReturn off = .ok { c.touch 0x08#16 with
      cpu := { (c.touch 0x08#16).cpu.drop.drop with eip := label, cs := 0x08#32 }
      code := kernelCode } := by
  have hwithin : kernelCode.within label 1 = true := kernelCode_flat.within (by omega)
  rw [Core.farReturn, popsWithin_flat hstack (n := 2) hroom, stackBase_flat hstack, zero_add, htop,
    htop', show (0x08#32).setWidth 16 = 0x08#16 from rfl, h.returnCode]
  simp only [hwithin]
  rfl

/-- The far return has room on a stack that is apart from the table. -/
structure FlushStack (g : GdtLayout) (off : Word) (c : Core) : Prop where
  room : 8 ≤ (c.cpu.reg .esp).toNat
  apart : ∀ x, g.InGdt x → 8 ≤ (x - (c.cpu.reg .esp - 8 + off)).toNat

/-- Loads of segment registers write to the table only. -/
theorem TableLoaded.byte_reloaded (h : TableLoaded g c) (ht : Core.Reloaded c t) {x : Word}
    (hx : ¬g.InGdt x) : t.cpu.mem.byte x = c.cpu.mem.byte x := by
  refine ht.byte x fun i hi => ?_
  have hlt := h.holds_iff.mp hi
  by_contra hnot
  rw [h.gdtr] at hnot
  exact hx (inGdt_of_entry hlt (by omega))

/-- The loads of `gdt_flush`: what is left to do, with every register on the data segment. -/
theorem gdtFlush_loads (off label : Word) (h : TableLoaded g c) :
    ∃ t, gdtFlush off label 0x08#16 0x10#16 0x10#16 0x10#16 0x10#16 0x10#16 c =
        (do
          let t ← t.push off 0x08#32
          let t ← t.push off label
          t.farReturn off) ∧
      TableLoaded g t ∧ Core.Reloaded c t ∧ ∀ r, t.data r = ⟨0x10#16, some kernelData⟩ := by
  obtain ⟨c₁, e₁, h₁, r₁, d₁⟩ := h.load_data_spec .fs
  obtain ⟨c₂, e₂, h₂, r₂, d₂⟩ := h₁.load_data_spec .gs
  obtain ⟨c₃, e₃, h₃, r₃, d₃⟩ := h₂.load_data_spec .es
  obtain ⟨c₄, e₄, h₄, r₄, d₄⟩ := h₃.load_data_spec .ds
  obtain ⟨c₅, e₅, h₅, r₅, d₅⟩ := h₄.load_data_spec .ss
  refine ⟨c₅, ?_, h₅, (((r₁.trans r₂).trans r₃).trans r₄).trans r₅, fun r => ?_⟩
  · simp only [gdtFlush, e₁, e₂, e₃, e₄, e₅, bind, Except.bind]
    rfl
  · rw [d₅, d₄, d₃, d₂, d₁]
    cases r <;> rfl

/-- The pushes of `gdt_flush` store below the stack and keep the table. -/
theorem TableLoaded.push_two (h : TableLoaded g c) (hflush : FlushStack g off c)
    (hstack : (c.data .ss).descriptor = some kernelData) (sel label : Word) :
    ∃ s, (do
        let t ← c.push off sel
        t.push off label) = .ok { c with cpu := s } ∧
      TableLoaded g { c with cpu := s } ∧ Cpu.Pushed off c.cpu s 2 ∧
      s.Stacked off [label, sel] ∧ s.eflags = c.cpu.eflags ∧
      ∀ r ≠ .esp, s.reg r = c.cpu.reg r := by
  have hroom := hflush.room
  have hpushed : Cpu.Pushed off c.cpu (c.cpu.push off sel) 1 :=
    Cpu.Pushed.refl.push (by decide) _
  have hpushed₂ : Cpu.Pushed off c.cpu ((c.cpu.push off sel).push off label) 2 :=
    hpushed.push (by decide) _
  have hempty : c.cpu.Stacked off [] := trivial
  have hesp : 4 ≤ ((c.cpu.push off sel).reg .esp).toNat := by
    rw [hpushed.esp]
    bv_omega
  refine ⟨(c.cpu.push off sel).push off label, ?_, ?_, hpushed₂,
    (hempty.push (by decide) _).push (by show 8 ≤ 2 ^ 32; decide) _, rfl, fun r hr => ?_⟩
  · rw [push_flat hstack (by omega)]
    exact push_flat (c := { c with cpu := c.cpu.push off sel }) hstack hesp label
  · refine h.congr rfl h.cpl fun x hx => hpushed₂.byte x ?_
    rw [hpushed₂.esp]
    exact hflush.apart x hx
  · rw [Cpu.reg_push_ne hr, Cpu.reg_push_ne hr]

/-- The far return of `gdt_flush` leads to the label, in the flat model. -/
theorem TableLoaded.farReturn_spec (h : TableLoaded g c)
    (hdata : ∀ r, c.data r = ⟨0x10#16, some kernelData⟩)
    (hroom : (c.cpu.reg .esp).toNat + 8 ≤ 2 ^ 32) (hwords : c.cpu.Stacked off [label, 0x08#32]) :
    ∃ t, c.farReturn off = .ok t ∧ FlatLoaded g t ∧ t.cpu.eip = label ∧
      t.cpu.reg .esp = c.cpu.reg .esp + 8 ∧ (∀ r ≠ .esp, t.cpu.reg r = c.cpu.reg r) ∧
      t.cpu.eflags = c.cpu.eflags ∧ t.idtr = c.idtr ∧
      ∀ x, ¬g.InGdt x → t.cpu.mem.byte x = c.cpu.mem.byte x := by
  have hheld : c.gdtr.holds (index 0x08#16) = true := h.holds_iff.mpr (by decide)
  have htouch : Core.Reloaded c (c.touch 0x08#16) := Core.touch_reloaded rfl hheld
  have haccessed : ((c.touch 0x08#16).entry 0x08#16).getLsbD 40 = true := Core.accessed_touch rfl
  have hreturn := farReturn_flat h (by rw [hdata]) hroom hwords.top hwords.drop.top
  have hdata' : (c.touch 0x08#16).data = c.data := Core.data_touch ..
  obtain ⟨m, hm⟩ := htouch.cpu
  generalize c.touch 0x08#16 = u at hreturn htouch haccessed hdata' hm
  refine ⟨_, hreturn, ?_, rfl, ?_, fun r hr => ?_, ?_, htouch.idtr, fun x hx => ?_⟩
  · have hcpl : (0x08#32).extractLsb' 0 2 = 0#2 := by decide
    refine { toTableLoaded := (h.reloaded htouch).congr rfl hcpl fun x _ => rfl, cs := rfl,
             code := rfl, data := fun r d hd => ?_, stack := ?_, accessed := haccessed }
    · rw [hdata', hdata] at hd
      exact Or.inr (Option.some.inj hd).symm
    · rw [hdata', hdata]
  · show u.cpu.drop.drop.reg .esp = _
    rw [Cpu.esp_drop, Cpu.esp_drop, hm]
    bv_omega
  · show u.cpu.drop.drop.reg r = _
    rw [Cpu.reg_drop_ne hr, Cpu.reg_drop_ne hr, hm]
  · show u.cpu.eflags = _
    rw [hm]
  · exact h.byte_reloaded htouch hx

/-- `gdt_flush` with the selectors of `gdt_init` leads to the label, in the flat model. -/
theorem gdtFlush_spec (label : Word) (h : TableLoaded g c) (hflush : FlushStack g off c) :
    ∃ t, gdtFlush off label 0x08#16 0x10#16 0x10#16 0x10#16 0x10#16 0x10#16 c = .ok t ∧
      FlatLoaded g t ∧ t.cpu.eip = label ∧ t.cpu.reg = c.cpu.reg ∧
      t.cpu.eflags = c.cpu.eflags ∧ t.idtr = c.idtr ∧
      ∀ x, ¬g.InGdt x → 8 ≤ (x - (c.cpu.reg .esp - 8 + off)).toNat →
        t.cpu.mem.byte x = c.cpu.mem.byte x := by
  obtain ⟨u, hloads, hu, hreloaded, hdata⟩ := gdtFlush_loads off label h
  obtain ⟨m, hm⟩ := hreloaded.cpu
  have hesp : u.cpu.reg .esp = c.cpu.reg .esp := by rw [hm]
  have hroom := hflush.room
  have hstack : FlushStack g off u := ⟨by rwa [hesp], by rw [hesp]; exact hflush.apart⟩
  obtain ⟨s, hpush, hs, hpushed, hwords, heflags, hreg⟩ :=
    hu.push_two hstack (by rw [hdata]) 0x08#32 label
  have hesp' : s.reg .esp = c.cpu.reg .esp - 8 := by
    rw [hpushed.esp, hesp]
    rfl
  have hlt : (({ u with cpu := s } : Core).cpu.reg .esp).toNat + 8 ≤ 2 ^ 32 := by
    show (s.reg .esp).toNat + 8 ≤ 2 ^ 32
    rw [hesp']
    bv_omega
  obtain ⟨t, hreturn, hflat, heip, htesp, htreg, hteflags, htidtr, hbyte⟩ :=
    hs.farReturn_spec hdata hlt hwords
  refine ⟨t, ?_, hflat, heip, funext fun r => ?_, ?_, htidtr.trans hreloaded.idtr,
    fun x hgdt hx => ?_⟩
  · rw [hloads, ← bind_assoc, hpush]
    exact hreturn
  · by_cases hr : r = .esp
    · subst hr
      rw [htesp]
      show s.reg .esp + 8 = _
      rw [hesp', BitVec.sub_add_cancel]
    · rw [htreg r hr]
      show s.reg r = _
      rw [hreg r hr, hm]
  · rw [hteflags]
    show s.eflags = _
    rw [heflags, hm]
  · rw [hbyte x hgdt]
    show s.mem.byte x = _
    rw [hpushed.byte x (by rwa [hesp']), h.byte_reloaded hreloaded hgdt]

theorem gdtInit_spec (g : GdtLayout) (label : Word) {c : Core} (hcpl : c.cpl = 0)
    (hflush : FlushStack g off c) :
    ∃ t, gdtInit g off label c = .ok t ∧ FlatLoaded g t ∧ t.cpu.eip = label ∧
      t.cpu.reg = c.cpu.reg ∧ t.cpu.eflags = c.cpu.eflags ∧ t.idtr = c.idtr ∧
      ∀ x, ¬g.InGdt x → 6 ≤ (x - g.gdtl).toNat → 8 ≤ (x - (c.cpu.reg .esp - 8 + off)).toNat →
        t.cpu.mem.byte x = c.cpu.mem.byte x := by
  let c₁ : Core := { c with cpu := { c.cpu with mem := gdtInitTable g c.cpu.mem } }
  have hgdtr : (gdtSetTable g.gdtl c₁).gdtr = g.register := gdtr_gdtSetTable g c.cpu.mem rfl
  have htable : TableLoaded g (gdtSetTable g.gdtl c₁) := by
    refine ⟨hgdtr, hcpl, fun sel hti hindex => ?_⟩
    rw [Core.descriptor, Core.entry_eq hti, hgdtr]
    exact entries_gdtInitTable g c.cpu.mem hindex
  obtain ⟨t, hrun, hflat, heip, hreg, heflags, hidtr, hbyte⟩ :=
    gdtFlush_spec label htable ⟨hflush.room, hflush.apart⟩
  refine ⟨t, hrun, hflat, heip, hreg, heflags, hidtr, fun x hgdt hgdtl hx => ?_⟩
  exact (hbyte x hgdt hx).trans (byte_gdtInitTable c.cpu.mem hgdt hgdtl)

/-- After `gdt_init`, and after any attempts to load segment registers, offsets are linear addresses
in every segment that is loaded, and the stack has one; and a register takes the two selectors of
the kernel, or a null selector unless it is SS, and faults on every other selector of the table. -/
theorem gdtInit_flat (g : GdtLayout) (off label : Word) (c : Core) (hcpl : c.cpl = 0)
    (hflush : FlushStack g off c) (attempts : List (DataReg × BitVec 16))
    (hti : ∀ a ∈ attempts, ti a.2 = false) :
    ∃ t, gdtInit g off label c = .ok t ∧ t.cpu.eip = label ∧
      let u := t.loads attempts
      (u.code.Flat ∧ ∀ r d, (u.data r).descriptor = some d → d.Flat) ∧
        ((u.data .ss).descriptor).isSome ∧
        ∀ r sel, ti sel = false →
          (Loadable r sel → ∃ w, u.load r sel = .ok w ∧ (w.data r).selector = sel) ∧
            (¬Loadable r sel → u.load r sel = .error (.fault 13 (error sel false))) := by
  obtain ⟨t, hrun, hflat, heip, -⟩ := gdtInit_spec g label hcpl hflush
  refine ⟨t, hrun, heip, ?_⟩
  have hu := hflat.reloaded (Core.loads_reloaded hti)
  intro u
  refine ⟨⟨?_, fun r d hd => ?_⟩, ?_, fun r sel hsel => ⟨fun hload => ?_, hu.load_fault hsel⟩⟩
  · rw [hu.code]
    exact kernelCode_flat
  · rcases hu.data r d hd with rfl | rfl
    · exact kernelCode_flat
    · exact kernelData_flat
  · rw [hu.stack]
    rfl
  · rcases hload with rfl | ⟨hr, rfl | hnull⟩
    · exact ⟨_, hu.load_data r, by rw [Core.data_setData_same]⟩
    · exact ⟨_, hu.load_code hr, by rw [Core.data_setData_same]⟩
    · exact ⟨_, Core.load_null hr hnull, by rw [Core.data_setData_same]⟩

end Flush

/-! ### A boot -/

def smallGdt : GdtLayout where
  gdt := 0xC0113000#32
  gdtl := 0xC0113100#32
  gdt_end := by decide
  gdtl_end := by decide
  gdt_gdtl := by decide

/-- A processor as a boot loader leaves it, with nothing in memory. -/
def loaderCore : Core where
  cpu :=
    { reg := fun r => if r = .esp then 0xC0105000#32 else 0
      eip := 0xC0100000#32
      cs := 0x08#32
      eflags := 0x2#32
      cr0 := 0x80000011#32
      cr3 := 0
      cr4 := 0x10#32
      mem := ⟨fun _ => 0⟩ }
  gdtr := ⟨0, 0⟩
  ldtr := ⟨0, 0⟩
  idtr := ⟨0, 0⟩
  code := kernelCode
  data := fun _ => ⟨0x10#16, some kernelData⟩

theorem loaderCore_flushStack : FlushStack smallGdt 0 loaderCore where
  room := by decide
  apart := fun x hx => by
    have hx : (x - 0xC0113000#32).toNat < 80 := hx
    show 8 ≤ (x - (0xC0105000#32 - 8 + 0)).toNat
    bv_omega

/-- Attempts with a selector that has no entry, with the code segment, with a null selector and
with the null selector in SS. -/
def someAttempts : List (DataReg × BitVec 16) :=
  [(.es, 0x9999#16), (.fs, 0x08#16), (.gs, 0#16), (.ss, 0#16)]

/-- After them DS still refuses the selector without an entry, and takes the data segment. -/
theorem gdtInit_flat_unknown : ∃ t, gdtInit smallGdt 0 0xC0100800#32 loaderCore = .ok t ∧
    (t.loads someAttempts).load .ds 0x9999#16 = .error (.fault 13 0x9998#32) ∧
    (((t.loads someAttempts).data .ss).descriptor).isSome ∧
    ∃ w, (t.loads someAttempts).load .ds 0x10#16 = .ok w ∧ (w.data .ds).selector = 0x10#16 := by
  obtain ⟨t, hrun, -, -, hss, hload⟩ := gdtInit_flat smallGdt 0 0xC0100800#32 loaderCore
    (by decide) loaderCore_flushStack someAttempts (by decide)
  exact ⟨t, hrun, (hload .ds 0x9999#16 (by decide)).2 (by decide), hss,
    (hload .ds 0x10#16 (by decide)).1 (by decide)⟩

end BasicX86Kernel.Gdt
