import BasicX86Kernel.Acpi.Mapped

/-! Which callback `init_acpi_power_button` replaces.  The interrupt of the FADT has 16 bits, and
the vector computed from it 8, so that the handler may take the place of that of an exception. -/

namespace BasicX86Kernel.Acpi

open Machine Klib

/-- A kernel image whose variable `global_fadt` is outside of the table of the callbacks. -/
structure SciImage extends AcpiImage where
  fadt_callback : globalFadt.toNat + 4 ≤ idt.idtGateCallback.toNat ∨
    idt.idtGateCallback.toNat + 4 * idtEntries ≤ globalFadt.toNat
  fadt_end : globalFadt.toNat + 4 ≤ 2 ^ 32

/-- From memory `m`, `init_acpi_power_button` leaves `m'`: unless it aborts, the handler is
registered for vector `32 + sci_interrupt`, or nowhere if the table has no such vector, and the
callbacks of the exceptions are those of `m`. -/
structure SciRegistered (K : SciImage) (m : Mem) (fadt : Word) (m' : Mem) : Prop where
  registered : let m₁ := m.write32 K.globalFadt fadt
    let vector := 32 + (m₁.read16 (fadt + sciInterrupt)).toNat
    ¬needsInterpreter m₁ fadt → m' =
      if vector < idtEntries then m₁.write32 (K.idt.callbackAddr vector) K.acpiInterruptHandlerPower
      else m₁
  exceptions : ∀ v < 32, m'.read32 (K.idt.callbackAddr v) = m.read32 (K.idt.callbackAddr v)

/-- The vector that the code computes. -/
theorem toNat_sciVector (sci : BitVec 16) :
    (32 + sci.setWidth 8 : BitVec 8).toNat = (32 + sci.toNat) % 256 := by
  rw [BitVec.toNat_add, BitVec.toNat_setWidth, show (32 : BitVec 8).toNat = 32 from rfl]
  omega

section

variable (K : SciImage) (m : Mem) (fadt : Word)

/-- The store to `global_fadt` leaves the callbacks alone. -/
theorem read32_callback_globalFadt {v : Nat} (hv : v < idtEntries) :
    (m.write32 K.globalFadt fadt).read32 (K.idt.callbackAddr v)
      = m.read32 (K.idt.callbackAddr v) := by
  have hslot := K.idt.toNat_callbackAddr hv
  have hend := K.idt.callback_end
  have hfadt := K.fadt_end
  have hapart := K.fadt_callback
  unfold idtEntries at hv hend hapart
  exact Mem.read32_write32_disjoint (by omega) (by omega) (by omega)

/-- A registration leaves the callbacks of the other vectors alone. -/
theorem read32_callback_ne {v w : Nat} (hv : v < idtEntries) (hw : w < idtEntries) (hne : v ≠ w)
    (handler : Word) : (m.write32 (K.idt.callbackAddr w) handler).read32 (K.idt.callbackAddr v)
      = m.read32 (K.idt.callbackAddr v) := by
  have hslot := K.idt.toNat_callbackAddr hv
  have hslot' := K.idt.toNat_callbackAddr hw
  have hend := K.idt.callback_end
  unfold idtEntries at hv hw hend
  exact Mem.read32_write32_disjoint (by omega) (by omega) (by omega)

theorem sciRegistered_powerButtonMem_iff :
    let m₁ := m.write32 K.globalFadt fadt
    let sci := (m₁.read16 (fadt + sciInterrupt)).toNat
    SciRegistered K m fadt (powerButtonMem K.toAcpiImage m fadt) ↔
      needsInterpreter m₁ fadt ∨ 32 + sci < idtEntries ∨
        m₁.read32 (K.idt.callbackAddr ((32 + sci) % 256)) = K.acpiInterruptHandlerPower := by
  intro m₁ sci
  have hexceptions : ∀ v < 32, m₁.read32 (K.idt.callbackAddr v) = m.read32 (K.idt.callbackAddr v) :=
    fun v hv => read32_callback_globalFadt K m fadt (show v < 255 by omega)
  rw [powerButtonMem]
  by_cases habort : needsInterpreter m₁ fadt
  · rw [if_pos habort]
    exact iff_of_true ⟨fun h => absurd habort h, hexceptions⟩ (Or.inl habort)
  rw [if_neg habort, or_iff_right habort, idtSetInterruptHandler, toNat_sciVector]
  by_cases hvector : 32 + sci < idtEntries
  · -- the vector fits into 8 bits
    have hmod : (32 + sci) % 256 = 32 + sci := by
      unfold idtEntries at hvector
      omega
    refine iff_of_true ⟨fun _ => ?_, fun v hv => ?_⟩ (Or.inl hvector)
    · rw [if_pos hvector, hmod]
    · rw [hmod, read32_callback_ne K m₁ (show v < 255 by omega) hvector (by omega)]
      exact hexceptions v hv
  · -- nothing should be stored, so the store must not change anything
    rw [or_iff_right hvector]
    constructor
    · rintro ⟨hregistered, -⟩
      have hsame := hregistered habort
      rw [if_neg hvector] at hsame
      rw [← Mem.read32_write32_same m₁ (K.idt.callbackAddr ((32 + sci) % 256))
        K.acpiInterruptHandlerPower, hsame]
    · intro hsame
      rw [← hsame, Mem.write32_read32]
      exact ⟨fun _ => (if_neg hvector).symm, hexceptions⟩

end

/-- The handler is where it should be when the function aborts, when the vector is in the table, and
when the handler is in the slot of the truncated vector already. -/
theorem sci_registered_iff (K : SciImage) (dev : Ports) (s : AcpiState) (fadt : Word) :
    let m₁ := s.mem.write32 K.globalFadt fadt
    let sci := (m₁.read16 (fadt + sciInterrupt)).toNat
    let s' := ((initAcpiPowerButton K.toAcpiImage dev fadt).run (fun s => s.mem.byte) s).2
    SciRegistered K s.mem fadt s'.mem ↔
      needsInterpreter m₁ fadt ∨ 32 + sci < idtEntries ∨
        m₁.read32 (K.idt.callbackAddr ((32 + sci) % 256)) = K.acpiInterruptHandlerPower := by
  intro m₁ sci s'
  rw [(run_initAcpiPowerButton s K.toAcpiImage dev fadt).1]
  exact sciRegistered_powerButtonMem_iff K s.mem fadt

def sciKernelElf : SciImage where
  toAcpiImage := acpiKernelElf
  fadt_callback := by decide
  fadt_end := by decide

/-- A FADT whose power button is a fixed one, with interrupt 224. -/
def sci224 : AcpiState where
  sys := { System.blank with mem := System.blank.mem.write16 (0xC0003000#32 + sciInterrupt) 224#16 }
  ports := []
  visits := []

/-- With interrupt 224 the handler takes the place of that of the divide error. -/
theorem sci224_displaces_exception : ¬SciRegistered sciKernelElf sci224.mem 0xC0003000#32
    ((initAcpiPowerButton acpiKernelElf (fun _ _ => 0) 0xC0003000#32).run
      (fun s => s.mem.byte) sci224).2.mem := by
  have hrun := (run_initAcpiPowerButton sci224 acpiKernelElf (fun _ _ => 0) 0xC0003000#32).1
  rw [hrun]
  intro h
  have hslot := h.exceptions 0 (by decide)
  exact absurd hslot (by decide)

end BasicX86Kernel.Acpi
