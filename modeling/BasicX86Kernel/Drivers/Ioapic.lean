import BasicX86Kernel.Machine.Word
import Mathlib.Logic.Function.Basic

/-! The I/O APIC (drivers/82093AA.c and the masking of idt.c): its registers behind a selector of
eight bits, which redirection entry a vector masks, and which entries `ioapic_init` programs. -/

namespace BasicX86Kernel.Ioapic

open Machine

/-! ### Registers -/

/-- The field `mre` of `ioapic_ver_t`. -/
def verMre (ver : Word) : Byte := ver.extractLsb' 16 8

/-- The selector and the register file, which has room for the redirection table. -/
structure State where
  regsel : Word
  regs : Byte → Word
  mre_le : (verMre (regs 0x01)).toNat ≤ 119

def ioapicIoapicid : Word := 0x00
def ioapicIoapicver : Word := 0x01

/-- The index of the last redirection entry. -/
def State.mre (s : State) : Nat := (verMre (s.regs 0x01)).toNat

/-- The registers that keep what is written to them: the identification and the halves of the
redirection entries. The version and the arbitration are read only, and there are no others. -/
def Writable (mre : Nat) (reg : Byte) : Prop :=
  reg = 0x00 ∨ 0x10 ≤ reg.toNat ∧ reg.toNat ≤ 0x11 + 2 * mre

instance (mre : Nat) (reg : Byte) : Decidable (Writable mre reg) :=
  inferInstanceAs (Decidable (_ ∨ _))

theorem Writable.ne_ver {mre : Nat} {reg : Byte} (h : Writable mre reg) : reg ≠ 0x01 := by
  rintro rfl
  rcases h with h | ⟨h, -⟩
  · exact absurd h (by decide)
  · exact absurd h (by decide)

/-- The registers after a write of one of them. -/
def store (mre : Nat) (regs : Byte → Word) (reg : Byte) (value : Word) : Byte → Word :=
  if Writable mre reg then Function.update regs reg value else regs

theorem store_ver (mre : Nat) (regs : Byte → Word) (reg : Byte) (value : Word) :
    store mre regs reg value 0x01 = regs 0x01 := by
  rw [store]
  split
  · next h => exact Function.update_of_ne h.ne_ver.symm _ _
  · rfl

/-- A write to IOREGSEL. -/
def select (reg : Word) (s : State) : State := { s with regsel := reg }

/-- The register that IOWIN shows. -/
def State.selected (s : State) : Byte := s.regsel.setWidth 8

/-- A read of IOWIN. -/
def window (s : State) : Word := s.regs s.selected

/-- A write to IOWIN. -/
def setWindow (value : Word) (s : State) : State where
  regsel := s.regsel
  regs := store s.mre s.regs s.selected value
  mre_le := by rw [store_ver]; exact s.mre_le

def ioapicRead (reg : Word) (s : State) : Word × State :=
  let s := select reg s
  (window s, s)

def ioapicWrite (reg value : Word) (s : State) : State := setWindow value (select reg s)

def ioapicIoredtblL (index : Word) : Word := 0x10 + index * 2

def ioapicIoredtblH (index : Word) : Word := 0x10 + index * 2 + 1

/-- The register that a low index selects, and the one of a high index. -/
theorem ioapicIoredtblL_toNat (index : Word) :
    ((ioapicIoredtblL index).setWidth 8).toNat = (0x10 + 2 * index.toNat) % 256 := by
  rw [ioapicIoredtblL]
  simp only [BitVec.toNat_setWidth, BitVec.toNat_add, BitVec.toNat_mul]
  change (16 + index.toNat * 2 % 4294967296) % 4294967296 % 256 = _
  omega

theorem ioapicIoredtblH_toNat (index : Word) :
    ((ioapicIoredtblH index).setWidth 8).toNat = (0x11 + 2 * index.toNat) % 256 := by
  rw [ioapicIoredtblH]
  simp only [BitVec.toNat_setWidth, BitVec.toNat_add, BitVec.toNat_mul]
  change ((16 + index.toNat * 2 % 4294967296) % 4294967296 + 1) % 4294967296 % 256 = _
  omega

@[simp] theorem ioapicRead_fst (reg : Word) (s : State) :
    (ioapicRead reg s).1 = s.regs (reg.setWidth 8) := rfl

@[simp] theorem ioapicRead_regs (reg : Word) (s : State) : (ioapicRead reg s).2.regs = s.regs := rfl

@[simp] theorem ioapicRead_mre (reg : Word) (s : State) : (ioapicRead reg s).2.mre = s.mre := rfl

theorem ioapicWrite_regs (reg value : Word) (s : State) :
    (ioapicWrite reg value s).regs = store s.mre s.regs (reg.setWidth 8) value := rfl

@[simp] theorem ioapicWrite_mre (reg value : Word) (s : State) :
    (ioapicWrite reg value s).mre = s.mre := by
  rw [State.mre, ioapicWrite_regs, store_ver]
  rfl

/-- The register of the low word of an entry, and the one of the high word. -/
def low (i : Nat) : Byte := BitVec.ofNat 8 (0x10 + 2 * i)

def high (i : Nat) : Byte := BitVec.ofNat 8 (0x11 + 2 * i)

theorem low_toNat {i : Nat} (hi : i ≤ 119) : (low i).toNat = 0x10 + 2 * i := by
  rw [low, BitVec.toNat_ofNat]
  omega

theorem high_toNat {i : Nat} (hi : i ≤ 119) : (high i).toNat = 0x11 + 2 * i := by
  rw [high, BitVec.toNat_ofNat]
  omega

/-! ### Masking -/

/-- What masking and unmasking share. -/
def idtUpdateEntry (f : Word → Word) (vector : Byte) (s : State) : State :=
  if vector < 32 then s
  else
    let irq := vector - 32
    let (value, s) := ioapicRead (ioapicIoredtblL (irq.zeroExtend 32)) s
    let value := f value
    ioapicWrite (ioapicIoredtblL (irq.zeroExtend 32)) value s

def idtMaskInterrupt : Byte → State → State := idtUpdateEntry (· ||| (1#32 <<< 16))

def idtUnmaskInterrupt : Byte → State → State := idtUpdateEntry (· &&& ~~~(1#32 <<< 16))

/-- The call that sets the mask bit or the one that clears it. -/
def setMasked : Bool → Byte → State → State
  | true => idtMaskInterrupt
  | false => idtUnmaskInterrupt

/-- The register that is selected for a vector. -/
def entryReg (vector : Byte) : Byte :=
  (ioapicIoredtblL ((vector - 32).zeroExtend 32)).setWidth 8

theorem entryReg_toNat {v : Byte} (hv : 32 ≤ v.toNat) :
    (entryReg v).toNat = (0x10 + 2 * (v.toNat - 32)) % 256 := by
  have hlt := v.isLt
  have hirq : (v - 32).toNat = v.toNat - 32 := by
    rw [BitVec.toNat_sub]
    change (256 - 32 + v.toNat) % 256 = _
    omega
  rw [entryReg, ioapicIoredtblL_toNat, BitVec.zeroExtend, BitVec.toNat_setWidth, hirq]
  omega

/-- The vectors of the redirection entries. -/
def InTable (s : State) (v : Byte) : Prop := 32 ≤ v.toNat ∧ v.toNat ≤ 32 + s.mre

/-- The vectors past the table whose register comes out as the identification or, around the
selector, as an entry of the table. -/
def Aliased (s : State) (v : Byte) : Prop := v.toNat = 152 ∨ 160 ≤ v.toNat ∧ v.toNat ≤ 160 + s.mre

instance (s : State) (v : Byte) : Decidable (InTable s v) := inferInstanceAs (Decidable (_ ∧ _))

instance (s : State) (v : Byte) : Decidable (Aliased s v) := inferInstanceAs (Decidable (_ ∨ _))

theorem writable_entryReg_iff (s : State) {v : Byte} (hv : 32 ≤ v.toNat) :
    Writable s.mre (entryReg v) ↔ InTable s v ∨ Aliased s v := by
  have hlt := v.isLt
  have hmre : s.mre ≤ 119 := s.mre_le
  have hreg := entryReg_toNat hv
  rw [Writable, InTable, Aliased, ← BitVec.toNat_inj]
  change (entryReg v).toNat = 0 ∨ _ ↔ _
  omega

theorem InTable.entryReg {s : State} {v : Byte} (h : InTable s v) :
    entryReg v = low (v.toNat - 32) := by
  have hmre : s.mre ≤ 119 := s.mre_le
  obtain ⟨hv, hle⟩ := h
  apply BitVec.eq_of_toNat_eq
  rw [entryReg_toNat hv, low_toNat (by omega)]
  omega

/-- A word with the mask bit set or clear. -/
def withMask (b : Bool) (w : Word) : Word :=
  if b then w ||| (1#32 <<< 16) else w &&& ~~~(1#32 <<< 16)

theorem getLsbD_withMask (b : Bool) (w : Word) (i : Nat) :
    (withMask b w).getLsbD i = if i = 16 then b else w.getLsbD i := by
  have hbit : (1#32 <<< 16) = BitVec.twoPow 32 16 := rfl
  cases b
  · change (w &&& ~~~(1#32 <<< 16)).getLsbD i = _
    rw [hbit, BitVec.getLsbD_and, BitVec.getLsbD_not, BitVec.getLsbD_twoPow]
    by_cases hi : i = 16
    · simp [hi]
    · by_cases hlt : i < 32
      · simp [hi, hlt, Ne.symm hi]
      · simp [hi, hlt, BitVec.getLsbD_of_ge w i (by omega)]
  · change (w ||| (1#32 <<< 16)).getLsbD i = _
    rw [hbit, BitVec.getLsbD_or, BitVec.getLsbD_twoPow]
    by_cases hi : i = 16
    · simp [hi]
    · simp [hi, Ne.symm hi]

theorem setMasked_eq (b : Bool) : setMasked b = idtUpdateEntry (withMask b) := by
  cases b <;> rfl

/-- A call writes one bit of the register that is selected for the vector. -/
theorem setMasked_regs (b : Bool) (v : Byte) (s : State) (reg : Byte) (i : Nat) :
    ((setMasked b v s).regs reg).getLsbD i
      = if (InTable s v ∨ Aliased s v) ∧ reg = entryReg v ∧ i = 16 then b
        else (s.regs reg).getLsbD i := by
  rw [setMasked_eq, idtUpdateEntry]
  by_cases hv : v < 32
  · have hlt : v.toNat < 32 := hv
    rw [if_pos hv, if_neg]
    rintro ⟨h | h, -⟩
    · exact absurd h.1 (by omega)
    · rcases h with h | h <;> omega
  · have hge : 32 ≤ v.toNat := Nat.le_of_not_lt hv
    rw [if_neg hv]
    simp only [ioapicRead_fst, ioapicWrite_regs, ioapicRead_regs, ioapicRead_mre]
    change (store s.mre s.regs (entryReg v) _ reg).getLsbD i = _
    rw [store]
    by_cases hw : Writable s.mre (entryReg v)
    · have hin := (writable_entryReg_iff s hge).mp hw
      rw [if_pos hw]
      by_cases hreg : reg = entryReg v
      · subst hreg
        rw [Function.update_self]
        change (withMask b (s.regs (entryReg v))).getLsbD i = _
        rw [getLsbD_withMask]
        simp only [hin, true_and]
      · rw [Function.update_of_ne hreg, if_neg (fun h => hreg h.2.1)]
    · rw [if_neg hw, if_neg (fun h => hw ((writable_entryReg_iff s hge).mpr h.1))]

theorem setMasked_mre (b : Bool) (v : Byte) (s : State) : (setMasked b v s).mre = s.mre := by
  rw [setMasked_eq, idtUpdateEntry]
  split
  · rfl
  · exact ioapicWrite_mre _ _ _

/-- The call writes the mask bit of the vector's own entry, when there is one, and no other bit of
the registers. -/
def OwnEntry (b : Bool) (v : Byte) (s s' : State) : Prop :=
  ∀ (reg : Byte) (i : Nat), (s'.regs reg).getLsbD i
    = if InTable s v ∧ reg = low (v.toNat - 32) ∧ i = 16 then b else (s.regs reg).getLsbD i

theorem ownEntry_setMasked {s : State} {v : Byte} (hv : ¬Aliased s v) (b : Bool) :
    OwnEntry b v s (setMasked b v s) := by
  intro reg i
  rw [setMasked_regs]
  by_cases hin : InTable s v
  · simp only [hin, true_or, true_and, hin.entryReg]
  · rw [if_neg (fun h => h.1.elim hin hv), if_neg (fun h => hin h.1)]

theorem Aliased.not_inTable {s : State} {v : Byte} (h : Aliased s v) : ¬InTable s v := by
  have hmre : s.mre ≤ 119 := s.mre_le
  rintro ⟨hv, hle⟩
  rcases h with h | h <;> omega

/-- On a vector that is aliased, one of the two calls changes a register. -/
theorem Aliased.not_ownEntry {s : State} {v : Byte} (hv : Aliased s v) :
    ¬(OwnEntry true v s (idtMaskInterrupt v s) ∧ OwnEntry false v s (idtUnmaskInterrupt v s)) := by
  rintro ⟨hmask, hunmask⟩
  have hset := setMasked_regs true v s (entryReg v) 16
  have hclear := setMasked_regs false v s (entryReg v) 16
  rw [if_pos ⟨.inr hv, rfl, rfl⟩] at hset hclear
  have hset' := hmask (entryReg v) 16
  have hclear' := hunmask (entryReg v) 16
  rw [if_neg (fun h => hv.not_inTable h.1)] at hset' hclear'
  have hone : (s.regs (entryReg v)).getLsbD 16 = true := hset'.symm.trans hset
  have hzero : (s.regs (entryReg v)).getLsbD 16 = false := hclear'.symm.trans hclear
  rw [hone] at hzero
  cases hzero

/-- A call in a state with the same version register. -/
theorem setMasked_regs_of_mre {s t : State} (ht : t.mre = s.mre) (b : Bool) (v reg : Byte)
    (i : Nat) :
    ((setMasked b v t).regs reg).getLsbD i
      = if (InTable s v ∨ Aliased s v) ∧ reg = entryReg v ∧ i = 16 then b
        else (t.regs reg).getLsbD i := by
  rw [setMasked_regs]
  refine if_congr ?_ rfl rfl
  unfold InTable Aliased
  rw [ht]

/-- Masking and then unmasking an entry that is not masked changes no register. -/
theorem unmask_mask {s : State} {v : Byte} (hv : ¬Aliased s v)
    (hclear : InTable s v → (s.regs (low (v.toNat - 32))).getLsbD 16 = false) :
    (idtUnmaskInterrupt v (idtMaskInterrupt v s)).regs = s.regs := by
  change (setMasked false v (setMasked true v s)).regs = s.regs
  funext reg
  apply BitVec.eq_of_getLsbD_eq
  intro i _
  rw [setMasked_regs_of_mre (setMasked_mre true v s), setMasked_regs]
  split
  · next h =>
    obtain ⟨hin, rfl, rfl⟩ := h
    have hin := hin.resolve_right hv
    rw [hin.entryReg, hclear hin]
  · rfl

/-- The registers of two vectors whose calls change any are not the same. -/
theorem entryReg_ne {s : State} {v w : Byte} (hv : InTable s v) (hw : InTable s w) (hne : v ≠ w) :
    entryReg v ≠ entryReg w := by
  intro h
  have hmre : s.mre ≤ 119 := s.mre_le
  have hnat := congrArg BitVec.toNat h
  obtain ⟨hvge, hvle⟩ := hv
  obtain ⟨hwge, hwle⟩ := hw
  rw [entryReg_toNat hvge, entryReg_toNat hwge] at hnat
  exact hne (BitVec.eq_of_toNat_eq (by omega))

/-- Calls on different vectors commute on the registers. -/
theorem setMasked_comm {s : State} {v w : Byte} (hv : ¬Aliased s v) (hw : ¬Aliased s w)
    (hne : v ≠ w) (b c : Bool) :
    (setMasked b v (setMasked c w s)).regs = (setMasked c w (setMasked b v s)).regs := by
  funext reg
  apply BitVec.eq_of_getLsbD_eq
  intro i _
  rw [setMasked_regs_of_mre (setMasked_mre c w s), setMasked_regs c,
    setMasked_regs_of_mre (setMasked_mre b v s), setMasked_regs b]
  by_cases h : (InTable s v ∨ Aliased s v) ∧ reg = entryReg v ∧ i = 16
  · rw [if_pos h, if_pos h, if_neg]
    rintro ⟨hin, hreg, -⟩
    exact entryReg_ne (h.1.resolve_right hv) (hin.resolve_right hw) hne (h.2.1.symm.trans hreg)
  · rw [if_neg h, if_neg h]

/-- A vector masks and unmasks exactly its own redirection entry when it is not aliased. Then
unmasking undoes masking, and calls on different vectors commute. -/
theorem idtMaskInterrupt_own_iff (s : State) (v : Byte) :
    (OwnEntry true v s (idtMaskInterrupt v s) ∧ OwnEntry false v s (idtUnmaskInterrupt v s)
        ↔ ¬Aliased s v) ∧
      (¬Aliased s v → (InTable s v → (s.regs (low (v.toNat - 32))).getLsbD 16 = false) →
        (idtUnmaskInterrupt v (idtMaskInterrupt v s)).regs = s.regs) ∧
      ∀ w ≠ v, ¬Aliased s v → ¬Aliased s w → ∀ b c,
        (setMasked b v (setMasked c w s)).regs = (setMasked c w (setMasked b v s)).regs := by
  refine ⟨⟨fun h hv => hv.not_ownEntry h, fun hv => ?_⟩, unmask_mask, ?_⟩
  · exact ⟨ownEntry_setMasked hv true, ownEntry_setMasked hv false⟩
  · intro w hne hv hw
    exact setMasked_comm hv hw hne.symm

/-- An I/O APIC with 24 entries, all of them as they are after a reset. -/
def reset : State where
  regsel := 0
  regs := fun reg => if reg = 0x01 then 0x00170011 else if reg.toNat % 2 = 0 then 0x10000 else 0
  mre_le := by decide

/-- Unmasking vector 160 unmasks the entry of vector 32. -/
theorem idtUnmaskInterrupt_160 : ¬OwnEntry false 160 reset (idtUnmaskInterrupt 160 reset) := by
  intro h
  exact absurd (h 0x10 16) (by decide)

/-! ### The table -/

/-- The field `intvec` of `ioapic_redtbl_L_t`. -/
def intvec (tbll : Word) : Byte := tbll.setWidth 8

def setIntvec (tbll : Word) (vector : Byte) : Word := tbll &&& 0xFFFFFF00 ||| vector.zeroExtend 32

def setMask (tbll : Word) : Word := tbll ||| (1#32 <<< 16)

/-- The field `des` of `ioapic_redtbl_H_t`. -/
def setDes (tblh : Word) (des : Byte) : Word := tblh &&& 0x00FFFFFF ||| des.zeroExtend 32 <<< 24

/-- One round of the loop of `ioapic_init`. -/
def ioapicInitEntry (s : State) (idx : Nat) : State :=
  let tbll := setIntvec 0 (BitVec.ofNat 8 (idx + 32))
  let tbll := if intvec tbll = 34 then setMask tbll else tbll
  let tblh := setDes 0 0x0
  let s := ioapicWrite (ioapicIoredtblL (BitVec.ofNat 32 idx)) tbll s
  ioapicWrite (ioapicIoredtblH (BitVec.ofNat 32 idx)) tblh s

/-- The loop ends before the index of the last entry. -/
def ioapicInit (s : State) : State :=
  let (_, s) := ioapicRead ioapicIoapicid s
  let (iov, s) := ioapicRead ioapicIoapicver s
  (List.range (verMre iov).toNat).foldl ioapicInitEntry s

/-- The low word an entry is to have. -/
def entryWord (i : Nat) : Word :=
  if i + 32 = 34 then BitVec.ofNat 32 (i + 32) ||| (1#32 <<< 16) else BitVec.ofNat 32 (i + 32)

theorem setIntvec_zero {i : Nat} (hi : i ≤ 119) :
    setIntvec 0 (BitVec.ofNat 8 (i + 32)) = BitVec.ofNat 32 (i + 32) := by
  have hzero : (0#32 &&& 0xFFFFFF00#32) = 0#32 := rfl
  change (0#32 &&& 0xFFFFFF00#32) ||| _ = _
  rw [hzero, BitVec.zero_or]
  apply BitVec.eq_of_toNat_eq
  simp only [BitVec.zeroExtend, BitVec.toNat_setWidth, BitVec.toNat_ofNat]
  omega

theorem intvec_ofNat {i : Nat} (hi : i ≤ 119) :
    (intvec (BitVec.ofNat 32 (i + 32))).toNat = i + 32 := by
  simp only [intvec, BitVec.toNat_setWidth, BitVec.toNat_ofNat]
  omega

/-- Both words of the entry of a round, as they are written. -/
theorem ioapicInitEntry_eq (s : State) {i : Nat} (hi : i ≤ 119) :
    ioapicInitEntry s i = ioapicWrite (ioapicIoredtblH (BitVec.ofNat 32 i)) 0
      (ioapicWrite (ioapicIoredtblL (BitVec.ofNat 32 i)) (entryWord i) s) := by
  have hvec : intvec (BitVec.ofNat 32 (i + 32)) = 34 ↔ i + 32 = 34 := by
    rw [← BitVec.toNat_inj, intvec_ofNat hi]
    rfl
  rw [ioapicInitEntry, setIntvec_zero hi, entryWord]
  simp only [hvec]
  rfl

theorem ioapicIoredtblL_low {i : Nat} (hi : i ≤ 119) :
    (ioapicIoredtblL (BitVec.ofNat 32 i)).setWidth 8 = low i := by
  apply BitVec.eq_of_toNat_eq
  rw [low_toNat hi, ioapicIoredtblL_toNat, BitVec.toNat_ofNat]
  omega

theorem ioapicIoredtblH_high {i : Nat} (hi : i ≤ 119) :
    (ioapicIoredtblH (BitVec.ofNat 32 i)).setWidth 8 = high i := by
  apply BitVec.eq_of_toNat_eq
  rw [high_toNat hi, ioapicIoredtblH_toNat, BitVec.toNat_ofNat]
  omega

theorem writable_low {mre i : Nat} (hi : i ≤ mre) (hmre : mre ≤ 119) : Writable mre (low i) := by
  rw [Writable, low_toNat (by omega)]
  omega

theorem writable_high {mre i : Nat} (hi : i ≤ mre) (hmre : mre ≤ 119) : Writable mre (high i) := by
  rw [Writable, high_toNat (by omega)]
  omega

/-- A round of the loop on the registers. -/
theorem ioapicInitEntry_regs (s : State) {i : Nat} (hi : i ≤ s.mre) :
    (ioapicInitEntry s i).regs
      = Function.update (Function.update s.regs (low i) (entryWord i)) (high i) 0 := by
  have hmre : s.mre ≤ 119 := s.mre_le
  rw [ioapicInitEntry_eq s (by omega), ioapicWrite_regs, ioapicWrite_mre, ioapicWrite_regs,
    ioapicIoredtblL_low (by omega), ioapicIoredtblH_high (by omega), store, store,
    if_pos (writable_low hi hmre), if_pos (writable_high hi hmre)]

theorem ioapicInitEntry_mre (s : State) {i : Nat} (hi : i ≤ 119) :
    (ioapicInitEntry s i).mre = s.mre := by
  rw [ioapicInitEntry_eq s hi, ioapicWrite_mre, ioapicWrite_mre]

/-- The entries below a number hold what they are to hold, and no other register has changed. -/
structure ProgrammedTo (n : Nat) (s s' : State) : Prop where
  low : ∀ i < n, s'.regs (low i) = entryWord i
  high : ∀ i < n, s'.regs (high i) = 0
  others : ∀ reg, (∀ i < n, reg ≠ Ioapic.low i ∧ reg ≠ Ioapic.high i) → s'.regs reg = s.regs reg

theorem low_ne_high {i j : Nat} (hi : i ≤ 119) (hj : j ≤ 119) : low i ≠ high j := by
  intro h
  have hnat := congrArg BitVec.toNat h
  rw [low_toNat hi, high_toNat hj] at hnat
  omega

theorem low_ne {i j : Nat} (hi : i ≤ 119) (hj : j ≤ 119) (hne : i ≠ j) : low i ≠ low j := by
  intro h
  have hnat := congrArg BitVec.toNat h
  rw [low_toNat hi, low_toNat hj] at hnat
  omega

theorem high_ne {i j : Nat} (hi : i ≤ 119) (hj : j ≤ 119) (hne : i ≠ j) : high i ≠ high j := by
  intro h
  have hnat := congrArg BitVec.toNat h
  rw [high_toNat hi, high_toNat hj] at hnat
  omega

/-- A round programs the next entry. -/
theorem ProgrammedTo.next {n : Nat} {s t : State} (h : ProgrammedTo n s t) (hn : n ≤ t.mre) :
    ProgrammedTo (n + 1) s (ioapicInitEntry t n) := by
  have hmre : t.mre ≤ 119 := t.mre_le
  have hregs := ioapicInitEntry_regs t hn
  refine ⟨fun i hi => ?_, fun i hi => ?_, fun reg hreg => ?_⟩
  · rw [hregs, Function.update_of_ne (low_ne_high (by omega) (by omega))]
    rcases Nat.lt_succ_iff_lt_or_eq.mp hi with hi | rfl
    · rw [Function.update_of_ne (low_ne (by omega) (by omega) (by omega)), h.low i hi]
    · rw [Function.update_self]
  · rw [hregs]
    rcases Nat.lt_succ_iff_lt_or_eq.mp hi with hi | rfl
    · rw [Function.update_of_ne (high_ne (by omega) (by omega) (by omega)),
        Function.update_of_ne (low_ne_high (by omega) (by omega)).symm, h.high i hi]
    · rw [Function.update_self]
  · obtain ⟨hlow, hhigh⟩ := hreg n (Nat.lt_succ_self n)
    rw [hregs, Function.update_of_ne hhigh, Function.update_of_ne hlow]
    exact h.others reg fun i hi => hreg i (Nat.lt_succ_of_lt hi)

/-- The loop programs the entries it has been through. -/
theorem programmedTo_loop (s : State) {n : Nat} (hn : n ≤ s.mre + 1) :
    ProgrammedTo n s ((List.range n).foldl ioapicInitEntry s)
      ∧ ((List.range n).foldl ioapicInitEntry s).mre = s.mre := by
  have hmre : s.mre ≤ 119 := s.mre_le
  induction n with
  | zero =>
    refine ⟨⟨fun i hi => ?_, fun i hi => ?_, fun reg _ => rfl⟩, rfl⟩
    · exact absurd hi (Nat.not_lt_zero i)
    · exact absurd hi (Nat.not_lt_zero i)
  | succ n ih =>
    obtain ⟨hprogrammed, hsame⟩ := ih (by omega)
    rw [List.range_succ, List.foldl_append, List.foldl_cons, List.foldl_nil]
    refine ⟨hprogrammed.next (by omega), ?_⟩
    rw [ioapicInitEntry_mre _ (by omega), hsame]

/-- The whole table is programmed, and so every entry is delivered on a vector of its own from 32
on. -/
structure Programmed (s s' : State) : Prop where
  table : ProgrammedTo (s.mre + 1) s s'
  vectors : ∀ i ≤ s.mre, (intvec (s'.regs (low i))).toNat = i + 32

theorem intvec_entryWord {i : Nat} (hi : i ≤ 119) : (intvec (entryWord i)).toNat = i + 32 := by
  rw [entryWord]
  split
  · next h =>
    obtain rfl : i = 2 := by omega
    rfl
  · exact intvec_ofNat hi

/-- `ioapic_init` programs the whole table exactly when the last entry, which its loop leaves as it
is, holds what it is to hold already. -/
theorem ioapicInit_programmed_iff (s : State) :
    Programmed s (ioapicInit s)
      ↔ s.regs (low s.mre) = entryWord s.mre ∧ s.regs (high s.mre) = 0 := by
  have hmre : s.mre ≤ 119 := s.mre_le
  obtain ⟨hloop, -⟩ := programmedTo_loop (select ioapicIoapicver (select ioapicIoapicid s))
    (show s.mre ≤ s.mre + 1 by omega)
  have hlow : (ioapicInit s).regs (low s.mre) = s.regs (low s.mre) :=
    hloop.others _ fun i hi =>
      ⟨low_ne (by omega) (by omega) (by omega), low_ne_high (by omega) (by omega)⟩
  have hhigh : (ioapicInit s).regs (high s.mre) = s.regs (high s.mre) :=
    hloop.others _ fun i hi =>
      ⟨(low_ne_high (by omega) (by omega)).symm, high_ne (by omega) (by omega) (by omega)⟩
  constructor
  · rintro ⟨htable, -⟩
    exact ⟨hlow.symm.trans (htable.low _ (by omega)), hhigh.symm.trans (htable.high _ (by omega))⟩
  · rintro ⟨hlast, hlast'⟩
    have htable : ∀ i < s.mre + 1, (ioapicInit s).regs (low i) = entryWord i := by
      intro i hi
      rcases Nat.lt_succ_iff_lt_or_eq.mp hi with hi | rfl
      · exact hloop.low i hi
      · rw [hlow, hlast]
    refine ⟨⟨htable, fun i hi => ?_, fun reg hreg => ?_⟩, fun i hi => ?_⟩
    · rcases Nat.lt_succ_iff_lt_or_eq.mp hi with hi | rfl
      · exact hloop.high i hi
      · rw [hhigh, hlast']
    · exact hloop.others reg fun i hi => hreg i (Nat.lt_succ_of_lt hi)
    · rw [htable i (by omega), intvec_entryWord (by omega)]

/-- The last of 24 entries keeps what a reset has left in it. -/
theorem ioapicInit_not_programmed : ¬Programmed reset (ioapicInit reset) := by
  rw [ioapicInit_programmed_iff]
  decide

end BasicX86Kernel.Ioapic
