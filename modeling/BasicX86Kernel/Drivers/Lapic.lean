import BasicX86Kernel.Machine.Run
import BasicX86Kernel.Machine.Word

/-! The base of the local APIC (drivers/82489DX.c): the one that `lapic_base` holds and the one in
the model specific register, and in which runs of the calls that use them they stay the same. -/

namespace BasicX86Kernel.Lapic

open Machine

/-! ### The calls -/

/-- An access to a register of the local APIC, at the address it goes to. -/
inductive Access where
  | read (address : Word)
  | write (address value : Word)
  deriving DecidableEq

def Access.address : Access → Word
  | read address => address
  | write address _ => address

/-- The model specific registers, `lapic_base`, and the accesses through it so far. -/
structure State where
  msr : Word → BitVec 64
  lapicBase : Word
  accesses : List Access

def msrIa32ApicBase : Word := 0x1B
def lapicId : Word := 0x0020
def lapicVer : Word := 0x0030
def lapicLvtlint0 : Word := 0x0350
def lapicLvtlint1 : Word := 0x0360
def lapicLintNmi : Word := 0b100 <<< 8
def lapicLintMask : Word := 0b1 <<< 16

/-- The halves `edx` and `eax` of a register. -/
def cpuMsrRead (msr : Word) (s : State) : Word × Word :=
  ((s.msr msr).extractLsb' 32 32, (s.msr msr).extractLsb' 0 32)

def cpuMsrWrite (msr edx eax : Word) (s : State) : State :=
  { s with msr := Function.update s.msr msr (edx ++ eax) }

/-- The address of the macro `LAPIC_REG`. -/
def lapicReg (s : State) (reg : Word) : Word := s.lapicBase ||| reg

def lapicRead (reg : Word) (s : State) : State :=
  { s with accesses := s.accesses ++ [.read (lapicReg s reg)] }

def lapicWrite (reg value : Word) (s : State) : State :=
  { s with accesses := s.accesses ++ [.write (lapicReg s reg) value] }

def lapicGetBase (s : State) : Word :=
  let (_, eax) := cpuMsrRead msrIa32ApicBase s
  eax &&& 0xFFFFF000

def lapicEnable (s : State) : State :=
  let (edx, eax) := cpuMsrRead msrIa32ApicBase s
  let eax := eax ||| 0x800
  cpuMsrWrite msrIa32ApicBase edx eax s

def lapicRemap (addr : Word) (s : State) : State :=
  let (edx, eax) := cpuMsrRead msrIa32ApicBase s
  let eax := eax &&& 0x00000FFF
  let eax := eax ||| addr
  cpuMsrWrite msrIa32ApicBase edx eax s

/-- The values that are read go nowhere. -/
def lapicInit (s : State) : State :=
  let s := { s with lapicBase := lapicGetBase s }
  let s := lapicRead lapicId s
  let s := lapicRead lapicVer s
  let s := lapicWrite lapicLvtlint0 lapicLintMask s
  let s := lapicWrite lapicLvtlint1 lapicLintNmi s
  lapicEnable s

inductive Call where
  | init
  | enable
  | remap (addr : Word)
  deriving DecidableEq

def step (s : State) : Call → State
  | .init => lapicInit s
  | .enable => lapicEnable s
  | .remap addr => lapicRemap addr s

/-! ### The register -/

/-- The low 12 bits of the register. -/
def flags (s : State) : Word := (cpuMsrRead msrIa32ApicBase s).2 &&& 0xFFF

/-- The high word of the register. -/
def high (s : State) : Word := (cpuMsrRead msrIa32ApicBase s).1

theorem cpuMsrRead_write (msr edx eax : Word) (s : State) :
    cpuMsrRead msr (cpuMsrWrite msr edx eax s) = (edx, eax) := by
  rw [cpuMsrRead, cpuMsrWrite]
  simp only [Function.update_self]
  rw [BitVec.extractLsb'_append_eq_left,
    BitVec.extractLsb'_append_eq_right]

@[simp] theorem lapicBase_enable (s : State) : (lapicEnable s).lapicBase = s.lapicBase := rfl

@[simp] theorem lapicBase_remap (addr : Word) (s : State) :
    (lapicRemap addr s).lapicBase = s.lapicBase := rfl

@[simp] theorem high_enable (s : State) : high (lapicEnable s) = high s := by
  rw [high, lapicEnable, cpuMsrRead_write]
  rfl

@[simp] theorem high_remap (addr : Word) (s : State) : high (lapicRemap addr s) = high s := by
  rw [high, lapicRemap, cpuMsrRead_write]
  rfl

@[simp] theorem lapicGetBase_enable (s : State) : lapicGetBase (lapicEnable s) = lapicGetBase s := by
  rw [lapicGetBase, lapicEnable, cpuMsrRead_write]
  change (_ ||| 0x800#32) &&& 0xFFFFF000#32 = _
  rw [BitVec.and_or_distrib_right, show (0x800#32 &&& 0xFFFFF000#32) = 0#32 from rfl,
    BitVec.or_zero]
  rfl

/-- The base in the register is what `lapic_remap` has been given, less its low bits. -/
@[simp] theorem lapicGetBase_remap (addr : Word) (s : State) :
    lapicGetBase (lapicRemap addr s) = addr &&& 0xFFFFF000 := by
  rw [lapicGetBase, lapicRemap, cpuMsrRead_write]
  change (_ &&& 0xFFF#32 ||| addr) &&& 0xFFFFF000#32 = _
  rw [BitVec.and_or_distrib_right, BitVec.and_assoc,
    show (0xFFF#32 &&& 0xFFFFF000#32) = 0#32 from rfl, BitVec.and_zero, BitVec.zero_or]
  rfl

@[simp] theorem flags_enable (s : State) : flags (lapicEnable s) = flags s ||| 0x800 := by
  rw [flags, lapicEnable, cpuMsrRead_write]
  change (_ ||| 0x800#32) &&& 0xFFF#32 = _
  rw [BitVec.and_or_distrib_right]
  rfl

/-- The low bits of what `lapic_remap` has been given are added to the flags. -/
@[simp] theorem flags_remap (addr : Word) (s : State) :
    flags (lapicRemap addr s) = flags s ||| addr &&& 0xFFF := by
  rw [flags, lapicRemap, cpuMsrRead_write]
  change (_ &&& 0xFFF#32 ||| addr) &&& 0xFFF#32 = _
  rw [BitVec.and_or_distrib_right, BitVec.and_assoc, BitVec.and_self]
  rfl

/-- `lapic_init` on the register and `lapic_base`. -/
theorem lapicInit_eq (s : State) :
    (lapicInit s).lapicBase = lapicGetBase s ∧ lapicGetBase (lapicInit s) = lapicGetBase s ∧
      high (lapicInit s) = high s ∧ flags (lapicInit s) = flags s ||| 0x800 := by
  refine ⟨?_, ?_, ?_, ?_⟩ <;> simp only [lapicInit, lapicBase_enable, lapicGetBase_enable,
    high_enable, flags_enable] <;> rfl

/-! ### Runs -/

/-- What a call is to keep and to do. -/
structure Coherent (s : State) (c : Call) (s' : State) : Prop where
  base : s'.lapicBase = lapicGetBase s'
  accesses : ∃ new, s'.accesses = s.accesses ++ new ∧
    ∀ a ∈ new, ∃ reg, a.address = lapicGetBase s' ||| reg
  flags : flags s' = match c with
    | .remap _ => flags s
    | _ => flags s ||| 0x800
  high : high s' = high s
  remapped : ∀ addr, c = .remap addr → lapicGetBase s' = addr &&& 0xFFFFF000

/-- A remap asks for the base that `lapic_base` holds already, and its low bits are flags that are
set already. -/
def Harmless (s : State) : Call → Prop
  | .remap addr => addr &&& 0xFFFFF000 = s.lapicBase ∧ flags s ||| addr &&& 0xFFF = flags s
  | _ => True

theorem coherent_init (s : State) : Coherent s .init (step s .init) := by
  obtain ⟨hbase, hget, hhigh, hflags⟩ := lapicInit_eq s
  refine ⟨hbase.trans hget.symm, ?_, ?_, hhigh, ?_⟩
  · refine ⟨[.read (lapicGetBase s ||| lapicId), .read (lapicGetBase s ||| lapicVer),
      .write (lapicGetBase s ||| lapicLvtlint0) lapicLintMask,
      .write (lapicGetBase s ||| lapicLvtlint1) lapicLintNmi], ?_, ?_⟩
    · change (((s.accesses ++ _) ++ _) ++ _) ++ _ = _
      simp only [List.append_assoc]
      rfl
    · intro a ha
      rw [step, hget]
      simp only [List.mem_cons, List.not_mem_nil, or_false] at ha
      rcases ha with rfl | rfl | rfl | rfl <;> exact ⟨_, rfl⟩
  · simpa [step] using hflags
  · rintro addr h
    cases h

theorem coherent_enable {s : State} (hs : s.lapicBase = lapicGetBase s) :
    Coherent s .enable (step s .enable) := by
  refine ⟨?_, ⟨[], by simp [step, lapicEnable, cpuMsrWrite], by simp⟩, ?_, high_enable s, ?_⟩
  · simpa [step] using hs
  · simp [step]
  · rintro addr h
    cases h

/-- A remap that leaves everything coherent is harmless. -/
theorem coherent_remap_iff (s : State) (addr : Word) :
    Coherent s (.remap addr) (step s (.remap addr)) ↔ Harmless s (.remap addr) := by
  constructor
  · intro h
    refine ⟨?_, ?_⟩
    · simpa [step] using h.base.symm
    · simpa [step] using h.flags
  · rintro ⟨hbase, hflags⟩
    refine ⟨?_, ⟨[], by simp [step, lapicRemap, cpuMsrWrite], by simp⟩, ?_, high_remap addr s, ?_⟩
    · simpa [step] using hbase.symm
    · simpa [step] using hflags
    · rintro a h
      cases h
      exact lapicGetBase_remap addr s

/-- From a coherent state, the calls that leave everything coherent are the harmless ones. -/
theorem coherent_iff {s : State} (hs : s.lapicBase = lapicGetBase s) (c : Call) :
    Coherent s c (step s c) ↔ Harmless s c := by
  cases c with
  | init => exact ⟨fun _ => trivial, fun _ => coherent_init s⟩
  | enable => exact ⟨fun _ => trivial, fun _ => coherent_enable hs⟩
  | remap addr => exact coherent_remap_iff s addr

theorem allowed_coherent_iff {s : State} (hs : s.lapicBase = lapicGetBase s) (cs : List Call) :
    Allowed step (fun s c => Coherent s c (step s c)) s cs ↔ Allowed step Harmless s cs := by
  induction cs generalizing s with
  | nil => exact Iff.rfl
  | cons c cs ih =>
    rw [allowed_cons, allowed_cons, coherent_iff hs c]
    refine and_congr_right fun hc => ?_
    exact ih ((coherent_iff hs c).mpr hc).base

/-- In a run that begins with `lapic_init`, each call leaves the base that the register holds in
`lapic_base` exactly when the remaps are harmless. -/
theorem lapic_coherent_iff (s : State) (cs : List Call) :
    Allowed step (fun s c => Coherent s c (step s c)) s (.init :: cs)
      ↔ Allowed step Harmless (step s .init) cs := by
  rw [allowed_cons]
  have hinit := coherent_init s
  rw [allowed_coherent_iff hinit.base]
  exact and_iff_right hinit

/-- The register as the processor powers up, and `lapic_base` as it is initialised. -/
def powerOn : State where
  msr := fun _ => 0xFEE00900
  lapicBase := 0xFEE00000
  accesses := []

/-- After a remap to another page, `lapic_base` still holds the old one. -/
theorem lapic_not_coherent : ¬Allowed step (fun s c => Coherent s c (step s c)) powerOn
    [.init, .remap 0xFED00000] := by
  rintro ⟨-, h, -⟩
  exact absurd h.base (by decide)

end BasicX86Kernel.Lapic
