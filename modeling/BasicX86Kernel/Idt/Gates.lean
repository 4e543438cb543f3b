import BasicX86Kernel.Idt

/-! The three kinds of gates that `ksrc/idt.c` writes, read back as `idt_gate_t` and as the processor
reads them. -/

namespace BasicX86Kernel

open Machine

/-! ### Formats -/

/-- The D, DPL and P bits of a flags word. -/
@[ext] structure GateFlags where
  d : Bool
  dpl : BitVec 2
  p : Bool

/-- `IDT_FLAG_GATE_D`, one of `IDT_FLAG_GATE_DPL0` to `IDT_FLAG_GATE_DPL3`, and `IDT_FLAG_GATE_P`. -/
def GateFlags.word (f : GateFlags) : BitVec 16 :=
  (if f.d then idtFlagGateD else 0) ||| (f.dpl.setWidth 16 <<< 13) |||
    (if f.p then idtFlagGateP else 0)

/-- `idt_gate_t` -/
structure IdtGate where
  offsetLow : BitVec 16
  ss : BitVec 16
  flags : BitVec 16
  offsetHigh : BitVec 16

def idtGateAt (m : Mem) (gate : Word) : IdtGate where
  offsetLow := m.read16 gate
  ss := m.read16 (gate + 2)
  flags := m.read16 (gate + 4)
  offsetHigh := m.read16 (gate + 6)

/-- A gate as the processor reads it; `system` is the bit that is set for code and data. -/
structure CpuGate where
  offset : Word
  selector : BitVec 16
  reserved : BitVec 8
  type : BitVec 3
  size : Bool
  system : Bool
  dpl : BitVec 2
  present : Bool

def cpuGate (gate : BitVec 64) : CpuGate :=
  let attributes := gate.extractLsb' 32 16
  { offset := gateOffset gate
    selector := gate.extractLsb' 16 16
    reserved := attributes.extractLsb' 0 8
    type := attributes.extractLsb' 8 3
    size := attributes.getLsbD 11
    system := attributes.getLsbD 12
    dpl := attributes.extractLsb' 13 2
    present := gatePresent gate }

/-- The kinds of gates that lead to a handler. -/
inductive GateKind where
  | interrupt
  | trap
  deriving DecidableEq

/-- The type of a gate apart from its D bit. -/
def GateKind.type : GateKind → BitVec 3
  | interrupt => 0b110
  | trap => 0b111

def idtSetGate : GateKind → Mem → Word → BitVec 16 → Word → BitVec 16 → Mem
  | .interrupt => idtSetGateInterrupt
  | .trap => idtSetGateTrap

/-! ### Fields -/

section Fields

variable {type : BitVec 64} (ht : type.toNat < 8) (ss : BitVec 16) (offset : Word)
  (flags : BitVec 16)

include ht

theorem extractLsb'_gateValue_ss : (gateValue type ss offset flags).extractLsb' 16 16 = ss := by
  apply BitVec.eq_of_getLsbD_eq
  intro i hi
  rw [BitVec.getLsbD_extractLsb', getLsbD_gateValue ht ss offset flags (by omega),
    if_neg (by omega), if_pos (by omega), Nat.add_sub_cancel_left, decide_eq_true hi, Bool.true_and]

theorem extractLsb'_gateValue_flags : (gateValue type ss offset flags).extractLsb' 32 16 =
    (type.setWidth 16 <<< 8) ||| flags := by
  apply BitVec.eq_of_getLsbD_eq
  intro i hi
  rw [BitVec.getLsbD_extractLsb', getLsbD_gateValue ht ss offset flags (by omega),
    if_neg (by omega), if_neg (by omega), if_pos (by omega), Nat.add_sub_cancel_left]
  simp only [BitVec.getLsbD_or, BitVec.getLsbD_shiftLeft, BitVec.getLsbD_setWidth, hi,
    show 32 + i < 64 by omega, show 32 + i < 40 ↔ i < 8 by omega,
    show 32 + i - 40 = i - 8 by omega, show i - 8 < 16 by omega, decide_true, Bool.true_and]

end Fields

/-! ### What is read back -/

theorem GateKind.type_lt (kind : GateKind) : (kind.type.setWidth 64).toNat < 8 := by
  cases kind <;> decide

theorem idtSetGate_eq (kind : GateKind) (m : Mem) (gate : Word) (ss : BitVec 16) (offset : Word)
    (flags : BitVec 16) : idtSetGate kind m gate ss offset flags =
      m.write64 gate (gateValue (kind.type.setWidth 64) ss offset flags) := by
  cases kind <;> rfl

theorem idtGateAt_write64 (m : Mem) (gate : Word) (v : BitVec 64) :
    idtGateAt (m.write64 gate v) gate = ⟨v.extractLsb' 0 16, v.extractLsb' 16 16,
      v.extractLsb' 32 16, v.extractLsb' 48 16⟩ := by
  have h0 : (m.write64 gate v).read16 gate = v.extractLsb' 0 16 := by
    simpa using Mem.read16_write64 m gate v (i := 0) (by decide)
  have h2 : (m.write64 gate v).read16 (gate + 2) = v.extractLsb' 16 16 :=
    Mem.read16_write64 m gate v (i := 2) (by decide)
  have h4 : (m.write64 gate v).read16 (gate + 4) = v.extractLsb' 32 16 :=
    Mem.read16_write64 m gate v (i := 4) (by decide)
  have h6 : (m.write64 gate v).read16 (gate + 6) = v.extractLsb' 48 16 :=
    Mem.read16_write64 m gate v (i := 6) (by decide)
  rw [idtGateAt, h0, h2, h4, h6]

/-- The gate at `gate` leads to `offset` in the segment `ss`, is of the kind asked for and has the
flags that were given, and no other bit of it is set. -/
structure GateReads (m : Mem) (gate : Word) (kind : GateKind) (ss : BitVec 16) (offset : Word)
    (f : GateFlags) : Prop where
  offset_eq : (idtGateAt m gate).offsetHigh ++ (idtGateAt m gate).offsetLow = offset
  ss_eq : (idtGateAt m gate).ss = ss
  flags_eq : (idtGateAt m gate).flags = (kind.type.setWidth 16 <<< 8) ||| f.word
  cpu_eq : cpuGate (m.read64 gate) = ⟨offset, ss, 0, kind.type, f.d, false, f.dpl, f.p⟩

/-- The attributes of a gate, of which the first three bits say the type. -/
theorem attributes_eq (type : BitVec 3) (f : GateFlags) :
    let attributes := (type.setWidth 16 <<< 8) ||| f.word
    attributes.extractLsb' 0 8 = 0 ∧ attributes.extractLsb' 8 3 = type ∧
      attributes.getLsbD 11 = f.d ∧ attributes.getLsbD 12 = false ∧
      attributes.extractLsb' 13 2 = f.dpl ∧ attributes.getLsbD 15 = f.p := by
  have hall : ∀ (type : BitVec 3) (d p : Bool) (dpl : BitVec 2),
      let attributes := (type.setWidth 16 <<< 8) ||| (GateFlags.mk d dpl p).word
      attributes.extractLsb' 0 8 = 0 ∧ attributes.extractLsb' 8 3 = type ∧
        attributes.getLsbD 11 = d ∧ attributes.getLsbD 12 = false ∧
        attributes.extractLsb' 13 2 = dpl ∧ attributes.getLsbD 15 = p := by decide
  exact hall type f.d f.p f.dpl

theorem setWidth_type (kind : GateKind) :
    (kind.type.setWidth 64).setWidth 16 = kind.type.setWidth 16 := by
  cases kind <;> rfl

theorem gateReads_idtSetGate (kind : GateKind) (m : Mem) (gate : Word) (ss : BitVec 16)
    (offset : Word) (f : GateFlags) :
    GateReads (idtSetGate kind m gate ss offset f.word) gate kind ss offset f := by
  have ht := kind.type_lt
  have hflags := extractLsb'_gateValue_flags ht ss offset f.word
  have hoffset := gateOffset_gateValue ht ss offset f.word
  rw [setWidth_type] at hflags
  obtain ⟨hreserved, htype, hsize, hsystem, hdpl, hpresent⟩ := attributes_eq kind.type f
  rw [idtSetGate_eq]
  constructor
  · rw [idtGateAt_write64]
    exact hoffset
  · rw [idtGateAt_write64]
    exact extractLsb'_gateValue_ss ht ss offset f.word
  · rw [idtGateAt_write64]
    exact hflags
  · rw [Mem.read64_write64_same, cpuGate, gatePresent, hoffset, hflags, hreserved, htype, hsize,
      hsystem, hdpl, hpresent, extractLsb'_gateValue_ss ht]

/-! ### Task gates -/

/-- A task gate has a type of its own. -/
theorem type_taskGate (m : Mem) (gate : Word) (tss : BitVec 16) (f : GateFlags) :
    (cpuGate ((idtSetGateTask m gate tss f.word).read64 gate)).type = 0b101 := by
  have hflags : (taskGateValue tss f.word).extractLsb' 32 16 =
      ((0b101#3).setWidth 16 <<< 8) ||| f.word := by
    apply BitVec.eq_of_getLsbD_eq
    intro i hi
    have htype : (0b00101#64).getLsbD (i - 8) = (0b101#3).getLsbD (i - 8) := by
      have hall : ∀ i < 16, (0b00101#64).getLsbD (i - 8) = (0b101#3).getLsbD (i - 8) := by decide
      exact hall i hi
    simp only [taskGateValue, BitVec.getLsbD_extractLsb', BitVec.getLsbD_or,
      BitVec.getLsbD_shiftLeft, BitVec.getLsbD_setWidth, hi, htype, show 32 + i < 64 by omega,
      show ¬32 + i < 16 by omega, show ¬32 + i < 32 by omega, show 32 + i < 40 ↔ i < 8 by omega,
      show 32 + i - 40 = i - 8 by omega, show 32 + i - 32 = i by omega,
      show i - 8 < 16 by omega, show i < 64 by omega,
      BitVec.getLsbD_of_ge tss (32 + i - 16) (by omega), decide_true, decide_false, Bool.true_and,
      Bool.and_false, Bool.not_false, Bool.false_or]
  rw [idtSetGateTask, Mem.read64_write64_same, cpuGate]
  show ((taskGateValue tss f.word).extractLsb' 32 16).extractLsb' 8 3 = _
  rw [hflags]
  exact (attributes_eq 0b101#3 f).2.1

/-! ### Round trip -/

/-- What a gate is made from. -/
structure GateInput where
  kind : GateKind
  ss : BitVec 16
  offset : Word
  flags : GateFlags

/-- The gate that the function for its kind leaves at `gate`. -/
def GateInput.written (x : GateInput) (m : Mem) (gate : Word) : Mem :=
  idtSetGate x.kind m gate x.ss x.offset x.flags.word

theorem GateReads.inj {m m' : Mem} {gate : Word} {x y : GateInput}
    (hx : GateReads m gate x.kind x.ss x.offset x.flags)
    (hy : GateReads m' gate y.kind y.ss y.offset y.flags)
    (h : m.read64 gate = m'.read64 gate) : x = y := by
  have heq := hx.cpu_eq.symm.trans ((congrArg cpuGate h).trans hy.cpu_eq)
  obtain ⟨kind, ss, offset, flags⟩ := x
  obtain ⟨kind', ss', offset', flags'⟩ := y
  simp only [CpuGate.mk.injEq] at heq
  obtain ⟨rfl, rfl, -, htype, hd, -, hdpl, hp⟩ := heq
  have hkind : kind = kind' := by
    cases kind <;> cases kind' <;> first | rfl | exact absurd htype (by decide)
  rw [hkind, GateFlags.ext hd hdpl hp]

/-- An interrupt gate or a trap gate reads as what it has been made from; gates made from different
things differ; and a task gate is none of them. -/
theorem idtGates_roundTrip (m : Mem) (gate : Word) :
    (∀ x : GateInput, GateReads (x.written m gate) gate x.kind x.ss x.offset x.flags) ∧
      Function.Injective (fun x : GateInput => (x.written m gate).read64 gate) ∧
      ∀ (tss : BitVec 16) (f : GateFlags) (x : GateInput),
        (idtSetGateTask m gate tss f.word).read64 gate ≠ (x.written m gate).read64 gate := by
  have hreads : ∀ x : GateInput, GateReads (x.written m gate) gate x.kind x.ss x.offset x.flags :=
    fun x => gateReads_idtSetGate x.kind m gate x.ss x.offset x.flags
  refine ⟨hreads, fun x y h => (hreads x).inj (hreads y) h, fun tss f x h => ?_⟩
  have htype : x.kind.type = 0b101 := by rw [← type_taskGate m gate tss f, h, (hreads x).cpu_eq]
  exact absurd htype (by cases x.kind <;> decide)

end BasicX86Kernel
