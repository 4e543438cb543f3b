import BasicX86Kernel.Gdt.Flat
import BasicX86Kernel.Idt.Gates
import BasicX86Kernel.IdtStub

/-! The tables that `gdt_init` and `idt_init` leave in memory, on a processor that reads and checks
them at every interrupt. -/

namespace BasicX86Kernel

open Machine Gdt Klib Selector

/-! ### The processor -/

/-- What a gate is for. -/
inductive GateUse where
  | handler (kind : GateKind)
  | switch
  deriving DecidableEq

/-- The types that an entry of the table may have: task gates and gates of 16 bits lead beyond this
model. -/
def CpuGate.use (gate : CpuGate) : Option GateUse :=
  if gate.system then none
  else match gate.type, gate.size with
    | 0b110, true => some (.handler .interrupt)
    | 0b111, true => some (.handler .trap)
    | 0b110, false => some .switch
    | 0b111, false => some .switch
    | 0b101, false => some .switch
    | _, _ => none

/-- The flags that a gate clears: TF, NT, RF and VM, and IF. -/
def GateKind.clears : GateKind → Word
  | interrupt => 0x34300#32
  | trap => 0x34100#32

/-- The error code of a fault that is about a vector. -/
def idtError (vector : BitVec 8) (ext : Bool) : Word :=
  BitVec.ofNat 32 (8 * vector.toNat + 2 + ext.toNat)

namespace Machine.Core

variable (c : Core)

/-- The frame that an interrupt pushes. -/
def pushFrame (error : Option Word) : Cpu :=
  let s := c.cpu.push c.stackBase c.cpu.eflags
  let s := s.push c.stackBase c.cpu.cs
  let s := s.push c.stackBase c.cpu.eip
  match error with
  | some e => s.push c.stackBase e
  | none => s

/-- The way through a gate for 32 bits. -/
def enter (gate : CpuGate) (kind : GateKind) (ext : Bool) (error : Option Word) :
    Except Exit Core :=
  let sel := gate.selector
  let d := c.descriptor sel
  if null sel then .error (.fault 13 (if ext then 1 else 0))
  else if !(c.table sel).holds (index sel) then .error (.fault 13 (Selector.error sel ext))
  else if !d.isCode || c.cpl < d.dpl then .error (.fault 13 (Selector.error sel ext))
  else if !d.present then .error (.fault 11 (Selector.error sel ext))
  else if !d.conforming && d.dpl < c.cpl then .error .other
  else if !c.pushesWithin (if error.isSome then 4 else 3) then
    .error (.fault 12 (if ext then 1 else 0))
  else if !d.within gate.offset 1 then .error (.fault 13 (if ext then 1 else 0))
  else
    let c := c.touch sel
    let s := c.pushFrame error
    .ok { c with
      cpu := { s with
        eip := gate.offset
        cs := ((sel &&& 0xFFFC#16) ||| c.cpl.setWidth 16).setWidth 32
        eflags := s.eflags &&& ~~~kind.clears }
      code := d }

/-- An interrupt; `software` is set for the instruction `int`. -/
def interrupt (vector : BitVec 8) (software : Bool) (error : Option Word) : Except Exit Core :=
  let gate := cpuGate (c.cpu.mem.read64 (c.idtr.addr vector.toNat))
  let code := idtError vector !software
  if !c.idtr.holds vector.toNat then .error (.fault 13 code)
  else match gate.use with
    | none => .error (.fault 13 code)
    | some use =>
      if software && gate.dpl < c.cpl then .error (.fault 13 code)
      else if !gate.present then .error (.fault 11 code)
      else match use with
        | .switch => .error .other
        | .handler kind => c.enter gate kind (!software) error

/-- An interrupt, or the fault on the way to it. -/
def accept (vector : BitVec 8) (software : Bool) (error : Option Word) : Except Exit Core :=
  match c.interrupt vector software error with
  | .error (.fault vector' error') => c.interrupt vector' false (some error')
  | r => r

/-- `iret`, without a return to another task or to virtual 8086 mode. -/
def iret : Except Exit Core :=
  let off := c.stackBase
  let eip := c.cpu.top off
  let sel := (c.cpu.drop.top off).setWidth 16
  let eflags := c.cpu.drop.drop.top off
  if c.cpu.eflags.getLsbD 14 then .error .other
  else if !c.popsWithin 3 then .error (.fault 12 0)
  else if eflags.getLsbD 17 && c.cpl == 0 then .error .other
  else match c.returnCode sel with
    | .error e => .error e
    | .ok d =>
      if !d.within eip 1 then .error (.fault 13 0)
      else
        let c := c.touch sel
        .ok { c with
          cpu := { c.cpu.drop.drop.drop with eip := eip, cs := sel.setWidth 32, eflags := eflags }
          code := d }

end Machine.Core

/-! ### The tables -/

/-- Where the linker puts the tables of both kinds, which do not overlap. -/
structure KernelLayout where
  idt : IdtLayout
  gdt : GdtLayout
  gdt_gate : gdt.gdt.toNat + 8 * gdtLimit ≤ idt.idtGate.toNat ∨
    idt.idtGate.toNat + 8 * idtEntries ≤ gdt.gdt.toNat
  gdt_callback : gdt.gdt.toNat + 8 * gdtLimit ≤ idt.idtGateCallback.toNat ∨
    idt.idtGateCallback.toNat + 4 * idtEntries ≤ gdt.gdt.toNat
  gdt_handler : gdt.gdt.toNat + 8 * gdtLimit ≤ idt.idtGateHandler.toNat ∨
    idt.idtGateHandler.toNat + 4 * 256 ≤ gdt.gdt.toNat
  gdtl_handler : gdt.gdtl.toNat + 6 ≤ idt.idtGateHandler.toNat ∨
    idt.idtGateHandler.toNat + 4 * 256 ≤ gdt.gdtl.toNat

/-- The bytes of the tables that no code of the kernel writes once they are set up. -/
def KernelLayout.Fixed (k : KernelLayout) (x : Word) : Prop :=
  k.gdt.InGdt x ∨ (x - k.idt.idtGate).toNat < 8 * idtEntries ∨
    (x - k.idt.idtGateHandler).toNat < 4 * 256

theorem IdtLayout.inGate (l : IdtLayout) {v : Nat} (hv : v < idtEntries) {x : Word}
    (hx : (x - l.gateAddr v).toNat < 8) : (x - l.idtGate).toNat < 8 * idtEntries := by
  have hgate := l.toNat_gateAddr hv
  have hend := l.gate_end
  unfold idtEntries at *
  bv_omega

theorem IdtLayout.inHandler (l : IdtLayout) {v : Nat} (hv : v < 256) {x : Word}
    (hx : (x - l.handlerAddr v).toNat < 4) : (x - l.idtGateHandler).toNat < 4 * 256 := by
  have hhandler := l.toNat_handlerAddr hv
  have hend := l.handler_end
  bv_omega

/-- The kind of gate that `idt_init` makes for a vector. -/
def vectorKind (v : Nat) : GateKind := if v < 32 then .trap else .interrupt

/-- What `idt_init` leaves in entry `v`, if `stub v` is the address of its stub. -/
def installedGate (stub : Nat → Word) (v : Nat) : BitVec 64 :=
  if Reserved v then 0
  else gateValue ((vectorKind v).type.setWidth 64) 0x8#16 (stub v) idtFlags

theorem clears_vectorKind (v : Nat) : (vectorKind v).clears = gateMask v := by
  unfold vectorKind gateMask
  split <;> rfl

/-- The entry of an installed vector, as the processor reads it. -/
theorem cpuGate_installedGate {stub : Nat → Word} {v : Nat} (hv : ¬Reserved v) :
    cpuGate (installedGate stub v) =
      ⟨stub v, 0x8#16, 0, (vectorKind v).type, true, false, 0, true⟩ := by
  have hreads := (gateReads_idtSetGate (vectorKind v) ⟨fun _ => 0⟩ 0 0x8#16 (stub v)
    ⟨true, 0, true⟩).cpu_eq
  rw [idtSetGate_eq, Mem.read64_write64_same] at hreads
  rw [installedGate, if_neg hv]
  exact hreads

theorem use_installedGate {stub : Nat → Word} {v : Nat} (hv : ¬Reserved v) :
    (cpuGate (installedGate stub v)).use = some (.handler (vectorKind v)) := by
  rw [cpuGate_installedGate hv]
  cases vectorKind v <;> rfl

theorem use_installedGate_reserved {stub : Nat → Word} {v : Nat} (hv : Reserved v) :
    (cpuGate (installedGate stub v)).use = none := by
  rw [installedGate, if_pos hv]
  decide

/-! ### `idt_init` -/

section Init

variable {l : IdtLayout} {m : Mem} {n v : Nat} {x : Word}

/-- A turn of the loop that installs a gate. -/
theorem idtInitStep_eq (h : ¬Reserved n) : idtInitStep l m n =
    let m := m.write32 (l.callbackAddr n) (l.defaultHandler n)
    m.write64 (l.gateAddr n) (gateValue ((vectorKind n).type.setWidth 64) 0x8#16
      (m.read32 (l.handlerAddr n)) idtFlags) := by
  rw [idtInitStep, if_neg h, IdtLayout.defaultHandler, vectorKind]
  split <;> rfl

theorem byte_idtInitStep (hn : n < idtEntries) (hgate : 8 * idtEntries ≤ (x - l.idtGate).toNat)
    (hcallback : 4 * idtEntries ≤ (x - l.idtGateCallback).toNat) :
    (idtInitStep l m n).byte x = m.byte x := by
  by_cases h : Reserved n
  · rw [idtInitStep, if_pos h]
  · unfold idtEntries at hn hgate hcallback
    have hgate' : 8 ≤ (x - l.gateAddr n).toNat := by
      rw [IdtLayout.gateAddr, sub_add_eq_sub_sub]
      bv_omega
    have hcallback' : 4 ≤ (x - l.callbackAddr n).toNat := by
      rw [IdtLayout.callbackAddr, sub_add_eq_sub_sub]
      bv_omega
    rw [idtInitStep_eq h, Mem.byte_write64_ne hgate', Mem.byte_write32_ne hcallback']

theorem byte_idtInitLoop (hn : n ≤ idtEntries) (hgate : 8 * idtEntries ≤ (x - l.idtGate).toNat)
    (hcallback : 4 * idtEntries ≤ (x - l.idtGateCallback).toNat) :
    (idtInitLoop l m n).byte x = m.byte x := by
  induction n with
  | zero => rfl
  | succ n ih => exact (byte_idtInitStep hn hgate hcallback).trans (ih (by omega))

theorem byte_idtInit (hgate : 8 * idtEntries ≤ (x - l.idtGate).toNat)
    (hcallback : 4 * idtEntries ≤ (x - l.idtGateCallback).toNat) :
    (idtInit l m).mem.byte x = m.byte x := by
  have hg : (BitVec.ofNat 32 (8 * idtEntries)).toNat = 8 * idtEntries := rfl
  have hc : (BitVec.ofNat 32 (4 * idtEntries)).toNat = 4 * idtEntries := rfl
  rw [idtInit]
  dsimp only
  rw [byte_idtInitLoop le_rfl hgate hcallback, byte_memset, if_neg (by omega), byte_memset,
    if_neg (by omega)]

/-- The addresses of the stubs are apart from what `idt_init` writes. -/
theorem apart_handlerAddr (hv : v < 256) (hx : (x - l.handlerAddr v).toNat < 4) :
    8 * idtEntries ≤ (x - l.idtGate).toNat ∧ 4 * idtEntries ≤ (x - l.idtGateCallback).toNat := by
  have hhandler := l.toNat_handlerAddr hv
  have h1 := l.gate_end
  have h2 := l.callback_end
  have h3 := l.handler_end
  have h5 := l.gate_handler
  have h6 := l.callback_handler
  unfold idtEntries at h1 h2 h5 h6 ⊢
  have hadd : x = l.handlerAddr v + (x - l.handlerAddr v) := by rw [add_sub_cancel]
  have hx' : x.toNat = (l.handlerAddr v).toNat + (x - l.handlerAddr v).toNat := by
    have hsum := congrArg BitVec.toNat hadd
    rw [BitVec.toNat_add] at hsum
    omega
  generalize (x - l.handlerAddr v).toNat = d at hx hx'
  constructor <;> bv_omega

/-- A turn of the loop writes its own gate only. -/
theorem read64_idtInitStep (hn : n < idtEntries) (hv : v < idtEntries) :
    (idtInitStep l m n).read64 (l.gateAddr v) =
      if v = n ∧ ¬Reserved n then installedGate (fun v => m.read32 (l.handlerAddr v)) v
      else m.read64 (l.gateAddr v) := by
  have hgate := l.toNat_gateAddr hn
  have hgate' := l.toNat_gateAddr hv
  have hcallback := l.toNat_callbackAddr hn
  have hhandler := l.toNat_handlerAddr (v := n) (by unfold idtEntries at hn; omega)
  have h1 := l.gate_end
  have h2 := l.callback_end
  have h3 := l.handler_end
  have h4 := l.gate_callback
  have h6 := l.callback_handler
  unfold idtEntries at hn hv h1 h2 h4 h6
  by_cases h : Reserved n
  · rw [idtInitStep, if_pos h, if_neg fun hand => hand.2 h]
  rw [idtInitStep_eq h]
  by_cases heq : v = n
  · subst heq
    rw [Mem.read64_write64_same, if_pos ⟨rfl, h⟩, installedGate, if_neg h,
      Mem.read32_write32_disjoint (by omega) (by omega) (by omega)]
  · rw [if_neg fun hand => heq hand.1,
      Mem.read64_write64_disjoint (by omega) (by omega) (by omega),
      Mem.read64_write32_disjoint (by omega) (by omega) (by omega)]

theorem gates_idtInit (l : IdtLayout) (m : Mem) (hv : v < idtEntries) :
    (idtInit l m).mem.read64 (l.gateAddr v) =
      installedGate (fun v => m.read32 (l.handlerAddr v)) v := by
  generalize hcleared : memset (memset m l.idtGate 0 (BitVec.ofNat 32 (8 * idtEntries)))
    l.idtGateCallback 0 (BitVec.ofNat 32 (4 * idtEntries)) = m₀
  have hgate := l.toNat_gateAddr hv
  have hend := l.gate_end
  have hcallbacks := l.gate_callback
  have hends := l.callback_end
  have hzero : m₀.read64 (l.gateAddr v) = 0 := by
    refine Mem.read64_of_zero fun x hx => ?_
    unfold idtEntries at hv hend hcallbacks hends
    have hg : (x - l.idtGate).toNat < (BitVec.ofNat 32 (8 * idtEntries)).toNat := by
      show (x - l.idtGate).toNat < 2040
      bv_omega
    have hc : ¬(x - l.idtGateCallback).toNat < (BitVec.ofNat 32 (4 * idtEntries)).toNat := by
      show ¬(x - l.idtGateCallback).toNat < 1020
      bv_omega
    rw [← hcleared, byte_memset, if_neg hc, byte_memset, if_pos hg]
    rfl
  have hstubs : ∀ n ≤ idtEntries, ∀ v < 256,
      (idtInitLoop l m₀ n).read32 (l.handlerAddr v) = m.read32 (l.handlerAddr v) := by
    intro n hn v hv
    refine Mem.read32_congr fun x hx => ?_
    obtain ⟨hg, hc⟩ := apart_handlerAddr hv hx
    have hg' : ¬(x - l.idtGate).toNat < (BitVec.ofNat 32 (8 * idtEntries)).toNat := not_lt.mpr hg
    have hc' : ¬(x - l.idtGateCallback).toNat < (BitVec.ofNat 32 (4 * idtEntries)).toNat :=
      not_lt.mpr hc
    rw [byte_idtInitLoop hn hg hc, ← hcleared, byte_memset, if_neg hc', byte_memset, if_neg hg']
  have hloop : ∀ n ≤ idtEntries, (idtInitLoop l m₀ n).read64 (l.gateAddr v) =
      if v < n then installedGate (fun v => m.read32 (l.handlerAddr v)) v else 0 := by
    intro n hn
    induction n with
    | zero => exact hzero
    | succ n ih =>
      rw [idtInitLoop, read64_idtInitStep hn hv, ih (by omega)]
      by_cases heq : v = n
      · subst heq
        rw [if_neg (lt_irrefl v), if_pos (Nat.lt_succ_self v), installedGate, installedGate,
          hstubs v (by omega) v (by unfold idtEntries at hv; omega)]
        by_cases hreserved : Reserved v
        · rw [if_neg fun hand => hand.2 hreserved, if_pos hreserved]
        · rw [if_pos ⟨rfl, hreserved⟩]
      · have hiff : v < n + 1 ↔ v < n := by omega
        rw [if_neg fun hand => heq hand.1]
        simp only [hiff]
  have hinit : (idtInit l m).mem = idtInitLoop l m₀ idtEntries := by
    rw [← hcleared]
    rfl
  rw [hinit, hloop _ le_rfl, if_pos hv]

end Init

/-- The processor uses both tables as they have been set up; `stub v` is where entry `v` leads. -/
structure Equipped (k : KernelLayout) (stub : Nat → Word) (c : Core) : Prop
    extends FlatLoaded k.gdt c where
  idtr : c.idtr = ⟨k.idt.idtGate, BitVec.ofNat 16 (8 * idtEntries - 1)⟩
  gates : ∀ v < idtEntries, c.cpu.mem.read64 (k.idt.gateAddr v) = installedGate stub v
  stubs : ∀ v < 256, c.cpu.mem.read32 (k.idt.handlerAddr v) = stub v

section Equipped

variable {k : KernelLayout} {stub : Nat → Word} {c t : Core} {vector : BitVec 8} {software : Bool}
  {error : Option Word}

theorem Equipped.holds_iff (h : Equipped k stub c) {v : Nat} :
    c.idtr.holds v = true ↔ v < idtEntries := by
  rw [h.idtr, TableRegister.holds, decide_eq_true_iff]
  show 8 * v + 7 ≤ 2039 ↔ v < 255
  omega

theorem Equipped.interrupt_missing (h : Equipped k stub c) (hv : ¬Installed vector.toNat) :
    c.interrupt vector software error = .error (.fault 13 (idtError vector !software)) := by
  rw [Core.interrupt]
  by_cases hlt : vector.toNat < idtEntries
  · have hreserved : Reserved vector.toNat := by
      by_contra hnot
      exact hv ⟨hlt, hnot⟩
    have haddr : c.idtr.addr vector.toNat = k.idt.gateAddr vector.toNat := by
      rw [h.idtr]
      rfl
    rw [h.holds_iff.mpr hlt, haddr, h.gates _ hlt, use_installedGate_reserved hreserved]
    rfl
  · have hnot : c.idtr.holds vector.toNat = false := by
      rw [← Bool.not_eq_true]
      exact fun hholds => hlt (h.holds_iff.mp hholds)
    rw [hnot]
    rfl

theorem Equipped.interrupt_installed (h : Equipped k stub c) (hv : Installed vector.toNat)
    (hesp : 16 ≤ (c.cpu.reg .esp).toNat) (herror : error.isSome = decide (ErrorCode vector.toNat)) :
    c.interrupt vector software error =
      .ok { c with cpu := deliver k.idt vector.toNat (error.getD 0) c.cpu } := by
  obtain ⟨hlt, hnot⟩ := hv
  have haddr : c.idtr.addr vector.toNat = k.idt.gateAddr vector.toNat := by
    rw [h.idtr]
    rfl
  have hpushes : c.pushesWithin (if error.isSome then 4 else 3) = true := by
    refine pushesWithin_flat h.stack ?_
    split <;> omega
  have hwithin : kernelCode.within (stub vector.toNat) 1 = true :=
    kernelCode_flat.within (by omega)
  have htouch : c.touch 0x8#16 = c := Core.touch_eq h.accessed
  have hholds : (!(c.table 0x8#16).holds (index 0x8#16)) = false := h.holds_not rfl (by decide)
  have hstub := h.stubs vector.toNat vector.isLt
  rw [Core.interrupt, h.holds_iff.mpr hlt, haddr, h.gates _ hlt, use_installedGate hnot,
    cpuGate_installedGate hnot, h.cpl]
  have henter : c.enter ⟨stub vector.toNat, 0x8#16, 0, (vectorKind vector.toNat).type, true, false,
      0, true⟩ (vectorKind vector.toNat) (!software) error =
        .ok { c with cpu := deliver k.idt vector.toNat (error.getD 0) c.cpu } := by
    rw [Core.enter]
    dsimp only
    rw [h.descriptor_code, hholds, h.cpl, hpushes, hwithin, htouch, h.cpl, clears_vectorKind,
      h.code, ← hstub]
    simp only [deliver]
    cases error with
    | none =>
      have hcode : ¬ErrorCode vector.toNat := of_decide_eq_false herror.symm
      rw [if_neg hcode, Core.pushFrame, stackBase_flat h.stack]
      rfl
    | some e =>
      have hcode : ErrorCode vector.toNat := of_decide_eq_true herror.symm
      rw [if_pos hcode, Core.pushFrame, stackBase_flat h.stack]
      rfl
  simpa using henter

/-- The vector whose stub serves an interrupt: a vector without a gate ends in a general protection
fault. -/
def servedVector (v : Nat) : Nat := if Installed v then v else 13

def servedError (vector : BitVec 8) (software : Bool) (error : Option Word) : Word :=
  if Installed vector.toNat then error.getD 0 else idtError vector !software

/-- The processor at the stub that serves an interrupt, with the frame on the stack. -/
def served (k : KernelLayout) (vector : BitVec 8) (software : Bool) (error : Option Word)
    (c : Core) : Core :=
  { c with
    cpu := deliver k.idt (servedVector vector.toNat) (servedError vector software error) c.cpu }

theorem Equipped.accept (h : Equipped k stub c) (hesp : 16 ≤ (c.cpu.reg .esp).toNat)
    (herror : error.isSome = decide (ErrorCode vector.toNat)) :
    c.accept vector software error = .ok (served k vector software error c) := by
  rw [Core.accept, served, servedVector, servedError]
  by_cases hv : Installed vector.toNat
  · rw [h.interrupt_installed hv hesp herror, if_pos hv, if_pos hv]
  · rw [h.interrupt_missing hv, if_neg hv, if_neg hv]
    exact h.interrupt_installed (by decide) hesp rfl

/-- What keeps the registers of the tables, the segments and the bytes of the tables. -/
theorem Equipped.congr (h : Equipped k stub c) (hgdtr : t.gdtr = c.gdtr) (hidtr : t.idtr = c.idtr)
    (hcs : t.cpu.cs = 0x08#32) (hcode : t.code = c.code) (hdata : t.data = c.data)
    (hbyte : ∀ x, k.Fixed x → t.cpu.mem.byte x = c.cpu.mem.byte x) : Equipped k stub t where
  toFlatLoaded := h.toFlatLoaded.congr hgdtr hcs hcode hdata fun x hx => hbyte x (Or.inl hx)
  idtr := hidtr.trans h.idtr
  gates := fun v hv => by
    rw [← h.gates v hv]
    exact Mem.read64_congr fun x hx => hbyte x (Or.inr (Or.inl (k.idt.inGate hv hx)))
  stubs := fun v hv => by
    rw [← h.stubs v hv]
    exact Mem.read32_congr fun x hx => hbyte x (Or.inr (Or.inr (k.idt.inHandler hv hx)))

/-- The interrupt tables are apart from the descriptors. -/
theorem KernelLayout.not_inGdt (k : KernelLayout) {x : Word}
    (hx : (x - k.idt.idtGate).toNat < 8 * idtEntries ∨ (x - k.idt.idtGateHandler).toNat < 4 * 256) :
    ¬k.gdt.InGdt x := by
  have h1 := k.gdt_gate
  have h2 := k.gdt_handler
  have h3 := k.gdt.gdt_end
  have h4 := k.idt.gate_end
  have h5 := k.idt.handler_end
  unfold idtEntries gdtLimit at *
  unfold GdtLayout.InGdt
  unfold gdtLimit
  bv_omega

theorem KernelLayout.apart_gate (k : KernelLayout) {x : Word} (hx : k.gdt.InGdt x) :
    8 * idtEntries ≤ (x - k.idt.idtGate).toNat := by
  by_contra hnot
  exact k.not_inGdt (Or.inl (by omega)) hx

theorem KernelLayout.apart_callback (k : KernelLayout) {x : Word} (hx : k.gdt.InGdt x) :
    4 * idtEntries ≤ (x - k.idt.idtGateCallback).toNat := by
  have h1 := k.gdt_callback
  have h2 := k.gdt.gdt_end
  have h3 := k.idt.callback_end
  unfold GdtLayout.InGdt at hx
  unfold idtEntries gdtLimit at *
  bv_omega

theorem KernelLayout.apart_gdtl (k : KernelLayout) {x : Word}
    (hx : (x - k.idt.idtGateHandler).toNat < 4 * 256) : 6 ≤ (x - k.gdt.gdtl).toNat := by
  have h1 := k.gdtl_handler
  have h2 := k.gdt.gdtl_end
  have h3 := k.idt.handler_end
  bv_omega

theorem Equipped.reloaded (h : Equipped k stub c) (ht : Core.Reloaded c t) : Equipped k stub t := by
  have hbyte : ∀ x, ¬k.gdt.InGdt x → t.cpu.mem.byte x = c.cpu.mem.byte x :=
    fun x hx => h.toTableLoaded.byte_reloaded ht hx
  refine { toFlatLoaded := h.toFlatLoaded.reloaded ht, idtr := ht.idtr.trans h.idtr,
           gates := fun v hv => ?_, stubs := fun v hv => ?_ }
  · rw [← h.gates v hv]
    exact Mem.read64_congr fun x hx => hbyte x (k.not_inGdt (Or.inl (k.idt.inGate hv hx)))
  · rw [← h.stubs v hv]
    exact Mem.read32_congr fun x hx => hbyte x (k.not_inGdt (Or.inr (k.idt.inHandler hv hx)))

end Equipped

/-! ### Runs -/

/-- The stack has room for `n` words, apart from the tables. -/
structure StackRoom (k : KernelLayout) (n : Nat) (c : Core) : Prop where
  room : 4 * n ≤ (c.cpu.reg .esp).toNat
  apart : ∀ x, k.Fixed x →
    4 * n ≤ (x - (c.cpu.reg .esp - BitVec.ofNat 32 (4 * n))).toNat

/-- What the kernel and the processor do once the tables are set up: code that leaves the tables and
CS alone, attempts to load segment registers from the global table, interrupts, and returns to a
selector of the global table. -/
inductive KernelStep (k : KernelLayout) (c : Core) : Core → Prop
  | code (s : Cpu) (hcs : s.cs = c.cpu.cs)
      (hbyte : ∀ x, k.Fixed x → s.mem.byte x = c.cpu.mem.byte x) :
      KernelStep k c { c with cpu := s }
  | load (r : DataReg) (sel : BitVec 16) (t : Core) (hti : ti sel = false)
      (ht : c.load r sel = .ok t) : KernelStep k c t
  | interrupt (vector : BitVec 8) (software : Bool) (error : Option Word) (t : Core)
      (hstack : StackRoom k 4 c) (herror : error.isSome = decide (ErrorCode vector.toNat))
      (ht : c.accept vector software error = .ok t) : KernelStep k c t
  | iret (t : Core) (hti : ti ((c.cpu.drop.top c.stackBase).setWidth 16) = false)
      (ht : c.iret = .ok t) : KernelStep k c t

section Runs

variable {k : KernelLayout} {stub : Nat → Word} {c t : Core}

theorem byte_deliver {l : IdtLayout} {v : Nat} {error : Word} {s : Cpu} {x : Word}
    (hx : 16 ≤ (x - (s.reg .esp - 16)).toNat) :
    (deliver l v error s).mem.byte x = s.mem.byte x := by
  have hpushed := pushed_deliver l v error s
  refine hpushed.byte x ?_
  rw [hpushed.esp, add_zero]
  split
  · exact hx
  · show 12 ≤ (x - (s.reg .esp - 12)).toNat
    bv_omega

theorem Equipped.step (h : Equipped k stub c) (ht : KernelStep k c t) : Equipped k stub t := by
  cases ht with
  | code s hcs hbyte => exact h.congr rfl rfl (hcs.trans h.cs) rfl rfl hbyte
  | load r sel _ hti ht => exact h.reloaded (Core.load_reloaded hti ht)
  | interrupt vector software error _ hstack herror ht =>
    rw [h.accept hstack.room herror] at ht
    cases ht
    exact h.congr rfl rfl rfl rfl rfl fun x hx => byte_deliver (hstack.apart x hx)
  | iret _ hti ht =>
    rw [Core.iret] at ht
    dsimp only at ht
    split at ht
    · cases ht
    split at ht
    · cases ht
    split at ht
    · cases ht
    cases hreturn : c.returnCode ((c.cpu.drop.top c.stackBase).setWidth 16) with
    | error e =>
      rw [hreturn] at ht
      cases ht
    | ok d =>
      have hsel := h.returnCode_eq hti hreturn
      rw [hsel, h.returnCode, Core.touch_eq h.accessed] at ht
      dsimp only at ht
      split at ht
      · cases ht
      · cases ht
        exact h.congr rfl rfl rfl h.code.symm rfl fun x _ => rfl

theorem Equipped.run (h : Equipped k stub c) (ht : Relation.ReflTransGen (KernelStep k) c t) :
    Equipped k stub t := by
  induction ht with
  | refl => exact h
  | tail _ hstep ih => exact ih.step hstep

/-- `idt_set_interrupt_handler` on the processor. -/
def setHandler (k : KernelLayout) (vector : BitVec 8) (handler : Word) (c : Core) : Core :=
  { c with
    cpu := { c.cpu with mem := idtSetInterruptHandler k.idt c.cpu.mem vector handler } }

/-- A registration is a step: the table of the callbacks is apart from the others. -/
theorem idtSetInterruptHandler_step (c : Core) {vector : BitVec 8} (hv : vector ≠ 255)
    (handler : Word) : KernelStep k c (setHandler k vector handler c) := by
  refine KernelStep.code _ rfl fun x hx => Mem.byte_write32_ne ?_
  have hslot := k.idt.toNat_callbackAddr (toNat_lt_idtEntries hv)
  have hlt := toNat_lt_idtEntries hv
  have h1 := k.gdt_callback
  have h2 := k.idt.gate_callback
  have h3 := k.idt.callback_handler
  have h4 := k.gdt.gdt_end
  have h5 := k.idt.gate_end
  have h6 := k.idt.callback_end
  have h7 := k.idt.handler_end
  unfold idtEntries gdtLimit at *
  rcases hx with hx | hx | hx
  · unfold GdtLayout.InGdt gdtLimit at hx
    bv_omega
  · unfold idtEntries at hx
    bv_omega
  · bv_omega

/-- `idt_init` with `idt_set_table`. -/
def idtLoad (k : KernelLayout) (c : Core) : Core :=
  let s := idtInit k.idt c.cpu.mem
  { c with cpu := { c.cpu with mem := s.mem }, idtr := ⟨s.base, s.limit⟩ }

theorem equipped_idtLoad (h : FlatLoaded k.gdt c) :
    Equipped k (fun v => c.cpu.mem.read32 (k.idt.handlerAddr v)) (idtLoad k c) where
  toFlatLoaded := by
    refine h.congr rfl h.cs rfl rfl fun x hx => ?_
    exact byte_idtInit (k.apart_gate hx) (k.apart_callback hx)
  idtr := rfl
  gates := fun v hv => gates_idtInit k.idt c.cpu.mem hv
  stubs := fun v hv => (idtInit_ready k.idt c.cpu.mem).handlers v hv

/-- The boot loader enters the kernel in the most privileged level, on a stack that is apart from
the tables. -/
structure SetUp (k : KernelLayout) (off : Word) (c : Core) : Prop extends
    FlushStack k.gdt off c where
  cpl : c.cpl = 0
  stubs : ∀ x, (x - k.idt.idtGateHandler).toNat < 4 * 256 →
    8 ≤ (x - (c.cpu.reg .esp - 8 + off)).toNat

/-- However the kernel runs after `gdt_init` and `idt_init`, every interrupt enters a stub, with the
frame that the stub expects on the stack: its own stub if `idt_init` has installed a gate for the
vector, and that of the general protection fault if not. -/
theorem interrupts_enter_stubs (k : KernelLayout) (off label : Word) (c : Core)
    (hc : SetUp k off c) : ∃ t, gdtInit k.gdt off label c = .ok t ∧
      ∀ u, Relation.ReflTransGen (KernelStep k) (idtLoad k t) u → StackRoom k 4 u →
        ∀ (vector : BitVec 8) (software : Bool) (error : Option Word),
          error.isSome = decide (ErrorCode vector.toNat) →
            u.accept vector software error = .ok (served k vector software error u) ∧
              (served k vector software error u).cpu.eip =
                c.cpu.mem.read32 (k.idt.handlerAddr (servedVector vector.toNat)) := by
  obtain ⟨t, hrun, hflat, -, -, -, -, hbyte⟩ :=
    gdtInit_spec k.gdt label hc.cpl hc.toFlushStack
  refine ⟨t, hrun, fun u hu hstack vector software error herror => ?_⟩
  have hequipped := (equipped_idtLoad hflat).run hu
  refine ⟨hequipped.accept hstack.room herror, ?_⟩
  have hserved : servedVector vector.toNat < 256 := by
    have hlt := vector.isLt
    unfold servedVector
    split <;> omega
  show u.cpu.mem.read32 (k.idt.handlerAddr (servedVector vector.toNat)) = _
  rw [hequipped.stubs _ hserved]
  refine Mem.read32_congr fun x hx => ?_
  have hx := k.idt.inHandler hserved hx
  exact hbyte x (k.not_inGdt (Or.inr hx)) (k.apart_gdtl hx) (hc.stubs x hx)

end Runs

/-! ### A boot -/

def linkedLayout : KernelLayout where
  idt := smallLayout
  gdt := smallGdt
  gdt_gate := by decide
  gdt_callback := by decide
  gdt_handler := by decide
  gdtl_handler := by decide

theorem loaderCore_setUp : SetUp linkedLayout 0 loaderCore where
  toFlushStack := loaderCore_flushStack
  cpl := by decide
  stubs := fun x hx => by
    have hx : (x - 0xC0112000#32).toNat < 1024 := hx
    show 8 ≤ (x - (0xC0105000#32 - 8 + 0)).toNat
    bv_omega

theorem stackRoom_linked {n : Nat} {u : Core} (hn : n ≤ 512)
    (hlow : 0xC0104000 ≤ (u.cpu.reg .esp).toNat) (hhigh : (u.cpu.reg .esp).toNat ≤ 0xC0105000) :
    StackRoom linkedLayout n u where
  room := by omega
  apart := fun x hx => by
    have hfar : 0xB000 ≤ (x - u.cpu.reg .esp).toNat ∧ (x - u.cpu.reg .esp).toNat ≤ 0x10000 := by
      generalize u.cpu.reg .esp = esp at *
      rcases hx with hx | hx | hx
      · have hx : (x - 0xC0113000#32).toNat < 80 := hx
        bv_omega
      · have hx : (x - 0xC0110000#32).toNat < 2040 := hx
        bv_omega
      · have hx : (x - 0xC0112000#32).toNat < 1024 := hx
        bv_omega
    have hsub : x - (u.cpu.reg .esp - BitVec.ofNat 32 (4 * n)) =
        x - u.cpu.reg .esp + BitVec.ofNat 32 (4 * n) := by
      rw [sub_sub_eq_add_sub, add_sub_right_comm]
    rw [hsub, BitVec.toNat_add, BitVec.toNat_ofNat]
    omega

/-- The stack pointer in the stub of an interrupt without an error code. -/
theorem esp_served {u : Core} {v : BitVec 8} {software : Bool} {error : Option Word}
    (hv : ¬ErrorCode (servedVector v.toNat)) :
    (served linkedLayout v software error u).cpu.reg .esp = u.cpu.reg .esp - 12 := by
  have hpushed := pushed_deliver linkedLayout.idt (servedVector v.toNat)
    (servedError v software error) u.cpu
  rw [served, hpushed.esp, if_neg hv]
  rfl

/-- The stack when a handler has been registered for the keyboard, and in the stub of the timer. -/
theorem timer_stack {t : Core} (hreg : t.cpu.reg = loaderCore.cpu.reg) :
    let r := setHandler linkedLayout 33 0xC0101000#32 (idtLoad linkedLayout t)
    StackRoom linkedLayout 4 r ∧
      (served linkedLayout 32 false none r).cpu.reg .esp = 0xC0104FF4#32 := by
  intro r
  have hesp : r.cpu.reg .esp = 0xC0105000#32 := congrFun hreg .esp
  refine ⟨stackRoom_linked (by decide) (by rw [hesp]; decide) (by rw [hesp]; decide), ?_⟩
  have hserved : (served linkedLayout 32 false none r).cpu.reg .esp = r.cpu.reg .esp - 12 :=
    esp_served (by decide)
  rw [hserved, hesp]
  rfl

/-- A handler is registered for the keyboard, and vector 255, which has no gate, comes while the
stub of the timer runs. -/
theorem interrupts_enter_stubs_255 :
    ∃ t, gdtInit smallGdt 0 0xC0100800#32 loaderCore = .ok t ∧
      let r := setHandler linkedLayout 33 0xC0101000#32 (idtLoad linkedLayout t)
      let u := served linkedLayout 32 false none r
      r.accept 32 false none = .ok u ∧
        u.accept 255 false none = .ok (served linkedLayout 255 false none u) ∧
        servedVector 255 = 13 ∧ servedError 255 false none = 0x7FB#32 := by
  obtain ⟨t, hrun, hall⟩ :=
    interrupts_enter_stubs linkedLayout 0 0xC0100800#32 loaderCore loaderCore_setUp
  obtain ⟨t', hrun', -, -, hreg, -⟩ := gdtInit_spec smallGdt 0xC0100800#32
    (c := loaderCore) (by decide) loaderCore_flushStack
  obtain rfl := Except.ok.inj (hrun.symm.trans hrun')
  refine ⟨t, hrun, ?_⟩
  intro r u
  have hregister : KernelStep linkedLayout (idtLoad linkedLayout t) r :=
    idtSetInterruptHandler_step _ (by decide) _
  obtain ⟨hroom, hesp⟩ := timer_stack hreg
  obtain ⟨htimer, -⟩ := hall r (.single hregister) hroom 32 false none (by decide)
  have hroom' : StackRoom linkedLayout 4 u :=
    stackRoom_linked (by decide) (by rw [hesp]; decide) (by rw [hesp]; decide)
  have hsteps : Relation.ReflTransGen (KernelStep linkedLayout) (idtLoad linkedLayout t) u :=
    (Relation.ReflTransGen.single hregister).tail
      (.interrupt 32 false none u hroom (by decide) htimer)
  exact ⟨htimer, (hall u hsteps hroom' 255 false none (by decide)).1, by decide, by decide⟩

end BasicX86Kernel
