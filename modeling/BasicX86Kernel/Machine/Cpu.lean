import BasicX86Kernel.Machine.Memory

/-! The part of a 32-bit x86 processor that hand-written assembly uses: registers, flags, the stack,
calls of compiled functions, and interrupts. -/

namespace BasicX86Kernel.Machine

/-- The general registers, in the order in which `pusha` pushes them. -/
inductive Reg
  | eax
  | ecx
  | edx
  | ebx
  | esp
  | ebp
  | esi
  | edi
  deriving DecidableEq

@[ext] structure Cpu where
  reg : Reg → Word
  eip : Word
  cs : Word
  eflags : Word
  cr0 : Word
  cr3 : Word
  cr4 : Word
  mem : Mem

namespace Cpu

/-! ### Instructions -/

def set (s : Cpu) (r : Reg) (v : Word) : Cpu := { s with reg := Function.update s.reg r v }

/-- Bit `i` of the flags. -/
def setFlag (f : Word) (i : Nat) (b : Bool) : Word :=
  if b then f ||| 1#32 <<< i else f &&& ~~~(1#32 <<< i)

/-- The flags after an operation with the result `v`: carry, parity, adjust, zero, sign and
overflow. -/
@[irreducible] def aluFlags (f v : Word) (carry adjust overflow : Bool) : Word :=
  let parity := ((List.range 8).filter (v.getLsbD ·)).length % 2 == 0
  setFlag (setFlag (setFlag (setFlag (setFlag (setFlag f 0 carry) 2 parity) 4 adjust) 7 v.msb) 11
    overflow) 6 (v == 0)

/-- The zero flag. -/
def zf (s : Cpu) : Bool := s.eflags.getLsbD 6

def add (s : Cpu) (r : Reg) (v : Word) : Cpu :=
  let a := s.reg r
  { s.set r (a + v) with
    eflags := aluFlags s.eflags (a + v) (BitVec.carry 32 a v false)
      (BitVec.carry 4 a v false) (BitVec.saddOverflow a v) }

def or (s : Cpu) (r : Reg) (v : Word) : Cpu :=
  let a := s.reg r
  { s.set r (a ||| v) with eflags := aluFlags s.eflags (a ||| v) false false false }

def cmp (s : Cpu) (v : Word) (r : Reg) : Cpu :=
  let a := s.reg r
  { s with
    eflags := aluFlags s.eflags (a - v) (decide (a < v)) (decide (a.extractLsb' 0 4 < v.extractLsb' 0 4))
      (BitVec.ssubOverflow a v) }

/-! Below, `off` is the distance from the linear addresses of the stack to where they are in
memory. -/

variable (off : Word)

def push (s : Cpu) (v : Word) : Cpu :=
  { s.set .esp (s.reg .esp - 4) with mem := s.mem.write32 (s.reg .esp - 4 + off) v }

/-- The word on top of the stack. -/
def top (s : Cpu) : Word := s.mem.read32 (s.reg .esp + off)

def drop (s : Cpu) : Cpu := s.set .esp (s.reg .esp + 4)

def pop (s : Cpu) (r : Reg) : Cpu := s.drop.set r (s.top off)

/-- `pusha` pushes the value that `esp` has before it. -/
def pusha (s : Cpu) : Cpu :=
  (((((((s.push off (s.reg .eax)).push off (s.reg .ecx)).push off (s.reg .edx)).push off
    (s.reg .ebx)).push off (s.reg .esp)).push off (s.reg .ebp)).push off (s.reg .esi)).push off
    (s.reg .edi)

/-- `popa` drops the word that `pusha` pushed for `esp`. -/
def popa (s : Cpu) : Cpu :=
  (((((((s.pop off .edi).pop off .esi).pop off .ebp).drop).pop off .ebx).pop off .edx).pop
    off .ecx).pop off .eax

/-- A call: the address behind the instruction is pushed, and the function runs. -/
def call (s : Cpu) (ret : Word) (f : Cpu → Cpu) : Cpu := f (s.push off ret)

def ret (s : Cpu) : Cpu := { s.drop with eip := s.top off }

def leave (s : Cpu) : Cpu := (s.set .esp (s.reg .ebp)).pop off .ebp

def popEip (s : Cpu) : Cpu := { s.drop with eip := s.top off }
def popCs (s : Cpu) : Cpu := { s.drop with cs := s.top off }
def popEflags (s : Cpu) : Cpu := { s.drop with eflags := s.top off }

/-- `iret` without a change of privilege. -/
def iret (s : Cpu) : Cpu := ((s.popEip off).popCs off).popEflags off

/-! ### The stack -/

/-- The words in memory from `p` on. -/
def WordsAt (m : Mem) : Word → List Word → Prop
  | _, [] => True
  | p, w :: ws => m.read32 p = w ∧ WordsAt m (p + 4) ws

theorem WordsAt.write32 {m : Mem} {p q v : Word} {ws : List Word} (h : WordsAt m p ws)
    (hq : 4 ≤ (p - q).toNat) (hlen : (p - q).toNat + 4 * ws.length ≤ 2 ^ 32) :
    WordsAt (m.write32 q v) p ws := by
  induction ws generalizing p with
  | nil => trivial
  | cons w ws ih =>
    rw [List.length_cons] at hlen
    refine ⟨(Mem.read32_write32_far hq (by omega)).trans h.1, ?_⟩
    rcases ws with _ | ⟨w', ws⟩
    · trivial
    · rw [List.length_cons] at hlen ih
      have hsucc : (p + 4 - q).toNat = (p - q).toNat + 4 := by bv_omega
      exact ih h.2 (by omega) (by omega)

theorem WordsAt.get {m : Mem} {p : Word} {ws : List Word} (h : WordsAt m p ws) {i : Nat} {w : Word}
    (hw : ws[i]? = some w) : m.read32 (p + 4 * BitVec.ofNat 32 i) = w := by
  induction ws generalizing p i with
  | nil => simp at hw
  | cons u us ih =>
    cases i with
    | zero =>
      obtain rfl : u = w := by simpa using hw
      simpa using h.1
    | succ i =>
      have hadd : p + 4 * BitVec.ofNat 32 (i + 1) = p + 4 + 4 * BitVec.ofNat 32 i := by bv_omega
      rw [hadd]
      exact ih h.2 (by simpa using hw)

/-- The words on the stack, the top first. -/
def Stacked (s : Cpu) (ws : List Word) : Prop := WordsAt s.mem (s.reg .esp + off) ws

section Stack

variable {off} {s s' : Cpu} {ws : List Word} {v w : Word} {r r' : Reg}

@[simp] theorem reg_set_same : (s.set r v).reg r = v := by
  unfold set
  exact Function.update_self _ _ _

@[simp] theorem reg_set_ne (h : r' ≠ r) : (s.set r v).reg r' = s.reg r' := by
  unfold set
  exact Function.update_of_ne h _ _

@[simp] theorem mem_set : (s.set r v).mem = s.mem := rfl
@[simp] theorem eip_set : (s.set r v).eip = s.eip := rfl
@[simp] theorem cs_set : (s.set r v).cs = s.cs := rfl
@[simp] theorem eflags_set : (s.set r v).eflags = s.eflags := rfl

@[simp] theorem reg_or : (s.or r v).reg = (s.set r (s.reg r ||| v)).reg := rfl
@[simp] theorem reg_add : (s.add r v).reg = (s.set r (s.reg r + v)).reg := rfl
@[simp] theorem mem_or : (s.or r v).mem = s.mem := rfl
@[simp] theorem mem_add : (s.add r v).mem = s.mem := rfl
@[simp] theorem cr0_add : (s.add r v).cr0 = s.cr0 := rfl

@[simp] theorem esp_push : (s.push off v).reg .esp = s.reg .esp - 4 :=
  reg_set_same (s := s) (r := .esp) (v := s.reg .esp - 4)

@[simp] theorem reg_push_ne (h : r ≠ .esp) : (s.push off v).reg r = s.reg r :=
  reg_set_ne (s := s) h

@[simp] theorem esp_drop : s.drop.reg .esp = s.reg .esp + 4 := reg_set_same

@[simp] theorem reg_drop_ne (h : r ≠ .esp) : s.drop.reg r = s.reg r := reg_set_ne h

@[simp] theorem reg_ret : (s.ret off).reg = s.drop.reg := rfl

@[simp] theorem mem_drop : s.drop.mem = s.mem := rfl

theorem Stacked.push (h : s.Stacked off ws) (hlen : 4 * (ws.length + 1) ≤ 2 ^ 32) (v : Word) :
    (s.push off v).Stacked off (v :: ws) := by
  have hadd : s.reg .esp - 4 + off + 4 = s.reg .esp + off := by bv_omega
  rw [Stacked, esp_push]
  refine ⟨Mem.read32_write32_same _ _ _, ?_⟩
  rw [hadd]
  have hdist : (s.reg .esp + off - (s.reg .esp - 4 + off)).toNat = 4 := by bv_omega
  exact WordsAt.write32 h (by omega) (by omega)

theorem Stacked.top (h : s.Stacked off (w :: ws)) : s.top off = w := h.1

theorem Stacked.drop (h : s.Stacked off (w :: ws)) : s.drop.Stacked off ws := by
  have hadd : s.reg .esp + 4 + off = s.reg .esp + off + 4 := by bv_omega
  rw [Stacked, esp_drop, hadd]
  exact h.2

theorem Stacked.congr (h : s.Stacked off ws) (hesp : s'.reg .esp = s.reg .esp)
    (hmem : s'.mem = s.mem) : s'.Stacked off ws := by
  rw [Stacked, hesp, hmem]
  exact h

/-- The removal of a word that is no longer needed. -/
theorem Stacked.add_esp (h : s.Stacked off (w :: ws)) :
    (s.add .esp 4).Stacked off ws ∧ (s.add .esp 4).reg .esp = s.reg .esp + 4 ∧
      ∀ r ≠ .esp, (s.add .esp 4).reg r = s.reg r := by
  have hreg : (s.add .esp 4).reg = s.drop.reg := reg_add
  refine ⟨h.drop.congr (by rw [hreg]) mem_add, by rw [hreg, esp_drop], fun r hr => ?_⟩
  rw [hreg, reg_drop_ne hr]

/-! A pop into a register other than `esp`. -/

@[simp] theorem esp_pop (hr : r ≠ .esp) : (s.pop off r).reg .esp = s.reg .esp + 4 :=
  (reg_set_ne hr.symm).trans esp_drop

@[simp] theorem reg_pop_same : (s.pop off r).reg r = s.top off := reg_set_same

@[simp] theorem reg_pop_ne (h : r' ≠ r) (h' : r' ≠ .esp) : (s.pop off r).reg r' = s.reg r' :=
  (reg_set_ne h).trans (reg_drop_ne h')

theorem Stacked.pop (h : s.Stacked off (w :: ws)) (hr : r ≠ .esp) : (s.pop off r).Stacked off ws :=
  h.drop.congr (reg_set_ne hr.symm) rfl

theorem read32_push {b : Word} (h : 4 ≤ (b - (s.reg .esp - 4 + off)).toNat)
    (h' : (b - (s.reg .esp - 4 + off)).toNat + 4 ≤ 2 ^ 32) :
    (s.push off v).mem.read32 b = s.mem.read32 b :=
  Mem.read32_write32_far h h'

/-- `pusha` pushes the eight registers, and changes `esp` only. -/
theorem Stacked.pusha (h : s.Stacked off ws) (hlen : 4 * (ws.length + 8) ≤ 2 ^ 32) :
    (s.pusha off).Stacked off (s.reg .edi :: s.reg .esi :: s.reg .ebp :: s.reg .esp :: s.reg .ebx ::
        s.reg .edx :: s.reg .ecx :: s.reg .eax :: ws) ∧
      (s.pusha off).reg .esp = s.reg .esp - 32 ∧
      ∀ r ≠ .esp, (s.pusha off).reg r = s.reg r := by
  have hlen' : ∀ us : List Word, us.length ≤ ws.length + 7 → 4 * (us.length + 1) ≤ 2 ^ 32 := by
    intro us hus
    omega
  rw [Cpu.pusha]
  refine ⟨?_, ?_, ?_⟩
  · refine Stacked.push (Stacked.push (Stacked.push (Stacked.push (Stacked.push (Stacked.push
      (Stacked.push (Stacked.push h ?_ _) ?_ _) ?_ _) ?_ _) ?_ _) ?_ _) ?_ _) ?_ _
    all_goals exact hlen' _ (by simp)
  · simp only [esp_push]
    bv_omega
  · intro r hr
    simp only [reg_push_ne hr]

/-- What `pusha` does not overwrite. -/
theorem read32_pusha {b : Word} (h : 32 ≤ (b - (s.reg .esp - 32 + off)).toNat)
    (h' : (b - (s.reg .esp - 32 + off)).toNat + 4 ≤ 2 ^ 32) :
    (s.pusha off).mem.read32 b = s.mem.read32 b := by
  rw [Cpu.pusha]
  iterate 7
    rw [read32_push (by simp only [esp_push]; bv_omega) (by simp only [esp_push]; bv_omega)]
  rw [read32_push (by bv_omega) (by bv_omega)]

/-- `popa` takes the registers off the stack again, and leaves out `esp`. -/
theorem Stacked.popa {edi esi ebp esp ebx edx ecx eax : Word}
    (h : s.Stacked off (edi :: esi :: ebp :: esp :: ebx :: edx :: ecx :: eax :: ws)) :
    (s.popa off).Stacked off ws ∧ (s.popa off).mem = s.mem ∧
      (s.popa off).reg .esp = s.reg .esp + 32 ∧
      (s.popa off).reg .edi = edi ∧ (s.popa off).reg .esi = esi ∧ (s.popa off).reg .ebp = ebp ∧
      (s.popa off).reg .ebx = ebx ∧ (s.popa off).reg .edx = edx ∧ (s.popa off).reg .ecx = ecx ∧
      (s.popa off).reg .eax = eax := by
  have h₁ := h.pop (r := .edi) (by decide)
  have h₂ := h₁.pop (r := .esi) (by decide)
  have h₃ := h₂.pop (r := .ebp) (by decide)
  have h₄ := h₃.drop
  have h₅ := h₄.pop (r := .ebx) (by decide)
  have h₆ := h₅.pop (r := .edx) (by decide)
  have h₇ := h₆.pop (r := .ecx) (by decide)
  have h₈ := h₇.pop (r := .eax) (by decide)
  refine ⟨h₈, rfl, ?_, ?_, ?_, ?_, ?_, ?_, ?_, reg_pop_same.trans h₇.top⟩
  all_goals rw [Cpu.popa]
  · simp only [ne_eq, reduceCtorEq, not_false_eq_true, esp_pop, esp_drop]
    bv_omega
  -- the later pops leave the register that a pop has filled
  · simp [h.top]
  · simp [h₁.top]
  · simp [h₂.top]
  · simp [h₄.top]
  · simp [h₅.top]
  · simp [h₆.top]

theorem Stacked.iret {eip cs eflags : Word} (h : s.Stacked off (eip :: cs :: eflags :: ws)) :
    (s.iret off).Stacked off ws ∧ (s.iret off).mem = s.mem ∧
      (s.iret off).reg .esp = s.reg .esp + 12 ∧
      (∀ r ≠ .esp, (s.iret off).reg r = s.reg r) ∧ (s.iret off).eip = eip ∧
      (s.iret off).cs = cs ∧ (s.iret off).eflags = eflags := by
  have h₁ : (s.popEip off).Stacked off (cs :: eflags :: ws) := h.drop.congr rfl rfl
  have h₂ : ((s.popEip off).popCs off).Stacked off (eflags :: ws) := h₁.drop.congr rfl rfl
  refine ⟨h₂.drop.congr rfl rfl, rfl, ?_, fun r hr => ?_, h.top, h₁.top, h₂.top⟩
  · show ((s.popEip off).popCs off).drop.reg .esp = _
    rw [esp_drop]
    show (s.popEip off).drop.reg .esp + 4 = _
    rw [esp_drop]
    show s.drop.reg .esp + 4 + 4 = _
    rw [esp_drop]
    bv_omega
  · exact (reg_drop_ne hr).trans ((reg_drop_ne hr).trans (reg_drop_ne hr))

/-- The zero flag after a comparison with zero. -/
theorem zf_cmp_zero : (s.cmp 0 r).zf = (s.reg r == 0) := by
  show (aluFlags s.eflags (s.reg r - 0) _ _ _).getLsbD 6 = _
  rw [aluFlags, sub_zero]
  generalize setFlag _ 11 _ = f
  rw [setFlag]
  cases s.reg r == 0 <;> simp

theorem getLsbD_setFlag_ne {f : Word} {i j : Nat} {b : Bool} (h : (1#32 <<< i).getLsbD j = false)
    (hj : j < 32) : (setFlag f i b).getLsbD j = f.getLsbD j := by
  rw [setFlag]
  cases b
  · rw [if_neg Bool.false_ne_true, BitVec.getLsbD_and, BitVec.getLsbD_not, h, decide_eq_true hj]
    simp
  · rw [if_pos rfl, BitVec.getLsbD_or, h, Bool.or_false]

/-- Arithmetic leaves the flag NT alone. -/
theorem nt_aluFlags {f v : Word} {carry adjust overflow : Bool} :
    (aluFlags f v carry adjust overflow).getLsbD 14 = f.getLsbD 14 := by
  rw [aluFlags, getLsbD_setFlag_ne (by decide) (by decide),
    getLsbD_setFlag_ne (by decide) (by decide), getLsbD_setFlag_ne (by decide) (by decide),
    getLsbD_setFlag_ne (by decide) (by decide), getLsbD_setFlag_ne (by decide) (by decide),
    getLsbD_setFlag_ne (by decide) (by decide)]

@[simp] theorem cs_cmp : (s.cmp v r).cs = s.cs := rfl
@[simp] theorem cs_add : (s.add r v).cs = s.cs := rfl
@[simp] theorem cs_drop : s.drop.cs = s.cs := rfl
@[simp] theorem cs_pop : (s.pop off r).cs = s.cs := rfl
@[simp] theorem eflags_drop : s.drop.eflags = s.eflags := rfl
@[simp] theorem eflags_pop : (s.pop off r).eflags = s.eflags := rfl

theorem cs_popa : (s.popa off).cs = s.cs := by
  simp [popa]

theorem eflags_popa : (s.popa off).eflags = s.eflags := by
  simp [popa]

theorem nt_cmp : (s.cmp v r).eflags.getLsbD 14 = s.eflags.getLsbD 14 := nt_aluFlags

theorem nt_add : (s.add r v).eflags.getLsbD 14 = s.eflags.getLsbD 14 := nt_aluFlags

/-- `s'` comes from `s` by pushes of `n` words: it has changed no byte outside them. -/
structure Pushed (off : Word) (s s' : Cpu) (n : Nat) : Prop where
  esp : s'.reg .esp = s.reg .esp - BitVec.ofNat 32 (4 * n)
  byte : ∀ x, 4 * n ≤ (x - (s'.reg .esp + off)).toNat → s'.mem.byte x = s.mem.byte x

theorem Pushed.refl : Pushed off s s 0 where
  esp := (sub_zero _).symm
  byte := fun _ _ => rfl

theorem Pushed.congr {t : Cpu} {n : Nat} (h : Pushed off s s' n) (hesp : t.reg .esp = s'.reg .esp)
    (hmem : t.mem = s'.mem) : Pushed off s t n where
  esp := hesp.trans h.esp
  byte := fun x hx => by
    rw [hesp] at hx
    rw [hmem, h.byte x hx]

theorem Pushed.push {n : Nat} (h : Pushed off s s' n) (hn : 4 * (n + 1) < 2 ^ 32) (v : Word) :
    Pushed off s (s'.push off v) (n + 1) where
  esp := by
    have hmul : BitVec.ofNat 32 (4 * (n + 1)) = BitVec.ofNat 32 (4 * n) + 4 := BitVec.ofNat_add _ _
    rw [esp_push, h.esp, hmul, sub_sub]
  byte := fun x hx => by
    have hdist : x - (s'.reg .esp - 4 + off) = x - (s'.reg .esp + off) + 4 := by bv_omega
    rw [esp_push, hdist, BitVec.toNat_add] at hx
    have hfour : (4 : Word).toNat = 4 := rfl
    have hbyte := h.byte x (by omega)
    have hmem : (s'.push off v).mem = s'.mem.write32 (s'.reg .esp - 4 + off) v := rfl
    rw [hmem, Mem.byte_write32_ne (by rw [hdist, BitVec.toNat_add]; omega), hbyte]

theorem Pushed.pusha {n : Nat} (h : Pushed off s s' n) (hn : 4 * (n + 8) < 2 ^ 32) :
    Pushed off s (s'.pusha off) (n + 8) := by
  refine Pushed.push (Pushed.push (Pushed.push (Pushed.push (Pushed.push (Pushed.push
    (Pushed.push (Pushed.push h ?_ _) ?_ _) ?_ _) ?_ _) ?_ _) ?_ _) ?_ _) ?_ _
  all_goals omega

end Stack

/-! ### Compiled functions -/

/-- What the calling convention promises of a function entered in `s` with its return address on the
stack, and left in `s'`: the return address is taken off the stack, four registers are kept, and so
are the `n` words of the stack from the first argument on. -/
structure Cdecl (n : Nat) (s s' : Cpu) : Prop where
  esp : s'.reg .esp = s.reg .esp + 4
  ebx : s'.reg .ebx = s.reg .ebx
  ebp : s'.reg .ebp = s.reg .ebp
  esi : s'.reg .esi = s.reg .esi
  edi : s'.reg .edi = s.reg .edi
  stack : ∀ ws, ws.length ≤ n → WordsAt s.mem (s.reg .esp + 4 + off) ws →
    WordsAt s'.mem (s.reg .esp + 4 + off) ws

/-- A function that does nothing but return. -/
theorem Cdecl.ret (n : Nat) (s : Cpu) : Cdecl off n s (s.ret off) where
  esp := by simp
  ebx := by simp
  ebp := by simp
  esi := by simp
  edi := by simp
  stack := fun _ _ h => h

variable {off}

/-- A call of a compiled function leaves the stack as it was. -/
theorem Cdecl.stacked {n : Nat} {s s' : Cpu} {ws : List Word} {ret : Word}
    (h : Cdecl off n (s.push off ret) s') (hs : s.Stacked off ws) (hn : ws.length ≤ n)
    (hlen : 4 * (ws.length + 1) ≤ 2 ^ 32) : s'.Stacked off ws ∧ s'.reg .esp = s.reg .esp := by
  have hesp : (s.push off ret).reg .esp + 4 = s.reg .esp := by
    rw [esp_push, sub_add_cancel]
  have hpush := (hs.push hlen ret).2
  have hadd : (s.push off ret).reg .esp + off + 4 = (s.push off ret).reg .esp + 4 + off := by
    bv_omega
  rw [hadd] at hpush
  have hstack := h.stack ws hn hpush
  have hret : s'.reg .esp = s.reg .esp := h.esp.trans hesp
  refine ⟨?_, hret⟩
  rw [Stacked, hret]
  rwa [hesp] at hstack

/-- A function that saves `ebp`, points it at the stack and does its work without changing them
returns to its caller with `ebp` restored. -/
theorem Cdecl.frame {s : Cpu} {f : Cpu → Cpu} {n : Nat} (hn : 4 * (n + 2) ≤ 2 ^ 32)
    (hreg : ∀ s, ∀ r ≠ .eax, (f s).reg r = s.reg r) (hmem : ∀ s, (f s).mem = s.mem) :
    Cdecl off n s
      (((f ((s.push off (s.reg .ebp)).set .ebp ((s.push off (s.reg .ebp)).reg .esp))).leave off).ret
        off) := by
  generalize hs : (s.push off (s.reg .ebp)).set .ebp ((s.push off (s.reg .ebp)).reg .esp) = t
  have hesp : t.reg .esp = s.reg .esp - 4 := by rw [← hs]; simp
  have hebp : t.reg .ebp = s.reg .esp - 4 := by rw [← hs]; simp
  have htmem : t.mem = s.mem.write32 (s.reg .esp - 4 + off) (s.reg .ebp) := by rw [← hs]; rfl
  have hkeep : ∀ r, r ≠ .eax → r ≠ .esp → r ≠ .ebp → t.reg r = s.reg r := by
    intro r _ h1 h2
    rw [← hs, reg_set_ne h2, reg_push_ne h1]
  have hf := hreg t
  have hfmem := hmem t
  generalize f t = u at hf hfmem ⊢
  have htop : (u.set .esp (u.reg .ebp)).top off = s.reg .ebp := by
    rw [top, reg_set_same, mem_set, hfmem, htmem, hf _ (by decide), hebp]
    exact Mem.read32_write32_same _ _ _
  generalize hv : u.leave off = v
  have hvesp : v.reg .esp = s.reg .esp := by
    rw [← hv, leave, pop, reg_set_ne (by decide), esp_drop, reg_set_same, hf _ (by decide), hebp,
      sub_add_cancel]
  have hvmem : v.mem = u.mem := by rw [← hv]; rfl
  have hvreg : ∀ r, r ≠ .esp → r ≠ .ebp → v.reg r = u.reg r := by
    intro r h1 h2
    rw [← hv, leave, pop, reg_set_ne h2, reg_drop_ne h1, reg_set_ne h1]
  have hvebp : v.reg .ebp = s.reg .ebp := by
    rw [← hv, leave, pop, reg_set_same, htop]
  have hsaved : ∀ r, r ≠ .eax → r ≠ .esp → r ≠ .ebp → (v.ret off).reg r = s.reg r := by
    intro r h0 h1 h2
    exact (reg_drop_ne h1).trans ((hvreg r h1 h2).trans ((hf r h0).trans (hkeep r h0 h1 h2)))
  constructor
  · show v.drop.reg .esp = _
    rw [esp_drop, hvesp]
  · exact hsaved .ebx (by decide) (by decide) (by decide)
  · exact (reg_drop_ne (by decide)).trans hvebp
  · exact hsaved .esi (by decide) (by decide) (by decide)
  · exact hsaved .edi (by decide) (by decide) (by decide)
  · intro ws hws h
    have hmemv : (v.ret off).mem = s.mem.write32 (s.reg .esp - 4 + off) (s.reg .ebp) := by
      rw [← htmem, ← hfmem, ← hvmem]
      rfl
    have hdist : (s.reg .esp + 4 + off - (s.reg .esp - 4 + off)).toNat = 8 := by bv_omega
    rw [hmemv]
    exact h.write32 (by omega) (by omega)

end Cpu

end BasicX86Kernel.Machine
