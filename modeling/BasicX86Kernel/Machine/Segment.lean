import BasicX86Kernel.Machine.Cpu

/-! Segmentation of a 32-bit x86 processor in protected mode: descriptors and selectors, the checks
of a load of a segment register and of a far return, and the offsets that a segment allows. -/

namespace BasicX86Kernel.Machine

/-! ### Descriptors -/

/-- A descriptor without its accessed bit: `rw`, `dc` and `ex` are bits 1 to 3 of its type, and `s`
is the bit that is set for code and data. -/
@[ext] structure Descriptor where
  base : Word
  limit : BitVec 20
  rw : Bool
  dc : Bool
  ex : Bool
  s : Bool
  dpl : BitVec 2
  present : Bool
  db : Bool
  g : Bool
  deriving DecidableEq

namespace Descriptor

def ofBits (v : BitVec 64) : Descriptor where
  base := v.extractLsb' 56 8 ++ v.extractLsb' 16 24
  limit := v.extractLsb' 48 4 ++ v.extractLsb' 0 16
  rw := v.getLsbD 41
  dc := v.getLsbD 42
  ex := v.getLsbD 43
  s := v.getLsbD 44
  dpl := v.extractLsb' 45 2
  present := v.getLsbD 47
  db := v.getLsbD 54
  g := v.getLsbD 55

/-- The accessed bit. -/
def accessed : BitVec 64 := BitVec.twoPow 64 40

/-- The processor sets the accessed bit and no other. -/
@[simp] theorem ofBits_or_accessed (v : BitVec 64) : ofBits (v ||| accessed) = ofBits v := by
  have hbit : ∀ i, i ≠ 40 → (v ||| accessed).getLsbD i = v.getLsbD i := by
    intro i hi
    simp [accessed, BitVec.getLsbD_twoPow, hi.symm]
  have hbits : ∀ start len, 40 < start ∨ start + len ≤ 40 →
      (v ||| accessed).extractLsb' start len = v.extractLsb' start len := by
    intro start len h
    apply BitVec.eq_of_getLsbD_eq
    intro i hi
    rw [BitVec.getLsbD_extractLsb', BitVec.getLsbD_extractLsb', hbit _ (by omega)]
  unfold ofBits
  rw [hbits 56 8 (by omega), hbits 16 24 (by omega), hbits 48 4 (by omega), hbits 0 16 (by omega),
    hbits 45 2 (by omega), hbit 41 (by omega), hbit 42 (by omega), hbit 43 (by omega),
    hbit 44 (by omega), hbit 47 (by omega), hbit 54 (by omega), hbit 55 (by omega)]

variable (d : Descriptor)

def isCode : Bool := d.s && d.ex

/-- What a data segment register takes. -/
def readable : Bool := d.s && (!d.ex || d.rw)

/-- What the stack segment register takes. -/
def writable : Bool := d.s && !d.ex && d.rw

def conforming : Bool := d.ex && d.dc

/-- What a return to level `rpl` takes. -/
def returnable (rpl : BitVec 2) : Bool :=
  d.isCode && if d.dc then decide (d.dpl ≤ rpl) else d.dpl == rpl

/-- The offset that the limit stands for. -/
def last : Nat := if d.g then 4096 * d.limit.toNat + 4095 else d.limit.toNat

/-- An access of `n` bytes is within the limit; a data segment may grow downwards. -/
def within (offset : Word) (n : Nat) : Bool :=
  if d.dc && !d.ex then
    decide (d.last < offset.toNat) &&
      decide (offset.toNat + n ≤ if d.db then 2 ^ 32 else 2 ^ 16)
  else decide (offset.toNat + n ≤ d.last + 1)

/-- The linear address of an access of `n` bytes. -/
def linear (offset : Word) (n : Nat) : Option Word :=
  if d.within offset n then some (d.base + offset) else none

/-- Offsets are linear addresses, and all of them are allowed. -/
def Flat : Prop :=
  ∀ (offset : Word) (n : Nat), offset.toNat + n ≤ 2 ^ 32 → d.linear offset n = some offset

variable {d}

theorem Flat.within (h : d.Flat) {offset : Word} {n : Nat} (hn : offset.toNat + n ≤ 2 ^ 32) :
    d.within offset n = true := by
  have hlinear := h offset n hn
  rw [linear] at hlinear
  split at hlinear
  · assumption
  · cases hlinear

theorem Flat.base (h : d.Flat) : d.base = 0 := by
  have hlinear := h 0 0 (by decide)
  rw [linear, if_pos (h.within (by decide)), add_zero] at hlinear
  exact Option.some.inj hlinear

/-- A segment over the whole address space that does not grow downwards is flat. -/
theorem flat_of (hbase : d.base = 0) (hlast : d.last = 2 ^ 32 - 1)
    (hup : (d.dc && !d.ex) = false) : d.Flat := by
  intro offset n hn
  have hwithin : d.within offset n = true := by
    rw [Descriptor.within, hup, if_neg Bool.false_ne_true, hlast]
    exact decide_eq_true hn
  rw [linear, if_pos hwithin, hbase, zero_add]

end Descriptor

/-! ### Selectors -/

/-- A register that says where a table of descriptors is. -/
structure TableRegister where
  base : Word
  limit : BitVec 16

namespace TableRegister

/-- The entry is within the limit. -/
def holds (t : TableRegister) (index : Nat) : Bool := decide (8 * index + 7 ≤ t.limit.toNat)

def addr (t : TableRegister) (index : Nat) : Word := t.base + 8 * BitVec.ofNat 32 index

/-- Entries of a table are apart. -/
theorem addr_sub_addr (t : TableRegister) {i j : Nat} (hi : i < 2 ^ 13) (hj : j < 2 ^ 13)
    (h : i ≠ j) : 8 ≤ (t.addr j - t.addr i).toNat ∧ (t.addr j - t.addr i).toNat + 8 ≤ 2 ^ 32 := by
  have hmul : ∀ k, 8 * BitVec.ofNat 32 k = BitVec.ofNat 32 (8 * k) := fun k =>
    (BitVec.ofNat_mul 8 k).symm
  rw [addr, addr, add_sub_add_left_eq_sub, hmul, hmul, BitVec.toNat_sub, BitVec.toNat_ofNat,
    BitVec.toNat_ofNat, Nat.mod_eq_of_lt (show 8 * i < 2 ^ 32 by omega),
    Nat.mod_eq_of_lt (show 8 * j < 2 ^ 32 by omega)]
  omega

end TableRegister

namespace Selector

variable (sel : BitVec 16)

def rpl : BitVec 2 := sel.extractLsb' 0 2

/-- The bit that selects the local table. -/
def ti : Bool := sel.getLsbD 2

def index : Nat := sel.toNat / 8

def null : Bool := decide (sel.toNat < 4)

/-- The error code of a fault that is about the selector. -/
def error (ext : Bool) : Word := (sel &&& 0xFFFC#16).setWidth 32 ||| if ext then 1 else 0

theorem index_lt : index sel < 2 ^ 13 := by
  have := sel.isLt
  unfold index
  omega

end Selector

/-! ### The processor -/

/-- The segment registers other than CS. -/
inductive DataReg
  | ss
  | ds
  | es
  | fs
  | gs
  deriving DecidableEq

/-- A segment register; a null selector has no descriptor. -/
structure Loaded where
  selector : BitVec 16
  descriptor : Option Descriptor

/-- How an instruction ends that does not complete: with a fault, or beyond this model: in a task
switch, a change of privilege or a gate of 16 bits. -/
inductive Exit
  | fault (vector : BitVec 8) (error : Word)
  | other
  deriving DecidableEq

/-- The processor with its descriptor tables, and with the descriptors it has loaded. -/
structure Core where
  cpu : Cpu
  gdtr : TableRegister
  ldtr : TableRegister
  idtr : TableRegister
  code : Descriptor
  data : DataReg → Loaded

namespace Core

open Selector

variable (c : Core) (off : Word)

/-- The current privilege level. -/
def cpl : BitVec 2 := c.cpu.cs.extractLsb' 0 2

def table (sel : BitVec 16) : TableRegister := if ti sel then c.ldtr else c.gdtr

/-- The entry of the tables for a selector. -/
def entry (sel : BitVec 16) : BitVec 64 := c.cpu.mem.read64 ((c.table sel).addr (index sel))

def descriptor (sel : BitVec 16) : Descriptor := .ofBits (c.entry sel)

/-- Sets the accessed bit of an entry that does not have it. -/
def touch (sel : BitVec 16) : Core :=
  if (c.entry sel).getLsbD 40 then c
  else
    let address := (c.table sel).addr (index sel)
    let mem := c.cpu.mem.write64 address (c.entry sel ||| Descriptor.accessed)
    { c with cpu := { c.cpu with mem := mem } }

def setData (r : DataReg) (v : Loaded) : Core := { c with data := Function.update c.data r v }

/-- A load of SS. -/
def loadStack (sel : BitVec 16) : Except Exit Core :=
  let d := c.descriptor sel
  if null sel then .error (.fault 13 0)
  else if !(c.table sel).holds (index sel) then .error (.fault 13 (error sel false))
  else if rpl sel != c.cpl || !d.writable || d.dpl != c.cpl then
    .error (.fault 13 (error sel false))
  else if !d.present then .error (.fault 12 (error sel false))
  else .ok ((c.touch sel).setData .ss ⟨sel, some d⟩)

/-- A load of DS, ES, FS or GS. -/
def loadData (r : DataReg) (sel : BitVec 16) : Except Exit Core :=
  let d := c.descriptor sel
  if null sel then .ok (c.setData r ⟨sel, none⟩)
  else if !(c.table sel).holds (index sel) then .error (.fault 13 (error sel false))
  else if !d.readable || (!d.conforming && (d.dpl < rpl sel || d.dpl < c.cpl)) then
    .error (.fault 13 (error sel false))
  else if !d.present then .error (.fault 11 (error sel false))
  else .ok ((c.touch sel).setData r ⟨sel, some d⟩)

def load (r : DataReg) (sel : BitVec 16) : Except Exit Core :=
  match r with
  | .ss => c.loadStack sel
  | r => c.loadData r sel

/-- The checks of the selector that a return loads into CS. -/
def returnCode (sel : BitVec 16) : Except Exit Descriptor :=
  let d := c.descriptor sel
  if null sel then .error (.fault 13 0)
  else if !(c.table sel).holds (index sel) then .error (.fault 13 (error sel false))
  else if rpl sel < c.cpl || !d.returnable (rpl sel) then
    .error (.fault 13 (error sel false))
  else if !d.present then .error (.fault 11 (error sel false))
  else if c.cpl < rpl sel then .error .other
  else .ok d

/-- The word at an offset of the stack is within the limit. -/
def stackWithin (offset : Word) : Bool :=
  (c.data .ss).descriptor.elim false fun d => d.within offset 4

def stackBase : Word := (c.data .ss).descriptor.elim 0 Descriptor.base

/-- The `n` words on top of the stack are within the limit. -/
def popsWithin (n : Nat) : Bool :=
  (List.range n).all fun i => c.stackWithin (c.cpu.reg .esp + 4 * BitVec.ofNat 32 i)

/-- The stack has room for `n` words. -/
def pushesWithin (n : Nat) : Bool :=
  (List.range n).all fun i => c.stackWithin (c.cpu.reg .esp - 4 * BitVec.ofNat 32 (i + 1))

def push (v : Word) : Except Exit Core :=
  if !c.pushesWithin 1 then .error (.fault 12 0)
  else .ok { c with cpu := c.cpu.push (c.stackBase + off) v }

/-- `lret` -/
def farReturn : Except Exit Core :=
  let eip := c.cpu.top (c.stackBase + off)
  let sel := (c.cpu.drop.top (c.stackBase + off)).setWidth 16
  if !c.popsWithin 2 then .error (.fault 12 0)
  else match c.returnCode sel with
    | .error e => .error e
    | .ok d =>
      if !d.within eip 1 then .error (.fault 13 0)
      else
        let c := c.touch sel
        .ok { c with cpu := { c.cpu.drop.drop with eip := eip, cs := sel.setWidth 32 }, code := d }

/-- Attempts to load segment registers one after the other; a fault leaves the register as it
was. -/
def loads (attempts : List (DataReg × BitVec 16)) : Core :=
  attempts.foldl (fun c a => match c.load a.1 a.2 with
    | .ok t => t
    | .error _ => c) c

/-! ### What loads leave -/

section Loads

variable {c : Core} {sel sel' : BitVec 16}

theorem table_global (h : ti sel = false) : c.table sel = c.gdtr := if_neg (by simp [h])

theorem entry_eq (h : ti sel = false) :
    c.entry sel = c.cpu.mem.read64 (c.gdtr.addr (index sel)) := by
  rw [entry, table_global h]

theorem load_ss : c.load .ss sel = c.loadStack sel := rfl

theorem load_ne_ss {r : DataReg} (hr : r ≠ .ss) : c.load r sel = c.loadData r sel := by
  cases r with
  | ss => exact absurd rfl hr
  | ds => rfl
  | es => rfl
  | fs => rfl
  | gs => rfl

theorem load_null {r : DataReg} (hr : r ≠ .ss) (h : null sel = true) :
    c.load r sel = .ok (c.setData r ⟨sel, none⟩) := by
  rw [load_ne_ss hr, loadData, if_pos h]

@[simp] theorem data_setData_same {r : DataReg} {v : Loaded} : (c.setData r v).data r = v :=
  Function.update_self _ _ _

@[simp] theorem data_setData_ne {r r' : DataReg} {v : Loaded} (h : r' ≠ r) :
    (c.setData r v).data r' = c.data r' :=
  Function.update_of_ne h _ _

/-- A load that reads an entry sets its accessed bit and changes no other byte. -/
theorem entry_touch (h : ti sel = false) (h' : ti sel' = false) :
    (c.touch sel).entry sel' = c.entry sel' ∨
      (c.touch sel).entry sel' = c.entry sel' ||| Descriptor.accessed := by
  rw [touch]
  split
  · exact Or.inl rfl
  · rw [entry_eq h', entry_eq h', table_global h, entry_eq h]
    by_cases hindex : index sel' = index sel
    · right
      rw [hindex]
      exact Mem.read64_write64_same _ _ _
    · left
      obtain ⟨hfar, hfar'⟩ := c.gdtr.addr_sub_addr (index_lt sel) (index_lt sel') (Ne.symm hindex)
      exact Mem.read64_write64_far hfar hfar'

theorem descriptor_touch (h : ti sel = false) (h' : ti sel' = false) :
    (c.touch sel).descriptor sel' = c.descriptor sel' := by
  rw [descriptor, descriptor]
  rcases entry_touch (c := c) h h' with hentry | hentry
  · rw [hentry]
  · rw [hentry, Descriptor.ofBits_or_accessed]

theorem byte_touch (h : ti sel = false) {x : Word}
    (hx : 8 ≤ (x - c.gdtr.addr (index sel)).toNat) :
    (c.touch sel).cpu.mem.byte x = c.cpu.mem.byte x := by
  rw [touch]
  split
  · rfl
  · rw [table_global h]
    exact Mem.byte_write64_ne hx

@[simp] theorem data_touch : (c.touch sel).data = c.data := by
  rw [touch]
  split <;> rfl

theorem accessed_touch (h : ti sel = false) : ((c.touch sel).entry sel).getLsbD 40 = true := by
  by_cases hbit : (c.entry sel).getLsbD 40 = true
  · rw [touch, if_pos hbit, hbit]
  · have hentry : (c.touch sel).entry sel = c.entry sel ||| Descriptor.accessed := by
      rw [entry_eq h, touch, if_neg hbit, table_global h]
      exact Mem.read64_write64_same _ _ _
    rw [hentry, BitVec.getLsbD_or, show Descriptor.accessed.getLsbD 40 = true from rfl,
      Bool.or_true]

theorem touch_eq (h : (c.entry sel).getLsbD 40 = true) : c.touch sel = c := if_pos h

/-- What a load of a segment register leaves as it was, and what it may put into one. -/
structure Reloaded (c t : Core) : Prop where
  gdtr : t.gdtr = c.gdtr
  ldtr : t.ldtr = c.ldtr
  idtr : t.idtr = c.idtr
  code : t.code = c.code
  cpu : ∃ m, t.cpu = { c.cpu with mem := m }
  descriptor : ∀ sel, ti sel = false → t.descriptor sel = c.descriptor sel
  accessed : ∀ sel, ti sel = false → (c.entry sel).getLsbD 40 = true →
    (t.entry sel).getLsbD 40 = true
  byte : ∀ x, (∀ i, c.gdtr.holds i = true → 8 ≤ (x - c.gdtr.addr i).toNat) →
    t.cpu.mem.byte x = c.cpu.mem.byte x
  data : ∀ r d, (t.data r).descriptor = some d → (c.data r).descriptor = some d ∨
    ∃ sel, ti sel = false ∧ c.gdtr.holds (index sel) = true ∧ d = c.descriptor sel ∧
      d.readable = true
  stack : (t.data .ss).descriptor = (c.data .ss).descriptor ∨
    ∃ sel, ti sel = false ∧ c.gdtr.holds (index sel) = true ∧
      (t.data .ss).descriptor = some (c.descriptor sel) ∧ (c.descriptor sel).writable = true

theorem Reloaded.refl (c : Core) : Reloaded c c where
  gdtr := rfl
  ldtr := rfl
  idtr := rfl
  code := rfl
  cpu := ⟨c.cpu.mem, rfl⟩
  descriptor := fun _ _ => rfl
  accessed := fun _ _ h => h
  byte := fun _ _ => rfl
  data := fun _ _ h => Or.inl h
  stack := Or.inl rfl

theorem Reloaded.trans {t u : Core} (h : Reloaded c t) (h' : Reloaded t u) : Reloaded c u where
  gdtr := h'.gdtr.trans h.gdtr
  ldtr := h'.ldtr.trans h.ldtr
  idtr := h'.idtr.trans h.idtr
  code := h'.code.trans h.code
  cpu := by
    obtain ⟨m, hm⟩ := h.cpu
    obtain ⟨m', hm'⟩ := h'.cpu
    exact ⟨m', by rw [hm', hm]⟩
  descriptor := fun sel hsel => (h'.descriptor sel hsel).trans (h.descriptor sel hsel)
  accessed := fun sel hsel hbit => h'.accessed sel hsel (h.accessed sel hsel hbit)
  byte := fun x hx => by
    rw [h'.byte x (by rwa [h.gdtr]), h.byte x hx]
  data := fun r d hd => by
    rcases h'.data r d hd with hold | ⟨sel, hsel, hholds, rfl, hread⟩
    · exact h.data r d hold
    · rw [h.gdtr] at hholds
      rw [h.descriptor sel hsel] at hread ⊢
      exact Or.inr ⟨sel, hsel, hholds, rfl, hread⟩
  stack := by
    rcases h'.stack with hold | ⟨sel, hsel, hholds, hd, hwrite⟩
    · rw [hold]
      exact h.stack
    · rw [h.gdtr] at hholds
      rw [h.descriptor sel hsel] at hd hwrite
      exact Or.inr ⟨sel, hsel, hholds, hd, hwrite⟩

theorem touch_reloaded (h : ti sel = false) (hholds : c.gdtr.holds (index sel) = true) :
    Reloaded c (c.touch sel) := by
  have hframe : (c.touch sel).gdtr = c.gdtr ∧ (c.touch sel).ldtr = c.ldtr ∧
      (c.touch sel).idtr = c.idtr ∧ (c.touch sel).code = c.code ∧
      ∃ m, (c.touch sel).cpu = { c.cpu with mem := m } := by
    rw [touch]
    split
    · exact ⟨rfl, rfl, rfl, rfl, _, rfl⟩
    · exact ⟨rfl, rfl, rfl, rfl, _, rfl⟩
  obtain ⟨hgdtr, hldtr, hidtr, hcode, hcpu⟩ := hframe
  refine ⟨hgdtr, hldtr, hidtr, hcode, hcpu, fun sel' h' => descriptor_touch h h', ?_,
    fun x hx => byte_touch h (hx _ hholds), fun r d hd => Or.inl ?_, Or.inl (by rw [data_touch])⟩
  · intro sel' h' hbit
    rcases entry_touch (c := c) h h' with hentry | hentry
    · rw [hentry, hbit]
    · rw [hentry, BitVec.getLsbD_or, hbit, Bool.true_or]
  · rwa [data_touch] at hd

/-- A register filled with what it may hold. -/
theorem Reloaded.setData {t : Core} (h : Reloaded c t) {r : DataReg} {v : Loaded}
    (hnull : r ≠ .ss ∧ v.descriptor = none ∨
      ∃ sel, ti sel = false ∧ c.gdtr.holds (index sel) = true ∧
        v.descriptor = some (c.descriptor sel) ∧ (c.descriptor sel).readable = true ∧
        (r = .ss → (c.descriptor sel).writable = true)) : Reloaded c (t.setData r v) where
  gdtr := h.gdtr
  ldtr := h.ldtr
  idtr := h.idtr
  code := h.code
  cpu := h.cpu
  descriptor := h.descriptor
  accessed := h.accessed
  byte := h.byte
  data := fun r' d hd => by
    by_cases hr : r' = r
    · subst hr
      rw [data_setData_same] at hd
      rcases hnull with ⟨-, hnone⟩ | ⟨sel, hsel, hholds, hsome, hread, -⟩
      · rw [hnone] at hd
        cases hd
      · rw [hsome] at hd
        cases hd
        exact Or.inr ⟨sel, hsel, hholds, rfl, hread⟩
    · rw [data_setData_ne hr] at hd
      exact h.data r' d hd
  stack := by
    by_cases hr : DataReg.ss = r
    · subst hr
      rcases hnull with ⟨hne, -⟩ | ⟨sel, hsel, hholds, hsome, -, hwrite⟩
      · exact absurd rfl hne
      · refine Or.inr ⟨sel, hsel, hholds, ?_, hwrite rfl⟩
        rw [data_setData_same, hsome]
    · rw [data_setData_ne hr]
      exact h.stack

theorem readable_of_writable {d : Descriptor} (h : d.writable = true) : d.readable = true := by
  simp only [Descriptor.writable, Descriptor.readable, Bool.and_eq_true, Bool.or_eq_true] at h ⊢
  exact ⟨h.1.1, Or.inl h.1.2⟩

/-- A load that completes. -/
theorem load_reloaded {r : DataReg} {t : Core} (h : ti sel = false) (ht : c.load r sel = .ok t) :
    Reloaded c t := by
  by_cases hr : r = .ss
  · subst hr
    rw [load_ss, loadStack] at ht
    split at ht
    · cases ht
    split at ht
    · cases ht
    split at ht
    · cases ht
    split at ht
    · cases ht
    next hholds hwrite _ =>
      have hholds : c.gdtr.holds (index sel) = true := by simpa [table_global h] using hholds
      have hwrite : (c.descriptor sel).writable = true := by
        by_contra hnot
        exact hwrite (by simp [hnot])
      cases ht
      exact (touch_reloaded h hholds).setData
        (Or.inr ⟨sel, h, hholds, rfl, readable_of_writable hwrite, fun _ => hwrite⟩)
  · rw [load_ne_ss hr, loadData] at ht
    split at ht
    · cases ht
      exact (Reloaded.refl c).setData (Or.inl ⟨hr, rfl⟩)
    split at ht
    · cases ht
    split at ht
    · cases ht
    split at ht
    · cases ht
    next hholds hread _ =>
      have hholds : c.gdtr.holds (index sel) = true := by simpa [table_global h] using hholds
      have hread : (c.descriptor sel).readable = true := by
        by_contra hnot
        exact hread (by simp [hnot])
      cases ht
      exact (touch_reloaded h hholds).setData
        (Or.inr ⟨sel, h, hholds, rfl, hread, fun heq => absurd heq hr⟩)

/-- Any sequence of attempts. -/
theorem loads_reloaded {attempts : List (DataReg × BitVec 16)}
    (h : ∀ a ∈ attempts, ti a.2 = false) : Reloaded c (c.loads attempts) := by
  induction attempts generalizing c with
  | nil => exact Reloaded.refl c
  | cons a attempts ih =>
    have hrest := fun a' ha' => h a' (List.mem_cons_of_mem a ha')
    rw [loads, List.foldl_cons]
    split
    · next t ht => exact (load_reloaded (h a List.mem_cons_self) ht).trans (ih hrest)
    · exact ih hrest

end Loads

end Core

end BasicX86Kernel.Machine
