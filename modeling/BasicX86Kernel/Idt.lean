import BasicX86Kernel.Klib.Mem

/-! `ksrc/idt.c`: the interrupt descriptor table, and the table of the handlers. -/

namespace BasicX86Kernel

open Machine Klib

/-- The number of entries of `idt_gate` and of `idt_gate_callback`. -/
def idtEntries : Nat := 255

/-- Where the linker puts the tables: the gates, the callbacks, and the addresses of the 256 stubs,
which do not overlap; and the addresses of the default handlers. -/
structure IdtLayout where
  idtGate : Word
  idtGateCallback : Word
  idtGateHandler : Word
  idtExceptionHandler : Word
  idtInterruptHandler : Word
  gate_end : idtGate.toNat + 8 * idtEntries ≤ 2 ^ 32
  callback_end : idtGateCallback.toNat + 4 * idtEntries ≤ 2 ^ 32
  handler_end : idtGateHandler.toNat + 4 * 256 ≤ 2 ^ 32
  gate_callback : idtGate.toNat + 8 * idtEntries ≤ idtGateCallback.toNat ∨
    idtGateCallback.toNat + 4 * idtEntries ≤ idtGate.toNat
  gate_handler : idtGate.toNat + 8 * idtEntries ≤ idtGateHandler.toNat ∨
    idtGateHandler.toNat + 4 * 256 ≤ idtGate.toNat
  callback_handler : idtGateCallback.toNat + 4 * idtEntries ≤ idtGateHandler.toNat ∨
    idtGateHandler.toNat + 4 * 256 ≤ idtGateCallback.toNat

/-- The memory, and the register that `lidt` loads. -/
structure IdtState where
  mem : Mem
  limit : BitVec 16
  base : Word

/-! ### Gates -/

def idtFlagGateDpl0 : BitVec 16 := 0
def idtFlagGateD : BitVec 16 := 1#16 <<< 11
def idtFlagGateP : BitVec 16 := 1#16 <<< 15

def taskGateValue (tss : BitVec 16) (flags : BitVec 16) : BitVec 64 :=
  (tss.setWidth 64 <<< 16) ||| (0b00101#64 <<< 40) ||| (flags.setWidth 64 <<< 32)

def idtSetGateTask (m : Mem) (gate : Word) (tss : BitVec 16) (flags : BitVec 16) : Mem :=
  m.write64 gate (taskGateValue tss flags)

/-- The value of a gate; `type` is 6 for an interrupt gate and 7 for a trap gate. -/
def gateValue (type : BitVec 64) (ss : BitVec 16) (offset : Word) (flags : BitVec 16) : BitVec 64 :=
  (offset.setWidth 64 &&& 0x0000FFFF#64) ||| (ss.setWidth 64 <<< 16) ||| (type <<< 40) |||
    (flags.setWidth 64 <<< 32) ||| ((offset &&& 0xFFFF0000#32).setWidth 64 <<< 32)

def idtSetGateInterrupt (m : Mem) (gate : Word) (ss : BitVec 16) (offset : Word)
    (flags : BitVec 16) : Mem :=
  m.write64 gate (gateValue 0b00110#64 ss offset flags)

def idtSetGateTrap (m : Mem) (gate : Word) (ss : BitVec 16) (offset : Word)
    (flags : BitVec 16) : Mem :=
  m.write64 gate (gateValue 0b00111#64 ss offset flags)

/-- The fields of `idt_gate_t` that hold the offset, put together. -/
def gateOffset (gate : BitVec 64) : Word := gate.extractLsb' 48 16 ++ gate.extractLsb' 0 16

/-- The present bit of the field `flags`. -/
def gatePresent (gate : BitVec 64) : Bool := (gate.extractLsb' 32 16).getLsbD 15

/-! ### The functions -/

/-- Vectors that `idt_init` leaves out. -/
def Reserved (idx : Nat) : Prop := idx = 15 ∨ (idx > 20 ∧ idx < 32)

instance (idx : Nat) : Decidable (Reserved idx) := inferInstanceAs (Decidable (_ ∨ _))

namespace IdtLayout

variable (l : IdtLayout)

def gateAddr (idx : Nat) : Word := l.idtGate + 8 * BitVec.ofNat 32 idx
def callbackAddr (idx : Nat) : Word := l.idtGateCallback + 4 * BitVec.ofNat 32 idx
def handlerAddr (idx : Nat) : Word := l.idtGateHandler + 4 * BitVec.ofNat 32 idx

/-- The handler that `idt_init` registers. -/
def defaultHandler (idx : Nat) : Word :=
  if idx < 32 then l.idtExceptionHandler else l.idtInterruptHandler

end IdtLayout

/-- One turn of the loop of `idt_init`. -/
def idtInitStep (l : IdtLayout) (m : Mem) (idx : Nat) : Mem :=
  if Reserved idx then m
  else if idx < 32 then
    let m := m.write32 (l.callbackAddr idx) l.idtExceptionHandler
    idtSetGateTrap m (l.gateAddr idx) 0x8 (m.read32 (l.handlerAddr idx))
      (idtFlagGateD ||| idtFlagGateDpl0 ||| idtFlagGateP)
  else
    let m := m.write32 (l.callbackAddr idx) l.idtInterruptHandler
    idtSetGateInterrupt m (l.gateAddr idx) 0x8 (m.read32 (l.handlerAddr idx))
      (idtFlagGateD ||| idtFlagGateDpl0 ||| idtFlagGateP)

/-- The loop, up to `idx`. -/
def idtInitLoop (l : IdtLayout) (m : Mem) : Nat → Mem
  | 0 => m
  | idx + 1 => idtInitStep l (idtInitLoop l m idx) idx

def idtInit (l : IdtLayout) (m : Mem) : IdtState :=
  let m := memset m l.idtGate 0 (BitVec.ofNat 32 (8 * idtEntries))
  let m := memset m l.idtGateCallback 0 (BitVec.ofNat 32 (4 * idtEntries))
  { mem := idtInitLoop l m idtEntries
    limit := BitVec.ofNat 16 (8 * idtEntries - 1)
    base := l.idtGate }

def idtSetInterruptHandler (l : IdtLayout) (m : Mem) (interrupt : BitVec 8) (handler : Word) : Mem :=
  m.write32 (l.callbackAddr interrupt.toNat) handler

/-- A sequence of calls of `idt_set_interrupt_handler`. -/
def setHandlers (l : IdtLayout) (m : Mem) (calls : List (BitVec 8 × Word)) : Mem :=
  calls.foldl (fun m c => idtSetInterruptHandler l m c.1 c.2) m

/-- The last handler of the calls for vector `v`. -/
def lastHandler (v : BitVec 8) (default : Word) (calls : List (BitVec 8 × Word)) : Word :=
  calls.foldl (fun h c => if c.1 = v then c.2 else h) default

/-! ### Gates -/

theorem getLsbD_gateValue {type : BitVec 64} (ht : type.toNat < 8) (ss : BitVec 16)
    (offset : Word) (flags : BitVec 16) {i : Nat} (hi : i < 64) :
    (gateValue type ss offset flags).getLsbD i =
      if i < 16 then offset.getLsbD i
      else if i < 32 then ss.getLsbD (i - 16)
      else if i < 48 then (type <<< 40).getLsbD i || flags.getLsbD (i - 32)
      else offset.getLsbD (i - 32) := by
  have htype : ∀ j, 8 ≤ j → type.getLsbD j = false := fun j hj =>
    getLsbD_of_lt (k := 3) ht (by omega)
  have hlow : (0x0000FFFF#64).getLsbD i = decide (i < 16) := by
    have h : ∀ i < 64, (0x0000FFFF#64).getLsbD i = decide (i < 16) := by decide
    exact h i hi
  have hhigh : ∀ j < 32, (0xFFFF0000#32).getLsbD j = decide (16 ≤ j) := by decide
  simp only [gateValue, BitVec.getLsbD_or, BitVec.getLsbD_and, BitVec.getLsbD_shiftLeft,
    BitVec.getLsbD_setWidth, hlow]
  rcases Nat.lt_or_ge i 16 with h16 | h16
  · simp [h16, hi, show i < 40 by omega, show i < 32 by omega]
  rcases Nat.lt_or_ge i 32 with h32 | h32
  · simp [hi, show ¬i < 16 by omega, show i < 40 by omega, h32]
    omega
  rcases Nat.lt_or_ge i 48 with h48 | h48
  · simp [hi, show ¬i < 16 by omega, show ¬i < 32 by omega, h48, hhigh (i - 32) (by omega),
      show ¬16 ≤ i - 32 by omega, show i - 32 < 64 by omega,
      BitVec.getLsbD_of_ge ss (i - 16) (by omega)]
  · simp [hi, show ¬i < 16 by omega, show ¬i < 32 by omega, show ¬i < 48 by omega,
      hhigh (i - 32) (by omega), show 16 ≤ i - 32 by omega, htype (i - 40) (by omega),
      show i - 32 < 64 by omega, BitVec.getLsbD_of_ge ss (i - 16) (by omega)]

theorem gateOffset_gateValue {type : BitVec 64} (ht : type.toNat < 8) (ss : BitVec 16)
    (offset : Word) (flags : BitVec 16) : gateOffset (gateValue type ss offset flags) = offset := by
  apply BitVec.eq_of_getLsbD_eq
  intro i hi
  rw [gateOffset, BitVec.getLsbD_append]
  split
  · next h =>
    rw [BitVec.getLsbD_extractLsb', getLsbD_gateValue ht ss offset flags (by omega), if_pos (by omega)]
    simp [h]
  · next h =>
    rw [BitVec.getLsbD_extractLsb', getLsbD_gateValue ht ss offset flags (by omega),
      if_neg (by omega), if_neg (by omega), if_neg (by omega)]
    simp [show i - 16 < 16 by omega, show 48 + (i - 16) - 32 = i by omega]

theorem gatePresent_gateValue {type : BitVec 64} (ht : type.toNat < 8) (ss : BitVec 16)
    (offset : Word) {flags : BitVec 16} (hp : flags.getLsbD 15 = true) :
    gatePresent (gateValue type ss offset flags) = true := by
  rw [gatePresent, BitVec.getLsbD_extractLsb', getLsbD_gateValue ht ss offset flags (by omega),
    if_neg (by omega), if_neg (by omega), if_pos (by omega), hp, Bool.or_true]
  rfl

/-! ### Addresses in the tables -/

namespace IdtLayout

variable {l : IdtLayout} {v w : Nat}

theorem toNat_gateAddr (hv : v < idtEntries) : (l.gateAddr v).toNat = l.idtGate.toNat + 8 * v := by
  have := l.gate_end
  unfold idtEntries at hv this
  unfold gateAddr
  bv_omega

theorem toNat_callbackAddr (hv : v < idtEntries) :
    (l.callbackAddr v).toNat = l.idtGateCallback.toNat + 4 * v := by
  have := l.callback_end
  unfold idtEntries at hv this
  unfold callbackAddr
  bv_omega

theorem toNat_handlerAddr (hv : v < 256) :
    (l.handlerAddr v).toNat = l.idtGateHandler.toNat + 4 * v := by
  have := l.handler_end
  unfold handlerAddr
  bv_omega

end IdtLayout

/-! ### `idt_init` -/

section

variable {l : IdtLayout} {m : Mem}

/-- The flags of all gates. -/
def idtFlags : BitVec 16 := idtFlagGateD ||| idtFlagGateDpl0 ||| idtFlagGateP

/-- What the loop has done, with the gates and the callbacks up to `n`. -/
structure IdtReady (l : IdtLayout) (m₀ m : Mem) (n : Nat) : Prop where
  gates : ∀ v < n, v < idtEntries → ¬Reserved v → ∃ type : BitVec 64, type.toNat < 8 ∧
    m.read64 (l.gateAddr v) = gateValue type 0x8 (m₀.read32 (l.handlerAddr v)) idtFlags
  callbacks : ∀ v < n, v < idtEntries → ¬Reserved v →
    m.read32 (l.callbackAddr v) = l.defaultHandler v
  handlers : ∀ v < 256, m.read32 (l.handlerAddr v) = m₀.read32 (l.handlerAddr v)

/-- A turn of the loop that installs a gate. -/
theorem IdtReady.install {m₀ : Mem} {n : Nat} (h : IdtReady l m₀ m n) (hn : n < idtEntries)
    (type : BitVec 64) (htype : type.toNat < 8) :
    IdtReady l m₀ ((m.write32 (l.callbackAddr n) (l.defaultHandler n)).write64 (l.gateAddr n)
      (gateValue type 0x8 ((m.write32 (l.callbackAddr n) (l.defaultHandler n)).read32
        (l.handlerAddr n)) idtFlags)) (n + 1) := by
  have hgate := l.toNat_gateAddr hn
  have hcallback := l.toNat_callbackAddr hn
  have h1 := l.gate_end
  have h2 := l.callback_end
  have h3 := l.handler_end
  have h4 := l.gate_callback
  have h5 := l.gate_handler
  have h6 := l.callback_handler
  have hn' := hn
  unfold idtEntries at hn' h1 h2 h4 h5 h6
  have hread : ∀ v < 256, (m.write32 (l.callbackAddr n) (l.defaultHandler n)).read32
      (l.handlerAddr v) = m.read32 (l.handlerAddr v) := by
    intro v hv
    have hhandler := l.toNat_handlerAddr hv
    exact Mem.read32_write32_disjoint (by omega) (by omega) (by omega)
  constructor
  · intro v hv hlt hres
    have hgate' := l.toNat_gateAddr hlt
    have hlt' := hlt
    unfold idtEntries at hlt'
    rcases Nat.lt_succ_iff_lt_or_eq.mp hv with hv | rfl
    · obtain ⟨type', htype', hold⟩ := h.gates v hv hlt hres
      refine ⟨type', htype', ?_⟩
      rw [Mem.read64_write64_disjoint (by omega) (by omega) (by omega),
        Mem.read64_write32_disjoint (by omega) (by omega) (by omega), hold]
    · refine ⟨type, htype, ?_⟩
      rw [Mem.read64_write64_same, hread v (by omega), h.handlers v (by omega)]
  · intro v hv hlt hres
    have hcallback' := l.toNat_callbackAddr hlt
    have hlt' := hlt
    unfold idtEntries at hlt'
    rw [Mem.read32_write64_disjoint (by omega) (by omega) (by omega)]
    rcases Nat.lt_succ_iff_lt_or_eq.mp hv with hv | rfl
    · rw [Mem.read32_write32_disjoint (by omega) (by omega) (by omega), h.callbacks v hv hlt hres]
    · rw [Mem.read32_write32_same]
  · intro v hv
    have hhandler := l.toNat_handlerAddr hv
    rw [Mem.read32_write64_disjoint (by omega) (by omega) (by omega), hread v hv, h.handlers v hv]

/-- A turn of the loop. -/
theorem IdtReady.step {m₀ : Mem} {n : Nat} (h : IdtReady l m₀ m n) (hn : n < idtEntries) :
    IdtReady l m₀ (idtInitStep l m n) (n + 1) := by
  rw [idtInitStep]
  split
  · next hres =>
    constructor
    · intro v hv hlt hres'
      rcases Nat.lt_succ_iff_lt_or_eq.mp hv with hv | rfl
      · exact h.gates v hv hlt hres'
      · exact absurd hres hres'
    · intro v hv hlt hres'
      rcases Nat.lt_succ_iff_lt_or_eq.mp hv with hv | rfl
      · exact h.callbacks v hv hlt hres'
      · exact absurd hres hres'
    · exact h.handlers
  · split
    · next h32 =>
      have hinstall := h.install hn 0b00111#64 (by decide)
      rw [IdtLayout.defaultHandler, if_pos h32] at hinstall
      exact hinstall
    · next h32 =>
      have hinstall := h.install hn 0b00110#64 (by decide)
      rw [IdtLayout.defaultHandler, if_neg h32] at hinstall
      exact hinstall

theorem IdtReady.loop {m₀ : Mem} (h : IdtReady l m₀ m 0) {n : Nat} (hn : n ≤ idtEntries) :
    IdtReady l m₀ (idtInitLoop l m n) n := by
  induction n with
  | zero => exact h
  | succ n ih => exact (ih (by omega)).step hn

theorem idtInit_ready (l : IdtLayout) (m : Mem) :
    IdtReady l m (idtInit l m).mem idtEntries := by
  refine IdtReady.loop ⟨fun v hv => absurd hv (Nat.not_lt_zero v),
    fun v hv => absurd hv (Nat.not_lt_zero v), fun v hv => ?_⟩ le_rfl
  have hhandler := l.toNat_handlerAddr hv
  have h1 := l.gate_end
  have h2 := l.callback_end
  have h3 := l.handler_end
  have h5 := l.gate_handler
  have h6 := l.callback_handler
  have hg : (BitVec.ofNat 32 (8 * idtEntries)).toNat = 8 * idtEntries := rfl
  have hc : (BitVec.ofNat 32 (4 * idtEntries)).toNat = 4 * idtEntries := rfl
  rw [read32_memset_disjoint (by omega) (by omega) (by omega),
    read32_memset_disjoint (by omega) (by omega) (by omega)]

end

/-! ### Registration -/

/-- Each call of the sequence stores into the table of the callbacks, and changes only its slot. -/
def StoresInTable (l : IdtLayout) (m : Mem) (calls : List (BitVec 8 × Word)) : Prop :=
  ∀ pre c post, calls = pre ++ c :: post →
    (l.callbackAddr c.1.toNat - l.idtGateCallback).toNat + 4 ≤ 4 * idtEntries ∧
      ∀ x, 4 ≤ (x - l.callbackAddr c.1.toNat).toNat →
        (idtSetInterruptHandler l (setHandlers l m pre) c.1 c.2).byte x =
          (setHandlers l m pre).byte x

/-- The gate of `v` is within the limit and present, and leads to the stub of `v`; and the word that
the stub loads is `handler`. -/
structure VectorServed (l : IdtLayout) (s : IdtState) (v : Nat) (handler : Word) : Prop where
  limit : 8 * v + 7 ≤ s.limit.toNat
  present : gatePresent (s.mem.read64 (s.base + 8 * BitVec.ofNat 32 v)) = true
  offset : gateOffset (s.mem.read64 (s.base + 8 * BitVec.ofNat 32 v)) =
    s.mem.read32 (l.handlerAddr v)
  callback : s.mem.read32 (l.callbackAddr v) = handler

section

variable {l : IdtLayout} {m : Mem} {calls : List (BitVec 8 × Word)} {v : BitVec 8} {h : Word}

theorem toNat_lt_idtEntries (hv : v ≠ 255) : v.toNat < idtEntries := by
  unfold idtEntries
  bv_omega

theorem callback_mem_table_iff :
    (l.callbackAddr v.toNat - l.idtGateCallback).toNat + 4 ≤ 4 * idtEntries ↔ v ≠ 255 := by
  have hsub : (l.callbackAddr v.toNat - l.idtGateCallback).toNat = 4 * v.toNat := by
    unfold IdtLayout.callbackAddr
    bv_omega
  rw [hsub]
  unfold idtEntries
  bv_omega

/-- What a call leaves of the gates, of the addresses of the stubs and of the other callbacks. -/
theorem idtSetInterruptHandler_frame (hv : v ≠ 255) {w : Nat} :
    (w < idtEntries → (idtSetInterruptHandler l m v h).read64 (l.gateAddr w) =
        m.read64 (l.gateAddr w)) ∧
      (w < 256 → (idtSetInterruptHandler l m v h).read32 (l.handlerAddr w) =
        m.read32 (l.handlerAddr w)) ∧
      (w < idtEntries → (idtSetInterruptHandler l m v h).read32 (l.callbackAddr w) =
        if w = v.toNat then h else m.read32 (l.callbackAddr w)) := by
  have hlt := toNat_lt_idtEntries hv
  have hslot := l.toNat_callbackAddr hlt
  have h1 := l.gate_end
  have h2 := l.callback_end
  have h3 := l.handler_end
  have h4 := l.gate_callback
  have h6 := l.callback_handler
  unfold idtEntries at hlt h1 h2 h4 h6
  rw [idtSetInterruptHandler]
  refine ⟨fun hw => ?_, fun hw => ?_, fun hw => ?_⟩
  · have hgate := l.toNat_gateAddr hw
    unfold idtEntries at hw
    exact Mem.read64_write32_disjoint (by omega) (by omega) (by omega)
  · have hhandler := l.toNat_handlerAddr hw
    exact Mem.read32_write32_disjoint (by omega) (by omega) (by omega)
  · have hcallback := l.toNat_callbackAddr hw
    unfold idtEntries at hw
    split
    · next heq =>
      rw [heq]
      exact Mem.read32_write32_same _ _ _
    · exact Mem.read32_write32_disjoint (by omega) (by omega) (by omega)

/-- A sequence of calls without vector 255. -/
theorem setHandlers_frame (hcalls : ∀ c ∈ calls, c.1 ≠ 255) {w : BitVec 8} (hw : w ≠ 255) :
    (setHandlers l m calls).read64 (l.gateAddr w.toNat) = m.read64 (l.gateAddr w.toNat) ∧
      (setHandlers l m calls).read32 (l.handlerAddr w.toNat) = m.read32 (l.handlerAddr w.toNat) ∧
      (setHandlers l m calls).read32 (l.callbackAddr w.toNat) =
        lastHandler w (m.read32 (l.callbackAddr w.toNat)) calls := by
  induction calls generalizing m with
  | nil => exact ⟨rfl, rfl, rfl⟩
  | cons c calls ih =>
    have hc := hcalls c List.mem_cons_self
    have hlt := toNat_lt_idtEntries hw
    obtain ⟨hgate, hhandler, hcallback⟩ := idtSetInterruptHandler_frame (l := l) (m := m)
      (h := c.2) hc (w := w.toNat)
    obtain ⟨ihgate, ihhandler, ihcallback⟩ := ih (m := idtSetInterruptHandler l m c.1 c.2)
      fun c' hc' => hcalls c' (List.mem_cons_of_mem c hc')
    refine ⟨ihgate.trans (hgate hlt), ihhandler.trans (hhandler w.isLt), ?_⟩
    rw [lastHandler, List.foldl_cons]
    refine ihcallback.trans ?_
    rw [hcallback hlt, lastHandler]
    congr 1
    by_cases heq : c.1 = w
    · rw [if_pos heq, if_pos (congrArg BitVec.toNat heq.symm)]
    · rw [if_neg heq, if_neg fun h => heq (BitVec.eq_of_toNat_eq h.symm)]

end

/-- After `idt_init` and any registrations: all stores of the registrations stay in the table, and a
vector that is not reserved has its gate and its last handler, exactly when vector 255 is neither
registered nor the one asked about; the tables have 255 entries. -/
theorem handlers_registered_iff (l : IdtLayout) (m : Mem) (calls : List (BitVec 8 × Word))
    (v : BitVec 8) (hv : ¬Reserved v.toNat) :
    let s := idtInit l m
    (StoresInTable l s.mem calls ∧
        VectorServed l { s with mem := setHandlers l s.mem calls } v.toNat
          (lastHandler v (l.defaultHandler v.toNat) calls)) ↔
      (∀ c ∈ calls, c.1 ≠ 255) ∧ v ≠ 255 := by
  intro s
  constructor
  · rintro ⟨hstores, hserved⟩
    constructor
    · intro c hc
      obtain ⟨pre, post, hsplit⟩ := List.append_of_mem hc
      exact callback_mem_table_iff.mp (hstores pre c post hsplit).1
    · rintro rfl
      have hlimit : 8 * 255 + 7 ≤ (BitVec.ofNat 16 (8 * idtEntries - 1)).toNat := hserved.limit
      exact absurd hlimit (by decide)
  · rintro ⟨hcalls, hv255⟩
    have hlt := toNat_lt_idtEntries hv255
    have hready : IdtReady l m s.mem idtEntries := idtInit_ready l m
    obtain ⟨hgate, hhandler, hcallback⟩ := setHandlers_frame (l := l) (m := s.mem) hcalls hv255
    obtain ⟨type, htype, hvalue⟩ := hready.gates _ hlt hlt hv
    refine ⟨fun pre c post hsplit => ⟨?_, fun x hx => Mem.byte_write32_ne hx⟩, ?_⟩
    · exact callback_mem_table_iff.mpr (hcalls c (by rw [hsplit]; simp))
    · have hbase : s.base + 8 * BitVec.ofNat 32 v.toNat = l.gateAddr v.toNat := rfl
      constructor
      · show 8 * v.toNat + 7 ≤ (BitVec.ofNat 16 (8 * idtEntries - 1)).toNat
        unfold idtEntries at hlt ⊢
        bv_omega
      · show gatePresent ((setHandlers l s.mem calls).read64 _) = true
        rw [hbase, hgate, hvalue]
        exact gatePresent_gateValue htype _ _ (by decide)
      · show gateOffset ((setHandlers l s.mem calls).read64 _) =
          (setHandlers l s.mem calls).read32 _
        rw [hbase, hgate, hvalue, gateOffset_gateValue htype, hhandler, hready.handlers _ v.isLt]
      · show (setHandlers l s.mem calls).read32 _ = _
        rw [hcallback, hready.callbacks _ hlt hlt hv]

/-- Tables one after the other. -/
def smallLayout : IdtLayout where
  idtGate := 0xC0110000#32
  idtGateCallback := 0xC0111000#32
  idtGateHandler := 0xC0112000#32
  idtExceptionHandler := 0xC0100100#32
  idtInterruptHandler := 0xC0100200#32
  gate_end := by decide
  callback_end := by decide
  handler_end := by decide
  gate_callback := by decide
  gate_handler := by decide
  callback_handler := by decide

theorem handlers_registered_timer : ¬Reserved (32#8).toNat ∧
    (setHandlers smallLayout (idtInit smallLayout ⟨fun _ => 0⟩).mem
      [(32#8, 0xC0100300#32)]).read32 (smallLayout.callbackAddr 32) = 0xC0100300#32 := by
  have hcalls : ∀ c ∈ [(32#8, 0xC0100300#32)], c.1 ≠ 255 := by
    intro c hc
    obtain rfl := List.mem_singleton.mp hc
    decide
  have hserved := ((handlers_registered_iff smallLayout ⟨fun _ => 0⟩ [(32#8, 0xC0100300#32)] 32#8
    (by decide)).mpr ⟨hcalls, by decide⟩).2
  exact ⟨by decide, hserved.callback⟩

/-- A registration for vector 255 stores behind the table. -/
theorem handlers_registered_255 : ¬∀ (l : IdtLayout) (m : Mem) (calls : List (BitVec 8 × Word))
    (v : BitVec 8), ¬Reserved v.toNat →
      StoresInTable l (idtInit l m).mem calls ∧
        VectorServed l { idtInit l m with mem := setHandlers l (idtInit l m).mem calls } v.toNat
          (lastHandler v (l.defaultHandler v.toNat) calls) := by
  intro h
  obtain ⟨hstores, -⟩ := h smallLayout ⟨fun _ => 0⟩ [(255#8, 0xC0100300#32)] 32#8 (by decide)
  exact callback_mem_table_iff.mp (hstores [] _ [] rfl).1 rfl

end BasicX86Kernel
