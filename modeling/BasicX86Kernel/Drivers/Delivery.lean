import BasicX86Kernel.Drivers.Handlers

/-! Interrupts on their way from a device to a handler: the I/O APIC turns a line into a vector, the
local APIC keeps the vectors that are pending and in service, and the processor takes the most
urgent one, runs its handler and goes back to `kmain`.  In every run each interrupt that the local
APIC has latched is delivered once, and none can be held back for ever. -/

namespace BasicX86Kernel.Delivery

open Machine Handlers

/-! ### The platform -/

/-- The vectors of the local APIC come in classes of 16, and one in service holds back its class and
those below. -/
def lapicPriority : Priority Byte where
  urgency := BitVec.toNat
  level := fun v => v.toNat / 16
  urgency_lt := fun h => by
    by_contra hle
    exact absurd h (Nat.not_lt.mpr (Nat.div_le_div_right (Nat.not_lt.mp hle)))

/-- The kernel with the registers of the local APIC, the transfers so far, the vectors that are
pending and in service, and the vector whose handler is running, if any; that handler may have
halted. -/
structure Platform where
  board : Board
  log : List Transfer
  apic : Controller Byte
  active : Option Byte
  halted : Bool

/-- What happens next: a device raises a line of the I/O APIC, the timer of the local APIC expires,
the processor takes an interrupt, the handler runs to its end, or the main program calls a function
that masks or unmasks a vector or registers a handler. A handler finds registers on the stack, and
reads a port of 16 bits. -/
inductive Input where
  | line (i : Nat)
  | timer
  | enter
  | leave (args : HandlerArgs) (status : Port → BitVec 16)
  | setMasked (masked : Bool) (vector : Byte)
  | register (vector : Byte) (handler : Word)

section

variable (K : HandlerImage) (dev : Device)

/-- The low word of a redirection entry. -/
def entry (s : Platform) (i : Nat) : Word := s.board.kernel.ioapic.regs (Ioapic.low i)

/-- The local APIC takes a write to this address for the end of an interrupt. -/
def isEnd (s : Lapic.State) : Lapic.Access → Bool
  | .write address _ => address == Lapic.lapicGetBase s ||| lapicEioReg
  | .read _ => false

/-- The ends of interrupts that the registers have seen since the state `s`. -/
def ends (s s' : Lapic.State) : Nat := (s'.accesses.drop s.accesses.length).countP (isEnd s')

/-- The handler of the active vector runs, as the callback in the table names it. -/
def runHandler (args : HandlerArgs) (status : Port → BitVec 16) (v : Byte) (s : Platform) :
    Platform :=
  let callback := s.board.kernel.sys.mem.read32 (K.idt.callbackAddr v.toNat)
  match handlerAt K status callback with
  | none => s
  | some handler =>
    let code := (handler { args with vector := v.setWidth 32 }).run s.board
    let (ended, board) := code.result dev s.log
    { board
      log := s.log ++ code.trace dev s.log
      apic := (Controller.endOfInterrupt lapicPriority)^[ends s.board.lapic board.lapic] s.apic
      active := if ended = .halted then s.active else none
      halted := ended = .halted }

/-- A change of the kernel's state by the main program. -/
def mainProgram (f : Drivers.Kernel → Drivers.Kernel) (s : Platform) : Platform :=
  { s with board := { s.board with kernel := f s.board.kernel } }

def step (s : Platform) : Input → Platform
  | .line i =>
    if (entry s i).getLsbD 16 then s
    else { s with apic := s.apic.request (Ioapic.intvec (entry s i)) }
  | .timer => { s with apic := s.apic.request 32 }
  | .enter =>
    match s.active, s.apic.next lapicPriority fun _ => true with
    | none, some v => { s with apic := s.apic.acknowledge v, active := some v }
    | _, _ => s
  | .leave args status =>
    match s.active with
    | some v => if s.halted then s else runHandler K dev args status v s
    | none => s
  | .setMasked masked vector => mainProgram (fun k =>
      { k with ioapic := Ioapic.setMasked masked vector k.ioapic }) s
  | .register vector handler => mainProgram (fun k =>
      { k with sys := { k.sys with
          mem := idtSetInterruptHandler K.idt k.sys.mem vector handler } }) s

/-- The lines are those that `ioapic_init` programs, all but the last of the chip; the main program
runs when no handler does, and what it registers is a handler, for a vector of the table (255 has no
slot in it). -/
def Legal (mre : Nat) (s : Platform) : Input → Prop
  | .line i => i < mre
  | .setMasked _ _ => s.active = none
  | .register vector handler =>
    s.active = none ∧ vector ≠ 255 ∧ (handlerAt K (fun _ => 0) handler).isSome
  | _ => True

/-- The platform when `idt_init`, `lapic_init` and `ioapic_init` have returned. -/
def initialised (sys : System) (ioapic : Ioapic.State) (lapic : Lapic.State) (log : List Transfer) :
    Platform where
  board :=
    { kernel :=
        { sys := { sys with mem := (idtInit K.idt sys.mem).mem }
          ioapic := Ioapic.ioapicInit ioapic }
      lapic := Lapic.lapicInit lapic }
  log := log
  apic := Controller.idle
  active := none
  halted := false

/-- The handler that an input registers. -/
def Input.registers : Input → List (BitVec 8 × Word)
  | .register vector handler => [(vector, handler)]
  | _ => []

end

/-! ### Handlers -/

/-- Which addresses are those of handlers does not depend on what they will read. -/
theorem isSome_handlerAt (K : HandlerImage) (status status' : Port → BitVec 16) (address : Word) :
    (handlerAt K status address).isSome = (handlerAt K status' address).isSome := by
  simp only [handlerAt]
  split_ifs <;> rfl

/-- The handler that is called last, of those that are registered, is one that may be called. -/
theorem isSome_lastHandler {K : HandlerImage} {status : Port → BitVec 16}
    {calls : List (BitVec 8 × Word)}
    (hcalls : ∀ c ∈ calls, (handlerAt K status c.2).isSome) (v : BitVec 8) {default : Word}
    (hdefault : (handlerAt K status default).isSome) :
    (handlerAt K status (lastHandler v default calls)).isSome := by
  induction calls generalizing default with
  | nil => exact hdefault
  | cons c calls ih =>
    rw [lastHandler, List.foldl_cons]
    refine ih (fun d hd => hcalls d (List.mem_cons_of_mem c hd)) ?_
    split
    · exact hcalls c List.mem_cons_self
    · exact hdefault

/-- The end of interrupt that a handler sends reaches the local APIC. -/
theorem ends_lapicWrite {s : Lapic.State} (h : s.lapicBase = Lapic.lapicGetBase s) (v : Word) :
    ends s (Lapic.lapicWrite lapicEioReg v s) = 1 := by
  have hnew : (Lapic.lapicWrite lapicEioReg v s).accesses.drop s.accesses.length
      = [.write (Lapic.lapicReg s lapicEioReg) v] := List.drop_left
  have hend : isEnd (Lapic.lapicWrite lapicEioReg v s) (.write (Lapic.lapicReg s lapicEioReg) v)
      = true := by
    rw [isEnd, Lapic.lapicReg, h]
    exact beq_self_eq_true _
  rw [ends, hnew, List.countP_singleton, hend]
  rfl

theorem ends_self (s : Lapic.State) : ends s s = 0 := by
  rw [ends, List.drop_length, List.countP_nil]

/-! ### The invariant -/

/-- The callbacks are those that have been registered, and the redirection entries hold their
vectors; the vector in service is the one whose handler is running. -/
structure Sound (K : HandlerImage) (m : Mem) (mre : Nat) (calls : List (BitVec 8 × Word))
    (s : Platform) : Prop where
  base : s.board.lapic.lapicBase = Lapic.lapicGetBase s.board.lapic
  table : s.board.kernel.sys.mem = setHandlers K.idt (idtInit K.idt m).mem calls
  handlers : ∀ c ∈ calls, c.1 ≠ 255 ∧ (handlerAt K (fun _ => 0) c.2).isSome
  size : s.board.kernel.ioapic.mre = mre
  vectors : ∀ i < mre, (Ioapic.intvec (entry s i)).toNat = i + 32
  pending : ∀ v ∈ s.apic.pending, 32 ≤ v.toNat ∧ v.toNat < 152
  active : ∀ v, s.active = some v → 32 ≤ v.toNat ∧ v.toNat < 152
  service : s.apic.inService = s.active.toList
  balanced : s.apic.Balanced
  halted : s.halted → s.active.isSome

/-- The gate of a vector that `idt_init` installs leads to the stub of the vector, which loads the
handler that has been registered last. -/
theorem vectorServed (l : IdtLayout) (m : Mem) {calls : List (BitVec 8 × Word)}
    (hcalls : ∀ c ∈ calls, c.1 ≠ 255) {v : BitVec 8} (hv : v ≠ 255) (hres : ¬Reserved v.toNat) :
    VectorServed l { idtInit l m with mem := setHandlers l (idtInit l m).mem calls } v.toNat
      (lastHandler v (l.defaultHandler v.toNat) calls) := by
  have hlt := toNat_lt_idtEntries hv
  have hready := idtInit_ready l m
  obtain ⟨hgate, hhandler, hcallback⟩ :=
    setHandlers_frame (l := l) (m := (idtInit l m).mem) hcalls hv
  obtain ⟨type, htype, hvalue⟩ := hready.gates _ hlt hlt hres
  have hbase : (idtInit l m).base + 8 * BitVec.ofNat 32 v.toNat = l.gateAddr v.toNat := rfl
  constructor
  · show 8 * v.toNat + 7 ≤ (BitVec.ofNat 16 (8 * idtEntries - 1)).toNat
    unfold idtEntries at hlt ⊢
    bv_omega
  · show gatePresent ((setHandlers l (idtInit l m).mem calls).read64 _) = true
    rw [hbase, hgate, hvalue]
    exact gatePresent_gateValue htype _ _ (by decide)
  · show gateOffset ((setHandlers l (idtInit l m).mem calls).read64 _) =
      (setHandlers l (idtInit l m).mem calls).read32 _
    rw [hbase, hgate, hvalue, gateOffset_gateValue htype, hhandler, hready.handlers _ v.isLt]
  · show (setHandlers l (idtInit l m).mem calls).read32 _ = _
    rw [hcallback, hready.callbacks _ hlt hlt hres]

section

variable {K : HandlerImage} {m : Mem} {mre : Nat} {calls : List (BitVec 8 × Word)} {s : Platform}
  {v : Byte}

/-- The vectors of devices have a gate, and are not the one without a slot. -/
theorem not_reserved (hv : 32 ≤ v.toNat ∧ v.toNat < 152) : v ≠ 255 ∧ ¬Reserved v.toNat := by
  refine ⟨?_, ?_⟩
  · rintro rfl
    exact absurd hv.2 (by decide)
  · rintro (h | h) <;> omega

theorem Sound.served (h : Sound K m mre calls s) (hv : 32 ≤ v.toNat ∧ v.toNat < 152) :
    VectorServed K.idt { idtInit K.idt m with mem := s.board.kernel.sys.mem } v.toNat
      (lastHandler v K.idt.idtInterruptHandler calls) := by
  obtain ⟨hne, hres⟩ := not_reserved hv
  have hserved := vectorServed K.idt m (fun c hc => (h.handlers c hc).1) hne hres
  rwa [← h.table, IdtLayout.defaultHandler, if_neg (by omega)] at hserved

theorem Sound.exists_handler (h : Sound K m mre calls s) (hv : 32 ≤ v.toNat ∧ v.toNat < 152)
    (status : Port → BitVec 16) : ∃ handler,
      handlerAt K status (s.board.kernel.sys.mem.read32 (K.idt.callbackAddr v.toNat))
        = some handler := by
  have hcallback := (h.served hv).callback
  have hsome : (handlerAt K (fun _ => 0)
      (lastHandler v K.idt.idtInterruptHandler calls)).isSome := by
    refine isSome_lastHandler (fun c hc => (h.handlers c hc).2) v ?_
    rw [handlerAt, if_pos rfl]
    rfl
  rw [isSome_handlerAt K _ status] at hsome
  rw [hcallback]
  exact Option.isSome_iff_exists.mp hsome

/-! ### Steps -/

theorem Sound.request (h : Sound K m mre calls s) (hv : 32 ≤ v.toNat ∧ v.toNat < 152) :
    Sound K m mre calls { s with apic := s.apic.request v } := by
  have hservice : (s.apic.request v).inService = s.apic.inService := by
    rw [Controller.request]
    split <;> rfl
  have hpending : ∀ w ∈ (s.apic.request v).pending, 32 ≤ w.toNat ∧ w.toNat < 152 := by
    intro w hw
    rw [Controller.request] at hw
    split at hw
    · exact h.pending w hw
    · rcases List.mem_append.mp hw with hw | hw
      · exact h.pending w hw
      · exact List.mem_singleton.mp hw ▸ hv
  exact { h with
    pending := hpending
    service := hservice.trans h.service
    balanced := h.balanced.request v }

theorem Sound.acknowledge (h : Sound K m mre calls s) (hidle : s.active = none)
    (hmem : v ∈ s.apic.pending) :
    Sound K m mre calls { s with apic := s.apic.acknowledge v, active := some v } := by
  have hservice : (s.apic.acknowledge v).inService = [v] := by
    rw [Controller.acknowledge, h.service, hidle]
    rfl
  refine { h with
    pending := fun w hw => h.pending w (List.mem_of_mem_erase hw)
    active := ?_
    service := hservice
    balanced := h.balanced.acknowledge hmem
    halted := fun _ => rfl }
  rintro w hw
  obtain rfl := Option.some.inj hw
  exact h.pending v hmem

/-- A change that keeps the memory, the I/O APIC and what is pending. -/
theorem Sound.congr (h : Sound K m mre calls s) {s' : Platform}
    (hbase : s'.board.lapic.lapicBase = Lapic.lapicGetBase s'.board.lapic)
    (hmem : s'.board.kernel.sys.mem = s.board.kernel.sys.mem)
    (hioapic : s'.board.kernel.ioapic = s.board.kernel.ioapic)
    (hpending : s'.apic.pending = s.apic.pending) (hbalanced : s'.apic.Balanced)
    (hactive : ∀ v, s'.active = some v → s.active = some v)
    (hservice : s'.apic.inService = s'.active.toList) (hhalted : s'.halted → s'.active.isSome) :
    Sound K m mre calls s' where
  base := hbase
  table := hmem.trans h.table
  handlers := h.handlers
  size := by rw [hioapic, h.size]
  vectors := by
    intro i hi
    rw [entry, hioapic]
    exact h.vectors i hi
  pending := by rw [hpending]; exact h.pending
  active := fun v hv => h.active v (hactive v hv)
  service := hservice
  balanced := hbalanced
  halted := hhalted

/-- What the handler of the active vector leaves: it has returned, and no interrupt is in service
any more, or it has halted. -/
theorem Sound.runHandler (h : Sound K m mre calls s) (hv : s.active = some v)
    (args : HandlerArgs) (status : Port → BitVec 16) (dev : Device) :
    let s' := runHandler K dev args status v s
    Sound K m mre calls s' ∧
      (s'.active = none ∧ s'.halted = false ∧ s'.apic = { s.apic with inService := [] } ∨
        powerButtonPressed K status s.board.kernel.sys.mem = true ∧ s'.halted = true ∧
          s'.active = some v ∧ s'.apic = s.apic) := by
  obtain ⟨handler, hhandler⟩ := h.exists_handler (h.active v hv) status
  have hends := endsOnce_handlerAt hhandler dev s.log s.board
    { args with vector := v.setWidth 32 }
  have hservice : s.apic.inService = [v] := by
    rw [h.service, hv]
    rfl
  intro s'
  have hs' : s' = Delivery.runHandler K dev args status v s := rfl
  rw [Delivery.runHandler] at hs'
  simp only [hhandler] at hs'
  generalize ((handler { args with vector := v.setWidth 32 }).run s.board).result dev s.log
    = r at hs' hends
  obtain ⟨ended, board⟩ := r
  obtain ⟨hlapic, hmem, hioapic, hpressed⟩ := hends
  dsimp only at hlapic hmem hioapic hs'
  cases ended with
  | returned =>
    dsimp only at hlapic
    have hone : ends s.board.lapic board.lapic = 1 := by
      rw [hlapic]
      exact ends_lapicWrite h.base _
    have hapic : (Controller.endOfInterrupt lapicPriority)^[1] s.apic
        = { s.apic with inService := [] } :=
      Controller.endOfInterrupt_cons lapicPriority hservice fun j hj => absurd hj List.not_mem_nil
    rw [hone, hapic] at hs'
    rw [hs']
    refine ⟨h.congr ?_ hmem hioapic rfl ⟨h.balanced.nodup, h.balanced.count⟩ ?_ rfl ?_,
      .inl ⟨rfl, rfl, rfl⟩⟩
    · dsimp only
      rw [hlapic]
      exact h.base
    · exact fun w hw => nomatch hw
    · exact fun hno => nomatch hno
  | halted =>
    dsimp only at hlapic
    have hnone : ends s.board.lapic board.lapic = 0 := by
      rw [hlapic]
      exact ends_self _
    rw [hnone] at hs'
    rw [hs']
    refine ⟨h.congr ?_ hmem hioapic rfl h.balanced ?_ ?_ ?_, .inr ⟨hpressed rfl, rfl, hv, rfl⟩⟩
    · dsimp only
      rw [hlapic]
      exact h.base
    · exact fun w hw => hw
    · exact h.service
    · exact fun _ => Option.isSome_iff_exists.mpr ⟨v, hv⟩

theorem Sound.setMasked (h : Sound K m mre calls s) (masked : Bool) (w : Byte) :
    Sound K m mre calls (mainProgram
      (fun k => { k with ioapic := Ioapic.setMasked masked w k.ioapic }) s) := by
  have hvector : ∀ i, Ioapic.intvec (entry (mainProgram
      (fun k => { k with ioapic := Ioapic.setMasked masked w k.ioapic }) s) i)
        = Ioapic.intvec (entry s i) := by
    intro i
    apply BitVec.eq_of_getLsbD_eq
    intro j hj
    rw [Ioapic.intvec, Ioapic.intvec, BitVec.getLsbD_setWidth, BitVec.getLsbD_setWidth, entry]
    congr 1
    change ((Ioapic.setMasked masked w s.board.kernel.ioapic).regs (Ioapic.low i)).getLsbD j = _
    rw [Ioapic.setMasked_regs, if_neg (by omega)]
    rfl
  exact { h with
    size := (Ioapic.setMasked_mre masked w s.board.kernel.ioapic).trans h.size
    vectors := fun i hi => (congrArg BitVec.toNat (hvector i)).trans (h.vectors i hi) }

theorem Sound.register (h : Sound K m mre calls s) {w : Byte} {handler : Word} (hw : w ≠ 255)
    (hhandler : (handlerAt K (fun _ => 0) handler).isSome) :
    Sound K m mre (calls ++ [(w, handler)]) (mainProgram (fun k => { k with sys := { k.sys with
      mem := idtSetInterruptHandler K.idt k.sys.mem w handler } }) s) := by
  have htable : idtSetInterruptHandler K.idt s.board.kernel.sys.mem w handler
      = setHandlers K.idt (idtInit K.idt m).mem (calls ++ [(w, handler)]) := by
    rw [h.table, setHandlers, setHandlers, List.foldl_append]
    rfl
  have hcalls : ∀ c ∈ calls ++ [(w, handler)],
      c.1 ≠ 255 ∧ (handlerAt K (fun _ => 0) c.2).isSome := by
    intro c hc
    rcases List.mem_append.mp hc with hc | hc
    · exact h.handlers c hc
    · rw [List.mem_singleton.mp hc]
      exact ⟨hw, hhandler⟩
  exact { h with
    table := htable
    handlers := hcalls }

theorem Sound.next (h : Sound K m mre calls s) (hmre : mre ≤ 119) (dev : Device) (c : Input)
    (hc : Legal K mre s c) : Sound K m mre (calls ++ c.registers) (step K dev s c) := by
  cases c with
  | line i =>
    change Sound K m mre (calls ++ []) _
    rw [List.append_nil, Delivery.step]
    split
    · exact h
    · have hi : i < mre := hc
      have hv := h.vectors i hi
      exact h.request (by omega)
  | timer =>
    change Sound K m mre (calls ++ []) _
    rw [List.append_nil]
    exact h.request (by decide)
  | enter =>
    change Sound K m mre (calls ++ []) _
    rw [List.append_nil, Delivery.step]
    split
    · next v hidle hnext => exact h.acknowledge hidle (Controller.next_eq_some hnext).1
    · exact h
  | leave args status =>
    change Sound K m mre (calls ++ []) _
    rw [List.append_nil, Delivery.step]
    split
    · next v hv =>
      split
      · exact h
      · exact (h.runHandler hv args status dev).1
    · exact h
  | setMasked masked w =>
    change Sound K m mre (calls ++ []) _
    rw [List.append_nil]
    exact h.setMasked masked w
  | register w handler =>
    obtain ⟨-, hw, hhandler⟩ := hc
    exact h.register hw hhandler

end

/-! ### Runs -/

section

variable (K : HandlerImage) (dev : Device) (sys : System) (ioapic : Ioapic.State)
  (lapic : Lapic.State) (log : List Transfer)

/-- `ioapic_init` has programmed the entries of the lines. -/
theorem entry_initialised {i : Nat} (hi : i < ioapic.mre) :
    entry (initialised K sys ioapic lapic log) i = Ioapic.entryWord i :=
  (Ioapic.programmedTo_loop
    (Ioapic.select Ioapic.ioapicIoapicver (Ioapic.select Ioapic.ioapicIoapicid ioapic))
    (show ioapic.mre ≤ ioapic.mre + 1 by omega)).1.low i hi

theorem sound_initialised : Sound K sys.mem ioapic.mre [] (initialised K sys ioapic lapic log) := by
  have hmre : ioapic.mre ≤ 119 := ioapic.mre_le
  obtain ⟨hbase, hget, -, -⟩ := Lapic.lapicInit_eq lapic
  obtain ⟨-, hsame⟩ := Ioapic.programmedTo_loop
    (Ioapic.select Ioapic.ioapicIoapicver (Ioapic.select Ioapic.ioapicIoapicid ioapic))
    (show ioapic.mre ≤ ioapic.mre + 1 by omega)
  constructor
  · exact hbase.trans hget.symm
  · rfl
  · exact fun c hc => absurd hc List.not_mem_nil
  · exact hsame
  · intro i hi
    rw [entry_initialised K sys ioapic lapic log hi]
    exact Ioapic.intvec_entryWord (by omega)
  · exact fun v hv => absurd hv List.not_mem_nil
  · exact fun v hv => nomatch hv
  · rfl
  · exact Controller.balanced_idle
  · exact fun h => nomatch h

variable {K dev sys ioapic lapic log} {cs : List Input}

theorem sound_run
    (h : Allowed (step K dev) (Legal K ioapic.mre) (initialised K sys ioapic lapic log) cs) :
    Sound K sys.mem ioapic.mre (cs.flatMap Input.registers)
      (cs.foldl (step K dev) (initialised K sys ioapic lapic log)) := by
  refine h.history_induction (I := fun cs s =>
    Sound K sys.mem ioapic.mre (cs.flatMap Input.registers) s)
    (sound_initialised K sys ioapic lapic log) fun cs s c hs hc => ?_
  rw [List.flatMap_append, List.flatMap_singleton]
  exact hs.next ioapic.mre_le dev c hc

/-- In every run from the initialisation on, whichever of the lines that `ioapic_init` programs rise
(all but the last one), and whatever is masked, unmasked or registered (for a vector that has a slot
of its own, all but 255): an interrupt has been delivered as often as it has been latched, or once
less while it is pending; nothing but the active vector is in service; and the gate of that vector
leads to the handler that has been registered for it last. -/
theorem interrupts_deliveredOnce
    (h : Allowed (step K dev) (Legal K ioapic.mre) (initialised K sys ioapic lapic log) cs) :
    let s := cs.foldl (step K dev) (initialised K sys ioapic lapic log)
    (∀ v, s.apic.latched.count v = s.apic.delivered.count v + if v ∈ s.apic.pending then 1 else 0)
      ∧ s.apic.inService = s.active.toList
      ∧ ∀ v, s.active = some v →
        VectorServed K.idt { idtInit K.idt sys.mem with mem := s.board.kernel.sys.mem } v.toNat
          (lastHandler v K.idt.idtInterruptHandler (cs.flatMap Input.registers)) := by
  have hsound := sound_run h
  intro s
  exact ⟨hsound.balanced.latched_eq, hsound.service, fun v hv => hsound.served (hsound.active v hv)⟩

end

def smallHandlers : HandlerImage where
  toDriverImage := Drivers.smallDrivers
  acpiInterruptHandlerPower := 0xC0100700#32
  fileName := 0xC0120000#32
  globalFadt := 0xC0121000#32

/-- The interrupt of the timer is in service while its handler runs. -/
theorem interrupts_deliveredOnce_timer :
    ([.timer, .enter].foldl (step smallHandlers fun _ _ => 0)
      (initialised smallHandlers .blank Ioapic.reset Lapic.powerOn [])).apic.inService = [32] := by
  have hallowed : Allowed (step smallHandlers fun _ _ => 0)
      (Legal smallHandlers Ioapic.reset.mre)
      (initialised smallHandlers .blank Ioapic.reset Lapic.powerOn []) [.timer, .enter] :=
    ⟨trivial, trivial, trivial⟩
  obtain ⟨-, hservice, -⟩ := interrupts_deliveredOnce hallowed
  exact hservice

/-! ### Progress -/

/-- The processor takes an interrupt and its handler returns, so many times; the power button is not
pressed. -/
def rounds (args : HandlerArgs) : Nat → List Input
  | 0 => []
  | n + 1 => .enter :: .leave args (fun _ => 0) :: rounds args n

section

variable {K : HandlerImage} {m : Mem} {mre : Nat} {calls : List (BitVec 8 × Word)} {s : Platform}

/-- A handler that runs to its end without an event of the power button returns. -/
theorem Sound.leave (h : Sound K m mre calls s) (hrunning : s.halted = false) (dev : Device)
    (args : HandlerArgs) :
    let s' := step K dev s (.leave args fun _ => 0)
    Sound K m mre calls s' ∧ s'.active = none ∧ s'.halted = false ∧
      s'.apic = { s.apic with inService := [] } := by
  intro s'
  have hs' : s' = step K dev s (.leave args fun _ => 0) := rfl
  rw [step] at hs'
  cases hv : s.active with
  | none =>
    simp only [hv] at hs'
    have hservice : s.apic.inService = [] := by
      rw [h.service, hv]
      rfl
    rw [hs', ← hservice]
    exact ⟨h, hv, hrunning, rfl⟩
  | some v =>
    simp only [hv, hrunning, Bool.false_eq_true, if_false] at hs'
    obtain ⟨hsound, hreturned | ⟨hpressed, -⟩⟩ := h.runHandler hv args (fun _ => 0) dev
    · rw [hs']
      exact ⟨hsound, hreturned⟩
    · rw [powerButtonPressed_zero] at hpressed
      cases hpressed

/-- When no handler runs, the most urgent interrupt that is pending is taken, and its handler
returns. -/
theorem Sound.round (h : Sound K m mre calls s) (hidle : s.active = none)
    (hrunning : s.halted = false) (dev : Device) (args : HandlerArgs)
    (hpending : s.apic.pending ≠ []) :
    let s' := step K dev (step K dev s .enter) (.leave args fun _ => 0)
    Sound K m mre calls s' ∧ s'.active = none ∧ s'.halted = false ∧
      s'.apic.pending.length + 1 = s.apic.pending.length ∧ s'.apic.latched = s.apic.latched := by
  obtain ⟨w, hw⟩ := List.exists_mem_of_ne_nil _ hpending
  have hservice : s.apic.inService = [] := by
    rw [h.service, hidle]
    rfl
  have hnext : ∃ v, s.apic.next lapicPriority (fun _ => true) = some v :=
    Controller.exists_next lapicPriority hservice hw rfl
  obtain ⟨v, hv⟩ := hnext
  have hmem := (Controller.next_eq_some hv).1
  have henter : step K dev s .enter
      = { s with apic := s.apic.acknowledge v, active := some v } := by
    rw [step, hidle, hv]
  obtain ⟨hsound, hactive, hhalted, hapic⟩ := (h.acknowledge hidle hmem).leave hrunning
    dev args
  intro s'
  have hs' : s' = step K dev (step K dev s .enter) (.leave args fun _ => 0) := rfl
  rw [henter] at hs'
  rw [hs']
  refine ⟨hsound, hactive, hhalted, ?_, ?_⟩
  · rw [hapic]
    have hlength := List.length_erase_of_mem hmem
    have hpos := List.length_pos_of_mem hmem
    change (s.apic.pending.erase v).length + 1 = _
    omega
  · rw [hapic]
    rfl

/-- So many rounds as there are interrupts pending leave none pending. -/
theorem Sound.drained (h : Sound K m mre calls s) (hidle : s.active = none)
    (hrunning : s.halted = false) (dev : Device) (args : HandlerArgs) :
    let s' := (rounds args s.apic.pending.length).foldl (step K dev) s
    Sound K m mre calls s' ∧ s'.active = none ∧ s'.apic.pending = [] ∧
      s'.apic.latched = s.apic.latched := by
  induction hn : s.apic.pending.length generalizing s with
  | zero => exact ⟨h, hidle, List.eq_nil_of_length_eq_zero hn, rfl⟩
  | succ n ih =>
    have hpending : s.apic.pending ≠ [] := by
      intro hnil
      rw [hnil] at hn
      cases hn
    obtain ⟨hsound, hidle', hrunning', hlength, hlatched⟩ := h.round hidle hrunning dev args
      hpending
    obtain ⟨hend, hnone, hempty, hsame⟩ := ih hsound hidle' hrunning' (by omega)
    exact ⟨hend, hnone, hempty, hsame.trans hlatched⟩

end

/-- From every state that such a run reaches, unless the power button has halted the processor: when
the handler that is running and then one for each interrupt that is pending return, no interrupt is
pending or in service, and each has been delivered just as often as it has been latched. -/
theorem interrupts_drain {K : HandlerImage} {dev : Device} {sys : System} {ioapic : Ioapic.State}
    {lapic : Lapic.State} {log : List Transfer} {cs : List Input}
    (h : Allowed (step K dev) (Legal K ioapic.mre) (initialised K sys ioapic lapic log) cs)
    (hrunning : (cs.foldl (step K dev) (initialised K sys ioapic lapic log)).halted = false)
    (args : HandlerArgs) :
    let s := cs.foldl (step K dev) (initialised K sys ioapic lapic log)
    let t := (.leave args (fun _ => 0) :: rounds args s.apic.pending.length).foldl (step K dev) s
    t.apic.pending = [] ∧ t.apic.inService = [] ∧ t.apic.latched = s.apic.latched
      ∧ ∀ v, t.apic.delivered.count v = s.apic.latched.count v := by
  have hsound := sound_run h
  intro s t
  have hs : s = cs.foldl (step K dev) (initialised K sys ioapic lapic log) := rfl
  obtain ⟨hleft, hidle, hnot, hapic⟩ := hsound.leave hrunning dev args
  obtain ⟨hend, hnone, hempty, hsame⟩ := hleft.drained hidle hnot dev args
  have hpending : (step K dev s (.leave args fun _ => 0)).apic.pending = s.apic.pending := by
    rw [hs, hapic]
  have ht : t = (rounds args s.apic.pending.length).foldl (step K dev)
      (step K dev s (.leave args fun _ => 0)) := rfl
  rw [← hs, hpending, ← ht] at hend hnone hempty hsame
  have hlatched : t.apic.latched = s.apic.latched := by
    rw [hsame, hs, hapic]
  refine ⟨hempty, ?_, hlatched, fun v => ?_⟩
  · rw [hend.service, hnone]
    rfl
  · have hcount := hend.balanced.count v
    rw [hempty, hlatched] at hcount
    exact hcount.symm

/-- What a handler finds on the stack. -/
def smallArgs : HandlerArgs :=
  ⟨32, 0, 0, 0, 0xC0105000, 0, 0, 0, 0, 0, 0xC0101000, 0x8, 0x202⟩

/-- The handler of the timer is running, and keyboard, mouse and timer wait for it. -/
def busyRun : List Input := [.timer, .enter, .line 1, .line 12, .timer]

theorem busyRun_platform (K : HandlerImage) (dev : Device) {s : Platform} {low high : Byte}
    (hidle : s.active = none) (hapic : s.apic = Controller.idle)
    (hopen : (entry s 1).getLsbD 16 = false ∧ (entry s 12).getLsbD 16 = false)
    (hlow : Ioapic.intvec (entry s 1) = low) (hhigh : Ioapic.intvec (entry s 12) = high) :
    busyRun.foldl (step K dev) s
      = { s with
          apic := (((Controller.idle.request 32).acknowledge 32).request low |>.request high).request
            32
          active := some 32 } := by
  obtain ⟨board, log, apic, active, halted⟩ := s
  dsimp only at hidle hapic
  subst hidle hapic hlow hhigh
  obtain ⟨hfirst, hsecond⟩ := hopen
  have hnext : (Controller.idle.request 32).next lapicPriority (fun _ => true) = some 32 := by
    decide
  have henter : step K dev ⟨board, log, Controller.idle.request 32, none, halted⟩ .enter
      = ⟨board, log, (Controller.idle.request 32).acknowledge 32, some 32, halted⟩ := by
    rw [step]
    dsimp only
    rw [hnext]
  have hline : ∀ (apic : Controller Byte) (i : Nat),
      (entry ⟨board, log, Controller.idle, none, halted⟩ i).getLsbD 16 = false →
      step K dev ⟨board, log, apic, some 32, halted⟩ (.line i)
        = ⟨board, log, apic.request
            (Ioapic.intvec (entry ⟨board, log, Controller.idle, none, halted⟩ i)), some 32,
            halted⟩ := by
    intro apic i hi
    change (if (entry ⟨board, log, Controller.idle, none, halted⟩ i).getLsbD 16 then _ else _) = _
    rw [hi]
    rfl
  have hrun : busyRun.foldl (step K dev) ⟨board, log, Controller.idle, none, halted⟩
      = step K dev (step K dev (step K dev (step K dev
          ⟨board, log, Controller.idle.request 32, none, halted⟩ .enter) (.line 1)) (.line 12))
          .timer := rfl
  rw [hrun, henter, hline _ _ hfirst, hline _ _ hsecond]
  rfl

/-- Once the four handlers have returned, each interrupt has been delivered, the timer's twice. -/
theorem interrupts_drain_timer :
    let s := busyRun.foldl (step smallHandlers fun _ _ => 0)
      (initialised smallHandlers .blank Ioapic.reset Lapic.powerOn [])
    let t := (.leave smallArgs (fun _ => 0) :: rounds smallArgs 3).foldl
      (step smallHandlers fun _ _ => 0) s
    s.active = some 32 ∧ s.apic.pending = [33, 44, 32] ∧ t.apic.pending = [] ∧
      t.apic.inService = [] ∧ t.apic.delivered.count 32 = 2 ∧ t.apic.delivered.count 33 = 1 ∧
      t.apic.delivered.count 44 = 1 := by
  have hallowed : Allowed (step smallHandlers fun _ _ => 0)
      (Legal smallHandlers Ioapic.reset.mre)
      (initialised smallHandlers .blank Ioapic.reset Lapic.powerOn []) busyRun :=
    ⟨trivial, trivial, (by decide : 1 < Ioapic.reset.mre), (by decide : 12 < Ioapic.reset.mre),
      trivial, trivial⟩
  have hentry : ∀ i < Ioapic.reset.mre,
      entry (initialised smallHandlers .blank Ioapic.reset Lapic.powerOn []) i
        = Ioapic.entryWord i :=
    fun i hi => entry_initialised smallHandlers .blank Ioapic.reset Lapic.powerOn [] hi
  have hfirst := hentry 1 (by decide)
  have hsecond := hentry 12 (by decide)
  have hbusy := busyRun_platform smallHandlers (fun _ _ => 0)
    (s := initialised smallHandlers .blank Ioapic.reset Lapic.powerOn []) rfl rfl
    (by rw [hfirst, hsecond]; decide)
    (show _ = 33 by rw [hfirst]; decide) (show _ = 44 by rw [hsecond]; decide)
  generalize hs : busyRun.foldl (step smallHandlers fun _ _ => 0)
    (initialised smallHandlers .blank Ioapic.reset Lapic.powerOn []) = s at hbusy
  have hrunning : s.halted = false := by
    rw [hbusy]
    rfl
  have hactive : s.active = some 32 := by
    rw [hbusy]
  have hwaiting : s.apic.pending = [33, 44, 32] := by
    rw [hbusy]
    decide
  have hthree : s.apic.pending.length = 3 := by rw [hwaiting]; rfl
  have hlatched : s.apic.latched = [32, 33, 44, 32] := by
    rw [hbusy]
    decide
  subst hs
  obtain ⟨hpending, hservice, -, hcount⟩ := interrupts_drain hallowed hrunning smallArgs
  rw [hthree] at hpending hservice hcount
  rw [hlatched] at hcount
  exact ⟨hactive, hwaiting, hpending, hservice, hcount 32, hcount 33, hcount 44⟩

/-! ### Masks -/

/-- What a call that masks or unmasks a vector makes of the mask bit of an entry. The vectors from
160 on go round the selector of the registers. -/
def maskWrites : Input → Nat → Option Bool
  | .setMasked masked v, i => if v.toNat = 32 + i ∨ v.toNat = 160 + i then some masked else none
  | _, _ => none

section

variable {K : HandlerImage} {dev : Device} {s : Platform} {i : Nat}

theorem ioapic_step (K : HandlerImage) (dev : Device) (s : Platform) (c : Input) :
    (∃ masked v, c = .setMasked masked v ∧
        (step K dev s c).board.kernel.ioapic = Ioapic.setMasked masked v s.board.kernel.ioapic) ∨
      maskWrites c = (fun _ => none) ∧
        (step K dev s c).board.kernel.ioapic = s.board.kernel.ioapic := by
  cases c with
  | line i =>
    refine .inr ⟨rfl, ?_⟩
    rw [step]
    split <;> rfl
  | timer => exact .inr ⟨rfl, rfl⟩
  | enter =>
    refine .inr ⟨rfl, ?_⟩
    rw [step]
    split <;> rfl
  | leave args status =>
    refine .inr ⟨rfl, ?_⟩
    rw [step]
    split
    · split
      · rfl
      · rw [runHandler]
        split
        · rfl
        · next handler hhandler =>
          exact (endsOnce_handlerAt hhandler dev s.log s.board _).ioapic
    · rfl
  | setMasked masked v => exact .inl ⟨masked, v, rfl, rfl⟩
  | register v handler => exact .inr ⟨rfl, rfl⟩

/-- The vectors whose calls reach the low word of an entry. -/
theorem entryReg_eq_low_iff {t : Ioapic.State} {v : Byte} (hi : i < t.mre) :
    ((Ioapic.InTable t v ∨ Ioapic.Aliased t v) ∧ Ioapic.low i = Ioapic.entryReg v)
      ↔ v.toNat = 32 + i ∨ v.toNat = 160 + i := by
  have hmre : t.mre ≤ 119 := t.mre_le
  have hlow := Ioapic.low_toNat (show i ≤ 119 by omega)
  have hv := v.isLt
  rw [← BitVec.toNat_inj, hlow, Ioapic.InTable, Ioapic.Aliased]
  by_cases h32 : 32 ≤ v.toNat
  · rw [Ioapic.entryReg_toNat h32]
    omega
  · omega

/-- The low word of an entry as `ioapic_init` writes it. -/
theorem getLsbD_entryWord (hi : i ≤ 119) (j : Nat) :
    (Ioapic.entryWord i).getLsbD j
      = if j = 16 then decide (i = 2) else (BitVec.ofNat 32 (i + 32)).getLsbD j := by
  have hbit : (1#32 <<< 16) = BitVec.twoPow 32 16 := rfl
  have hclear : (BitVec.ofNat 32 (i + 32)).getLsbD 16 = false := by
    refine getLsbD_of_lt (k := 8) ?_ (by decide)
    rw [BitVec.toNat_ofNat]
    omega
  rw [Ioapic.entryWord]
  by_cases h2 : i = 2
  · subst h2
    rw [if_pos rfl, hbit, BitVec.getLsbD_or, BitVec.getLsbD_twoPow]
    by_cases hj : j = 16
    · simp [hj]
    · simp [hj, Ne.symm hj]
  · rw [if_neg (by omega)]
    by_cases hj : j = 16
    · rw [hj, hclear, if_pos rfl]
      simp [h2]
    · rw [if_neg hj]

end

/-- In every run a redirection entry that `ioapic_init` has programmed keeps its vector and all
other bits but the mask bit, and that one is what the last call that reaches the entry has made it;
at first only line 2 is masked. -/
theorem entries_lastWriter (K : HandlerImage) (dev : Device) (sys : System) {ioapic : Ioapic.State}
    (lapic : Lapic.State) (log : List Transfer) (cs : List Input) {i : Nat} (hi : i < ioapic.mre)
    (j : Nat) :
    (entry (cs.foldl (step K dev) (initialised K sys ioapic lapic log)) i).getLsbD j
      = if j = 16 then (lastWriter maskWrites cs i).getD (decide (i = 2))
        else (BitVec.ofNat 32 (i + 32)).getLsbD j := by
  have hmre : ioapic.mre ≤ 119 := ioapic.mre_le
  suffices h : (cs.foldl (step K dev) (initialised K sys ioapic lapic log)).board.kernel.ioapic.mre
      = ioapic.mre ∧ _ from h.2
  obtain ⟨hloop, hsame⟩ := Ioapic.programmedTo_loop
    (Ioapic.select Ioapic.ioapicIoapicver (Ioapic.select Ioapic.ioapicIoapicid ioapic))
    (show ioapic.mre ≤ ioapic.mre + 1 by omega)
  induction cs using List.reverseRecOn with
  | nil =>
    refine ⟨hsame, ?_⟩
    exact (congrArg (fun w => BitVec.getLsbD w j) (hloop.low i hi)).trans
      (getLsbD_entryWord (by omega) j)
  | append_singleton cs c ih =>
    obtain ⟨hsize, hbits⟩ := ih
    rw [List.foldl_append, List.foldl_cons, List.foldl_nil, lastWriter_append_singleton]
    generalize cs.foldl (step K dev) (initialised K sys ioapic lapic log) = s at hsize hbits ⊢
    rcases ioapic_step K dev s c with ⟨masked, v, rfl, hstep⟩ | ⟨hwrites, hstep⟩
    · refine ⟨by rw [hstep, Ioapic.setMasked_mre, hsize], ?_⟩
      rw [entry, hstep, Ioapic.setMasked_regs]
      have hreaches := entryReg_eq_low_iff (t := s.board.kernel.ioapic) (v := v)
        (show i < s.board.kernel.ioapic.mre by omega)
      rw [maskWrites]
      by_cases hv : v.toNat = 32 + i ∨ v.toNat = 160 + i
      · obtain ⟨hin, hreg⟩ := hreaches.mpr hv
        by_cases hj : j = 16
        · rw [if_pos ⟨hin, hreg, hj⟩, if_pos hj, if_pos hv]
          rfl
        · rw [if_neg (fun h => hj h.2.2), if_neg hj]
          rwa [if_neg hj] at hbits
      · rw [if_neg (fun h => hv (hreaches.mp ⟨h.1, h.2.1⟩)), if_neg hv]
        exact hbits
    · refine ⟨by rw [hstep, hsize], ?_⟩
      rw [entry, hstep, hwrites]
      exact hbits

/-- Line 1 is masked by its own vector and unmasked by vector 161. -/
theorem entries_lastWriter_161 :
    (entry ([.setMasked true 33, .setMasked false 161].foldl (step smallHandlers fun _ _ => 0)
      (initialised smallHandlers .blank Ioapic.reset Lapic.powerOn [])) 1).getLsbD 16 = false :=
  entries_lastWriter smallHandlers (fun _ _ => 0) .blank Lapic.powerOn []
    [.setMasked true 33, .setMasked false 161] (show 1 < Ioapic.reset.mre by decide) 16

end BasicX86Kernel.Delivery
