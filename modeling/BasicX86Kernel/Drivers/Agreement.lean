import BasicX86Kernel.Drivers.Polling
import BasicX86Kernel.Drivers.Setup

/-! The command byte that `i8042_init` issues, the callbacks it registers and the interfaces it
enables, by what the tests return. -/

namespace BasicX86Kernel.Drivers

open Machine I8042

/-- What the calls of `i8042_command_get` return. -/
structure InitReplies where
  commandByte : Byte
  selfTest : Byte
  keyboard : Byte
  mouse : Byte

/-- The commands of `i8042_init` that are answered, and what precedes them.  The last one is sent
only where there is a second channel. -/
def initReplies : Driver InitReplies := do
  let commandByte ← commandByteRead
  let selfTest ← i8042CommandGet controllerSelfTest
  let keyboard ← i8042CommandGet keyboardInterfaceTest
  let mouse ← i8042CommandGet mouseInterfaceTest
  pure { commandByte, selfTest, keyboard, mouse }

namespace InitReplies

def keyboardPassed (r : InitReplies) : Bool := r.keyboard = 0x00

def mousePassed (r : InitReplies) : Bool := mousePortClock r.commandByte && r.mouse = 0x00

theorem keyboardPassed_iff (r : InitReplies) : r.keyboardPassed = true ↔ r.keyboard = 0x00 :=
  decide_eq_true_iff

theorem mousePassed_iff (r : InitReplies) :
    r.mousePassed = true ↔ r.commandByte.getLsbD 5 = true ∧ r.mouse = 0x00 := by
  rw [mousePassed, Bool.and_eq_true, decide_eq_true_eq]
  rfl

/-- The command byte read, with the bits of the interfaces that have passed. -/
def configured (r : InitReplies) : Byte :=
  configure (cleared r.commandByte) r.keyboardPassed r.mousePassed

theorem configured_getLsbD (r : InitReplies) (i : Nat) : r.configured.getLsbD i
    = if i = 2 ∨ i = 6 then true else if i = 0 then r.keyboardPassed
      else if i = 1 then r.mousePassed else r.commandByte.getLsbD i := by
  rw [configured, configure_getLsbD, cleared_getLsbD]
  by_cases h0 : i = 0
  · simp [h0]
  · by_cases h1 : i = 1 <;> simp [h0, h1]

end InitReplies

/-! ### Transfers -/

/-- The command that a command byte follows, and those that enable an interface. -/
def issuing : List Byte := [writeCommandByte, enableKeyboardInterface, enableMouseInterface]

/-- None of these commands is sent. -/
def Quiet (t : List Transfer) : Prop := ∀ c ∈ issuing, .outb controlPort c ∉ t

theorem quiet_append {t t' : List Transfer} : Quiet (t ++ t') ↔ Quiet t ∧ Quiet t' := by
  simp only [Quiet, List.mem_append, not_or, imp_and, forall_and]

theorem quiet_command {c : Byte} {t : List Transfer} :
    Quiet (.outb controlPort c :: t) ↔ c ∉ issuing ∧ Quiet t := by
  simp only [Quiet, List.mem_cons, Transfer.outb.injEq, true_and, not_or, imp_and, forall_and]
  exact and_congr_left fun _ => ⟨fun h hc => h c hc rfl, fun h c' hc' he => h (he ▸ hc')⟩

theorem quiet_nil : Quiet [] := fun _ _ => List.not_mem_nil

theorem quiet_inputs (rs : List (Port × Byte)) : Quiet (inputs rs) :=
  fun _ _ => outb_notMem_inputs rs

section

variable (dev : Device) (log : List Transfer)

theorem quiet_i8042Write (v : Byte) : Quiet ((i8042Write v).trace dev log) := by
  rw [i8042Write_trace, quiet_append]
  refine ⟨quiet_inputs _, fun c _ => ?_⟩
  split
  · exact List.not_mem_nil
  · intro h
    obtain ⟨hport, -⟩ := Transfer.outb.inj (List.mem_singleton.mp h)
    exact controlPort_ne_dataPort hport

theorem quiet_interfaceTests (dual : Bool) : Quiet (interfaceTests dev log dual) := by
  rw [interfaceTests, quiet_command, quiet_append, mouseTested_trace]
  refine ⟨by decide, quiet_inputs _, ?_⟩
  split
  · exact quiet_command.mpr ⟨by decide, quiet_inputs _⟩
  · exact quiet_nil

/-- `i8042_init` up to the self test. -/
def selfTested : Driver (Byte × Byte) := do
  let commandByte ← commandByteRead
  let selfTest ← i8042CommandGet controllerSelfTest
  pure (commandByte, selfTest)

theorem quiet_selfTested : Quiet (selfTested.trace dev log) := by
  rw [selfTested, commandByteRead]
  simp only [Driver.trace_bind, commandGet_trace, i8042Command, Driver.trace_outb, i8042Read_trace,
    Driver.trace_pure, quiet_append, quiet_command, quiet_inputs, quiet_nil, and_true]
  decide

/-- What the replies are, by the log when the self test has been read. -/
theorem initReplies_result : initReplies.result dev log
    = { commandByte := (selfTested.result dev log).1
        selfTest := (selfTested.result dev log).2
        keyboard := keyboardReply dev (log ++ selfTested.trace dev log)
        mouse := mouseReply dev (log ++ selfTested.trace dev log) } := by
  rw [initReplies, selfTested]
  simp only [Driver.result_bind, Driver.trace_bind, commandGet_result, commandGet_trace,
    Driver.result_pure, Driver.trace_pure, List.append_nil, ← List.append_assoc]
  rfl

theorem i8042Init_selfTested : I8042.i8042Init = (do
    let p ← selfTested
    if p.2 = 0x55 then I8042.i8042Interfaces (cleared p.1) (mousePortClock (cleared p.1))) := by
  simp only [i8042Init_eq, selfTested, Driver.bind_assoc]
  rfl

theorem mousePortClock_cleared (cb : Byte) : mousePortClock (cleared cb) = mousePortClock cb :=
  cleared_getLsbD cb 5

/-- Nothing is issued before the tests, and nothing at all when the self test fails. -/
theorem i8042Init_trace : ∃ before, Quiet before ∧ I8042.i8042Init.trace dev log
    = before ++ if (initReplies.result dev log).selfTest = 0x55 then
        issue dev (log ++ before) (initReplies.result dev log).configured else [] := by
  have hpre := quiet_selfTested dev log
  rw [initReplies_result, i8042Init_selfTested, Driver.trace_bind]
  generalize selfTested.trace dev log = pre at hpre ⊢
  generalize selfTested.result dev log = p
  by_cases h55 : p.2 = 0x55
  · refine ⟨pre ++ interfaceTests dev (log ++ pre) (mousePortClock p.1),
      quiet_append.mpr ⟨hpre, quiet_interfaceTests dev _ _⟩, ?_⟩
    rw [if_pos h55, if_pos h55, i8042Interfaces_trace, mousePortClock_cleared, List.append_assoc,
      List.append_assoc]
    rfl
  · refine ⟨pre, hpre, ?_⟩
    rw [if_neg h55, if_neg h55]
    rfl

end

/-! ### Callbacks -/

/-- The registrations of `i8042_init`. -/
def registrations (K : DriverImage) (keyboard mouse : Bool) : List (BitVec 8 × Word) :=
  (if keyboard then [(33, K.i8042IrqHandler)] else [])
    ++ if mouse then [(44, K.i8042IrqHandler)] else []

section

variable (K : DriverImage) (dev : Device) (log : List Transfer) (k : Kernel)

theorem enableIf_mem (enabled : Bool) (fmt : String) (command : Byte) :
    (((enableIf enabled fmt command).run k).result dev log).2.sys.mem = k.sys.mem := by
  cases enabled with
  | false => rfl
  | true => rfl

theorem i8042Interfaces_mem (cb : Byte) (dual : Bool) :
    (((i8042Interfaces K cb dual).run k).result dev log).2.sys.mem
      = setHandlers K.idt k.sys.mem (registrations K (keyboardReply dev log = 0x00)
        (dual && mouseReply dev log = 0x00)) := by
  have hkeyboard : log ++ .outb controlPort keyboardInterfaceTest
      :: inputs (heard dev (log ++ [.outb controlPort keyboardInterfaceTest]))
        = afterKeyboard dev log := rfl
  rw [i8042Interfaces, printk, result_effect_bind, result_driver_bind, commandGet_trace,
    commandGet_result, hkeyboard, ← keyboardReply]
  obtain ⟨f, hf, hfmem⟩ := interfaceTested_effect K (keyboardReply dev log = 0x00) 33
  dsimp only
  rw [hf, result_effect_bind, printk, result_effect_bind, result_driver_bind,
    mouseTested_afterKeyboard]
  obtain ⟨g, hg, hgmem⟩ := interfaceTested_effect K (dual && mouseReply dev log = 0x00) 44
  rw [hg, result_effect_bind, result_driver_bind, StateT.run_bind, Driver.result_bind, enableIf_mem,
    enableIf_mem, hgmem, System.printk_mem, hfmem, System.printk_mem, registrations,
    setHandlers, setHandlers, setHandlers, List.foldl_append]

theorem i8042Init_mem : (((i8042Init K).run k).result dev log).2.sys.mem
    = if (initReplies.result dev log).selfTest = 0x55 then
        setHandlers K.idt k.sys.mem (registrations K (initReplies.result dev log).keyboardPassed
          (initReplies.result dev log).mousePassed)
      else k.sys.mem := by
  rw [initReplies_result, selfTested, commandByteRead]
  simp only [Driver.trace_bind, Driver.result_bind, Driver.trace_pure, Driver.result_pure,
    List.append_nil, ← List.append_assoc, InitReplies.keyboardPassed, InitReplies.mousePassed]
  rw [i8042Init, printk, result_effect_bind, result_driver_bind, result_driver_bind,
    result_driver_bind, result_driver_bind]
  generalize (i8042CommandGet readCommandByte).result dev _ = cb
  generalize _ ++ (i8042CommandGet readCommandByte).trace dev _ = log'
  obtain ⟨f, hf, hfmem⟩ := printkIf_effect (mousePortClock (cleared cb))
    "    detected dual channel controller\n"
  dsimp only
  rw [← cleared, hf, result_effect_bind, printk, result_effect_bind, result_driver_bind]
  by_cases h55 : (i8042CommandGet controllerSelfTest).result dev log' = 0x55
  · rw [if_pos h55, if_pos h55, printk, result_effect_bind, i8042Interfaces_mem,
      mousePortClock_cleared, System.printk_mem, System.printk_mem, hfmem, System.printk_mem]
  · rw [if_neg h55, if_neg h55]
    exact hfmem _

end

/-! ### Agreement -/

/-- The interrupt of an interface is on just when its callback has been set and just when its enable
command has been sent, which is behind the command byte. -/
structure InterfaceAgrees (K : DriverImage) (m m' : Mem) (t after : List Transfer)
    (interrupt : Bool) (vector : BitVec 8) (enable : Byte) : Prop where
  callback : m'.read32 (K.idt.callbackAddr vector.toNat)
    = if interrupt then K.i8042IrqHandler else m.read32 (K.idt.callbackAddr vector.toNat)
  sent : .outb controlPort enable ∈ t ↔ interrupt = true
  order : .outb controlPort enable ∈ t → .outb controlPort enable ∈ after

/-- The transfers `t` issue one command byte, `cb`, behind `before`, and the interfaces agree with
it: nothing is issued or enabled before that command, nor while its byte is written. -/
structure Issues (K : DriverImage) (dev : Device) (log : List Transfer) (m m' : Mem)
    (t : List Transfer) (r : InitReplies) (before after : List Transfer) (cb : Byte) : Prop where
  issued : t = before ++ .outb controlPort writeCommandByte
    :: ((i8042Write cb).trace dev (log ++ before ++ [.outb controlPort writeCommandByte]) ++ after)
  quiet : Quiet before
  quietWrite :
    Quiet ((i8042Write cb).trace dev (log ++ before ++ [.outb controlPort writeCommandByte]))
  once : t.count (.outb controlPort writeCommandByte) = 1
  translation : cb.getLsbD 6 = true
  systemFlag : cb.getLsbD 2 = true
  keyboardBit : cb.getLsbD 0 = true ↔ r.keyboard = 0x00
  mouseBit : cb.getLsbD 1 = true ↔ r.commandByte.getLsbD 5 = true ∧ r.mouse = 0x00
  rest : ∀ i, i ∉ [0, 1, 2, 6] → cb.getLsbD i = r.commandByte.getLsbD i
  registered : m' = setHandlers K.idt m (registrations K (cb.getLsbD 0) (cb.getLsbD 1))
  keyboard : InterfaceAgrees K m m' t after (cb.getLsbD 0) 33 enableKeyboardInterface
  mouse : InterfaceAgrees K m m' t after (cb.getLsbD 1) 44 enableMouseInterface

theorem mem_enables (cb : Byte) :
    (.outb controlPort writeCommandByte ∉ enables cb)
      ∧ (.outb controlPort enableKeyboardInterface ∈ enables cb ↔ cb.getLsbD 0 = true)
      ∧ (.outb controlPort enableMouseInterface ∈ enables cb ↔ cb.getLsbD 1 = true) := by
  rw [enables, keyboardInterrupt, mouseInterrupt]
  cases cb.getLsbD 0 <;> cases cb.getLsbD 1 <;> decide

/-- A command that is sent is sent behind the command byte. -/
theorem mem_issued {before written : List Transfer} (hb : Quiet before) (hw : Quiet written)
    (after : List Transfer) {c : Byte} (hc : c ∈ issuing) (hne : c ≠ writeCommandByte) :
    .outb controlPort c ∈ before ++ .outb controlPort writeCommandByte :: (written ++ after)
      ↔ .outb controlPort c ∈ after := by
  simp [hb c hc, hw c hc, hne]

theorem count_issued {before written after : List Transfer} (hb : Quiet before)
    (hw : Quiet written) (ha : .outb controlPort writeCommandByte ∉ after) :
    (before ++ .outb controlPort writeCommandByte :: (written ++ after)).count
      (.outb controlPort writeCommandByte) = 1 := by
  have hc : writeCommandByte ∈ issuing := by decide
  rw [List.count_append, List.count_cons_self, List.count_append, List.count_eq_zero.mpr (hb _ hc),
    List.count_eq_zero.mpr (hw _ hc), List.count_eq_zero.mpr ha]

theorem registrations_callback (K : DriverImage) (m : Mem) (keyboard mouse : Bool) :
    (setHandlers K.idt m (registrations K keyboard mouse)).read32 (K.idt.callbackAddr 33)
        = (if keyboard then K.i8042IrqHandler else m.read32 (K.idt.callbackAddr 33))
      ∧ (setHandlers K.idt m (registrations K keyboard mouse)).read32 (K.idt.callbackAddr 44)
        = if mouse then K.i8042IrqHandler else m.read32 (K.idt.callbackAddr 44) := by
  have hcalls : ∀ c ∈ registrations K keyboard mouse, c.1 ≠ 255 := by
    cases keyboard <;> cases mouse <;> simp [registrations]
  have hkeyboard := (setHandlers_frame (l := K.idt) (m := m) hcalls (w := 33) (by decide)).2.2
  have hmouse := (setHandlers_frame (l := K.idt) (m := m) hcalls (w := 44) (by decide)).2.2
  refine ⟨hkeyboard.trans ?_, hmouse.trans ?_⟩
  · cases keyboard <;> cases mouse <;> rfl
  · cases keyboard <;> cases mouse <;> rfl

theorem issues_configured (K : DriverImage) (dev : Device) (log : List Transfer) (m : Mem)
    (r : InitReplies) {before : List Transfer} (hquiet : Quiet before) :
    Issues K dev log m
      (setHandlers K.idt m (registrations K r.keyboardPassed r.mousePassed))
      (before ++ issue dev (log ++ before) r.configured) r before (enables r.configured)
      r.configured := by
  have hbits := r.configured_getLsbD
  have hkeyboard : r.configured.getLsbD 0 = r.keyboardPassed := hbits 0
  have hmouse : r.configured.getLsbD 1 = r.mousePassed := hbits 1
  have hwrite := quiet_i8042Write dev (log ++ before ++ [.outb controlPort writeCommandByte])
    r.configured
  obtain ⟨hnone, hsent₁, hsent₂⟩ := mem_enables r.configured
  have hmem₁ := mem_issued hquiet hwrite (enables r.configured)
    (show enableKeyboardInterface ∈ issuing by decide) (by decide)
  have hmem₂ := mem_issued hquiet hwrite (enables r.configured)
    (show enableMouseInterface ∈ issuing by decide) (by decide)
  rw [← hkeyboard, ← hmouse]
  obtain ⟨hcallback₁, hcallback₂⟩ := registrations_callback K m (r.configured.getLsbD 0)
    (r.configured.getLsbD 1)
  constructor
  · rfl
  · exact hquiet
  · exact hwrite
  · exact count_issued hquiet hwrite hnone
  · exact hbits 6
  · exact hbits 2
  · rw [hkeyboard, r.keyboardPassed_iff]
  · rw [hmouse, r.mousePassed_iff]
  · intro i hi
    simp only [List.mem_cons, List.not_mem_nil, or_false, not_or] at hi
    rw [hbits, if_neg (by tauto), if_neg hi.1, if_neg hi.2.1]
  · rfl
  · exact ⟨hcallback₁, hmem₁.trans hsent₁, hmem₁.mp⟩
  · exact ⟨hcallback₂, hmem₂.trans hsent₂, hmem₂.mp⟩

/-- Controller, callbacks and interfaces agree after the initialisation, whatever the controller
answers. -/
theorem i8042Init_agreement (K : DriverImage) (dev : Device) (log : List Transfer) (k : Kernel) :
    let r := initReplies.result dev log
    let t := ((i8042Init K).run k).trace dev log
    let m' := (((i8042Init K).run k).result dev log).2.sys.mem
    if r.selfTest = 0x55 then
      ∃ before after cb, Issues K dev log k.sys.mem m' t r before after cb
    else Quiet t ∧ m' = k.sys.mem := by
  intro r t m'
  obtain ⟨before, hquiet, htrace⟩ := i8042Init_trace dev log
  have ht : t = _ := (does_i8042Init K dev log k).1.trans htrace
  have hm : m' = _ := i8042Init_mem K dev log k
  by_cases h55 : r.selfTest = 0x55
  · rw [if_pos h55] at ht hm ⊢
    rw [ht, hm]
    exact ⟨before, _, _, issues_configured K dev log k.sys.mem r hquiet⟩
  · rw [if_neg h55] at ht hm ⊢
    rw [ht, List.append_nil]
    exact ⟨hquiet, hm⟩

end BasicX86Kernel.Drivers
