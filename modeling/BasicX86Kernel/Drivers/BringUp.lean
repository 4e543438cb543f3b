import BasicX86Kernel.Drivers.Ps2

/-! What the initialisation of the controller, the keyboard and the mouse brings the hardware and
the kernel to. -/

namespace BasicX86Kernel.Drivers

open Machine I8042 Ps2

/-! ### Runs of the setup -/

section

variable {σ α β : Type} {P : Peripheral σ} {n : Nat} {s : σ} {k : Kernel}
  {post : α × Kernel → Nat → σ → Prop}

theorem wp_run_bind {x : Setup β} {f : β → Setup α} : P.wp ((x >>= f).run k) post n s
    ↔ P.wp (x.run k) (fun r => P.wp ((f r.1).run r.2) post) n s := by
  rw [StateT.run_bind, Peripheral.wp_bind]

theorem wp_run_driver {d : Driver α} :
    P.wp ((liftM d : Setup α).run k) post n s ↔ P.wp d (fun a => post (a, k)) n s := by
  rw [run_driver, Peripheral.wp_bind]
  exact Iff.rfl

theorem wp_run_effect {f : Kernel → Kernel} {post : Unit × Kernel → Nat → σ → Prop} :
    P.wp ((effect f).run k) post n s ↔ post ((), f k) n s := Iff.rfl

end

/-- What the setup leaves in the kernel's state: the messages printed and the callbacks set since,
and what it makes of the I/O APIC. -/
structure Leaves (K : DriverImage) (fmts : List String) (calls : List (BitVec 8 × Word))
    (masks : Ioapic.State → Ioapic.State) (k k' : Kernel) : Prop where
  printed : k'.sys.printed = k.sys.printed ++ fmts.map (⟨·, []⟩)
  mem : k'.sys.mem = setHandlers K.idt k.sys.mem calls
  ioapic : k'.ioapic = masks k.ioapic

section

variable {K : DriverImage} {k k' k'' : Kernel} {fmts fmts' : List String}
  {calls calls' : List (BitVec 8 × Word)} {masks masks' : Ioapic.State → Ioapic.State}

theorem Leaves.refl : Leaves K [] [] id k k := ⟨by simp, rfl, rfl⟩

theorem Leaves.trans (h : Leaves K fmts calls masks k k')
    (h' : Leaves K fmts' calls' masks' k' k'') :
    Leaves K (fmts ++ fmts') (calls ++ calls') (masks' ∘ masks) k k'' where
  printed := by rw [h'.printed, h.printed, List.map_append, List.append_assoc]
  mem := by rw [h'.mem, h.mem, setHandlers, setHandlers, setHandlers, List.foldl_append]
  ioapic := by rw [h'.ioapic, h.ioapic, Function.comp_apply]

theorem Leaves.callback (h : Leaves K fmts calls masks k k') (hcalls : ∀ c ∈ calls, c.1 ≠ 255)
    {w : BitVec 8} (hw : w ≠ 255) : k'.sys.mem.read32 (K.idt.callbackAddr w.toNat)
      = lastHandler w (k.sys.mem.read32 (K.idt.callbackAddr w.toNat)) calls := by
  rw [h.mem]
  exact (setHandlers_frame hcalls hw).2.2

theorem leaves_printk (fmt : String) :
    Leaves K [fmt] [] id k { k with sys := k.sys.printk fmt [] } := ⟨rfl, rfl, rfl⟩

end

/-! ### `i8042_init` -/

/-- The settings with another command byte, when no byte for it is expected. -/
def withCommandByte (g : Settings) (cb : Byte) : Settings :=
  { g with
    commandByte := cb
    target := .keyboard }

/-- Both interfaces disabled, as the tests find them. -/
def disabled (g : Settings) : Settings :=
  withCommandByte g (withMouseDisabled (withKeyboardDisabled g.commandByte true) true)

/-- The interfaces that have passed, enabled. -/
def enabledFor (cb : Byte) (keyboard mouse : Bool) : Byte :=
  let cb := if keyboard then withKeyboardDisabled cb false else cb
  if mouse then withMouseDisabled cb false else cb

/-- The command byte that is issued. -/
def issued (g : Settings) (keyboard mouse : Bool) : Byte :=
  configure (cleared (disabled g).commandByte) keyboard mouse

/-- What `i8042_init` leaves when the self test passes. -/
def afterInit (g : Settings) (keyboard mouse : Bool) : Settings :=
  withCommandByte g (enabledFor (issued g keyboard mouse) keyboard mouse)

variable {H : Hardware} {K : DriverImage} {g u : Settings} {s : Ps2.State} {k : Kernel} {n : Nat}

theorem disabled_commandByte (g : Settings) (i : Nat) : (disabled g).commandByte.getLsbD i
    = if i = 4 ∨ i = 5 then true else g.commandByte.getLsbD i := by
  rw [disabled, withCommandByte, withMouseDisabled, withKeyboardDisabled,
    setField_getLsbD _ 5 i _ (by decide), setField_getLsbD _ 4 i _ (by decide)]
  by_cases h : i = 5 <;> simp [h]

theorem disabled_scans (g : Settings) : (disabled g).scans = false := by
  rw [Settings.scans, keyboardDisabled, disabled_commandByte]
  simp

theorem disabled_reports (g : Settings) : (disabled g).reports = false := by
  rw [Settings.reports, mouseDisabled, disabled_commandByte]
  simp

theorem clearIf_getLsbD (c : Bool) (b : Byte) (i j : Nat) (hi : i < 8) :
    (if c then setField b i false else b).getLsbD j
      = if j = i then !c && b.getLsbD j else b.getLsbD j := by
  cases c with
  | false => simp
  | true => simpa using setField_getLsbD b i j false hi

theorem enabledFor_getLsbD (cb : Byte) (keyboard mouse : Bool) (i : Nat) :
    (enabledFor cb keyboard mouse).getLsbD i = if i = 4 then !keyboard && cb.getLsbD i
      else if i = 5 then !mouse && cb.getLsbD i else cb.getLsbD i := by
  unfold enabledFor withKeyboardDisabled withMouseDisabled
  rw [clearIf_getLsbD _ _ 5 i (by decide), clearIf_getLsbD _ _ 4 i (by decide)]
  by_cases h5 : i = 5 <;> simp [h5]

/-- The bits of the command byte that `i8042_init` leaves. -/
theorem afterInit_commandByte (g : Settings) (keyboard mouse : Bool) (i : Nat) :
    (afterInit g keyboard mouse).commandByte.getLsbD i
      = if i = 0 then keyboard else if i = 1 then mouse else if i = 2 ∨ i = 6 then true
        else if i = 4 then !keyboard else if i = 5 then !mouse else g.commandByte.getLsbD i := by
  rw [afterInit, withCommandByte, enabledFor_getLsbD, issued, configure_getLsbD, cleared_getLsbD,
    disabled_commandByte]
  by_cases h0 : i = 0
  · simp [h0]
  by_cases h1 : i = 1
  · simp [h1]
  by_cases h4 : i = 4
  · simp [h4]
  by_cases h5 : i = 5
  · simp [h5]
  simp [h0, h1, h4, h5]

/-! ### Messages -/

def verdict (passed : Bool) : String := if passed then "pass\n" else "fail\n"

def enabling (enabled : Bool) (fmt : String) : List String := if enabled then [fmt] else []

theorem interfaceTested_leaves (K : DriverImage) (passed : Bool) (vector : BitVec 8) :
    ∃ f, interfaceTested K passed vector = effect f ∧ ∀ k, Leaves K [verdict passed]
      (if passed then [(vector, K.i8042IrqHandler)] else []) id k (f k) := by
  cases passed with
  | false => exact ⟨_, rfl, fun _ => ⟨rfl, rfl, rfl⟩⟩
  | true =>
    refine ⟨fun k => { k with
      sys := { k.sys.printk "pass\n" [] with
        mem := idtSetInterruptHandler K.idt k.sys.mem vector K.i8042IrqHandler } }, rfl, ?_⟩
    exact fun _ => ⟨rfl, rfl, rfl⟩

theorem wp_run_printk {fmt : String} {post : Unit × Kernel → Nat → Ps2.State → Prop} :
    H.peripheral.wp ((printk fmt).run k) post n s
      ↔ post ((), { k with sys := k.sys.printk fmt [] }) n s := Iff.rfl

theorem reports_of_reporting (h : g.reporting = false) : g.reports = false := by
  rw [Settings.reports, h, Bool.false_and]

theorem withCommandByte_reports (h : g.reporting = false) (cb : Byte) :
    (withCommandByte g cb).reports = false :=
  reports_of_reporting h

/-- The interface that has passed is enabled, by a bit of the command byte. -/
theorem enableIf_run {fmt : String} {c cb cb' : Byte} (enabled : Bool)
    (h : Idle (withCommandByte g cb) s) (hreporting : g.reporting = false)
    (hcommand : H.command (withCommandByte g cb) c = (withCommandByte g cb', none))
    (hdisabled : keyboardDisabled cb' = true → keyboardDisabled cb = true) :
    H.peripheral.wp ((enableIf enabled fmt c).run k) (fun r _ s' =>
      Idle (withCommandByte g (if enabled then cb' else cb)) s'
        ∧ Leaves K (enabling enabled fmt) [] id k r.2) n s := by
  have hscans : (withCommandByte g cb).scans = true → (withCommandByte g cb').scans = true := by
    simp only [Settings.scans, withCommandByte, Bool.and_eq_true, Bool.not_eq_true']
    refine And.imp_right fun hfalse => Bool.eq_false_iff.mpr fun htrue => ?_
    exact absurd (hfalse.symm.trans (hdisabled htrue)) (by decide)
  cases enabled with
  | false => exact ⟨h, .refl⟩
  | true =>
    refine wp_run_bind.mpr (wp_run_printk.mpr (wp_run_driver.mpr ?_))
    refine (command_tell h (withCommandByte_reports hreporting cb) hcommand hscans).mono ?_
    exact fun _ _ _ hidle => ⟨hidle, leaves_printk _⟩

theorem keyboardDisabled_withMouseDisabled (cb : Byte) (value : Bool) :
    keyboardDisabled (withMouseDisabled cb value) = keyboardDisabled cb := by
  rw [keyboardDisabled, withMouseDisabled, setField_getLsbD _ 5 4 _ (by decide)]
  rfl

theorem keyboardDisabled_withKeyboardDisabled (cb : Byte) (value : Bool) :
    keyboardDisabled (withKeyboardDisabled cb value) = value := by
  rw [keyboardDisabled, withKeyboardDisabled, setField_getLsbD _ 4 4 _ (by decide)]
  rfl

/-- What remains of `i8042_init` when the command byte is known. -/
def enableInterfaces (cb : Byte) : Setup Unit := do
  i8042CommandSet writeCommandByte cb
  enableIf (keyboardInterrupt cb) "    enabling keyboard interface\n" enableKeyboardInterface
  enableIf (mouseInterrupt cb) "    enabling mouse interface\n" enableMouseInterface

/-- The command byte is written, and the interfaces that have passed are enabled. -/
theorem enableInterfaces_run {cb cb' : Byte} (h : Idle (withCommandByte g cb) s)
    (hreporting : g.reporting = false) (hscans : (withCommandByte g cb).scans = false) :
    H.peripheral.wp ((enableInterfaces cb').run k) (fun r _ s' =>
      Idle (withCommandByte g (enabledFor cb' (keyboardInterrupt cb') (mouseInterrupt cb'))) s'
        ∧ Leaves K (enabling (keyboardInterrupt cb') "    enabling keyboard interface\n"
            ++ enabling (mouseInterrupt cb') "    enabling mouse interface\n") [] id k r.2)
      n s := by
  refine wp_run_bind.mpr (wp_run_driver.mpr ?_)
  rw [i8042CommandSet, Peripheral.wp_bind]
  refine (command_tell (u := { withCommandByte g cb with target := .commandByte }) h
    (withCommandByte_reports hreporting cb) rfl id).mono ?_
  intro _ n₁ s₁ h₁
  refine (write_tell (u := withCommandByte g cb') h₁ (reports_of_reporting hreporting) rfl
    ?_).mono ?_
  · intro htrue
    exact absurd (hscans.symm.trans htrue) (by decide)
  intro _ n₂ s₂ h₂
  refine wp_run_bind.mpr ((enableIf_run (K := K) (keyboardInterrupt cb') h₂ hreporting rfl
    ?_).mono ?_)
  · rw [keyboardDisabled_withKeyboardDisabled]
    exact fun hfalse => absurd hfalse (by decide)
  rintro ⟨_, k₃⟩ n₃ s₃ ⟨h₃, hk₃⟩
  refine (enableIf_run (K := K) (mouseInterrupt cb') h₃ hreporting rfl ?_).mono ?_
  · rw [keyboardDisabled_withMouseDisabled]
    exact id
  rintro ⟨_, k₄⟩ n₄ s₄ ⟨h₄, hk₄⟩
  exact ⟨h₄, hk₃.trans hk₄⟩

/-- The command byte that is issued has the interrupts of the interfaces that have passed. -/
theorem configure_interrupts {cb : Byte} (keyboard mouse : Bool) (h0 : cb.getLsbD 0 = false)
    (h1 : cb.getLsbD 1 = false) : keyboardInterrupt (configure cb keyboard mouse) = keyboard
      ∧ mouseInterrupt (configure cb keyboard mouse) = mouse := by
  rw [keyboardInterrupt, mouseInterrupt, configure_getLsbD, configure_getLsbD, h0, h1]
  simp

/-- What the interface tests and what follows them print. -/
def testMessages (keyboard mouse : Bool) : List String :=
  ["    keyboard interface test: ", verdict keyboard, "    mouse interface test: ", verdict mouse]
    ++ enabling keyboard "    enabling keyboard interface\n"
    ++ enabling mouse "    enabling mouse interface\n"

/-- The part of `i8042_init` behind the self test. -/
theorem i8042Interfaces_run {cb cb' : Byte} (h : Idle (withCommandByte g cb) s)
    (hreporting : g.reporting = false) (hscans : (withCommandByte g cb).scans = false)
    (h0 : cb'.getLsbD 0 = false) (h1 : cb'.getLsbD 1 = false) :
    H.peripheral.wp ((i8042Interfaces K cb' true).run k) (fun r _ s' =>
      let keyboard := decide (H.keyboardTest = 0x00)
      let mouse := decide (H.mouseTest = 0x00)
      Idle (withCommandByte g (enabledFor (configure cb' keyboard mouse) keyboard mouse)) s'
        ∧ Leaves K (testMessages keyboard mouse) (registrations K keyboard mouse) id k r.2)
      n s := by
  have hreports := withCommandByte_reports hreporting cb
  refine wp_run_bind.mpr (wp_run_printk.mpr (wp_run_bind.mpr (wp_run_driver.mpr ?_)))
  refine (command_get (o := ⟨H.keyboardTest, false⟩) h hreports rfl hscans hscans).mono ?_
  rintro _ n₁ s₁ ⟨rfl, h₁⟩
  obtain ⟨f, hf, hfleaves⟩ := interfaceTested_leaves K (H.keyboardTest = 0x00) 33
  dsimp only
  rw [hf]
  refine wp_run_bind.mpr (wp_run_effect.mpr (wp_run_bind.mpr (wp_run_printk.mpr
    (wp_run_bind.mpr (wp_run_driver.mpr ?_)))))
  rw [mouseTested, if_pos rfl, Peripheral.wp_bind]
  refine (command_get (o := ⟨H.mouseTest, false⟩) h₁ hreports rfl hscans hscans).mono ?_
  rintro _ n₂ s₂ ⟨rfl, h₂⟩
  obtain ⟨f', hf', hfleaves'⟩ := interfaceTested_leaves K (H.mouseTest = 0x00) 44
  rw [Peripheral.wp_pure]
  dsimp only
  rw [hf']
  refine wp_run_bind.mpr (wp_run_effect.mpr ?_)
  have hcb : (if H.keyboardTest = 0x00 then withKeyboardInterrupt cb' true else cb')
      = if decide (H.keyboardTest = 0x00) then withKeyboardInterrupt cb' true else cb' := by
    simp only [decide_eq_true_eq]
  rw [hcb]
  generalize decide (H.keyboardTest = 0x00) = keyboard at *
  generalize decide (H.mouseTest = 0x00) = mouse at *
  obtain ⟨hkeyboard, hmouse⟩ := configure_interrupts keyboard mouse h0 h1
  change H.peripheral.wp ((enableInterfaces (configure cb' keyboard mouse)).run _) _ _ _
  refine (enableInterfaces_run (K := K) h₂ hreporting hscans).mono ?_
  rw [hkeyboard, hmouse]
  rintro ⟨_, k₃⟩ n₃ s₃ ⟨h₃, hk₃⟩
  have hk₁ := (leaves_printk (K := K) (k := k) "    keyboard interface test: ").trans (hfleaves _)
  have hk₂ := hk₁.trans ((leaves_printk "    mouse interface test: ").trans (hfleaves' _))
  exact ⟨h₃, by simpa [testMessages, registrations] using hk₂.trans hk₃⟩

/-- What `i8042_init` prints about a controller of two interfaces before the tests of these. -/
def selfTestMessages (passed : Bool) : List String :=
  ["Initializing Keyborad & Mouse i8042 !\n", "    detected dual channel controller\n",
    "    controller self test: ", verdict passed]

/-- What `i8042_init` leaves, by what the tests return. -/
def InitLeaves (H : Hardware) (K : DriverImage) (g : Settings) (k k' : Kernel) (s' : Ps2.State) :
    Prop :=
  let keyboard := decide (H.keyboardTest = 0x00)
  let mouse := decide (H.mouseTest = 0x00)
  if H.selfTest = 0x55 then
    Idle (afterInit g keyboard mouse) s'
      ∧ Leaves K (selfTestMessages true ++ testMessages keyboard mouse)
        (registrations K keyboard mouse) id k k'
  else
    Idle (withCommandByte g (H.resets (disabled g).commandByte)) s'
      ∧ Leaves K (selfTestMessages false) [] id k k'

/-- A controller of two interfaces shows the one of the mouse disabled. -/
theorem disabled_dual (g : Settings) :
    mousePortClock (cleared (disabled g).commandByte) = true := by
  rw [mousePortClock, cleared_getLsbD, disabled_commandByte]
  rfl

theorem resets_scans (g : Settings) :
    (withCommandByte g (H.resets (disabled g).commandByte)).scans = false := by
  rw [Settings.scans, withCommandByte, H.resets_keyboard, keyboardDisabled, disabled_commandByte]
  simp

/-- The commands that disable both interfaces, and the read that empties the output buffer. -/
theorem i8042Init_run (hreply : s.reply = none) (hreporting : s.settings.reporting = false) :
    H.peripheral.wp ((i8042Init K).run k)
      (fun r _ s' => InitLeaves H K s.settings k r.2 s') n s := by
  have hreports : ∀ cb, (withCommandByte s.settings cb).reports = false :=
    withCommandByte_reports hreporting
  refine wp_run_bind.mpr (wp_run_printk.mpr (wp_run_bind.mpr (wp_run_driver.mpr ?_)))
  refine (command_blind hreply rfl).mono ?_
  rintro _ n₁ s₁ ⟨hsettings₁, hreply₁⟩
  refine wp_run_bind.mpr (wp_run_driver.mpr ((command_blind (u := disabled s.settings) hreply₁
    (by rw [hsettings₁]; rfl)).mono ?_))
  rintro _ n₂ s₂ ⟨hsettings₂, hreply₂⟩
  refine wp_run_bind.mpr (wp_run_driver.mpr ((read_flush hreply₂ ?_ ?_).mono ?_))
  · rw [hsettings₂, disabled_scans]
  · rw [hsettings₂, disabled_reports]
  intro _ n₃ s₃ h₃
  rw [hsettings₂] at h₃
  refine wp_run_bind.mpr (wp_run_driver.mpr ((command_get
    (o := ⟨(disabled s.settings).commandByte, false⟩) h₃ (hreports _) rfl (disabled_scans _)
    (disabled_scans _)).mono ?_))
  rintro _ n₄ s₄ ⟨rfl, h₄⟩
  dsimp only
  rw [← cleared, disabled_dual]
  refine wp_run_bind.mpr (wp_run_printk.mpr (wp_run_bind.mpr (wp_run_printk.mpr
    (wp_run_bind.mpr (wp_run_driver.mpr ?_)))))
  refine (command_get (o := ⟨H.selfTest, false⟩)
    (u := withCommandByte s.settings (H.resets (disabled s.settings).commandByte)) h₄ (hreports _)
    rfl (disabled_scans _) (resets_scans _)).mono ?_
  rintro _ n₅ s₅ ⟨rfl, h₅⟩
  have hk₅ := ((leaves_printk (K := K) (k := k) "Initializing Keyborad & Mouse i8042 !\n").trans
    (leaves_printk "    detected dual channel controller\n")).trans
      (leaves_printk "    controller self test: ")
  by_cases h55 : H.selfTest = 0x55
  · simp only [InitLeaves, if_pos h55]
    refine wp_run_bind.mpr (wp_run_printk.mpr ((i8042Interfaces_run (K := K) h₅ hreporting
      (resets_scans _) ?_ ?_).mono ?_))
    · rw [cleared_getLsbD]; rfl
    · rw [cleared_getLsbD]; rfl
    rintro ⟨_, k₆⟩ n₆ s₆ ⟨h₆, hk₆⟩
    have hk := (hk₅.trans (leaves_printk "pass\n")).trans hk₆
    exact ⟨h₆, by simpa [selfTestMessages, verdict] using hk⟩
  · simp only [InitLeaves, if_neg h55]
    refine wp_run_printk.mpr ⟨h₅, ?_⟩
    simpa [selfTestMessages, verdict] using hk₅.trans (leaves_printk "fail\n")

/-! ### `kbd_init` and `mouse_init` -/

/-- The keyboard takes commands. -/
structure KeyboardReady (g : Settings) : Prop where
  target : g.target = .keyboard
  enabled : keyboardDisabled g.commandByte = false
  command : g.setsLeds = false
  quiet : g.reporting = false

/-- What `kbd_init` sets the keyboard to. -/
def keyboardSet (g : Settings) : Settings :=
  { g with
    scanning := true
    setsLeds := false
    leds := 0x00 }

theorem KeyboardReady.data (h : KeyboardReady g) (v : Byte) : Hardware.data g v
    = if v = keyboardEnableScanning then ({ g with scanning := true }, some ⟨acknowledge, false⟩)
      else if v = keyboardEcho then (g, some ⟨echo, false⟩)
      else if v = keyboardSetLeds then ({ g with setsLeds := true }, some ⟨acknowledge, false⟩)
      else (g, some ⟨resend, false⟩) := by
  obtain ⟨cb, target, _, setsLeds, _, _⟩ := g
  obtain ⟨htarget, henabled, hcommand, -⟩ := h
  dsimp only at htarget henabled hcommand
  subst htarget hcommand
  rw [Hardware.data, Hardware.keyboard]
  dsimp only
  rw [henabled]
  rfl

/-- The byte behind the command for the lamps. -/
theorem KeyboardReady.data_leds (h : KeyboardReady g) (v : Byte) :
    Hardware.data { g with setsLeds := true } v
      = ({ g with setsLeds := false, leds := v }, some ⟨acknowledge, false⟩) := by
  obtain ⟨cb, target, _, _, _, _⟩ := g
  obtain ⟨htarget, henabled, -, -⟩ := h
  dsimp only at htarget henabled
  subst htarget
  rw [Hardware.data, Hardware.keyboard]
  dsimp only
  rw [henabled]
  rfl

/-- `kbd_init` gets all its replies, whatever keys are pressed meanwhile. -/
theorem kbdInit_driver (h : Idle g s) (hready : KeyboardReady g) :
    H.peripheral.wp I8042.kbdInit (fun ack _ s' => ack = true ∧ Idle (keyboardSet g) s') n s := by
  have hset : KeyboardReady { g with scanning := true } :=
    ⟨hready.target, hready.enabled, hready.command, hready.quiet⟩
  have hquiet := reports_of_reporting hready.quiet
  have hquiet' := reports_of_reporting hset.quiet
  have hscans : Settings.scans { g with scanning := true } = true := by
    rw [Settings.scans, hready.enabled]
    rfl
  refine write_ask_bind h hquiet (o := ⟨acknowledge, false⟩)
    ((hready.data _).trans (if_pos rfl)) (fun _ => hscans) (.inl rfl) ?_
  intro _ n₁ s₁ _ h₁
  refine write_ask_bind h₁ hquiet' (o := ⟨echo, false⟩)
    ((hset.data _).trans ((if_neg (by decide)).trans (if_pos rfl))) id (.inr rfl) ?_
  intro _ n₂ s₂ _ h₂
  refine write_ask_bind h₂ hquiet' (o := ⟨acknowledge, false⟩) ((hset.data _).trans
    ((if_neg (by decide)).trans ((if_neg (by decide)).trans (if_pos rfl)))) id (.inl rfl) ?_
  intro _ n₃ s₃ _ h₃
  refine write_ask_bind h₃ hquiet' (o := ⟨acknowledge, false⟩) (hset.data_leds 0x00) id
    (.inl rfl) ?_
  intro timeout n₄ s₄ htimeout h₄
  exact ⟨decide_eq_true htimeout, h₄⟩

/-- The mouse takes commands. -/
structure MouseReady (g : Settings) : Prop where
  enabled : mouseDisabled g.commandByte = false
  quiet : g.reporting = false

/-- What `mouse_init` sets the mouse to. -/
def mouseSet (g : Settings) : Settings :=
  { g with
    target := .keyboard
    reporting := true }

theorem mouseInit_driver (h : Idle g s) (hready : MouseReady g) :
    H.peripheral.wp I8042.mouseInit (fun ack _ s' => ack = true ∧ Idle (mouseSet g) s') n s := by
  have hquiet := reports_of_reporting hready.quiet
  have hdata : Hardware.data { g with target := .mouse } mouseEnableDataReporting
      = (mouseSet g, some ⟨acknowledge, true⟩) := by
    rw [Hardware.data, Hardware.mouse]
    dsimp only
    rw [hready.enabled]
    rfl
  rw [I8042.mouseInit, i8042CommandSet, Driver.bind_assoc, Peripheral.wp_bind]
  refine (command_tell (u := { g with target := .mouse }) h hquiet rfl id).mono ?_
  intro _ n₁ s₁ h₁
  refine write_ask_bind h₁ hquiet hdata id (.inl rfl) ?_
  intro timeout n₂ s₂ htimeout h₂
  exact ⟨decide_eq_true htimeout, h₂⟩

/-- A device that acknowledges is reported, and its line of the I/O APIC is left unmasked. -/
theorem deviceInit_run {device : Driver Bool} {vector : BitVec 8} {handler : Word} {fmt : String}
    (hdevice : H.peripheral.wp device (fun ack _ s' => ack = true ∧ Idle u s') n s) :
    H.peripheral.wp ((deviceInit K vector handler device fmt).run k) (fun r _ s' =>
      Idle u s' ∧ Leaves K [fmt] [(vector, handler)]
        (Ioapic.idtUnmaskInterrupt vector ∘ Ioapic.idtMaskInterrupt vector) k r.2) n s := by
  refine wp_run_bind.mpr (wp_run_effect.mpr (wp_run_bind.mpr (wp_run_effect.mpr
    (wp_run_bind.mpr (wp_run_driver.mpr (hdevice.mono ?_))))))
  rintro _ n' s' ⟨rfl, hidle⟩
  exact ⟨hidle, rfl, rfl, rfl⟩

theorem afterInit_keyboardReady (hreporting : g.reporting = false) (hleds : g.setsLeds = false)
    (mouse : Bool) : KeyboardReady (afterInit g true mouse) := by
  refine ⟨rfl, ?_, hleds, hreporting⟩
  rw [keyboardDisabled, afterInit_commandByte]
  rfl

theorem afterInit_mouseReady (hreporting : g.reporting = false) (keyboard : Bool) :
    MouseReady (keyboardSet (afterInit g keyboard true)) := by
  refine ⟨?_, hreporting⟩
  rw [keyboardSet, mouseDisabled, afterInit_commandByte]
  rfl

/-- The tests of the controller and of both interfaces pass. -/
structure Works (H : Hardware) : Prop where
  selfTest : H.selfTest = 0x55
  keyboard : H.keyboardTest = 0x00
  mouse : H.mouseTest = 0x00

/-- No command is in progress, and the mouse has not been turned on. -/
structure AtRest (s : Ps2.State) : Prop where
  reply : s.reply = none
  setsLeds : s.settings.setsLeds = false
  reporting : s.settings.reporting = false

/-- What the three calls print when everything passes. -/
def workingMessages : List String :=
  selfTestMessages true ++ testMessages true true
    ++ ["    keyboard ACK !\n", "    mouse ACK !\n"]

/-- What they do to the I/O APIC. -/
def lineChanges : Ioapic.State → Ioapic.State :=
  (Ioapic.idtUnmaskInterrupt 44 ∘ Ioapic.idtMaskInterrupt 44)
    ∘ Ioapic.idtUnmaskInterrupt 33 ∘ Ioapic.idtMaskInterrupt 33

/-- The callbacks that they set. -/
def workingCalls (K : DriverImage) : List (BitVec 8 × Word) :=
  registrations K true true ++ [(33, K.kbdIrqHandler), (44, K.mouseIrqHandler)]

theorem keyboardAndMouse_run (hworks : Works H) (hrest : AtRest s) :
    H.peripheral.wp ((keyboardAndMouse K).run k) (fun r _ s' =>
      Idle (mouseSet (keyboardSet (afterInit s.settings true true))) s'
        ∧ Leaves K workingMessages (workingCalls K) lineChanges k r.2) n s := by
  refine wp_run_bind.mpr ((i8042Init_run hrest.reply hrest.reporting).mono ?_)
  rintro ⟨_, k₁⟩ n₁ s₁ hinit
  simp only [InitLeaves, if_pos hworks.selfTest, hworks.keyboard, hworks.mouse,
    decide_true] at hinit
  obtain ⟨h₁, hk₁⟩ := hinit
  have hkeyboard := afterInit_keyboardReady hrest.reporting hrest.setsLeds true
  have hmouse := afterInit_mouseReady hrest.reporting true
  refine wp_run_bind.mpr ((deviceInit_run (K := K) (kbdInit_driver h₁ hkeyboard)).mono ?_)
  rintro ⟨_, k₂⟩ n₂ s₂ ⟨h₂, hk₂⟩
  refine (deviceInit_run (K := K) (mouseInit_driver h₂ hmouse)).mono ?_
  rintro ⟨_, k₃⟩ n₃ s₃ ⟨h₃, hk₃⟩
  have hk := (hk₁.trans hk₂).trans hk₃
  exact ⟨h₃, by simpa [workingMessages, workingCalls, lineChanges] using hk⟩

/-! ### The results -/

theorem lastHandler_workingCalls (K : DriverImage) (w : BitVec 8) (default : Word) :
    lastHandler w default (workingCalls K)
      = if w = 33 then K.kbdIrqHandler else if w = 44 then K.mouseIrqHandler else default := by
  simp only [workingCalls, registrations, lastHandler, if_true, List.cons_append, List.nil_append,
    List.foldl_cons, List.foldl_nil]
  by_cases h33 : w = 33
  · subst h33
    rfl
  · by_cases h44 : w = 44
    · subst h44
      rfl
    · rw [if_neg (Ne.symm h44), if_neg (Ne.symm h33), if_neg (Ne.symm h44), if_neg (Ne.symm h33),
        if_neg h33, if_neg h44]

theorem lineChanges_regs {s : Ioapic.State} (hmre : 12 ≤ s.mre) (reg : Byte) (i : Nat) :
    ((lineChanges s).regs reg).getLsbD i
      = if (reg = Ioapic.low 1 ∨ reg = Ioapic.low 12) ∧ i = 16 then false
        else (s.regs reg).getLsbD i := by
  have hkeyboard : Ioapic.InTable s 33 :=
    ⟨by decide, Nat.le_trans (by decide) (Nat.add_le_add_left hmre 32)⟩
  have hmouse : Ioapic.InTable s 44 := ⟨by decide, Nat.add_le_add_left hmre 32⟩
  have hentry : Ioapic.entryReg 33 = Ioapic.low 1 := hkeyboard.entryReg
  have hentry' : Ioapic.entryReg 44 = Ioapic.low 12 := hmouse.entryReg
  -- the four calls, the last one first
  change ((Ioapic.setMasked false 44 (Ioapic.setMasked true 44 (Ioapic.setMasked false 33
    (Ioapic.setMasked true 33 s)))).regs reg).getLsbD i = _
  have h₁ := Ioapic.setMasked_mre true 33 s
  have h₂ := (Ioapic.setMasked_mre false 33 (Ioapic.setMasked true 33 s)).trans h₁
  have h₃ := (Ioapic.setMasked_mre true 44 _).trans h₂
  rw [Ioapic.setMasked_regs_of_mre h₃, Ioapic.setMasked_regs_of_mre h₂,
    Ioapic.setMasked_regs_of_mre h₁, Ioapic.setMasked_regs, hentry, hentry']
  simp only [hkeyboard, hmouse, true_or, true_and]
  by_cases hi : i = 16
  · by_cases hmouseReg : reg = Ioapic.low 12
    · simp [hmouseReg, hi]
    · by_cases hkeyboardReg : reg = Ioapic.low 1 <;> simp [hmouseReg, hkeyboardReg, hi]
  · simp [hi]

/-- What a setup leaves of the hardware when it begins in the state `s`. -/
def endState (H : Hardware) (x : Setup Unit) (s : Ps2.State) (k : Kernel) : Ps2.State :=
  H.peripheral.advance 0 s ((x.run k).trace (H.peripheral.device s) [])

/-- What it leaves of the kernel's state. -/
def endKernel (H : Hardware) (x : Setup Unit) (s : Ps2.State) (k : Kernel) : Kernel :=
  ((x.run k).result (H.peripheral.device s) []).2

theorem wp_ends {x : Setup Unit} {post : Unit × Kernel → Nat → Ps2.State → Prop}
    (h : H.peripheral.wp (x.run k) post 0 s) :
    ∃ n, post ((), endKernel H x s k) n (endState H x s k) :=
  ⟨_, h.device⟩

def keyboardPassed (H : Hardware) : Bool := H.selfTest = 0x55 && H.keyboardTest = 0x00

def mousePassed (H : Hardware) : Bool := H.selfTest = 0x55 && H.mouseTest = 0x00

/-- Of the interfaces, those that have passed are in use; nothing else has been set. -/
structure InUse (H : Hardware) (K : DriverImage) (keyboard mouse : Bool) (s s' : Ps2.State)
    (k k' : Kernel) : Prop where
  reply : s'.reply = none
  keyboardPort : keyboardDisabled s'.settings.commandByte = !keyboard
  mousePort : mouseDisabled s'.settings.commandByte = !mouse
  interrupts : H.selfTest = 0x55 → keyboardInterrupt s'.settings.commandByte = keyboard
    ∧ mouseInterrupt s'.settings.commandByte = mouse
  silent : keyboard = false → s'.output = none
  others : ∃ cb, s'.settings = withCommandByte s.settings cb
  printed : k'.sys.printed = k.sys.printed ++ (selfTestMessages (H.selfTest = 0x55)
    ++ if H.selfTest = 0x55 then testMessages keyboard mouse else []).map (⟨·, []⟩)
  callbacks : ∀ w : BitVec 8, w ≠ 255 → k'.sys.mem.read32 (K.idt.callbackAddr w.toNat)
    = if w = 33 ∧ keyboard ∨ w = 44 ∧ mouse then K.i8042IrqHandler
      else k.sys.mem.read32 (K.idt.callbackAddr w.toNat)
  ioapic : k'.ioapic = k.ioapic

theorem lastHandler_registrations (K : DriverImage) (keyboard mouse : Bool) (w : BitVec 8)
    (default : Word) : lastHandler w default (registrations K keyboard mouse)
      = if w = 33 ∧ keyboard ∨ w = 44 ∧ mouse then K.i8042IrqHandler else default := by
  rw [lastHandler]
  cases keyboard with
  | false =>
    cases mouse with
    | false => simp [registrations]
    | true => simp [registrations, eq_comm]
  | true =>
    cases mouse with
    | false => simp [registrations, eq_comm]
    | true =>
      by_cases h44 : w = 44#8
      · simp [registrations, h44]
      · by_cases h33 : w = 33#8
        · simp [registrations, h33]
        · simp [registrations, h44, h33, Ne.symm h44, Ne.symm h33]

theorem registrations_ne (K : DriverImage) (keyboard mouse : Bool) :
    ∀ c ∈ registrations K keyboard mouse, c.1 ≠ 255 := by
  cases keyboard <;> cases mouse <;> simp [registrations]

theorem afterInit_disabled (g : Settings) (keyboard mouse : Bool) :
    keyboardDisabled (afterInit g keyboard mouse).commandByte = !keyboard
      ∧ mouseDisabled (afterInit g keyboard mouse).commandByte = !mouse := by
  rw [keyboardDisabled, mouseDisabled, afterInit_commandByte, afterInit_commandByte]
  exact ⟨rfl, rfl⟩

theorem afterInit_interrupts (g : Settings) (keyboard mouse : Bool) :
    keyboardInterrupt (afterInit g keyboard mouse).commandByte = keyboard
      ∧ mouseInterrupt (afterInit g keyboard mouse).commandByte = mouse := by
  rw [keyboardInterrupt, mouseInterrupt, afterInit_commandByte, afterInit_commandByte]
  exact ⟨rfl, rfl⟩

theorem resets_disabled (g : Settings) :
    keyboardDisabled (H.resets (disabled g).commandByte) = true
      ∧ mouseDisabled (H.resets (disabled g).commandByte) = true := by
  rw [H.resets_keyboard, H.resets_mouse, keyboardDisabled, mouseDisabled, disabled_commandByte,
    disabled_commandByte]
  exact ⟨rfl, rfl⟩

/-- On a controller that takes every byte at once, with no reply under way and a mouse that does not
report, `i8042_init` leaves the interfaces in use that have passed their tests, whatever it finds in
the output buffer and however long the replies take. -/
theorem i8042Init_inUse (H : Hardware) (K : DriverImage) (s : Ps2.State) (k : Kernel)
    (hreply : s.reply = none) (hreporting : s.settings.reporting = false) :
    InUse H K (keyboardPassed H) (mousePassed H) s (endState H (i8042Init K) s k) k
      (endKernel H (i8042Init K) s k) := by
  obtain ⟨n, hleaves⟩ := wp_ends (i8042Init_run (K := K) (k := k) hreply hreporting)
  generalize endState H (i8042Init K) s k = s' at *
  generalize endKernel H (i8042Init K) s k = k' at *
  have hsilent : s'.settings.reporting = false → Idle s'.settings s' →
      keyboardDisabled s'.settings.commandByte = true → s'.output = none := by
    intro hreporting' hidle hdisabled
    refine hidle.output_eq ?_ (reports_of_reporting hreporting')
    rw [Settings.scans, hdisabled]
    simp
  by_cases h55 : H.selfTest = 0x55
  · have hkeyboard : keyboardPassed H = decide (H.keyboardTest = 0x00) := by
      rw [keyboardPassed, decide_eq_true h55, Bool.true_and]
    have hmouse : mousePassed H = decide (H.mouseTest = 0x00) := by
      rw [mousePassed, decide_eq_true h55, Bool.true_and]
    simp only [InitLeaves, if_pos h55, ← hkeyboard, ← hmouse] at hleaves
    obtain ⟨hidle, hk⟩ := hleaves
    have hset := hidle.settings
    have hdisabled := afterInit_disabled s.settings (keyboardPassed H) (mousePassed H)
    have hinterrupts := afterInit_interrupts s.settings (keyboardPassed H) (mousePassed H)
    rw [← hset] at hdisabled hinterrupts
    refine ⟨hidle.reply, hdisabled.1, hdisabled.2, fun _ => hinterrupts, fun hnot => ?_,
      ⟨_, hset⟩, ?_, fun w hw => ?_, hk.ioapic⟩
    · refine hsilent (hset ▸ hreporting) (hset ▸ hidle) ?_
      rw [hdisabled.1, hnot]
      rfl
    · rw [decide_eq_true h55, if_pos h55]
      exact hk.printed
    · rw [hk.callback (registrations_ne K _ _) hw, lastHandler_registrations]
  · have hkeyboard : keyboardPassed H = false := by
      rw [keyboardPassed, decide_eq_false h55, Bool.false_and]
    have hmouse : mousePassed H = false := by
      rw [mousePassed, decide_eq_false h55, Bool.false_and]
    simp only [InitLeaves, if_neg h55] at hleaves
    obtain ⟨hidle, hk⟩ := hleaves
    have hset := hidle.settings
    have hdisabled : keyboardDisabled s'.settings.commandByte = true
        ∧ mouseDisabled s'.settings.commandByte = true := by
      rw [hset]
      exact resets_disabled s.settings
    rw [hkeyboard, hmouse]
    refine ⟨hidle.reply, hdisabled.1, hdisabled.2, fun hpass => absurd hpass h55, fun _ => ?_,
      ⟨_, hset⟩, ?_, fun w hw => ?_, hk.ioapic⟩
    · exact hsilent (hset ▸ hreporting) (hset ▸ hidle) hdisabled.1
    · rw [decide_eq_false h55, if_neg h55, List.append_nil]
      exact hk.printed
    · have hcallback := hk.callback (fun c hc => absurd hc List.not_mem_nil) hw
      simpa [lastHandler] using hcallback

/-- What the three calls bring working hardware to. -/
structure BroughtUp (K : DriverImage) (s s' : Ps2.State) (k k' : Kernel) : Prop where
  reply : s'.reply = none
  target : s'.settings.target = .keyboard
  commandByte : ∀ i, s'.settings.commandByte.getLsbD i
    = if i = 0 ∨ i = 1 ∨ i = 2 ∨ i = 6 then true else if i = 4 ∨ i = 5 then false
      else s.settings.commandByte.getLsbD i
  scanning : s'.settings.scanning = true
  setsLeds : s'.settings.setsLeds = false
  leds : s'.settings.leds = 0x00
  reporting : s'.settings.reporting = true
  printed : k'.sys.printed = k.sys.printed ++ workingMessages.map (⟨·, []⟩)
  callbacks : ∀ w : BitVec 8, w ≠ 255 → k'.sys.mem.read32 (K.idt.callbackAddr w.toNat)
    = if w = 33 then K.kbdIrqHandler else if w = 44 then K.mouseIrqHandler
      else k.sys.mem.read32 (K.idt.callbackAddr w.toNat)
  lines : ∀ (reg : Byte) (i : Nat), (k'.ioapic.regs reg).getLsbD i
    = if (reg = Ioapic.low 1 ∨ reg = Ioapic.low 12) ∧ i = 16 then false
      else (k.ioapic.regs reg).getLsbD i

/-- On such a controller the three calls of `kmain` bring up a keyboard and a mouse that work and are
at rest, whatever is in the output buffer before, whatever keys are pressed meanwhile, and however
long each reply takes. -/
theorem keyboardAndMouse_bringsUp (H : Hardware) (K : DriverImage) (s : Ps2.State) (k : Kernel)
    (hworks : Works H) (hrest : AtRest s) (hmre : 12 ≤ k.ioapic.mre) :
    BroughtUp K s (endState H (keyboardAndMouse K) s k) k
      (endKernel H (keyboardAndMouse K) s k) := by
  obtain ⟨n, hidle, hk⟩ := wp_ends (keyboardAndMouse_run (K := K) (k := k) hworks hrest)
  have hcalls : ∀ c ∈ workingCalls K, c.1 ≠ 255 := by
    simp [workingCalls, registrations]
  refine ⟨hidle.reply, ?_, ?_, ?_, ?_, ?_, ?_, hk.printed, fun w hw => ?_, fun reg i => ?_⟩
  · rw [hidle.settings, mouseSet]
  · intro i
    rw [hidle.settings]
    change (afterInit s.settings true true).commandByte.getLsbD i = _
    rw [afterInit_commandByte]
    by_cases h0 : i = 0 ∨ i = 1
    · rcases h0 with rfl | rfl <;> rfl
    · obtain ⟨h0, h1⟩ := not_or.mp h0
      simp only [h0, h1, if_false, false_or]
      by_cases h4 : i = 4 <;> simp [h4]
  · rw [hidle.settings, mouseSet, keyboardSet]
  · rw [hidle.settings, mouseSet, keyboardSet]
  · rw [hidle.settings, mouseSet, keyboardSet]
  · rw [hidle.settings, mouseSet]
  · rw [hk.callback hcalls hw, lastHandler_workingCalls]
  · rw [hk.ioapic, lineChanges_regs hmre]

/-- A controller that takes its time while keys are pressed, and that shows an acknowledgement where
there is nothing to read. -/
def pacedHardware : Hardware where
  status := BitVec.ofNat 8
  idle := fun _ _ => acknowledge
  delay := fun n => n % 400
  scanCode := fun n => if n % 8 = 0 then some 0x1E else none
  movement := fun _ => none
  selfTest := 0x55
  keyboardTest := 0x00
  mouseTest := 0x00
  resets := id
  delay_le := fun n => by omega
  scanCode_ne := by
    intro n b hb
    split at hb
    · obtain rfl := Option.some.inj hb
      decide
    · exact absurd hb (by simp)
  resets_keyboard := fun _ => rfl
  resets_mouse := fun _ => rfl

/-- A keyboard in use, with a key that has not been read. -/
def firmwareState : Ps2.State where
  settings :=
    { commandByte := 0x45
      target := .keyboard
      scanning := true
      setsLeds := false
      leds := 0x02
      reporting := false }
  output := some ⟨0x1E, false⟩
  reply := none

def bootedKernel : Kernel := ⟨System.blank, Ioapic.reset⟩

theorem i8042Init_inUse_paced : InUse pacedHardware smallDrivers true true firmwareState
    (endState pacedHardware (i8042Init smallDrivers) firmwareState bootedKernel) bootedKernel
    (endKernel pacedHardware (i8042Init smallDrivers) firmwareState bootedKernel) :=
  i8042Init_inUse pacedHardware smallDrivers firmwareState bootedKernel rfl rfl

theorem keyboardAndMouse_bringsUp_paced : BroughtUp smallDrivers firmwareState
    (endState pacedHardware (keyboardAndMouse smallDrivers) firmwareState bootedKernel) bootedKernel
    (endKernel pacedHardware (keyboardAndMouse smallDrivers) firmwareState bootedKernel) :=
  keyboardAndMouse_bringsUp pacedHardware smallDrivers firmwareState bootedKernel ⟨rfl, rfl, rfl⟩
    ⟨rfl, rfl, rfl⟩ (by decide)

end BasicX86Kernel.Drivers
