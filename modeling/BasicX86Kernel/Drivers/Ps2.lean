import BasicX86Kernel.Drivers.Agreement
import BasicX86Kernel.Machine.Peripheral

/-! The controller of the keyboard and the mouse as a device: its commands, replies that take their
time, and keys that are pressed meanwhile; and how the driver's exchanges with it end. -/

namespace BasicX86Kernel.Ps2

open Machine I8042

/-! ### The controller and the two devices -/

/-- A byte for the kernel, and whether it comes from the mouse. -/
structure Output where
  byte : Byte
  mouse : Bool

/-- Where the next byte that is written to the data port goes. -/
inductive Target
  | keyboard
  | commandByte
  | mouse
deriving DecidableEq

/-- What has been set: by commands, in the keyboard (which `setsLeds` when the next byte is for its
lamps), and in the mouse. -/
structure Settings where
  commandByte : Byte
  target : Target
  scanning : Bool
  setsLeds : Bool
  leds : Byte
  reporting : Bool

/-- The output buffer, and the reply that is under way, with the instant from which it may enter the
buffer. -/
structure State where
  settings : Settings
  output : Option Output
  reply : Option (Output × Nat)

def keyboardDisabled (cb : Byte) : Bool := cb.getLsbD 4
def mouseDisabled (cb : Byte) : Bool := cb.getLsbD 5
def withKeyboardDisabled (cb : Byte) (value : Bool) : Byte := setField cb 4 value
def withMouseDisabled (cb : Byte) (value : Bool) : Byte := setField cb 5 value

/-- The keyboard sends the keys that are pressed. -/
def Settings.scans (g : Settings) : Bool := g.scanning && !keyboardDisabled g.commandByte

/-- The mouse sends its movements. -/
def Settings.reports (g : Settings) : Bool := g.reporting && !mouseDisabled g.commandByte

/-- A controller of two interfaces that takes every byte at once: its input buffer is empty whenever
the status is read.  It has what its tests return, what a self test makes of the command byte (but
for the bits that disable the interfaces, which it keeps), how long a reply takes (at most 498
transfers), and what the user does at each instant; no scan code is an acknowledgement or an echo.
`status` and `idle` are the bits of the status that are no buffer's, and the reads that show no byte
of a device. -/
structure Hardware where
  status : Nat → Byte
  idle : Nat → Port → Byte
  delay : Nat → Nat
  scanCode : Nat → Option Byte
  movement : Nat → Option Byte
  selfTest : Byte
  keyboardTest : Byte
  mouseTest : Byte
  resets : Byte → Byte
  delay_le : ∀ n, delay n ≤ 498
  scanCode_ne : ∀ n, ∀ b ∈ scanCode n, b ≠ 0xFA ∧ b ≠ 0xEE
  resets_keyboard : ∀ cb, keyboardDisabled (resets cb) = keyboardDisabled cb
  resets_mouse : ∀ cb, mouseDisabled (resets cb) = mouseDisabled cb

def acknowledge : Byte := 0xFA
def echo : Byte := 0xEE
def resend : Byte := 0xFE

namespace Hardware

variable (H : Hardware)

/-- A command, and the reply.  The commands are those that the driver sends. -/
def command (g : Settings) (c : Byte) : Settings × Option Output :=
  let g := { g with target := .keyboard }
  if c = readCommandByte then (g, some ⟨g.commandByte, false⟩)
  else if c = writeCommandByte then ({ g with target := .commandByte }, none)
  else if c = disableMouseInterface then
    ({ g with commandByte := withMouseDisabled g.commandByte true }, none)
  else if c = enableMouseInterface then
    ({ g with commandByte := withMouseDisabled g.commandByte false }, none)
  else if c = mouseInterfaceTest then (g, some ⟨H.mouseTest, false⟩)
  else if c = controllerSelfTest then
    ({ g with commandByte := H.resets g.commandByte }, some ⟨H.selfTest, false⟩)
  else if c = keyboardInterfaceTest then (g, some ⟨H.keyboardTest, false⟩)
  else if c = disableKeyboardInterface then
    ({ g with commandByte := withKeyboardDisabled g.commandByte true }, none)
  else if c = enableKeyboardInterface then
    ({ g with commandByte := withKeyboardDisabled g.commandByte false }, none)
  else if c = writeMouseDevice then ({ g with target := .mouse }, none)
  else (g, none)

/-- A byte for the keyboard, which is lost when its interface is disabled. -/
def keyboard (g : Settings) (v : Byte) : Settings × Option Output :=
  if keyboardDisabled g.commandByte then (g, none)
  else if g.setsLeds then ({ g with setsLeds := false, leds := v }, some ⟨acknowledge, false⟩)
  else if v = keyboardEnableScanning then
    ({ g with scanning := true }, some ⟨acknowledge, false⟩)
  else if v = keyboardEcho then (g, some ⟨echo, false⟩)
  else if v = keyboardSetLeds then ({ g with setsLeds := true }, some ⟨acknowledge, false⟩)
  else (g, some ⟨resend, false⟩)

def mouse (g : Settings) (v : Byte) : Settings × Option Output :=
  if mouseDisabled g.commandByte then (g, none)
  else if v = mouseEnableDataReporting then
    ({ g with reporting := true }, some ⟨acknowledge, true⟩)
  else (g, some ⟨resend, true⟩)

/-- A byte at the data port. -/
def data (g : Settings) (v : Byte) : Settings × Option Output :=
  let g' := { g with target := .keyboard }
  match g.target with
  | .keyboard => keyboard g' v
  | .commandByte => ({ g' with commandByte := v }, none)
  | .mouse => mouse g' v

/-- What a device sends unasked: a key, or a movement of a mouse that has answered. -/
def unasked (n : Nat) (s : State) : Option Output :=
  (if s.settings.scans then (H.scanCode n).map (⟨·, false⟩) else none).or
    (if s.settings.reports ∧ s.reply = none then (H.movement n).map (⟨·, true⟩) else none)

/-- The next byte enters the output buffer when that is empty: a reply that has arrived, or else
what a device sends unasked. -/
def settle (n : Nat) (s : State) : State :=
  match s.output, s.reply with
  | some _, _ => s
  | none, none => { s with output := H.unasked n s }
  | none, some (o, due) =>
    if due ≤ n then { s with output := some o, reply := none }
    else { s with output := H.unasked n s }

/-- What a byte that is written leads to, before anything enters the output buffer. -/
def written (n : Nat) (s : State) (r : Settings × Option Output) : State where
  settings := r.1
  output := s.output
  reply := match r.2 with
    | none => s.reply
    | some o => some (o, n + H.delay n)

/-- Bit 1 is clear: no byte is left in the input buffer. -/
def statusByte (n : Nat) (s : State) : Byte :=
  setField (setField (setField (H.status n) 0 s.output.isSome) 1 false) 5
    (s.output.any Output.mouse)

def dataByte (n : Nat) (s : State) : Byte :=
  match s.output with
  | some o => o.byte
  | none => H.idle n dataPort

def transfer (n : Nat) (s : State) : Transfer → State
  | .inb p _ => if p = dataPort then { s with output := none } else s
  | .outb p v =>
    if p = controlPort then H.written n s (H.command s.settings v)
    else if p = dataPort then H.written n s (data s.settings v)
    else s

def peripheral : Peripheral State where
  read := fun n s p =>
    if p = controlPort then H.statusByte n s
    else if p = dataPort then H.dataByte n s
    else H.idle n p
  next := fun n s t => H.settle n (H.transfer n s t)

section

variable {H} {g : Settings} {n due : Nat} {o : Output} {reply : Option (Output × Nat)}

@[simp] theorem settle_full : H.settle n ⟨g, some o, reply⟩ = ⟨g, some o, reply⟩ := rfl

@[simp] theorem settle_empty :
    H.settle n ⟨g, none, none⟩ = ⟨g, H.unasked n ⟨g, none, none⟩, none⟩ := rfl

theorem settle_due (h : due ≤ n) :
    H.settle n ⟨g, none, some (o, due)⟩ = ⟨g, some o, none⟩ :=
  if_pos h

theorem settle_early (h : ¬due ≤ n) : H.settle n ⟨g, none, some (o, due)⟩
    = ⟨g, H.unasked n ⟨g, none, some (o, due)⟩, some (o, due)⟩ :=
  if_neg h

end

end Hardware

/-! ### What may be in the output buffer -/

/-- A key, which is no reply. -/
structure ScanCode (g : Settings) (b : Byte) : Prop where
  scans : g.scans = true
  not_acknowledge : b ≠ acknowledge
  not_echo : b ≠ echo

/-- No reply is under way. -/
structure Idle (g : Settings) (s : State) : Prop where
  settings : s.settings = g
  reply : s.reply = none
  output : g.reports = false → ∀ o ∈ s.output, ScanCode g o.byte

/-- The reply that has been asked for is in the output buffer, or under way behind keys. -/
inductive Answer (g : Settings) (o : Output) (due n : Nat) : State → Prop
  | arrived : Answer g o due n ⟨g, some o, none⟩
  | underWay (output : Option Output) (hkeys : ∀ o' ∈ output, ScanCode g o'.byte)
      (hdue : output = none → n ≤ due) : Answer g o due n ⟨g, output, some (o, due)⟩

variable {H : Hardware} {g u : Settings} {o : Output} {s : State} {n due : Nat}

theorem Idle.output_eq (h : Idle g s) (hscans : g.scans = false) (hreports : g.reports = false) :
    s.output = none := by
  refine Option.eq_none_iff_forall_not_mem.mpr fun o ho => ?_
  have hkey := (h.output hreports o ho).scans
  rw [hscans] at hkey
  exact absurd hkey (by decide)

/-- Settings that scan wherever others do allow the keys of those. -/
theorem ScanCode.of_scans {b : Byte} (h : ScanCode g b) (hg : g.scans = true → u.scans = true) :
    ScanCode u b :=
  ⟨hg h.scans, h.not_acknowledge, h.not_echo⟩

theorem unasked_scanCode (hs : s.settings = g) (hmouse : g.reports = false ∨ s.reply ≠ none) :
    ∀ o ∈ H.unasked n s, ScanCode g o.byte := by
  intro o ho
  rw [Hardware.unasked, hs] at ho
  have hmove : ¬(g.reports = true ∧ s.reply = none) := by
    rintro ⟨hreports, hreply⟩
    rcases hmouse with hmouse | hmouse
    · rw [hmouse] at hreports
      exact absurd hreports (by decide)
    · exact hmouse hreply
  rw [if_neg hmove, Option.or_none] at ho
  by_cases hscans : g.scans = true
  · rw [if_pos hscans] at ho
    obtain ⟨b, hb, rfl⟩ := Option.mem_map.mp ho
    obtain ⟨hacknowledge, hecho⟩ := H.scanCode_ne n b hb
    exact ⟨hscans, hacknowledge, hecho⟩
  · rw [if_neg hscans] at ho
    exact absurd ho (by simp)

/-- What enters the output buffer leaves an idle controller idle. -/
theorem Idle.settle (h : Idle g s) : Idle g (H.settle n s) := by
  obtain ⟨settings, output, reply⟩ := s
  obtain ⟨hsettings, hreply, houtput⟩ := h
  subst hsettings hreply
  cases output with
  | some o => exact ⟨rfl, rfl, houtput⟩
  | none =>
    rw [Hardware.settle_empty]
    exact ⟨rfl, rfl, fun hreports => unasked_scanCode rfl (.inl hreports)⟩

/-- A reply that is under way enters the empty output buffer, if it has arrived. -/
theorem settle_underWay : Answer g o due (n + 1) (H.settle n ⟨g, none, some (o, due)⟩)
    ∧ ((H.settle n ⟨g, none, some (o, due)⟩).reply = none ∨ n + 1 ≤ due) := by
  by_cases hdue : due ≤ n
  · rw [Hardware.settle_due hdue]
    exact ⟨.arrived, .inl rfl⟩
  · rw [Hardware.settle_early hdue]
    have hkeys := unasked_scanCode (H := H) (g := g) (n := n)
      (s := ⟨g, none, some (o, due)⟩) rfl (.inr (Option.some_ne_none _))
    exact ⟨.underWay _ hkeys fun _ => Nat.lt_of_not_le hdue, .inr (Nat.lt_of_not_le hdue)⟩

theorem settle_answer {output : Option Output} (hkeys : ∀ o' ∈ output, ScanCode g o'.byte) :
    Answer g o due (n + 1) (H.settle n ⟨g, output, some (o, due)⟩) := by
  cases output with
  | some o' => exact .underWay _ hkeys fun hnone => absurd hnone (Option.some_ne_none _)
  | none => exact settle_underWay.1

theorem Answer.settle (h : Answer g o due n s) : Answer g o due (n + 1) (H.settle n s) := by
  cases h with
  | arrived => exact .arrived
  | underWay output hkeys hdue => exact settle_answer hkeys

/-! ### Statuses -/

theorem readable_statusByte : readable (H.statusByte n s) = s.output.isSome := by
  rw [readable, outputBufferFull, mouseOutputBufferFull, Hardware.statusByte,
    setField_getLsbD _ 5 0 _ (by decide), setField_getLsbD _ 1 0 _ (by decide),
    setField_getLsbD _ 0 0 _ (by decide), setField_getLsbD _ 5 5 _ (by decide)]
  cases s.output <;> simp

theorem inputBufferFull_statusByte : inputBufferFull (H.statusByte n s) = false := by
  rw [inputBufferFull, Hardware.statusByte, setField_getLsbD _ 5 1 _ (by decide),
    setField_getLsbD _ 1 1 _ (by decide)]
  rfl

section

variable {α : Type} {post : α → Nat → State → Prop}

/-- The status shows what the controller has; to read it changes nothing but the time. -/
theorem wp_i8042Status {post : Byte → Nat → State → Prop} :
    H.peripheral.wp i8042Status post n s
      ↔ post (H.statusByte n s) (n + 1) (H.settle n s) := Peripheral.wp_inb

theorem wp_readData {post : Byte → Nat → State → Prop} : H.peripheral.wp (inb dataPort) post n s
    ↔ post (H.dataByte n s) (n + 1) (H.settle n { s with output := none }) := Peripheral.wp_inb

theorem wp_i8042Command {c : Byte} {post : Unit → Nat → State → Prop} :
    H.peripheral.wp (i8042Command c) post n s
      ↔ post () (n + 1) (H.settle n (H.written n s (H.command s.settings c))) :=
  Peripheral.wp_outb

end

/-! ### Reading -/

theorem settle_of_isSome (h : s.output.isSome = true) : H.settle n s = s := by
  obtain ⟨g, output, reply⟩ := s
  obtain ⟨o, rfl⟩ := Option.isSome_iff_exists.mp h
  rfl

theorem settle_settings : (H.settle n s).settings = s.settings := by
  obtain ⟨g, output, _ | ⟨o, due⟩⟩ := s
  · cases output <;> rfl
  · cases output with
    | some _ => rfl
    | none =>
      by_cases hdue : due ≤ n
      · rw [Hardware.settle_due hdue]
      · rw [Hardware.settle_early hdue]

theorem settle_reply (h : s.reply = none) : (H.settle n s).reply = none := by
  obtain ⟨g, output, reply⟩ := s
  subst h
  cases output <;> rfl

/-- Polling finds the reply, or a key before it, with turns to spare. -/
theorem poll_answer {k : Nat} (h : Answer g o due n s) (hk : 2 ≤ k) (hmax : k < 2 ^ 32)
    (hdue : s.output = none → due + 3 ≤ n + k) :
    H.peripheral.wp (pollStatus readable k) (fun retry n' s' =>
      retry ≠ 0 ∧ n < n' ∧ Answer g o due n' s' ∧ s'.output.isSome = true
        ∧ (s.reply = none → s'.reply = none)) n s := by
  induction k generalizing n s with
  | zero => omega
  | succ k ih =>
    rw [pollStatus, Peripheral.wp_bind, wp_i8042Status, readable_statusByte]
    by_cases hsome : s.output.isSome = true
    · rw [if_pos hsome, Peripheral.wp_pure]
      refine ⟨?_, Nat.lt_succ_self n, h.settle, by rwa [settle_of_isSome hsome], settle_reply⟩
      intro hzero
      have htoNat := congrArg BitVec.toNat hzero
      rw [BitVec.toNat_ofNat, Nat.mod_eq_of_lt (by omega)] at htoNat
      simp at htoNat
      omega
    · rw [if_neg hsome]
      have hnone : s.output = none := Option.not_isSome_iff_eq_none.mp hsome
      have hleft := hdue hnone
      have hlate : n ≤ due := by
        cases h with
        | arrived => exact absurd hnone (Option.some_ne_none _)
        | underWay output hkeys hle => exact hle hnone
      refine (ih h.settle (by omega) (by omega) fun _ => by omega).mono ?_
      rintro retry n' s' ⟨hretry, hn, hanswer, hsome', hreply⟩
      exact ⟨hretry, by omega, hanswer, hsome', fun h0 => hreply (settle_reply h0)⟩

/-- What a read of the data port hears while a reply is expected: the reply, or a key before it. -/
def Heard (g : Settings) (o : Output) (due n : Nat) (s : State) (b : Byte) (n' : Nat)
    (s' : State) : Prop :=
  (b = o.byte ∧ Idle g s')
    ∨ (ScanCode g b ∧ s.reply ≠ none ∧ n + 2 ≤ n' ∧ Answer g o due n' s'
      ∧ (s'.reply = none ∨ n' ≤ due))

theorem read_answer (h : Answer g o due n s) (hdue : due ≤ n + 497) :
    H.peripheral.wp i8042Read (Heard g o due n s) n s := by
  rw [i8042Read, Peripheral.wp_bind]
  refine (poll_answer h (by decide) (by decide) fun _ => by omega).mono ?_
  rintro retry n' s' ⟨hretry, hn, hanswer, hsome, hreply⟩
  rw [if_neg hretry, wp_readData]
  cases hanswer with
  | arrived =>
    exact .inl ⟨rfl, Idle.settle ⟨rfl, rfl, fun _ o' ho' => absurd ho' (by simp)⟩⟩
  | underWay output hkeys hle =>
    obtain ⟨o', rfl⟩ := Option.isSome_iff_exists.mp hsome
    have hasked : s.reply ≠ none := fun h0 => absurd (hreply h0) (Option.some_ne_none _)
    exact .inr ⟨hkeys o' rfl, hasked, by omega, settle_underWay⟩

/-- Nothing is sent unasked, and no reply is under way. -/
theorem settle_still (hreply : s.reply = none) (hscans : s.settings.scans = false)
    (hreports : s.settings.reports = false) : H.settle n s = s := by
  obtain ⟨settings, output, reply⟩ := s
  subst hreply
  cases output with
  | some o => rfl
  | none => rw [Hardware.settle_empty, Hardware.unasked, hscans, hreports]; rfl

/-- Polling without success ends with a counter that has wrapped around. -/
theorem poll_nothing (hstill : ∀ n, H.settle n s = s) (hnone : s.output = none) (k : Nat) :
    H.peripheral.wp (pollStatus readable k) (fun retry _ s' => retry ≠ 0 ∧ s' = s) n s := by
  induction k generalizing n with
  | zero =>
    rw [pollStatus, Peripheral.wp_pure]
    exact ⟨by decide, rfl⟩
  | succ k ih =>
    rw [pollStatus, Peripheral.wp_bind, wp_i8042Status, readable_statusByte, hnone, hstill]
    exact ih

/-- The read that empties the output buffer before the first command. -/
theorem read_flush (hreply : s.reply = none) (hscans : s.settings.scans = false)
    (hreports : s.settings.reports = false) :
    H.peripheral.wp i8042Read (fun _ _ s' => Idle s.settings s') n s := by
  have hstill : ∀ n, H.settle n s = s := fun n => settle_still hreply hscans hreports
  have hpoll : H.peripheral.wp (pollStatus readable 500)
      (fun retry _ s' => retry ≠ 0 ∧ s' = s) n s := by
    by_cases hsome : s.output.isSome = true
    · rw [pollStatus, Peripheral.wp_bind, wp_i8042Status, readable_statusByte, if_pos hsome,
        Peripheral.wp_pure]
      exact ⟨by decide, hstill n⟩
    · exact poll_nothing hstill (Option.not_isSome_iff_eq_none.mp hsome) 500
  rw [i8042Read, Peripheral.wp_bind]
  refine hpoll.mono ?_
  rintro retry n' s' ⟨hretry, rfl⟩
  rw [if_neg hretry, wp_readData]
  exact Idle.settle ⟨rfl, hreply, fun _ o ho => absurd ho (by simp)⟩

/-! ### Waiting for a reply -/

theorem ofNat_pos {k : Nat} (hk : 0 < k) (hmax : k < 2 ^ 32) : BitVec.ofNat 32 k > 0 := by
  rw [gt_iff_lt, BitVec.lt_def, BitVec.toNat_ofNat, Nat.mod_eq_of_lt hmax]
  exact hk

theorem ScanCode.ne {b : Byte} (h : ScanCode g b)
    (hbyte : o.byte = acknowledge ∨ o.byte = echo) : b ≠ o.byte := by
  rintro rfl
  rcases hbyte with hbyte | hbyte
  · exact h.not_acknowledge hbyte
  · exact h.not_echo hbyte

/-- A reply that has not been overtaken is heard with a turn to spare: each key before it takes a
turn, but also two transfers. -/
theorem await_fresh {m : Nat} (h : Answer g o due n s) (hfresh : s.reply = none ∨ n ≤ due)
    (hbyte : o.byte = acknowledge ∨ o.byte = echo) (hm : 2 ≤ m) (hmax : m < 2 ^ 32)
    (hin : due ≤ n + 497) (hdue : n ≤ due → due + 6 ≤ n + 2 * m) :
    H.peripheral.wp (awaitReply o.byte m) (fun timeout _ s' => timeout > 0 ∧ Idle g s') n s := by
  induction m generalizing n s with
  | zero => omega
  | succ m ih =>
    rw [awaitReply, Peripheral.wp_bind]
    refine (read_answer h hin).mono ?_
    rintro b n' s' (⟨rfl, hidle⟩ | ⟨hkey, hasked, hn, hanswer, hfresh'⟩)
    · rw [if_pos rfl, Peripheral.wp_pure]
      exact ⟨ofNat_pos (by omega) (by omega), hidle⟩
    · rw [if_neg (hkey.ne hbyte)]
      have hearly := hfresh.resolve_left hasked
      have hturns := hdue hearly
      exact ih hanswer hfresh' (by omega) (by omega) (by omega) fun _ => by omega

theorem await_answer {m : Nat} (h : Answer g o due n s)
    (hbyte : o.byte = acknowledge ∨ o.byte = echo) (hm : 3 ≤ m) (hmax : m < 2 ^ 32)
    (hin : due ≤ n + 497) (hdue : due + 6 ≤ n + 2 * m) :
    H.peripheral.wp (awaitReply o.byte m) (fun timeout _ s' => timeout > 0 ∧ Idle g s') n s := by
  obtain ⟨m, rfl⟩ : ∃ m', m = m' + 1 := ⟨m - 1, by omega⟩
  rw [awaitReply, Peripheral.wp_bind]
  refine (read_answer h hin).mono ?_
  rintro b n' s' (⟨rfl, hidle⟩ | ⟨hkey, -, hn, hanswer, hfresh⟩)
  · rw [if_pos rfl, Peripheral.wp_pure]
    exact ⟨ofNat_pos (by omega) (by omega), hidle⟩
  · rw [if_neg (hkey.ne hbyte)]
    exact await_fresh hanswer hfresh hbyte (by omega) (by omega) (by omega) fun _ => by omega

/-! ### Writing -/

/-- A command that is written before the output buffer has been emptied. -/
theorem command_blind {c : Byte} (hreply : s.reply = none)
    (hcommand : H.command s.settings c = (u, none)) : H.peripheral.wp (i8042Command c)
      (fun _ _ s' => s'.settings = u ∧ s'.reply = none) n s := by
  rw [wp_i8042Command, hcommand]
  exact ⟨settle_settings, settle_reply hreply⟩

/-- A byte without a reply; keys that may be in the output buffer are still keys. -/
theorem Idle.written (h : Idle g s) (hreports : g.reports = false)
    (hscans : g.scans = true → u.scans = true) : Idle u (H.settle n (H.written n s (u, none))) :=
  Idle.settle ⟨rfl, h.reply, fun _ o ho => (h.output hreports o ho).of_scans hscans⟩

theorem Idle.asked (h : Idle g s) (hreports : g.reports = false)
    (hscans : g.scans = true → u.scans = true) :
    Answer u o (n + H.delay n) (n + 1) (H.settle n (H.written n s (u, some o))) :=
  settle_answer fun o' ho' => (h.output hreports o' ho').of_scans hscans

section

variable {c v : Byte}

/-- The input buffer is empty at the first look. -/
theorem wp_i8042Write {post : Unit → Nat → State → Prop} : H.peripheral.wp (i8042Write v) post n s
    ↔ post () (n + 2) (H.settle (n + 1) (H.written (n + 1) (H.settle n s)
      (Hardware.data (H.settle n s).settings v))) := by
  rw [i8042Write, Peripheral.wp_bind, pollStatus, Peripheral.wp_bind, wp_i8042Status,
    inputBufferFull_statusByte]
  exact Iff.rfl

theorem write_tell (h : Idle g s) (hreports : g.reports = false)
    (hdata : Hardware.data g v = (u, none)) (hscans : g.scans = true → u.scans = true) :
    H.peripheral.wp (i8042Write v) (fun _ _ s' => Idle u s') n s := by
  have hidle := h.settle (H := H) (n := n)
  rw [wp_i8042Write, hidle.settings, hdata]
  exact hidle.written hreports hscans

/-- A byte for the data port that is answered is answered in time. -/
theorem write_ask (h : Idle g s) (hreports : g.reports = false)
    (hdata : Hardware.data g v = (u, some o)) (hscans : g.scans = true → u.scans = true)
    (hbyte : o.byte = acknowledge ∨ o.byte = echo) :
    H.peripheral.wp (do i8042Write v; awaitReply o.byte 512)
      (fun timeout _ s' => timeout > 0 ∧ Idle u s') n s := by
  have hidle := h.settle (H := H) (n := n)
  have hdelay := H.delay_le (n + 1)
  rw [Peripheral.wp_bind, wp_i8042Write, hidle.settings, hdata]
  exact await_answer (hidle.asked hreports hscans) hbyte (by decide) (by decide) (by omega)
    (by omega)

theorem write_ask_bind {α : Type} {f : Word → Driver α} {post : α → Nat → State → Prop}
    (h : Idle g s) (hreports : g.reports = false) (hdata : Hardware.data g v = (u, some o))
    (hscans : g.scans = true → u.scans = true) (hbyte : o.byte = acknowledge ∨ o.byte = echo)
    (hrest : ∀ timeout n' s', timeout > 0 → Idle u s' →
      H.peripheral.wp (f timeout) post n' s') :
    H.peripheral.wp (do i8042Write v; awaitReply o.byte 512 >>= f) post n s := by
  have hask := write_ask (H := H) (n := n) h hreports hdata hscans hbyte
  rw [Peripheral.wp_bind] at hask ⊢
  refine hask.mono fun _ n₁ s₁ hawait => ?_
  rw [Peripheral.wp_bind]
  exact hawait.mono fun timeout n' s' h => hrest timeout n' s' h.1 h.2

theorem command_tell (h : Idle g s) (hreports : g.reports = false)
    (hcommand : H.command g c = (u, none)) (hscans : g.scans = true → u.scans = true) :
    H.peripheral.wp (i8042Command c) (fun _ _ s' => Idle u s') n s := by
  rw [wp_i8042Command, h.settings, hcommand]
  exact h.written hreports hscans

/-- While no keys are sent, the answer to a command is what is read next. -/
theorem command_get (h : Idle g s) (hreports : g.reports = false)
    (hcommand : H.command g c = (u, some o)) (hscans : g.scans = false)
    (hscans' : u.scans = false) :
    H.peripheral.wp (i8042CommandGet c) (fun b _ s' => b = o.byte ∧ Idle u s') n s := by
  have hdelay := H.delay_le n
  have hanswer : Answer u o (n + H.delay n) (n + 1)
      (H.settle n (H.written n s (H.command s.settings c))) := by
    rw [h.settings, hcommand]
    refine h.asked hreports fun htrue => ?_
    rw [hscans] at htrue
    exact absurd htrue (by decide)
  rw [i8042CommandGet, Peripheral.wp_bind, wp_i8042Command]
  refine (read_answer hanswer (by omega)).mono ?_
  rintro b n' s' (hheard | ⟨hkey, -⟩)
  · exact hheard
  · have htrue := hkey.scans
    rw [hscans'] at htrue
    exact absurd htrue (by decide)

end

end BasicX86Kernel.Ps2
