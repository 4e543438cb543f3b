import BasicX86Kernel.Drivers.I8042

/-! Keyboard and mouse initialisation (drivers/kbd.c), and whether the writes of `i8042_init`,
`kbd_init` and `mouse_init` wait for the input buffer of the controller. -/

namespace BasicX86Kernel.I8042

open Machine

/-- `timeout = 512; while( timeout-- && i8042_read() != reply );`, and `timeout` afterwards. -/
def awaitReply (reply : Byte) : Nat → Driver Word
  | 0 => pure (0 - 1)
  | timeout + 1 => do
    let data ← i8042Read
    if data = reply then pure (BitVec.ofNat 32 timeout) else awaitReply reply timeout

/-- Returns whether the acknowledgement is reported. -/
def kbdInit : Driver Bool := do
  i8042Write keyboardEnableScanning
  let _ ← awaitReply 0xFA 512
  i8042Write keyboardEcho
  let _ ← awaitReply 0xEE 512
  i8042Write keyboardSetLeds
  let _ ← awaitReply 0xFA 512
  i8042Write 0x00
  let timeout ← awaitReply 0xFA 512
  pure (decide (timeout > 0))

/-- Returns whether the acknowledgement is reported. -/
def mouseInit : Driver Bool := do
  i8042CommandSet writeMouseDevice mouseEnableDataReporting
  let timeout ← awaitReply 0xFA 512
  pure (decide (timeout > 0))

theorem awaitReply_eq_retry (reply : Byte) (n : Nat) :
    awaitReply reply n = retry i8042Read (fun data => data = reply) n := by
  induction n with
  | zero => rfl
  | succ n ih => simp only [awaitReply, retry, ih, decide_eq_true_eq]

/-- The part of `kmain` that sets up keyboard and mouse. -/
def keyboardAndMouse : Driver Unit := do
  i8042Init
  let _ ← kbdInit
  let _ ← mouseInit
  pure ()

/-! ### The handshake -/

/-- What one transfer adds to the knowledge that the input buffer is empty. -/
def observe (seen : Bool) : Transfer → Bool
  | .inb p s => seen || (p = controlPort && !inputBufferFull s)
  | .outb _ _ => false

/-- Since the last write, a status that shows an empty input buffer has been read. -/
def Observed (t : List Transfer) : Prop := t.foldl observe false = true

/-- A write to the controller comes after such a status. -/
def Handshake (log before : List Transfer) (p : Port) (_ : Byte) : Prop :=
  p = controlPort ∨ p = dataPort → Observed (log ++ before)

theorem not_observed_outb (t : List Transfer) (p : Port) (v : Byte) :
    ¬Observed (t ++ [.outb p v]) := by
  simp [Observed, List.foldl_append, observe]

theorem foldl_observe_inputs (seen : Bool) (rs : List (Port × Byte)) :
    (inputs rs).foldl observe seen = true
      ↔ seen = true ∨ ∃ r ∈ rs, r.1 = controlPort ∧ inputBufferFull r.2 = false := by
  induction rs generalizing seen with
  | nil => simp
  | cons r rs ih =>
    rw [inputs_cons, List.foldl_cons, ih]
    simp [observe, or_assoc]

theorem observed_inputs (t : List Transfer) (rs : List (Port × Byte)) :
    Observed (t ++ inputs rs)
      ↔ Observed t ∨ ∃ r ∈ rs, r.1 = controlPort ∧ inputBufferFull r.2 = false := by
  rw [Observed, List.foldl_append, foldl_observe_inputs]
  rfl

/-- `i8042_write` keeps the handshake unless all its 500 polls see a full input buffer: then it
writes all the same. -/
theorem i8042Write_handshake_iff (dev : Device) (log : List Transfer) (data : Byte) :
    Writes (Handshake log) ((i8042Write data).trace dev log)
      ↔ Observed log ∨ ∃ s ∈ answers dev controlPort log 500, inputBufferFull s = false := by
  rw [i8042Write_trace, writes_append]
  have hpoll := pollStatus_eq_zero_iff dev log writable
  by_cases hzero : (pollStatus writable 500).result dev log = 0
  · -- the last poll sees an empty buffer, and nothing is written
    have hclear : ∃ s ∈ answers dev controlPort log 500, inputBufferFull s = false := by
      rw [answers_succ dev controlPort log 499]
      exact ⟨_, List.mem_append_right _ List.mem_cons_self,
        by simpa [writable] using (hpoll.mp hzero).2⟩
    rw [if_pos hzero]
    exact iff_of_true ⟨writes_inputs _, writes_nil⟩ (Or.inr hclear)
  · rw [if_neg hzero, writes_outb, polled, and_iff_right (writes_inputs _)]
    simp only [Handshake, or_true, true_imp_iff, List.append_nil, writes_nil, and_true,
      observed_inputs]
    refine or_congr_right ⟨?_, ?_⟩
    · rintro ⟨r, hr, -, hclear⟩
      obtain ⟨s, hs, rfl⟩ := List.mem_map.mp hr
      exact ⟨s, upTo_subset hs, hclear⟩
    · rintro ⟨s, hs, hclear⟩
      have hready : ∃ s ∈ answers dev controlPort log 500, writable s :=
        ⟨s, hs, by simp [writable, hclear]⟩
      obtain ⟨before, s', hup, hs'⟩ := upTo_of_exists hready
      refine ⟨(controlPort, s'), ?_, rfl, by simpa [writable] using hs'⟩
      rw [hup]
      simp

/-- Two commands in a row: the second is written without a look at the status. -/
theorem not_handshake_commands {α : Type} (dev : Device) (log : List Transfer) (c c' : Byte)
    (next : Unit → Driver α) :
    ¬Writes (Handshake log) ((do i8042Command c; i8042Command c' >>= next).trace dev log) := by
  intro h
  have hsecond : Handshake log [.outb controlPort c] controlPort c' := by
    simpa [i8042Command] using ((writes_bind ..).mp ((writes_bind ..).mp h).2).1
  exact not_observed_outb log controlPort c (hsecond (.inl rfl))

/-- In no run, whatever the controller answers and whatever has been transferred before, does every
write of the initialisation wait for the input buffer. -/
theorem no_run_keeps_handshake (dev : Device) (log : List Transfer) :
    ¬Writes (Handshake log) (keyboardAndMouse.trace dev log) := by
  intro h
  exact not_handshake_commands dev log _ _ _ ((writes_bind ..).mp h).1

/-- A controller whose status always shows a full input buffer and an empty output buffer. -/
theorem busy_controller_overrun : ¬Writes (Handshake [])
    (keyboardAndMouse.trace (fun _ p => if p = controlPort then 0x02 else 0x00) []) := by
  intro h
  exact not_handshake_commands _ [] _ _ _ ((writes_bind ..).mp h).1

end BasicX86Kernel.I8042
