import BasicX86Kernel.Drivers.SelfTest

/-! Whether `i8042_read` and `i8042_write` do what a loop of 500 polls is for.  They ask afterwards
whether the counter is zero, which it is when the last poll succeeds and not when none does. -/

namespace BasicX86Kernel.I8042

open Machine

/-- If one of 500 statuses shows a byte, `i8042_read` stops at the first that does, reads the data
port once and returns what it reads.  Otherwise it returns zero and leaves the data port alone. -/
def ReadsInTime (dev : Device) (log : List Transfer) : Prop :=
  if ∃ s ∈ answers dev controlPort log 500, readable s then
    i8042Read.trace dev log
      = polled readable dev log ++ [.inb dataPort (i8042Read.result dev log)]
  else (∀ v, .inb dataPort v ∉ i8042Read.trace dev log) ∧ i8042Read.result dev log = 0x00

/-- If one of 500 statuses shows an empty input buffer, `i8042_write` stops at the first that does
and writes its byte to the data port once.  Otherwise it writes nothing. -/
def WritesInTime (dev : Device) (log : List Transfer) (data : Byte) : Prop :=
  if ∃ s ∈ answers dev controlPort log 500, writable s then
    (i8042Write data).trace dev log = polled writable dev log ++ [.outb dataPort data]
  else ∀ p v, .outb p v ∉ (i8042Write data).trace dev log

section

variable (dev : Device) (log : List Transfer)

theorem readsInTime_iff : ReadsInTime dev log
    ↔ ∃ s ∈ answers dev controlPort log 499, readable s := by
  rw [← pollStatus_ne_zero_iff, ReadsInTime, i8042Read_trace]
  by_cases hzero : (pollStatus readable 500).result dev log = 0
  · -- nothing is read, so no status may have been ready
    obtain ⟨hheard, hresult⟩ := i8042Read_late dev log hzero
    rw [hheard, hresult]
    split
    · rename_i hready
      refine iff_of_false (fun h => ?_) (fun h => h.mpr hready hzero)
      have hlen := congrArg List.length h
      simp [polled, polls] at hlen
    · rename_i hready
      refine iff_of_true ⟨fun v hv => ?_, rfl⟩ (iff_of_false (not_not_intro hzero) hready)
      obtain ⟨r, hr, hrv⟩ := List.mem_map.mp hv
      have hport : r.1 = dataPort := (Transfer.inb.inj hrv).1
      exact controlPort_ne_dataPort ((polls_port dev log hr).symm.trans hport)
  · -- the data port is read, so some status must have been ready
    obtain ⟨hheard, -⟩ := i8042Read_reads dev log hzero
    rw [hheard, inputs_append]
    split
    · rename_i hready
      exact iff_of_true rfl (iff_of_true hzero hready)
    · rename_i hready
      refine iff_of_false (fun h => ?_) (fun h => hready (h.mp hzero))
      exact h.1 (i8042Read.result dev log) (by simp)

theorem outb_notMem_polled (ready : Byte → Bool) (p : Port) (v : Byte) :
    .outb p v ∉ polled ready dev log := outb_notMem_inputs _

theorem writesInTime_iff (data : Byte) : WritesInTime dev log data
    ↔ ∃ s ∈ answers dev controlPort log 499, writable s := by
  rw [← pollStatus_ne_zero_iff, WritesInTime, i8042Write_trace]
  by_cases hzero : (pollStatus writable 500).result dev log = 0
  · rw [if_pos hzero, List.append_nil]
    split
    · rename_i hready
      refine iff_of_false (fun h => ?_) (fun h => h.mpr hready hzero)
      exact absurd h (by simp)
    · rename_i hready
      exact iff_of_true (outb_notMem_polled dev log writable)
        (iff_of_false (not_not_intro hzero) hready)
  · rw [if_neg hzero]
    split
    · rename_i hready
      exact iff_of_true rfl (iff_of_true hzero hready)
    · rename_i hready
      refine iff_of_false (fun h => ?_) (fun h => hready (h.mp hzero))
      exact h dataPort data (by simp)

end

/-- A transfer is made in time just when one of the first 499 statuses allows it. -/
theorem transfers_inTime_iff (dev : Device) (log : List Transfer) (data : Byte) :
    (ReadsInTime dev log ↔ ∃ s ∈ answers dev controlPort log 499,
        outputBufferFull s = true ∨ mouseOutputBufferFull s = true)
      ∧ (WritesInTime dev log data
        ↔ ∃ s ∈ answers dev controlPort log 499, inputBufferFull s = false) := by
  rw [readsInTime_iff, writesInTime_iff]
  simp only [readable, writable, Bool.or_eq_true, Bool.not_eq_true', and_self]

/-- A controller whose statuses are all zero has no byte, and its data port is read all the same. -/
theorem silent_controller_read : ¬ReadsInTime (fun _ _ => 0x00) [] := by
  rw [readsInTime_iff, ← replies_inb]
  rintro ⟨s, hs, hready⟩
  have hzero := forall_replies (P := (· = 0x00)) (fun _ _ => 0x00) (inb controlPort) []
    (fun _ => rfl) 499 s hs
  rw [hzero] at hready
  exact absurd hready (by decide)

end BasicX86Kernel.I8042
