import BasicX86Kernel.Machine.Port

/-! Loops that call a driver until one reply ends them, and count down an unsigned word.  The test
that gives up decrements too, so the counter afterwards is zero just when the last call allowed is
the one that ends the loop. -/

namespace BasicX86Kernel.Machine

variable {α : Type}

/-- `while( n-- ) if( stop( poll() ) ) break;`, and the counter afterwards. -/
def retry (poll : Driver α) (stop : α → Bool) : Nat → Driver Word
  | 0 => pure (0 - 1)
  | n + 1 => do
    let a ← poll
    if stop a then pure (BitVec.ofNat 32 n) else retry poll stop n

/-- What `n` calls return, one after the other. -/
def replies (dev : Device) (poll : Driver α) : List Transfer → Nat → List α
  | _, 0 => []
  | log, n + 1 => poll.result dev log :: replies dev poll (log ++ poll.trace dev log) n

variable (dev : Device) (poll : Driver α) (stop : α → Bool) (log : List Transfer)

theorem replies_inb (port : Port) (n : Nat) : replies dev (inb port) log n
    = answers dev port log n := by
  induction n generalizing log with
  | zero => rfl
  | succ n ih => rw [replies, answers, ih, Driver.result_inb, Driver.trace_inb]

theorem forall_replies {P : α → Prop} (h : ∀ t, P (poll.result dev t)) (n : Nat) :
    ∀ a ∈ replies dev poll log n, P a := by
  induction n generalizing log with
  | zero => simp [replies]
  | succ n ih => exact List.forall_mem_cons.mpr ⟨h log, ih _⟩

theorem replies_subset (n : Nat) : replies dev poll log n ⊆ replies dev poll log (n + 1) := by
  induction n generalizing log with
  | zero => exact List.nil_subset _
  | succ n ih => exact List.cons_subset_cons _ (ih _)

/-- The counter ends at zero when none of the first `n` replies ends the loop and the next does. -/
theorem retry_eq_zero_iff {n : Nat} (hn : n < 2 ^ 32) :
    (retry poll stop (n + 1)).result dev log = 0
      ↔ (∀ a ∈ replies dev poll log n, ¬stop a) ∧ ∃ a ∈ replies dev poll log (n + 1), stop a := by
  induction n generalizing log with
  | zero => simp [retry, replies, apply_ite (Driver.result dev _)]
  | succ n ih =>
    rw [retry, Driver.result_bind, replies, replies, List.exists_mem_cons_iff, List.forall_mem_cons]
    by_cases hs : stop (poll.result dev log)
    · -- the counter is still positive
      have hpos : BitVec.ofNat 32 (n + 1) ≠ 0 := by
        rw [ne_eq, ← BitVec.toNat_inj, BitVec.toNat_ofNat, Nat.mod_eq_of_lt hn]
        exact Nat.succ_ne_zero n
      simpa [hs] using hpos
    · rw [if_neg hs, ih _ (by omega)]
      simp [hs]

/-- Read as "ended by a reply", a counter that is not zero is right when one of the first `n`
replies ends the loop, and wrong otherwise. -/
theorem retry_ne_zero_iff {n : Nat} (hn : n < 2 ^ 32) :
    ((retry poll stop (n + 1)).result dev log ≠ 0
        ↔ ∃ a ∈ replies dev poll log (n + 1), stop a)
      ↔ ∃ a ∈ replies dev poll log n, stop a := by
  have hnone : (∀ a ∈ replies dev poll log n, ¬stop a) ↔ ¬∃ a ∈ replies dev poll log n, stop a := by
    simp
  rw [ne_eq, retry_eq_zero_iff dev poll stop log hn, hnone]
  by_cases hfirst : ∃ a ∈ replies dev poll log n, stop a
  · obtain ⟨a, ha, hs⟩ := hfirst
    have hlast := replies_subset dev poll log n ha
    exact iff_of_true (iff_of_true (fun h => h.1 ⟨a, ha, hs⟩) ⟨a, hlast, hs⟩) ⟨a, ha, hs⟩
  · -- then the counter ends at zero just when the last reply ends the loop
    rw [iff_false_intro hfirst, iff_false, not_false_eq_true, true_and]
    exact not_iff_self

end BasicX86Kernel.Machine
