import BasicX86Kernel.Machine.Port

/-! Devices with a state, which a driver may be run against step by step.  Each transfer happens at
an instant, the number of the transfers before it, so that a device may keep time. -/

namespace BasicX86Kernel.Machine

/-- What a read of a port shows, and what a transfer does to the state. -/
structure Peripheral (σ : Type) where
  read : Nat → σ → Port → Byte
  next : Nat → σ → Transfer → σ

namespace Peripheral

variable {σ α β : Type} (P : Peripheral σ)

/-- The state after some transfers, the first of them at the instant `n`. -/
def advance (n : Nat) (s : σ) : List Transfer → σ
  | [] => s
  | t :: log => advance (n + 1) (P.next n s t) log

/-- The device that answers as a peripheral does that starts in `s`. -/
def device (s : σ) : Device := fun log port => P.read log.length (P.advance 0 s log) port

/-- A run that begins at an instant in a state, and when and in which state it ends. -/
def run (n : Nat) (s : σ) : Driver α → α × Nat × σ
  | .done a => (a, n, s)
  | .input p k => run (n + 1) (P.next n s (.inb p (P.read n s p))) (k (P.read n s p))
  | .output p v k => run (n + 1) (P.next n s (.outb p v)) k

theorem advance_append (n : Nat) (s : σ) (log log' : List Transfer) :
    P.advance n s (log ++ log') = P.advance (n + log.length) (P.advance n s log) log' := by
  induction log generalizing n s with
  | nil => rfl
  | cons t log ih =>
    have hlen : n + 1 + log.length = n + (t :: log).length := by
      rw [List.length_cons]
      omega
    rw [List.cons_append, advance, ih, hlen]
    rfl

/-- The instant and the state after some transfers. -/
def reached (s : σ) (log : List Transfer) : Nat × σ := (log.length, P.advance 0 s log)

theorem reached_append (s : σ) (log : List Transfer) (t : Transfer) :
    P.reached s (log ++ [t]) = (log.length + 1, P.next log.length (P.advance 0 s log) t) := by
  rw [reached, advance_append, List.length_append, Nat.zero_add]
  rfl

/-- A run against the peripheral is a run against its device. -/
theorem run_eq (s : σ) (log : List Transfer) (d : Driver α) :
    P.run (P.reached s log).1 (P.reached s log).2 d =
      (d.result (P.device s) log, P.reached s (log ++ d.trace (P.device s) log)) := by
  induction d generalizing log with
  | done a => rw [run, Driver.trace, List.append_nil, Driver.result]
  | input p k ih =>
    have h := ih (P.device s log p) (log ++ [.inb p (P.device s log p)])
    rw [reached_append, List.append_assoc, List.singleton_append] at h
    exact h
  | output p v k ih =>
    have h := ih (log ++ [.outb p v])
    rw [reached_append, List.append_assoc, List.singleton_append] at h
    exact h

section

variable (n : Nat) (s : σ)

@[simp] theorem run_pure (a : α) : P.run n s (pure a : Driver α) = (a, n, s) := rfl

@[simp] theorem run_inb (p : Port) :
    P.run n s (inb p) = (P.read n s p, n + 1, P.next n s (.inb p (P.read n s p))) := rfl

@[simp] theorem run_outb (p : Port) (v : Byte) :
    P.run n s (outb p v) = ((), n + 1, P.next n s (.outb p v)) := rfl

theorem run_bind (x : Driver α) (f : α → Driver β) :
    P.run n s (x >>= f) =
      P.run (P.run n s x).2.1 (P.run n s x).2.2 (f (P.run n s x).1) := by
  change P.run n s (x.bind f) = _
  induction x generalizing n s with
  | done a => rfl
  | input p k ih => exact ih _ _ _
  | output p v k ih => exact ih _ _

end

/-! ### Conditions on the end of a run -/

/-- The run from here on ends with a result, at an instant and in a state of this kind. -/
def wp (d : Driver α) (post : α → Nat → σ → Prop) (n : Nat) (s : σ) : Prop :=
  post (P.run n s d).1 (P.run n s d).2.1 (P.run n s d).2.2

section

variable {P} {n : Nat} {s : σ} {post post' : α → Nat → σ → Prop}

theorem wp_pure {a : α} : P.wp (pure a : Driver α) post n s ↔ post a n s := Iff.rfl

theorem wp_inb {p : Port} {post : Byte → Nat → σ → Prop} :
    P.wp (inb p) post n s
      ↔ post (P.read n s p) (n + 1) (P.next n s (.inb p (P.read n s p))) := Iff.rfl

theorem wp_outb {p : Port} {v : Byte} {post : Unit → Nat → σ → Prop} :
    P.wp (outb p v) post n s ↔ post () (n + 1) (P.next n s (.outb p v)) := Iff.rfl

/-- What follows runs from where the first part ends. -/
theorem wp_bind {x : Driver β} {f : β → Driver α} :
    P.wp (x >>= f) post n s ↔ P.wp x (fun a => P.wp (f a) post) n s := by
  rw [wp, run_bind]
  rfl

theorem wp.mono {d : Driver α} (h : P.wp d post n s)
    (hpost : ∀ a n' s', post a n' s' → post' a n' s') : P.wp d post' n s :=
  hpost _ _ _ h

/-- The transfers with the device of a peripheral end as the run from the first instant does. -/
theorem wp.device {d : Driver α} (h : P.wp d post 0 s) :
    post (d.result (P.device s) []) (d.trace (P.device s) []).length
      (P.advance 0 s (d.trace (P.device s) [])) := by
  have hrun := P.run_eq s [] d
  rw [List.nil_append] at hrun
  rw [wp, show P.run 0 s d = _ from hrun] at h
  exact h

end

end Peripheral

end BasicX86Kernel.Machine
