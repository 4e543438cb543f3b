import BasicX86Kernel.Machine.Word
import Mathlib.Data.List.Basic

/-! Programs that read and write device ports, the answers of a device that may depend on
everything that has been transferred, and the transfers of a run. -/

namespace BasicX86Kernel.Machine

abbrev Port := BitVec 16

/-- One byte moved between the processor and a port. -/
inductive Transfer where
  | inb (port : Port) (value : Byte)
  | outb (port : Port) (value : Byte)
  deriving DecidableEq

/-- What the devices answer to a read of a port, after the transfers made so far. -/
abbrev Device := List Transfer → Port → Byte

/-- A program that reads and writes ports. -/
inductive Driver (α : Type) where
  | done (result : α)
  | input (port : Port) (next : Byte → Driver α)
  | output (port : Port) (value : Byte) (next : Driver α)

namespace Driver

variable {α β : Type}

def bind : Driver α → (α → Driver β) → Driver β
  | done a, f => f a
  | input p k, f => input p fun v => (k v).bind f
  | output p v k, f => output p v (k.bind f)

instance : Monad Driver where
  pure := done
  bind := bind

/-- The transfers of a run that begins after those of the log. -/
def trace (dev : Device) : List Transfer → Driver α → List Transfer
  | _, done _ => []
  | log, input p k =>
    .inb p (dev log p) :: trace dev (log ++ [.inb p (dev log p)]) (k (dev log p))
  | log, output p v k => .outb p v :: trace dev (log ++ [.outb p v]) k

/-- The value a run that begins after the transfers of the log returns. -/
def result (dev : Device) : List Transfer → Driver α → α
  | _, done a => a
  | log, input p k => result dev (log ++ [.inb p (dev log p)]) (k (dev log p))
  | log, output p v k => result dev (log ++ [.outb p v]) k

end Driver

/-- The instruction `in`. -/
def inb (port : Port) : Driver Byte := .input port .done

/-- The instruction `out`. -/
def outb (port : Port) (value : Byte) : Driver Unit := .output port value (.done ())

namespace Driver

variable {α β : Type} (dev : Device) (log : List Transfer)

@[simp] theorem trace_pure (a : α) : (pure a : Driver α).trace dev log = [] := rfl

@[simp] theorem result_pure (a : α) : (pure a : Driver α).result dev log = a := rfl

@[simp] theorem trace_inb (p : Port) : (inb p).trace dev log = [.inb p (dev log p)] := rfl

@[simp] theorem result_inb (p : Port) : (inb p).result dev log = dev log p := rfl

@[simp] theorem trace_outb (p : Port) (v : Byte) : (outb p v).trace dev log = [.outb p v] := rfl

@[simp] theorem trace_bind (x : Driver α) (f : α → Driver β) :
    (x >>= f).trace dev log = x.trace dev log
      ++ (f (x.result dev log)).trace dev (log ++ x.trace dev log) := by
  change (x.bind f).trace dev log = _
  induction x generalizing log with
  | done a => simp [bind, trace, result]
  | input p k ih => simp [bind, trace, result, ih]
  | output p v k ih => simp [bind, trace, result, ih]

@[simp] theorem result_bind (x : Driver α) (f : α → Driver β) :
    (x >>= f).result dev log = (f (x.result dev log)).result dev (log ++ x.trace dev log) := by
  change (x.bind f).result dev log = _
  induction x generalizing log with
  | done a => simp [bind, trace, result]
  | input p k ih => simp [bind, trace, result, ih]
  | output p v k ih => simp [bind, trace, result, ih]

theorem bind_assoc {γ : Type} (x : Driver α) (f : α → Driver β) (g : β → Driver γ) :
    x >>= f >>= g = x >>= fun a => f a >>= g := by
  change (x.bind f).bind g = x.bind fun a => (f a).bind g
  induction x with
  | done a => rfl
  | input p k ih => simp [bind, ih]
  | output p v k ih => simp [bind, ih]

end Driver

/-! ### Reads -/

/-- The reads of a list of ports and answers, as transfers. -/
def inputs (rs : List (Port × Byte)) : List Transfer := rs.map fun r => .inb r.1 r.2

@[simp] theorem inputs_nil : inputs [] = [] := rfl

@[simp] theorem inputs_cons (r : Port × Byte) (rs : List (Port × Byte)) :
    inputs (r :: rs) = .inb r.1 r.2 :: inputs rs := rfl

@[simp] theorem inputs_append (rs rs' : List (Port × Byte)) :
    inputs (rs ++ rs') = inputs rs ++ inputs rs' := List.map_append

/-- The answers to `n` reads of a port, one after the other. -/
def answers (dev : Device) (port : Port) : List Transfer → Nat → List Byte
  | _, 0 => []
  | log, n + 1 => dev log port :: answers dev port (log ++ [.inb port (dev log port)]) n

/-- The log after `n` reads of a port. -/
def afterReads (dev : Device) (port : Port) (log : List Transfer) (n : Nat) : List Transfer :=
  log ++ inputs ((answers dev port log n).map (port, ·))

@[simp] theorem answers_length (dev : Device) (port : Port) (log : List Transfer) (n : Nat) :
    (answers dev port log n).length = n := by
  induction n generalizing log with
  | zero => rfl
  | succ n ih => simp [answers, ih]

theorem afterReads_succ (dev : Device) (port : Port) (log : List Transfer) (n : Nat) :
    afterReads dev port log (n + 1)
      = afterReads dev port (log ++ [.inb port (dev log port)]) n := by
  simp [afterReads, answers]

/-- The last of `n + 1` answers is what the device says after `n` reads. -/
theorem answers_succ (dev : Device) (port : Port) (log : List Transfer) (n : Nat) :
    answers dev port log (n + 1)
      = answers dev port log n ++ [dev (afterReads dev port log n) port] := by
  induction n generalizing log with
  | zero => simp [answers, afterReads]
  | succ n ih => rw [answers, ih, afterReads_succ, answers, List.cons_append]

/-! ### Writes -/

/-- What holds of every write of a list of transfers, given the transfers before it. -/
def Writes (P : List Transfer → Port → Byte → Prop) (t : List Transfer) : Prop :=
  ∀ before p v after, t = before ++ Transfer.outb p v :: after → P before p v

variable {P : List Transfer → Port → Byte → Prop}

@[simp] theorem writes_nil : Writes P [] := by
  intro before p v after h
  simp at h

@[simp] theorem writes_outb (p : Port) (v : Byte) (t : List Transfer) :
    Writes P (.outb p v :: t) ↔ P [] p v ∧ Writes (fun before => P (.outb p v :: before)) t := by
  constructor
  · intro h
    refine ⟨h [] p v t rfl, ?_⟩
    intro before q w after ht
    exact h (.outb p v :: before) q w after (by rw [ht, List.cons_append])
  · rintro ⟨h, ht⟩ before q w after hs
    cases before with
    | nil =>
      obtain ⟨he, -⟩ := List.cons.inj hs
      cases he
      exact h
    | cons x before =>
      obtain ⟨he, htail⟩ := List.cons.inj hs
      cases he
      exact ht before q w after htail

@[simp] theorem writes_inb (p : Port) (v : Byte) (t : List Transfer) :
    Writes P (.inb p v :: t) ↔ Writes (fun before => P (.inb p v :: before)) t := by
  constructor
  · intro h before q w after ht
    exact h (.inb p v :: before) q w after (by rw [ht, List.cons_append])
  · intro ht before q w after hs
    cases before with
    | nil => exact absurd (List.cons.inj hs).1 (by simp)
    | cons x before =>
      obtain ⟨he, htail⟩ := List.cons.inj hs
      cases he
      exact ht before q w after htail

theorem writes_append (t t' : List Transfer) :
    Writes P (t ++ t') ↔ Writes P t ∧ Writes (fun before => P (t ++ before)) t' := by
  induction t generalizing P with
  | nil => simp
  | cons x t ih =>
    cases x with
    | inb p v => simp [ih]
    | outb p v => simp [ih, and_assoc]

@[simp] theorem writes_inputs (rs : List (Port × Byte)) : Writes P (inputs rs) := by
  induction rs generalizing P with
  | nil => simp
  | cons r rs ih => simp [ih]

theorem writes_bind {α β : Type} (dev : Device) (log : List Transfer) (x : Driver α)
    (f : α → Driver β) :
    Writes P ((x >>= f).trace dev log) ↔ Writes P (x.trace dev log)
      ∧ Writes (fun before => P (x.trace dev log ++ before))
          ((f (x.result dev log)).trace dev (log ++ x.trace dev log)) := by
  rw [Driver.trace_bind, writes_append]

/-! ### Exchanges -/

/-- The reads a list of transfers begins with. -/
def reads : List Transfer → List (Port × Byte)
  | .inb p v :: t => (p, v) :: reads t
  | _ => []

@[simp] theorem reads_inputs (rs : List (Port × Byte)) : reads (inputs rs) = rs := by
  induction rs with
  | nil => rfl
  | cons r rs ih => simp [reads, ih]

/-- The byte has been written to the port, and the reads between that write and the next one are
those of the list. -/
def Exchanged (t : List Transfer) (p : Port) (v : Byte) (rs : List (Port × Byte)) : Prop :=
  ∃ before after, t = before ++ Transfer.outb p v :: after ∧ rs = reads after

variable {q : Port} {w : Byte} {rs : List (Port × Byte)}

@[simp] theorem exchanged_nil : ¬Exchanged [] q w rs := by
  rintro ⟨before, after, h, -⟩
  simp at h

@[simp] theorem exchanged_outb (p : Port) (v : Byte) (t : List Transfer) :
    Exchanged (.outb p v :: t) q w rs ↔ (p = q ∧ v = w ∧ rs = reads t) ∨ Exchanged t q w rs := by
  constructor
  · rintro ⟨before, after, h, hrs⟩
    cases before with
    | nil =>
      obtain ⟨he, rfl⟩ := List.cons.inj h
      cases he
      exact .inl ⟨rfl, rfl, hrs⟩
    | cons x before => exact .inr ⟨before, after, (List.cons.inj h).2, hrs⟩
  · rintro (⟨rfl, rfl, hrs⟩ | ⟨before, after, rfl, hrs⟩)
    · exact ⟨[], t, rfl, hrs⟩
    · exact ⟨.outb p v :: before, after, rfl, hrs⟩

@[simp] theorem exchanged_inb (p : Port) (v : Byte) (t : List Transfer) :
    Exchanged (.inb p v :: t) q w rs ↔ Exchanged t q w rs := by
  constructor
  · rintro ⟨before, after, h, hrs⟩
    cases before with
    | nil => exact absurd (List.cons.inj h).1 (by simp)
    | cons x before => exact ⟨before, after, (List.cons.inj h).2, hrs⟩
  · rintro ⟨before, after, rfl, hrs⟩
    exact ⟨.inb p v :: before, after, rfl, hrs⟩

/-! ### Bytes written once -/

@[simp] theorem outb_notMem_inputs (rs' : List (Port × Byte)) : .outb q w ∉ inputs rs' := by
  simp [inputs]

theorem Exchanged.mem {t : List Transfer} (h : Exchanged t q w rs) : .outb q w ∈ t := by
  obtain ⟨before, after, rfl, -⟩ := h
  simp

theorem reads_append {t' : List Transfer} (h : reads t' = []) (rs' : List (Port × Byte)) :
    reads (inputs rs' ++ t') = rs' := by
  induction rs' with
  | nil => exact h
  | cons r rs' ih => rw [inputs_cons, List.cons_append, reads, ih]

/-- The exchange of a byte that is written once. -/
theorem exchanged_once {t t' : List Transfer} (ht : .outb q w ∉ t) (ht' : .outb q w ∉ t') :
    Exchanged (t ++ .outb q w :: t') q w rs ↔ rs = reads t' := by
  induction t with
  | nil =>
    rw [List.nil_append, exchanged_outb]
    exact ⟨fun h => h.elim (fun h => h.2.2) fun h => absurd h.mem ht', fun h => .inl ⟨rfl, rfl, h⟩⟩
  | cons x t ih =>
    have htail : .outb q w ∉ t := fun h => ht (List.mem_cons_of_mem _ h)
    cases x with
    | inb p v => rw [List.cons_append, exchanged_inb, ih htail]
    | outb p v =>
      rw [List.cons_append, exchanged_outb, ih htail]
      refine ⟨fun h => h.elim (fun h => ?_) id, .inr⟩
      exact absurd (List.mem_cons.mpr (.inl (by rw [h.1, h.2.1]))) ht

/-- What holds before every write of one byte to one port. -/
def Before (q : Port) (w : Byte) (Q : List Transfer → Prop) (before : List Transfer) (p : Port)
    (v : Byte) : Prop :=
  p = q → v = w → Q before

variable {Q : List Transfer → Prop}

theorem before_of_notMem {t : List Transfer} (h : .outb q w ∉ t) : Writes (Before q w Q) t := by
  rintro before p v after rfl rfl rfl
  exact absurd (by simp) h

/-- For a byte that is written once, it has to hold there. -/
theorem before_once {t t' : List Transfer} (ht : .outb q w ∉ t) (ht' : .outb q w ∉ t') :
    Writes (Before q w Q) (t ++ .outb q w :: t') ↔ Q t := by
  rw [writes_append, writes_outb]
  constructor
  · rintro ⟨-, h, -⟩
    simpa using h rfl rfl
  · intro h
    refine ⟨before_of_notMem ht, fun _ _ => by simpa using h, ?_⟩
    rintro before p v after rfl rfl rfl
    exact absurd (by simp) ht'

end BasicX86Kernel.Machine
