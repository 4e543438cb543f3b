import BasicX86Kernel.Machine.Memory

/-! Programs that load bytes through a translation that may fault, the loads of a run, and which
addresses must be accessible for a run without a fault. -/

namespace BasicX86Kernel.Machine

/-- A program that loads bytes, and calls functions that change a state and return a word. -/
inductive Code (σ α : Type) where
  | done (result : α)
  | load (addr : Word) (next : Byte → Code σ α)
  | call (f : σ → Word × σ) (next : Word → Code σ α)

namespace Code

variable {σ α β : Type}

def bind : Code σ α → (α → Code σ β) → Code σ β
  | done a, f => f a
  | load a k, f => load a fun v => (k v).bind f
  | call g k, f => call g fun v => (k v).bind f

instance : Monad (Code σ) where
  pure := done
  bind := bind

/-- The addresses that a run loads from, each with the state at the time of the load.  A load that
faults is the last. -/
def loads (read : σ → Word → Option Byte) : σ → Code σ α → List (σ × Word)
  | _, done _ => []
  | s, load a k =>
    (s, a) :: match read s a with
      | some v => loads read s (k v)
      | none => []
  | s, call f k => loads read (f s).2 (k (f s).1)

/-- The result and the last state of a run in which no load faults. -/
def run (byte : σ → Word → Byte) : σ → Code σ α → α × σ
  | s, done a => (a, s)
  | s, load a k => run byte s (k (byte s a))
  | s, call f k => run byte (f s).2 (k (f s).1)

/-- Every load of a run in which no load faults is from an address that is good at the time. -/
def Safe (byte : σ → Word → Byte) (good : σ → Word → Prop) : σ → Code σ α → Prop
  | _, done _ => True
  | s, load a k => good s a ∧ Safe byte good s (k (byte s a))
  | s, call f k => Safe byte good (f s).2 (k (f s).1)

/-- When the good addresses read what the memory holds, the loads of a run are all good if and only
if they are in the run that does not fault. -/
theorem forall_loads_iff {read : σ → Word → Option Byte} (byte : σ → Word → Byte)
    (good : σ → Word → Prop) (h : ∀ s a, good s a → read s a = some (byte s a)) (s : σ)
    (p : Code σ α) : (∀ x ∈ p.loads read s, good x.1 x.2) ↔ p.Safe byte good s := by
  induction p generalizing s with
  | done a => simp [loads, Safe]
  | load a k ih =>
    rw [loads, Safe, List.forall_mem_cons]
    refine and_congr_right fun hgood => ?_
    rw [h s a hgood]
    exact ih _ s
  | call f k ih => exact ih _ _

section Bind

variable (byte : σ → Word → Byte) (good : σ → Word → Prop) (s : σ)

@[simp] theorem run_pure (a : α) : (pure a : Code σ α).run byte s = (a, s) := rfl

@[simp] theorem safe_pure (a : α) : (pure a : Code σ α).Safe byte good s := trivial

@[simp] theorem run_bind (p : Code σ α) (f : α → Code σ β) :
    (p >>= f).run byte s = (f (p.run byte s).1).run byte (p.run byte s).2 := by
  change (p.bind f).run byte s = _
  induction p generalizing s with
  | done a => rfl
  | load a k ih => exact ih _ s
  | call g k ih => exact ih _ _

theorem bind_assoc {γ : Type} (p : Code σ α) (f : α → Code σ β) (g : β → Code σ γ) :
    (p >>= f).bind g = p >>= fun a => (f a).bind g := by
  change (p.bind f).bind g = p.bind fun a => (f a).bind g
  induction p with
  | done a => rfl
  | load a k ih => exact congrArg (load a) (funext fun v => ih v)
  | call h k ih => exact congrArg (call h) (funext fun v => ih v)

@[simp] theorem safe_bind (p : Code σ α) (f : α → Code σ β) :
    (p >>= f).Safe byte good s ↔
      p.Safe byte good s ∧ (f (p.run byte s).1).Safe byte good (p.run byte s).2 := by
  change (p.bind f).Safe byte good s ↔ _
  induction p generalizing s with
  | done a => simp [bind, Safe, run]
  | load a k ih => simp only [bind, Safe, run, ih, and_assoc]
  | call g k ih => exact ih _ _

end Bind

/-! ### Invariants of the calls -/

/-- Every call of the program keeps the invariant. -/
def Keeps (inv : σ → Prop) : Code σ α → Prop
  | done _ => True
  | load _ k => ∀ v, Keeps inv (k v)
  | call f k => (∀ s, inv s → inv (f s).2) ∧ ∀ v, Keeps inv (k v)

section Keeps

variable {inv : σ → Prop}

theorem keeps_pure (a : α) : (pure a : Code σ α).Keeps inv := trivial

theorem Keeps.bind {p : Code σ α} {f : α → Code σ β} (hp : p.Keeps inv)
    (hf : ∀ a, (f a).Keeps inv) : (p >>= f).Keeps inv := by
  change (p.bind f).Keeps inv
  induction p with
  | done a => exact hf a
  | load a k ih => exact fun v => ih v (hp v)
  | call g k ih => exact ⟨hp.1, fun v => ih v (hp.2 v)⟩

/-- Where the invariant decides which addresses are good, it may be used in their place. -/
theorem Keeps.safe_congr {byte : σ → Word → Byte} {good good' : σ → Word → Prop} {p : Code σ α}
    (hp : p.Keeps inv) (hgood : ∀ s a, inv s → (good s a ↔ good' s a)) {s : σ} (hs : inv s) :
    p.Safe byte good s ↔ p.Safe byte good' s := by
  induction p generalizing s with
  | done a => exact Iff.rfl
  | load a k ih => exact and_congr (hgood s a hs) (ih _ (hp _) hs)
  | call f k ih => exact ih _ (hp.2 _) (hp.1 s hs)

theorem Keeps.run {p : Code σ α} (hp : p.Keeps inv) (byte : σ → Word → Byte) {s : σ} (hs : inv s) :
    inv (p.run byte s).2 := by
  induction p generalizing s with
  | done a => exact hs
  | load a k ih => exact ih _ (hp _) hs
  | call f k ih => exact ih _ (hp.2 _) (hp.1 s hs)

end Keeps

end Code

/-! ### Loads of several bytes -/

/-- The `n` addresses from `a` on are good. -/
def Span (good : Word → Prop) (a : Word) (n : Nat) : Prop :=
  ∀ i < n, good (a + BitVec.ofNat 32 i)

@[simp] theorem span_zero (good : Word → Prop) (a : Word) : Span good a 0 :=
  fun _ hi => absurd hi (Nat.not_lt_zero _)

theorem span_succ (good : Word → Prop) (a : Word) (n : Nat) :
    Span good a (n + 1) ↔ Span good a n ∧ good (a + BitVec.ofNat 32 n) :=
  Nat.forall_lt_succ_right

theorem Span.mono {good : Word → Prop} {a : Word} {n k : Nat} (h : Span good a n) (hk : k ≤ n) :
    Span good a k := fun i hi => h i (Nat.lt_of_lt_of_le hi hk)

theorem span_cons (good : Word → Prop) (a : Word) (n : Nat) :
    Span good a (n + 1) ↔ good a ∧ Span good (a + 1) n := by
  rw [Span, Nat.forall_lt_succ_left]
  refine and_congr (by simp) (forall₂_congr fun i _ => ?_)
  rw [add_one_add_ofNat]

section Loads

variable {σ : Type}

def load8 (a : Word) : Code σ Byte := .load a .done

def load16 (a : Word) : Code σ (BitVec 16) := do
  let b0 ← load8 a
  let b1 ← load8 (a + 1)
  return b1 ++ b0

def load32 (a : Word) : Code σ Word := do
  let b0 ← load8 a
  let b1 ← load8 (a + 1)
  let b2 ← load8 (a + 2)
  let b3 ← load8 (a + 3)
  return b3 ++ b2 ++ b1 ++ b0

/-- A function that returns nothing. -/
def effect (f : σ → σ) : Code σ Unit := .call (fun s => (0, f s)) fun _ => .done ()

/-- A function that returns a word. -/
def value (f : σ → Word × σ) : Code σ Word := .call f .done

variable (mem : σ → Mem) {good : σ → Word → Prop} (s : σ)

@[simp] theorem run_load8 (a : Word) :
    (load8 a).run (fun s => (mem s).byte) s = ((mem s).byte a, s) := rfl

@[simp] theorem safe_load8 (a : Word) :
    (load8 a).Safe (fun s => (mem s).byte) good s ↔ good s a :=
  and_iff_left trivial

@[simp] theorem run_load16 (a : Word) :
    (load16 a).run (fun s => (mem s).byte) s = ((mem s).read16 a, s) := rfl

@[simp] theorem run_load32 (a : Word) :
    (load32 a).run (fun s => (mem s).byte) s = ((mem s).read32 a, s) := rfl

@[simp] theorem run_effect (byte : σ → Word → Byte) (f : σ → σ) :
    (effect f).run byte s = ((), f s) := rfl

@[simp] theorem safe_effect (byte : σ → Word → Byte) (f : σ → σ) :
    (effect f).Safe byte good s := trivial

@[simp] theorem run_value (byte : σ → Word → Byte) (f : σ → Word × σ) :
    (value f).run byte s = f s := rfl

@[simp] theorem safe_value (byte : σ → Word → Byte) (f : σ → Word × σ) :
    (value f).Safe byte good s := trivial

@[simp] theorem safe_load16 (a : Word) :
    (load16 a).Safe (fun s => (mem s).byte) good s ↔ Span (good s) a 2 := by
  simp only [load16, Code.safe_bind, safe_load8, run_load8, Code.safe_pure, span_succ, span_zero]
  simp

@[simp] theorem safe_load32 (a : Word) :
    (load32 a).Safe (fun s => (mem s).byte) good s ↔ Span (good s) a 4 := by
  simp only [load32, Code.safe_bind, safe_load8, run_load8, Code.safe_pure, span_succ, span_zero]
  simp [and_assoc]

/-! The loads change no state. -/

section Keeps

variable {inv : σ → Prop} (a : Word)

theorem keeps_load8 : (load8 a : Code σ Byte).Keeps inv := fun _ => trivial

theorem keeps_load16 : (load16 a : Code σ (BitVec 16)).Keeps inv := fun _ _ => trivial

theorem keeps_load32 : (load32 a : Code σ Word).Keeps inv := fun _ _ _ _ => trivial

theorem keeps_effect {f : σ → σ} (h : ∀ s, inv s → inv (f s)) : (effect f).Keeps inv :=
  ⟨h, fun _ => trivial⟩

theorem keeps_value {f : σ → Word × σ} (h : ∀ s, inv s → inv (f s).2) : (value f).Keeps inv :=
  ⟨h, fun _ => trivial⟩

end Keeps

end Loads

end BasicX86Kernel.Machine
