import BasicX86Kernel.Klib.Mem
import BasicX86Kernel.Machine.FirstDifference

/-! `memcmp` of two buffers in memory: what it returns, and which bytes it reads. -/

namespace BasicX86Kernel.Klib.Memcmp

open Machine

section Code

variable {σ : Type}

/-- `*_m1 - *_m2`: `char_t` is a signed `char`. -/
def difference (_m1 _m2 : Word) : Code σ Int := do
  let b ← load8 _m1
  let c ← load8 _m2
  return b.toInt - c.toInt

/-- The loop of `memcmp` and the statement after it, where `n` is the value that `--n` leaves for
the first test. -/
def memcmpLoop : Nat → Word → Word → Code σ Int
  | 0, _m1, _m2 => difference _m1 _m2
  | n + 1, _m1, _m2 => do
    let b ← load8 _m1
    let c ← load8 _m2
    if b = c then
      memcmpLoop n (_m1 + 1) (_m2 + 1)
    else
      difference _m1 _m2

def memcmp (m1 m2 n : Word) : Code σ Int :=
  if n = 0 then return 0 else memcmpLoop (n - 1).toNat m1 m2

end Code

/-- The bytes of the buffer at `p`. -/
def buffer (m : Mem) (p : Word) (i : Nat) : Byte := m.byte (p + BitVec.ofNat 32 i)

theorem buffer_zero (m : Mem) (p : Word) : buffer m p 0 = m.byte p :=
  congrArg m.byte (BitVec.add_zero p)

theorem buffer_next (m : Mem) (p : Word) (i : Nat) : buffer m (p + 1) i = buffer m p (i + 1) := by
  rw [buffer, buffer, add_one_add_ofNat]

section Run

variable {σ : Type} (mem : σ → Mem) {good : σ → Word → Prop} (s : σ)

@[simp] theorem run_difference (p q : Word) :
    (difference p q).run (fun s => (mem s).byte) s =
      (((mem s).byte p).toInt - ((mem s).byte q).toInt, s) := rfl

@[simp] theorem safe_difference (p q : Word) :
    (difference p q).Safe (fun s => (mem s).byte) good s ↔ good s p ∧ good s q :=
  and_congr_right fun _ => and_iff_left trivial

/-- The loop goes on when the bytes are equal. -/
theorem run_memcmpLoop_next {p q : Word} (n : Nat) (h : (mem s).byte p = (mem s).byte q) :
    (memcmpLoop (n + 1) p q).run (fun s => (mem s).byte) s =
      (memcmpLoop n (p + 1) (q + 1)).run (fun s => (mem s).byte) s := by
  rw [memcmpLoop, Code.run_bind, run_load8, Code.run_bind, run_load8, if_pos h]

/-- The loop stops when they are not. -/
theorem run_memcmpLoop_stop {p q : Word} (n : Nat) (h : (mem s).byte p ≠ (mem s).byte q) :
    (memcmpLoop (n + 1) p q).run (fun s => (mem s).byte) s =
      (((mem s).byte p).toInt - ((mem s).byte q).toInt, s) := by
  rw [memcmpLoop, Code.run_bind, run_load8, Code.run_bind, run_load8, if_neg h, run_difference]

theorem safe_memcmpLoop_next {p q : Word} (n : Nat) (h : (mem s).byte p = (mem s).byte q) :
    (memcmpLoop (n + 1) p q).Safe (fun s => (mem s).byte) good s ↔
      (good s p ∧ good s q) ∧
        (memcmpLoop n (p + 1) (q + 1)).Safe (fun s => (mem s).byte) good s := by
  rw [memcmpLoop, Code.safe_bind, safe_load8, run_load8, Code.safe_bind, safe_load8, run_load8,
    if_pos h, and_assoc]

theorem safe_memcmpLoop_stop {p q : Word} (n : Nat) (h : (mem s).byte p ≠ (mem s).byte q) :
    (memcmpLoop (n + 1) p q).Safe (fun s => (mem s).byte) good s ↔ good s p ∧ good s q := by
  rw [memcmpLoop, Code.safe_bind, safe_load8, run_load8, Code.safe_bind, safe_load8, run_load8,
    if_neg h, safe_difference, ← and_assoc, and_self]

/-- The scan of the loop, which tests one byte less than it may read. -/
theorem scanned_memcmpLoop (n : Nat) (p q : Word) :
    Scanned BitVec.toInt (buffer (mem s) p) (buffer (mem s) q) (n + 1)
      ((memcmpLoop n p q).run (fun s => (mem s).byte) s).1 := by
  induction n generalizing p q with
  | zero =>
    rw [memcmpLoop, run_difference, ← buffer_zero, ← buffer_zero]
    by_cases h : buffer (mem s) p 0 = buffer (mem s) q 0
    · rw [h, Int.sub_self]
      exact .agree (Nat.forall_lt_succ_left.mpr ⟨h, fun _ hi => absurd hi (Nat.not_lt_zero _)⟩)
    · exact .head h
  | succ n ih =>
    by_cases h : (mem s).byte p = (mem s).byte q
    · rw [run_memcmpLoop_next mem s n h]
      refine .tail ?_ ?_
      · rwa [buffer_zero, buffer_zero]
      · simpa only [← buffer_next] using ih (p + 1) (q + 1)
    · rw [run_memcmpLoop_stop mem s n h]
      rw [← buffer_zero, ← buffer_zero] at h ⊢
      exact .head h

/-- The loop reads the bytes at the indices up to `n` that equal bytes precede. -/
theorem safe_memcmpLoop (n : Nat) (p q : Word) :
    (memcmpLoop n p q).Safe (fun s => (mem s).byte) good s ↔
      ∀ i < n + 1, (∀ j < i, buffer (mem s) p j = buffer (mem s) q j) →
        good s (p + BitVec.ofNat 32 i) ∧ good s (q + BitVec.ofNat 32 i) := by
  induction n generalizing p q with
  | zero => simp [memcmpLoop]
  | succ n ih =>
    have hfirst : good s (p + BitVec.ofNat 32 0) ∧ good s (q + BitVec.ofNat 32 0) ↔
        good s p ∧ good s q := by
      rw [BitVec.add_zero, BitVec.add_zero]
    rw [forall_agree_succ, buffer_zero, buffer_zero, hfirst]
    by_cases h : (mem s).byte p = (mem s).byte q
    · rw [safe_memcmpLoop_next mem s n h, ih, forall_prop_of_true h]
      simp only [buffer_next, add_one_add_ofNat]
    · rw [safe_memcmpLoop_stop mem s n h, iff_self_and]
      exact fun _ h' => absurd h' h

theorem memcmp_zero {n : Word} (hn : n.toNat = 0) (m1 m2 : Word) :
    (memcmp m1 m2 n : Code σ Int) = pure 0 :=
  if_pos (BitVec.eq_of_toNat_eq hn)

/-- The first `--n` leaves one less than the number of bytes. -/
theorem memcmp_succ {n : Word} {k : Nat} (hn : n.toNat = k + 1) (m1 m2 : Word) :
    (memcmp m1 m2 n : Code σ Int) = memcmpLoop k m1 m2 := by
  have hpos : n ≠ 0 := by
    rintro rfl
    exact absurd hn.symm (Nat.succ_ne_zero k)
  have hk : (n - 1).toNat = k := by bv_omega
  rw [memcmp, if_neg hpos, hk]

/-- `memcmp` returns 0, or the signed difference of the first bytes that differ. -/
theorem scanned_memcmp (m1 m2 n : Word) :
    Scanned BitVec.toInt (buffer (mem s) m1) (buffer (mem s) m2) n.toNat
      ((memcmp m1 m2 n).run (fun s => (mem s).byte) s).1 := by
  cases hn : n.toNat with
  | zero =>
    rw [memcmp_zero hn]
    exact .agree fun i hi => absurd hi (Nat.not_lt_zero i)
  | succ k =>
    rw [memcmp_succ hn]
    exact scanned_memcmpLoop mem s k m1 m2

/-- `memcmp` reads the bytes that equal bytes precede, and no byte behind the buffers. -/
theorem safe_memcmp (m1 m2 n : Word) :
    (memcmp m1 m2 n).Safe (fun s => (mem s).byte) good s ↔
      ∀ i < n.toNat, (∀ j < i, buffer (mem s) m1 j = buffer (mem s) m2 j) →
        good s (m1 + BitVec.ofNat 32 i) ∧ good s (m2 + BitVec.ofNat 32 i) := by
  cases hn : n.toNat with
  | zero =>
    rw [memcmp_zero hn]
    exact iff_of_true trivial fun i hi => absurd hi (Nat.not_lt_zero i)
  | succ k =>
    rw [memcmp_succ hn]
    exact safe_memcmpLoop mem s k m1 m2

end Run

/-! ### The order of the buffers -/

/-- `memcmp` compares the buffers by the order of signed bytes. -/
theorem memcmp_compares_signed {σ : Type} (mem : σ → Mem) (s : σ) (m1 m2 n : Word) :
    Compares (fun b c => b.toInt < c.toInt) (buffer (mem s) m1) (buffer (mem s) m2) n.toNat
      ((memcmp m1 m2 n).run (fun s => (mem s).byte) s).1 :=
  (scanned_memcmp mem s m1 m2 n).compares fun _ _ => BitVec.eq_of_toInt_eq

/-- The addresses that a run on a memory loads from, in their order. -/
def addresses (m : Mem) (p : Code Mem Int) : List Word :=
  (p.loads (fun m a => some (m.byte a)) m).map Prod.snd

/-- The addresses of the bytes at one index of two buffers. -/
def pair (p q : Word) (i : Nat) : List Word := [p + BitVec.ofNat 32 i, q + BitVec.ofNat 32 i]

theorem pair_zero (p q : Word) : pair p q 0 = [p, q] := by
  rw [pair, BitVec.add_zero, BitVec.add_zero]

theorem pair_next (p q : Word) : pair (p + 1) (q + 1) = fun i => pair p q (i + 1) := by
  funext i
  rw [pair, pair, add_one_add_ofNat, add_one_add_ofNat]

theorem addresses_memcmpLoop_succ (m : Mem) (n : Nat) (p q : Word) :
    addresses m (memcmpLoop (n + 1) p q) =
      pair p q 0 ++ if m.byte p = m.byte q then addresses m (memcmpLoop n (p + 1) (q + 1))
        else pair p q 0 := by
  rw [pair_zero, memcmpLoop]
  change p :: q :: addresses m (if m.byte p = m.byte q then _ else _) = _
  rw [apply_ite (addresses m)]
  rfl

/-- The loads of the loop come in pairs, one of each buffer, at indices up to `n`. -/
theorem addresses_memcmpLoop (m : Mem) (n : Nat) (p q : Word) :
    ∃ l : List Nat, (∀ i ∈ l, i < n + 1) ∧
      addresses m (memcmpLoop n p q) = l.flatMap (pair p q) := by
  induction n generalizing p q with
  | zero =>
    refine ⟨[0], by simp, ?_⟩
    rw [List.flatMap_singleton, pair_zero]
    rfl
  | succ n ih =>
    rw [addresses_memcmpLoop_succ]
    by_cases h : m.byte p = m.byte q
    · obtain ⟨l, hl, haddr⟩ := ih (p + 1) (q + 1)
      refine ⟨0 :: l.map (· + 1), ?_, ?_⟩
      · simpa using hl
      · rw [if_pos h, haddr, pair_next, List.flatMap_cons, List.flatMap_map]
    · exact ⟨[0, 0], by simp, by simp [h]⟩

theorem addresses_memcmp (m : Mem) (m1 m2 n : Word) :
    ∃ l : List Nat, (∀ i ∈ l, i < n.toNat) ∧
      addresses m (memcmp m1 m2 n) = l.flatMap (pair m1 m2) := by
  cases hn : n.toNat with
  | zero =>
    rw [memcmp_zero hn]
    exact ⟨[], by simp, rfl⟩
  | succ k =>
    rw [memcmp_succ hn]
    exact addresses_memcmpLoop m k m1 m2

/-- `memcmp` compares the buffers by the order of unsigned bytes, and every load is one of a pair
at an index of the buffers. -/
structure OrdersBytes (m : Mem) (m1 m2 n : Word) : Prop where
  sign : Compares (fun b c : Byte => b.toNat < c.toNat) (buffer m m1) (buffer m m2) n.toNat
    ((memcmp m1 m2 n).run Mem.byte m).1
  inside : ∃ l : List Nat, (∀ i ∈ l, i < n.toNat) ∧
    addresses m (memcmp m1 m2 n) = l.flatMap (pair m1 m2)

/-- The bytes that decide have to be both below 0x80 or both at least 0x80: a byte with the top bit
is a negative `char_t`. -/
theorem memcmp_orders_bytes_iff (m : Mem) (m1 m2 n : Word) :
    OrdersBytes m m1 m2 n ↔
      ∀ i, DiffersAt (buffer m m1) (buffer m m2) n.toNat i →
        (buffer m m1 i).msb = (buffer m m2 i).msb := by
  have hsign : Compares (fun b c : Byte => b.toNat < c.toNat) (buffer m m1) (buffer m m2) n.toNat
      ((memcmp m1 m2 n).run Mem.byte m).1 ↔ _ :=
    (memcmp_compares_signed id m m1 m2 n).congr_iff
  constructor
  · intro h i hi
    exact (toInt_lt_iff_toNat_lt_iff _ _).mp (hsign.mp h.sign i hi).1
  · intro h
    refine ⟨hsign.mpr fun i hi => ⟨?_, ?_⟩, addresses_memcmp m m1 m2 n⟩
    · exact (toInt_lt_iff_toNat_lt_iff _ _).mpr (h i hi)
    · exact (toInt_lt_iff_toNat_lt_iff _ _).mpr (h i hi).symm

/-- Of two buffers of one byte, that with 0x80 is taken to be less than that with 0. -/
theorem memcmp_signed_bytes :
    ((memcmp 0x1080 0x1000 1).run Mem.byte ⟨fun a => a.setWidth 8⟩).1 = -128 ∧
      ¬OrdersBytes ⟨fun a => a.setWidth 8⟩ 0x1080 0x1000 1 := by
  have hrun : ((memcmp 0x1080 0x1000 1).run Mem.byte ⟨fun a => a.setWidth 8⟩).1 = -128 := by
    decide
  refine ⟨hrun, fun h => ?_⟩
  obtain ⟨i, hi, hlt⟩ := h.sign.neg.mp (by rw [hrun]; decide)
  have hzero : i = 0 := Nat.lt_one_iff.mp hi.lt
  rw [hzero] at hlt
  exact absurd hlt (by decide)

end BasicX86Kernel.Klib.Memcmp
