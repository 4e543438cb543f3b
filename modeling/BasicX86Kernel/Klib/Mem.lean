import BasicX86Kernel.Machine.Access

/-! `klib/mem.c`: the block operations on memory. -/

namespace BasicX86Kernel.Klib

open Machine

/-- The loop of `memset`, which runs `n` times. -/
def memsetLoop : Nat → Mem → Word → Byte → Mem
  | 0, m, _, _ => m
  | n + 1, m, _m1, c => memsetLoop n (m.write8 _m1 c) (_m1 + 1) c

@[irreducible] def memset (m : Mem) (m1 c n : Word) : Mem :=
  if n = 0 then m else memsetLoop n.toNat m m1 (c.setWidth 8)

/-- The loop of `memcpy`, which runs `n` times. -/
def memcpyLoop : Nat → Mem → Word → Word → Mem
  | 0, m, _, _ => m
  | n + 1, m, _dst, _src => memcpyLoop n (m.write8 _dst (m.byte _src)) (_dst + 1) (_src + 1)

@[irreducible] def memcpy (m : Mem) (dst src n : Word) : Mem :=
  if n = 0 then m else memcpyLoop n.toNat m dst src

theorem byte_memsetLoop (n : Nat) (m : Mem) (p x : Word) (c : Byte) (hn : n ≤ 2 ^ 32) :
    (memsetLoop n m p c).byte x = if (x - p).toNat < n then c else m.byte x := by
  induction n generalizing m p with
  | zero => simp [memsetLoop]
  | succ n ih =>
    rw [memsetLoop, ih _ _ (by omega), Mem.byte_write8]
    by_cases hx : x = p
    · subst hx
      simp
    · have hsub : (x - p).toNat = (x - (p + 1)).toNat + 1 := by bv_omega
      simp only [hx, if_false, hsub, Nat.add_lt_add_iff_right]

/-- `memset` stores the low byte of `c` in the `n` bytes from `m1` on and nowhere else. -/
theorem byte_memset (m : Mem) (m1 c n x : Word) :
    (memset m m1 c n).byte x =
      if (x - m1).toNat < n.toNat then c.setWidth 8 else m.byte x := by
  rw [memset]
  split
  · next h => simp [h]
  · exact byte_memsetLoop _ _ _ _ _ n.isLt.le

theorem byte_memcpyLoop (n : Nat) (m : Mem) (dst src x : Word) (hle : dst.toNat ≤ src.toNat)
    (hn : src.toNat + n ≤ 2 ^ 32) :
    (memcpyLoop n m dst src).byte x =
      if (x - dst).toNat < n then m.byte (src + (x - dst)) else m.byte x := by
  induction n generalizing m dst src with
  | zero => simp [memcpyLoop]
  | succ n ih =>
    rw [memcpyLoop]
    rcases Nat.eq_zero_or_pos n with rfl | hpos
    · rw [memcpyLoop, Mem.byte_write8]
      by_cases hx : x = dst
      · subst hx
        simp
      · rw [if_neg hx, if_neg (by bv_omega)]
    · rw [ih _ _ _ (by bv_omega) (by bv_omega)]
      by_cases hx : x = dst
      · subst hx
        rw [if_neg (by bv_omega), if_pos (by simp), Mem.byte_write8_same]
        simp
      · have hsub : (x - dst).toNat = (x - (dst + 1)).toNat + 1 := by bv_omega
        rw [hsub, Mem.byte_write8_ne hx]
        simp only [Nat.add_lt_add_iff_right]
        split
        · -- the byte is read above `dst`, so the store to `dst` has not touched it
          rw [Mem.byte_write8_ne (by bv_omega)]
          congr 1
          bv_omega
        · rfl

/-- `memcpy` to a destination at or below the source, the two possibly overlapping, copies the
bytes that the source held before the call. -/
theorem byte_memcpy {m : Mem} {dst src n : Word} (x : Word) (hle : dst.toNat ≤ src.toNat)
    (hn : src.toNat + n.toNat ≤ 2 ^ 32) :
    (memcpy m dst src n).byte x =
      if (x - dst).toNat < n.toNat then m.byte (src + (x - dst)) else m.byte x := by
  rw [memcpy]
  split
  · next h => simp [h]
  · exact byte_memcpyLoop _ _ _ _ _ hle hn

/-- Byte by byte: what stood at the source before the call stands at the destination after it, and
the bytes behind and before the destination are as they were. -/
theorem memcpy_downward (m : Mem) (dst src n : Word) (hle : dst.toNat ≤ src.toNat)
    (hn : src.toNat + n.toNat ≤ 2 ^ 32) :
    (∀ i < n.toNat, (memcpy m dst src n).byte (dst + BitVec.ofNat 32 i) =
        m.byte (src + BitVec.ofNat 32 i)) ∧
      ∀ x : Word, n.toNat ≤ (x - dst).toNat → (memcpy m dst src n).byte x = m.byte x := by
  constructor
  · intro i hi
    have hoffset : (dst + BitVec.ofNat 32 i - dst).toNat = i := by
      rw [add_sub_cancel_left, BitVec.toNat_ofNat, Nat.mod_eq_of_lt (hi.trans n.isLt)]
    rw [byte_memcpy _ hle hn, if_pos (hoffset.trans_lt hi), add_sub_cancel_left]
  · intro x hx
    rw [byte_memcpy _ hle hn, if_neg (Nat.not_lt.mpr hx)]

/-- Four bytes moved down by one: the byte at 0x1003 is read before the store to it. -/
theorem memcpy_downward_overlap :
    (memcpy ⟨fun a => a.setWidth 8⟩ 0x1000 0x1001 4).byte 0x1002 = 3 ∧
      (memcpy ⟨fun a => a.setWidth 8⟩ 0x1000 0x1001 4).byte 0x1004 = 4 := by
  obtain ⟨hcopied, hrest⟩ := memcpy_downward ⟨fun a => a.setWidth 8⟩ 0x1000 0x1001 4 (by decide)
    (by decide)
  exact ⟨hcopied 2 (by decide), hrest 0x1004 (by decide)⟩

/-- `memset` leaves a word outside its bytes alone. -/
theorem read32_memset_disjoint {m : Mem} {p n b c : Word} (hp : p.toNat + n.toNat ≤ 2 ^ 32)
    (hb : b.toNat + 4 ≤ 2 ^ 32) (h : p.toNat + n.toNat ≤ b.toNat ∨ b.toNat + 4 ≤ p.toNat) :
    (memset m p c n).read32 b = m.read32 b :=
  Mem.read32_congr fun x hx => by
    rw [byte_memset, if_neg]
    bv_omega

/-! ### `memcmp` -/

section Memcmp

variable {σ : Type}

/-- `memcmp` of the memory at `m1` with the constant `m2`, for the length of `m2`. -/
def memcmp (m1 : Word) : List Byte → Code σ Int
  | [] => return 0
  | [c] => do
    let b ← load8 m1
    return b.toInt - c.toInt
  | c :: c' :: m2 => do
    let b ← load8 m1
    if b = c then
      memcmp (m1 + 1) (c' :: m2)
    else do
      let b ← load8 m1
      return b.toInt - c.toInt

/-- The bytes at `a` are those of the list. -/
def Holds (m : Mem) (a : Word) : List Byte → Prop
  | [] => True
  | c :: cs => m.byte a = c ∧ Holds m (a + 1) cs

instance decidableHolds (m : Mem) : ∀ (a : Word) (bs : List Byte), Decidable (Holds m a bs)
  | _, [] => instDecidableTrue
  | a, _ :: cs =>
    have := decidableHolds m (a + 1) cs
    inferInstanceAs (Decidable (_ ∧ _))

/-- The number of bytes at `a` that `memcmp` reads: up to the first that differs. -/
def examined (m : Mem) (a : Word) : List Byte → Nat
  | [] => 0
  | [_] => 1
  | c :: c' :: cs => if m.byte a = c then examined m (a + 1) (c' :: cs) + 1 else 1

theorem examined_le (m : Mem) (a : Word) (bs : List Byte) : examined m a bs ≤ bs.length := by
  induction a, bs using memcmp.induct with
  | case1 a => exact le_rfl
  | case2 a c => exact le_rfl
  | case3 a c c' cs ih =>
    rw [examined]
    split
    · exact Nat.succ_le_succ ih
    · exact Nat.succ_le_succ (Nat.zero_le _)

variable (mem : σ → Mem) {good : σ → Word → Prop} (s : σ)

theorem toInt_sub_eq_zero_iff {b c : Byte} : b.toInt - c.toInt = 0 ↔ b = c := by
  rw [sub_eq_zero, BitVec.toInt_inj]

@[simp] theorem run_memcmp_state (a : Word) (bs : List Byte) :
    ((memcmp a bs).run (fun s => (mem s).byte) s).2 = s := by
  induction a, bs using memcmp.induct with
  | case1 a => rfl
  | case2 a c => rfl
  | case3 a c c' cs ih =>
    rw [memcmp, Code.run_bind, run_load8]
    split
    · exact ih
    · rfl

/-- `memcmp` returns 0 when the bytes are equal. -/
theorem run_memcmp_eq_zero_iff (a : Word) (bs : List Byte) :
    ((memcmp a bs).run (fun s => (mem s).byte) s).1 = 0 ↔ Holds (mem s) a bs := by
  induction a, bs using memcmp.induct with
  | case1 a => simp [memcmp, Holds]
  | case2 a c => simp [memcmp, Holds, toInt_sub_eq_zero_iff]
  | case3 a c c' cs ih =>
    rw [memcmp, Holds, Code.run_bind, run_load8]
    by_cases h : (mem s).byte a = c
    · rw [if_pos h, ih, and_iff_right h]
    · simp [h, toInt_sub_eq_zero_iff]

theorem safe_memcmp (a : Word) (bs : List Byte) :
    (memcmp a bs).Safe (fun s => (mem s).byte) good s ↔
      Span (good s) a (examined (mem s) a bs) := by
  induction a, bs using memcmp.induct with
  | case1 a => simp [memcmp, examined]
  | case2 a c => simp [memcmp, examined, span_cons]
  | case3 a c c' cs ih =>
    rw [memcmp, examined, Code.safe_bind, safe_load8, run_load8]
    by_cases h : (mem s).byte a = c
    · rw [if_pos h, if_pos h, ih, span_cons]
    · simp [h, span_cons]

theorem keeps_memcmp {inv : σ → Prop} (a : Word) (bs : List Byte) : (memcmp a bs).Keeps inv := by
  induction a, bs using memcmp.induct with
  | case1 a => exact Code.keeps_pure _
  | case2 a c => exact (keeps_load8 a).bind fun _ => Code.keeps_pure _
  | case3 a c c' cs ih =>
    rw [memcmp]
    refine (keeps_load8 a).bind fun b => ?_
    split
    · exact ih
    · exact (keeps_load8 a).bind fun _ => Code.keeps_pure _

end Memcmp

end BasicX86Kernel.Klib
