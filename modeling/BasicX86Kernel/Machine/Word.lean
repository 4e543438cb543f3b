import Mathlib.Data.BitVec

/-! Machine words, and what the masks that split a word into an aligned part and a low part do to
its value. -/

namespace BasicX86Kernel.Machine

/-- A 32-bit machine word, also used as an address. -/
abbrev Word := BitVec 32

abbrev Byte := BitVec 8

/-- The address at index `i` of what begins one byte later. -/
theorem add_one_add_ofNat (a : Word) (i : Nat) :
    a + 1 + BitVec.ofNat 32 i = a + BitVec.ofNat 32 (i + 1) := by
  rw [BitVec.ofNat_add, BitVec.add_comm (BitVec.ofNat 32 i), ← BitVec.add_assoc]
  rfl

/-- Clearing the low `k` bits is shifting them out and zeros in. -/
theorem and_allOnes_shiftLeft {w : Nat} (p : BitVec w) (k : Nat) :
    p &&& (BitVec.allOnes w <<< k) = (p >>> k) <<< k := by
  ext i hi
  by_cases h : i < k
  · simp [h, BitVec.getElem_shiftLeft]
  · simp [h, hi, BitVec.getElem_shiftLeft, BitVec.getElem_ushiftRight,
      show k + (i - k) = i by omega, BitVec.getLsbD_eq_getElem]

theorem toNat_and_high {w : Nat} (p : BitVec w) (k : Nat) :
    (p &&& (BitVec.allOnes w <<< k)).toNat = p.toNat / 2 ^ k * 2 ^ k := by
  rw [and_allOnes_shiftLeft]
  simp only [BitVec.toNat_shiftLeft, BitVec.toNat_ushiftRight, Nat.shiftLeft_eq,
    Nat.shiftRight_eq_div_pow]
  exact Nat.mod_eq_of_lt (lt_of_le_of_lt (Nat.div_mul_le_self _ _) p.isLt)

theorem getLsbD_and_high {w : Nat} (p : BitVec w) {k i : Nat} (hi : i < k) :
    (p &&& (BitVec.allOnes w <<< k)).getLsbD i = false := by
  rw [and_allOnes_shiftLeft]
  simp [hi]

/-- An aligned word and a word below the alignment do not share bits. -/
theorem toNat_or_low {w : Nat} {p f : BitVec w} {k : Nat} (hp : p.toNat % 2 ^ k = 0)
    (hf : f.toNat < 2 ^ k) : (p ||| f).toNat = p.toNat + f.toNat := by
  obtain ⟨q, hq⟩ := Nat.dvd_of_mod_eq_zero hp
  rw [BitVec.toNat_or, hq, Nat.two_pow_add_eq_or_of_lt hf]

theorem getLsbD_of_lt {w : Nat} {f : BitVec w} {k i : Nat} (hf : f.toNat < 2 ^ k) (hi : k ≤ i) :
    f.getLsbD i = false := by
  rw [BitVec.getLsbD, Nat.testBit_lt_two_pow]
  exact lt_of_lt_of_le hf (Nat.pow_le_pow_right (by decide) hi)

/-- The signed and the unsigned comparison of two words agree when their top bits do. -/
theorem toInt_lt_iff_toNat_lt_iff {w : Nat} (b c : BitVec w) :
    (b.toInt < c.toInt ↔ b.toNat < c.toNat) ↔ b.msb = c.msb := by
  rw [← BitVec.slt_iff_toInt_lt, ← BitVec.lt_def, ← BitVec.ult_iff_lt, ← Bool.eq_iff_iff,
    BitVec.slt_eq_ult]
  cases b.msb <;> cases c.msb <;> simp

/-- The test `w & (1 << k)` of a C condition reads bit `k`. -/
theorem and_twoPow_eq_zero_iff {w : Nat} (x : BitVec w) {k : Nat} (hk : k < w) :
    x &&& BitVec.twoPow w k = 0#w ↔ x.getLsbD k = false := by
  rw [BitVec.and_twoPow]
  cases x.getLsbD k
  · simp
  · have : BitVec.twoPow w k ≠ 0#w := by
      intro h
      simpa [hk] using congrArg (fun y => y.getLsbD k) h
    simp [this]

theorem toNat_and_0xFFF (a : Word) : (a &&& 0xFFF#32).toNat = a.toNat % 4096 := by
  rw [BitVec.toNat_and]
  exact Nat.and_two_pow_sub_one_eq_mod _ 12

theorem toNat_and_0x3FF (a : Word) : (a &&& 0x3FF#32).toNat = a.toNat % 1024 := by
  rw [BitVec.toNat_and]
  exact Nat.and_two_pow_sub_one_eq_mod _ 10

theorem toNat_and_0x3FFFFF (a : Word) : (a &&& 0x3FFFFF#32).toNat = a.toNat % 4194304 := by
  rw [BitVec.toNat_and]
  exact Nat.and_two_pow_sub_one_eq_mod _ 22

theorem mask_0xFFFFF000 : 0xFFFFF000#32 = BitVec.allOnes 32 <<< 12 := by decide

theorem mask_0xFFC00000 : 0xFFC00000#32 = BitVec.allOnes 32 <<< 22 := by decide

theorem toNat_and_0xFFFFF000 (a : Word) :
    (a &&& 0xFFFFF000#32).toNat = a.toNat / 4096 * 4096 := by
  rw [mask_0xFFFFF000]
  exact toNat_and_high a 12

theorem toNat_and_0xFFC00000 (a : Word) :
    (a &&& 0xFFC00000#32).toNat = a.toNat / 4194304 * 4194304 := by
  rw [mask_0xFFC00000]
  exact toNat_and_high a 22

end BasicX86Kernel.Machine
