import BasicX86Kernel.Machine.Buffer
import Mathlib.Data.Nat.Digits.Lemmas

/-! `klib/string.c`: the length of a string, and numbers as strings. -/

namespace BasicX86Kernel.Klib

open Machine

/-! ### The functions -/

/-- The number of addresses, which bounds every loop that looks for the end of a string. -/
@[irreducible] def addressSpace : Nat := 2 ^ 32

theorem addressSpace_eq : addressSpace = 2 ^ 32 := by
  rw [addressSpace]

/-- A loop over a string may take as many steps as it has bytes. -/
theorem length_lt_addressSpace {m : Mem} {p : Word} {cs : List Byte} (h : StringAt m p cs) :
    cs.length < addressSpace := by
  rw [addressSpace_eq]
  exact h.length_lt

/-- The loop of `strlen`; `none` when no zero is found in as many steps. -/
def strlenLoop (m : Mem) : Nat → Word → Option Word
  | 0, _ => none
  | fuel + 1, offset => if m.byte offset ≠ 0 then strlenLoop m fuel (offset + 1) else some offset

def strlen (m : Mem) (s : Word) : Option Word :=
  (strlenLoop m addressSpace s).map fun offset => offset - s

/-- The character of a digit below 16. -/
def digitByte (d : Nat) : Byte := BitVec.ofNat 8 (Nat.digitChar d).toUpper.toNat

/-- The base of a numeral, and the character that the code computes for a digit. -/
structure Radix where
  base : Word
  digit : Word → Word
  two_le : 2 ≤ base.toNat
  le_sixteen : base.toNat ≤ 16
  digit_eq : ∀ d < base.toNat, (digit (BitVec.ofNat 32 d)).setWidth 8 = digitByte d

theorem Radix.div_lt (r : Radix) {num : Word} (h : ¬num / r.base = 0) :
    (num / r.base).toNat < num.toNat := by
  have hdiv : (num / r.base).toNat = num.toNat / r.base.toNat := BitVec.toNat_udiv
  have hpos : num.toNat ≠ 0 := by
    intro h0
    refine h (BitVec.eq_of_toNat_eq ?_)
    rw [hdiv, h0, Nat.zero_div]
    rfl
  rw [hdiv]
  exact Nat.div_lt_self (by omega) r.two_le

/-- The loop `while( num /= base ) offset++`. -/
def lastDigit (r : Radix) (num offset : Word) : Word :=
  if num / r.base = 0 then offset else lastDigit r (num / r.base) (offset + 1)
termination_by num.toNat
decreasing_by exact r.div_lt ‹_›

/-- The loop `do { *offset-- = digit(num%base); } while( num /= base )`. -/
def putDigits (r : Radix) (t : Traced) (num offset : Word) : Traced :=
  let t := t.write8 offset ((r.digit (num % r.base)).setWidth 8)
  if num / r.base = 0 then t else putDigits r t (num / r.base) (offset - 1)
termination_by num.toNat
decreasing_by exact r.div_lt ‹_›

/-- The common body of `strfromu` and `strhex`. -/
def strfrom (r : Radix) (t : Traced) (n s : Word) : Option Word × Traced :=
  let offset := lastDigit r n s
  let t := t.write8 (offset + 1) 0
  let t := putDigits r t n offset
  (strlen t.mem s, t)

def decimal : Radix where
  base := 10#32
  digit tmp := tmp + 0x30#32
  two_le := by decide
  le_sixteen := by decide
  digit_eq := by decide

def upperHex : Radix where
  base := 16#32
  digit tmp := if tmp < 10#32 then tmp + 0x30#32 else (tmp - 10#32) + 0x41#32
  two_le := by decide
  le_sixteen := by decide
  digit_eq := by decide

/-- String from unsigned. -/
def strfromu (t : Traced) (n s : Word) : Option Word × Traced := strfrom decimal t n s

/-- String from signed; the negation of the lowest number wraps around to itself. -/
def strfromd (t : Traced) (n s : Word) : Option Word × Traced :=
  let (tmp, n, inc, t) :=
    if n.slt 0#32 then (s + 1, n * (-1#32), 1, t.write8 s 0x2D#8) else (s, n, 0, t)
  let (len, t) := strfromu t n tmp
  (len.map fun len => inc + len, t)

def strhex (t : Traced) (n s : Word) : Option Word × Traced := strfrom upperHex t n s

/-! ### `strlen` -/

theorem strlenLoop_eq {m : Mem} {p : Word} {cs : List Byte} (h : StringAt m p cs) {fuel : Nat}
    (hfuel : cs.length < fuel) :
    strlenLoop m fuel p = some (p + BitVec.ofNat 32 cs.length) := by
  induction cs generalizing p fuel with
  | nil =>
    obtain ⟨fuel, rfl⟩ := Nat.exists_eq_succ_of_ne_zero (Nat.ne_zero_of_lt hfuel)
    rw [StringAt] at h
    simp [strlenLoop, h]
  | cons c cs ih =>
    obtain ⟨fuel, rfl⟩ := Nat.exists_eq_succ_of_ne_zero (Nat.ne_zero_of_lt hfuel)
    rw [List.length_cons] at hfuel
    have hne : m.byte p ≠ 0 := h.1 ▸ h.2.1
    rw [strlenLoop, if_pos hne, ih h.2.2 (by omega), List.length_cons]
    congr 1
    bv_omega

theorem strlen_eq {m : Mem} {p : Word} {cs : List Byte} (h : StringAt m p cs) :
    strlen m p = some (BitVec.ofNat 32 cs.length) := by
  rw [strlen, strlenLoop_eq h (length_lt_addressSpace h), Option.map_some, add_sub_cancel_left]

/-! ### Numerals -/

/-- The canonical numeral of `n`: no leading zero, and one zero for 0. -/
def numeral (b n : Nat) : List Byte :=
  if n = 0 then [digitByte 0] else (Nat.digits b n).reverse.map digitByte

/-- The canonical numeral of an integer, with a sign if it is negative. -/
def signedNumeral (z : Int) : List Byte :=
  if z < 0 then 0x2D#8 :: numeral 10 z.natAbs else numeral 10 z.natAbs

theorem numeral_lt {b n : Nat} (hn : n < b) : numeral b n = [digitByte n] := by
  rw [numeral]
  split
  · next h => rw [h]
  · next h => rw [Nat.digits_of_lt b n h hn]; rfl

theorem numeral_ge {b n : Nat} (hb : 2 ≤ b) (hn : b ≤ n) :
    numeral b n = numeral b (n / b) ++ [digitByte (n % b)] := by
  have hdiv : n / b ≠ 0 := Nat.div_ne_zero_iff.mpr ⟨by omega, hn⟩
  rw [numeral, numeral, if_neg (by omega), if_neg hdiv, Nat.digits_def' (by omega) (by omega)]
  simp

theorem length_numeral_pos {b n : Nat} (hb : 2 ≤ b) : 0 < (numeral b n).length := by
  rcases Nat.lt_or_ge n b with h | h
  · rw [numeral_lt h]
    simp
  · rw [numeral_ge hb h]
    simp

theorem digitByte_ne_zero {d : Nat} (hd : d < 16) : digitByte d ≠ 0 := by
  have h : ∀ d < 16, digitByte d ≠ 0 := by decide
  exact h d hd

theorem numeral_ne_zero {b n : Nat} (hb : 2 ≤ b) (hb' : b ≤ 16) :
    ∀ c ∈ numeral b n, c ≠ 0 := by
  rw [numeral]
  split
  · intro c hc
    obtain rfl := List.mem_singleton.mp hc
    exact digitByte_ne_zero (by decide)
  · intro c hc
    obtain ⟨d, hd, rfl⟩ := List.mem_map.mp hc
    have := Nat.digits_lt_base hb (List.mem_reverse.mp hd)
    exact digitByte_ne_zero (by omega)

theorem signedNumeral_ne_zero {z : Int} : ∀ c ∈ signedNumeral z, c ≠ 0 := by
  have hdigits := numeral_ne_zero (b := 10) (n := z.natAbs) (by decide) (by decide)
  rw [signedNumeral]
  split
  · intro c hc
    rcases List.mem_cons.mp hc with rfl | hc
    · decide
    · exact hdigits c hc
  · exact hdigits

theorem length_numeral_le {b : Nat} (hb : 2 ≤ b) (n : Word) : (numeral b n.toNat).length ≤ 32 := by
  rw [numeral]
  split
  · simp
  · have hpow : 2 ^ 32 ≤ b ^ 32 := Nat.pow_le_pow_left hb 32
    have hlt : n.toNat < b ^ 32 := by omega
    rw [List.length_map, List.length_reverse]
    exact (Nat.digits_length_le_iff hb _).mpr hlt

/-! ### Numbers as strings -/

section Strfrom

variable (r : Radix) {dst n : Word}

theorem Radix.div_eq_zero_iff : n / r.base = 0 ↔ n.toNat < r.base.toNat := by
  have hdiv : (n / r.base).toNat = n.toNat / r.base.toNat := BitVec.toNat_udiv
  have := r.two_le
  rw [← BitVec.toNat_inj, hdiv]
  show n.toNat / r.base.toNat = 0 ↔ _
  rw [Nat.div_eq_zero_iff]
  omega

/-- The character that the code computes for the last digit. -/
theorem Radix.digit_mod (n : Word) :
    (r.digit (n % r.base)).setWidth 8 = digitByte (n.toNat % r.base.toNat) := by
  have := r.two_le
  rw [← r.digit_eq _ (Nat.mod_lt _ (by omega)), ← BitVec.toNat_umod, BitVec.ofNat_toNat,
    BitVec.setWidth_eq]

theorem Radix.numeral_last (h : n / r.base = 0) :
    numeral r.base.toNat n.toNat = [digitByte (n.toNat % r.base.toNat)] := by
  have hlt := r.div_eq_zero_iff.mp h
  rw [numeral_lt hlt, Nat.mod_eq_of_lt hlt]

theorem Radix.numeral_next (h : ¬n / r.base = 0) : numeral r.base.toNat n.toNat =
    numeral r.base.toNat (n / r.base).toNat ++ [digitByte (n.toNat % r.base.toNat)] := by
  have hge := Nat.not_lt.mp (mt r.div_eq_zero_iff.mpr h)
  rw [numeral_ge r.two_le hge, BitVec.toNat_udiv]

theorem lastDigit_eq (n offset : Word) : lastDigit r n offset + 1 =
    offset + BitVec.ofNat 32 (numeral r.base.toNat n.toNat).length := by
  fun_induction lastDigit r n offset with
  | case1 n offset h => rw [r.numeral_last h]; rfl
  | case2 n offset h ih =>
    rw [ih, r.numeral_next h, List.length_append, List.length_singleton]
    bv_omega

/-- The digits are stored from the last to the first, over whatever is there. -/
theorem mem_putDigits (t : Traced) (n offset s : Word)
    (hoffset : offset + 1 = s + BitVec.ofNat 32 (numeral r.base.toNat n.toNat).length) :
    (putDigits r t n offset).mem = t.mem.withBuffer s (numeral r.base.toNat n.toNat).length
      (numeral r.base.toNat n.toNat) := by
  fun_induction putDigits r t n offset with
  | case1 t n offset t' h =>
    rw [r.numeral_last h] at hoffset ⊢
    have hs : offset = s := by
      rw [List.length_singleton] at hoffset
      bv_omega
    rw [← r.digit_mod, ← hs]
    exact Mem.write8_eq_withBuffer _ _ _
  | case2 t n offset t' h ih =>
    have hlen := length_numeral_le r.two_le (n / r.base)
    rw [r.numeral_next h, List.length_append, List.length_singleton] at hoffset
    have hs : offset = s + BitVec.ofNat 32 (numeral r.base.toNat (n / r.base).toNat).length := by
      bv_omega
    rw [ih (by rw [hs, sub_add_cancel]), r.numeral_next h, List.length_append,
      List.length_singleton, ← r.digit_mod]
    show (t.mem.write8 offset _).withBuffer _ _ _ = _
    rw [hs]
    exact Mem.withBuffer_write8 _ _ _ (by omega)

/-- The digits are stored at the places of the digits. -/
theorem stores_putDigits {t : Traced} {offset : Word} {j : Nat}
    (hj : (offset + 1 - dst).toNat = j + (numeral r.base.toNat n.toNat).length) :
    Traced.StoresWithin (fun a => (a - dst).toNat < j + (numeral r.base.toNat n.toNat).length) t
      (putDigits r t n offset) := by
  fun_induction putDigits r t n offset with
  | case1 t n offset t' h =>
    rw [r.numeral_last h, List.length_singleton] at hj ⊢
    exact Traced.StoresWithin.write8 (by bv_omega)
  | case2 t n offset t' h ih =>
    rw [r.numeral_next h, List.length_append, List.length_singleton] at hj ⊢
    have hpos := length_numeral_pos (n := (n / r.base).toNat) r.two_le
    have hrest := ih (by bv_omega)
    exact Traced.StoresWithin.trans (Traced.StoresWithin.write8 (by bv_omega))
      (hrest.mono fun a ha => by omega)

/-- The conversion of `n` at `dst`: its end is stored right after the digits, and nothing is stored
behind it. -/
theorem stores_strfrom {t : Traced} (hlen : (numeral r.base.toNat n.toNat).length < 2 ^ 32) :
    Traced.StoresWithin (fun a => (a - dst).toNat ≤ (numeral r.base.toNat n.toNat).length) t
        (strfrom r t n dst).2 ∧
      dst + BitVec.ofNat 32 (numeral r.base.toNat n.toNat).length ∈ (strfrom r t n dst).2.stores := by
  have hend : lastDigit r n dst + 1 - dst =
      BitVec.ofNat 32 (numeral r.base.toNat n.toNat).length := by
    rw [lastDigit_eq, add_sub_cancel_left]
  have hcount : (lastDigit r n dst + 1 - dst).toNat =
      0 + (numeral r.base.toNat n.toNat).length := by
    rw [hend, BitVec.toNat_ofNat, Nat.zero_add, Nat.mod_eq_of_lt hlen]
  have hput := stores_putDigits r (t := t.write8 (lastDigit r n dst + 1) 0) hcount
  constructor
  · refine Traced.StoresWithin.trans (Traced.StoresWithin.write8 ?_) (hput.mono fun a ha => by omega)
    rw [hend, BitVec.toNat_ofNat]
    exact Nat.mod_le _ _
  · rw [← lastDigit_eq]
    exact hput.mem Traced.mem_stores_write8

end Strfrom

theorem signedNumeral_neg {n : Word} (h : n.slt 0#32 = true) :
    signedNumeral n.toInt = 0x2D#8 :: numeral 10 (n * (-1#32)).toNat := by
  have hlt : n.toInt < 0 := by simpa [BitVec.slt_eq_decide] using h
  have hneg : n * (-1#32) = -n := by rw [BitVec.mul_neg, BitVec.mul_one]
  have habs : n.toInt.natAbs = (-n).toNat := by
    rw [BitVec.toInt_eq_toNat_cond] at hlt ⊢
    rw [BitVec.toNat_neg]
    split <;> omega
  rw [signedNumeral, if_pos hlt, habs, hneg]

theorem signedNumeral_nonneg {n : Word} (h : ¬n.slt 0#32 = true) :
    signedNumeral n.toInt = numeral 10 n.toNat := by
  have hge : ¬n.toInt < 0 := by simpa [BitVec.slt_eq_decide] using h
  have habs : n.toInt.natAbs = n.toNat := by
    rw [BitVec.toInt_eq_toNat_cond] at hge ⊢
    split <;> omega
  rw [signedNumeral, if_neg hge, habs]

theorem strfromd_neg {t : Traced} {n s : Word} (h : n.slt 0#32 = true) : strfromd t n s =
    ((strfromu (t.write8 s 0x2D#8) (n * (-1#32)) (s + 1)).1.map fun len => 1 + len,
      (strfromu (t.write8 s 0x2D#8) (n * (-1#32)) (s + 1)).2) := by
  rw [strfromd, if_pos h]

theorem strfromd_nonneg {t : Traced} {n s : Word} (h : ¬n.slt 0#32 = true) : strfromd t n s =
    ((strfromu t n s).1.map fun len => 0 + len, (strfromu t n s).2) := by
  rw [strfromd, if_neg h]

/-- What a conversion of a number does in any memory: it writes the numeral and its end. -/
def ConvertsOver (conv : Traced → Word → Word → Option Word × Traced) (num : Word → List Byte) :
    Prop :=
  ∀ t n s, (conv t n s).1 = some (BitVec.ofNat 32 (num n).length) ∧
    (conv t n s).2.mem = t.mem.withBuffer s ((num n).length + 1) (num n)

theorem convertsOver_strfrom (r : Radix) :
    ConvertsOver (strfrom r) fun n => numeral r.base.toNat n.toNat := by
  intro t n s
  have hlen := length_numeral_le r.two_le n
  have hmem : (strfrom r t n s).2.mem = t.mem.withBuffer s
      ((numeral r.base.toNat n.toNat).length + 1) (numeral r.base.toNat n.toNat) := by
    have hput := mem_putDigits r (t.write8 (lastDigit r n s + 1) 0) n (lastDigit r n s) s
      (lastDigit_eq r n s)
    refine hput.trans ?_
    rw [lastDigit_eq, Traced.mem_write8, Mem.withBuffer_write8 _ _ _ (by omega)]
    exact Mem.withBuffer_append_zeros 1
  have hstr := Mem.stringAt_withBuffer_start t.mem s
    ((numeral r.base.toNat n.toNat).length + 1) (by omega)
    (numeral_ne_zero r.two_le r.le_sixteen) (Nat.lt_succ_self _)
  rw [← hmem] at hstr
  exact ⟨strlen_eq hstr, hmem⟩

theorem convertsOver_strfromd : ConvertsOver strfromd fun n => signedNumeral n.toInt := by
  intro t n s
  have hadd : ∀ k : Nat, 1 + BitVec.ofNat 32 k = BitVec.ofNat 32 (k + 1) := by
    intro k
    bv_omega
  by_cases h : n.slt 0#32 = true
  · have hlen := length_numeral_le (b := 10) (by decide) (n * (-1#32))
    obtain ⟨hret, hmem⟩ := convertsOver_strfrom decimal (t.write8 s 0x2D#8) (n * (-1#32)) (s + 1)
    beta_reduce at hret hmem ⊢
    rw [strfromd_neg h, signedNumeral_neg h, List.length_cons]
    refine ⟨?_, hmem.trans ?_⟩
    · show Option.map _ (strfrom decimal _ _ _).1 = _
      rw [hret, Option.map_some, hadd]
      rfl
    · have hsize : 1 + ((numeral decimal.base.toNat (n * (-1#32)).toNat).length + 1) ≤
          2 ^ 32 := by
        show 1 + ((numeral 10 _).length + 1) ≤ _
        omega
      rw [Traced.mem_write8, Mem.withBuffer_cons _ _ _ hsize, Nat.add_comm 1]
      rfl
  · obtain ⟨hret, hmem⟩ := convertsOver_strfrom decimal t n s
    beta_reduce at hret hmem ⊢
    rw [strfromd_nonneg h, signedNumeral_nonneg h]
    refine ⟨?_, hmem⟩
    show Option.map _ (strfrom decimal _ _ _).1 = _
    rw [hret, Option.map_some, zero_add]
    rfl

/-- In a zero-filled buffer the numeral is appended. -/
theorem ConvertsOver.append {conv : Traced → Word → Word → Option Word × Traced}
    {num : Word → List Byte} (h : ConvertsOver conv num) {t : Traced} {m : Mem} {dst n : Word}
    {size : Nat} {out : List Byte} (hsize : size ≤ 2 ^ 32) (ht : t.mem = m.withBuffer dst size out)
    (hlen : out.length + (num n).length < size) :
    (conv t n (dst + BitVec.ofNat 32 out.length)).1 = some (BitVec.ofNat 32 (num n).length) ∧
      (conv t n (dst + BitVec.ofNat 32 out.length)).2.mem =
        m.withBuffer dst size (out ++ num n) := by
  obtain ⟨hret, hmem⟩ := h t n (dst + BitVec.ofNat 32 out.length)
  refine ⟨hret, hmem.trans ?_⟩
  rw [ht]
  exact Mem.withBuffer_within hsize hlen (Nat.le_succ _)

/-! ### What vsprintf needs of a conversion -/

/-- What a conversion of a number does: behind `out` in a zero-filled buffer it appends the numeral
of `n`, and wherever it is used it stores the end of the numeral and nothing behind it. -/
structure Converts (conv : Traced → Word → Word → Option Word × Traced)
    (num : Word → List Byte) : Prop where
  result : ∀ {t : Traced} {m : Mem} {dst n : Word} {size : Nat} {out : List Byte},
    size ≤ 2 ^ 32 → t.mem = m.withBuffer dst size out → out.length + (num n).length < size →
      (conv t n (dst + BitVec.ofNat 32 out.length)).1 = some (BitVec.ofNat 32 (num n).length) ∧
        (conv t n (dst + BitVec.ofNat 32 out.length)).2.mem = m.withBuffer dst size (out ++ num n)
  length_le : ∀ n, (num n).length ≤ 33
  within : ∀ t n s, Traced.StoresWithin (fun a => (a - s).toNat ≤ (num n).length) t (conv t n s).2
  mem_end : ∀ t n s, s + BitVec.ofNat 32 (num n).length ∈ (conv t n s).2.stores

theorem converts_strfrom (r : Radix) :
    Converts (strfrom r) fun n => numeral r.base.toNat n.toNat where
  result := (convertsOver_strfrom r).append
  length_le := fun n => (length_numeral_le r.two_le n).trans (by decide)
  within := fun t n s =>
    (stores_strfrom r (t := t) (by have := length_numeral_le r.two_le n; omega)).1
  mem_end := fun t n s =>
    (stores_strfrom r (t := t) (by have := length_numeral_le r.two_le n; omega)).2

theorem converts_strfromu : Converts strfromu fun n => numeral 10 n.toNat :=
  converts_strfrom decimal

theorem converts_strhex : Converts strhex fun n => numeral 16 n.toNat :=
  converts_strfrom upperHex

section Signed

variable {t : Traced} {n s : Word}

theorem length_signedNumeral_le : (signedNumeral n.toInt).length ≤ 33 := by
  by_cases h : n.slt 0#32 = true
  · rw [signedNumeral_neg h, List.length_cons]
    exact Nat.succ_le_succ (length_numeral_le (by decide) _)
  · rw [signedNumeral_nonneg h]
    exact Nat.le_succ_of_le (length_numeral_le (by decide) n)

theorem stores_strfromd :
    Traced.StoresWithin (fun a => (a - s).toNat ≤ (signedNumeral n.toInt).length) t
        (strfromd t n s).2 ∧
      s + BitVec.ofNat 32 (signedNumeral n.toInt).length ∈ (strfromd t n s).2.stores := by
  by_cases h : n.slt 0#32 = true
  · rw [strfromd_neg h, signedNumeral_neg h, List.length_cons]
    generalize n * (-1#32) = k
    have hrest := converts_strfromu.within (t.write8 s 0x2D#8) k (s + 1)
    have hend := converts_strfromu.mem_end (t.write8 s 0x2D#8) k (s + 1)
    have hlen := length_numeral_le (b := 10) (by decide) k
    generalize strfromu _ _ _ = r at hrest hend ⊢
    generalize (numeral 10 k.toNat).length = len at hrest hend hlen ⊢
    constructor
    · exact Traced.StoresWithin.trans (Traced.StoresWithin.write8 (by simp))
        (hrest.mono fun a ha => by bv_omega)
    · rwa [← add_one_add_ofNat]
  · rw [strfromd_nonneg h, signedNumeral_nonneg h]
    exact ⟨converts_strfromu.within t n s, converts_strfromu.mem_end t n s⟩

theorem converts_strfromd : Converts strfromd fun n => signedNumeral n.toInt where
  result := convertsOver_strfromd.append
  length_le := fun _ => length_signedNumeral_le
  within := fun _ _ _ => stores_strfromd.1
  mem_end := fun _ _ _ => stores_strfromd.2

end Signed

end BasicX86Kernel.Klib
