import BasicX86Kernel.Machine.Memory
import Mathlib.Data.List.GetD

/-! Strings that end with a zero byte, memories that hold a list of bytes in a zero-filled buffer,
and memories that record where bytes have been stored. -/

namespace BasicX86Kernel.Machine

/-! ### Strings -/

/-- The bytes from `p` on are those of the list, none of them zero, and then a zero. -/
def StringAt (m : Mem) : Word → List Byte → Prop
  | p, [] => m.byte p = 0
  | p, c :: cs => m.byte p = c ∧ c ≠ 0 ∧ StringAt m (p + 1) cs

/-- No byte of the string at `p`, nor its zero, lies in the `n` bytes from `dst` on. -/
def StringOutside (dst : Word) (n : Nat) : Word → List Byte → Prop
  | p, [] => n ≤ (p - dst).toNat
  | p, _ :: cs => n ≤ (p - dst).toNat ∧ StringOutside dst n (p + 1) cs

instance decidableStringAt (m : Mem) : ∀ p cs, Decidable (StringAt m p cs)
  | _, [] => inferInstanceAs (Decidable (_ = _))
  | p, _ :: cs =>
    have := decidableStringAt m (p + 1) cs
    inferInstanceAs (Decidable (_ ∧ _ ∧ _))

instance decidableStringOutside (dst : Word) (n : Nat) : ∀ p cs, Decidable (StringOutside dst n p cs)
  | _, [] => inferInstanceAs (Decidable (_ ≤ _))
  | p, _ :: cs =>
    have := decidableStringOutside dst n (p + 1) cs
    inferInstanceAs (Decidable (_ ∧ _))

theorem StringAt.ne_zero {m : Mem} {p : Word} {cs : List Byte} (h : StringAt m p cs) :
    ∀ c ∈ cs, c ≠ 0 := by
  induction cs generalizing p with
  | nil => simp
  | cons c cs ih =>
    intro d hd
    rcases List.mem_cons.mp hd with rfl | hd
    · exact h.2.1
    · exact ih h.2.2 d hd

theorem StringAt.congr {m m' : Mem} {dst p : Word} {n : Nat} {cs : List Byte}
    (h : StringAt m p cs) (hout : StringOutside dst n p cs)
    (hm : ∀ x : Word, n ≤ (x - dst).toNat → m'.byte x = m.byte x) : StringAt m' p cs := by
  induction cs generalizing p with
  | nil => exact (hm p hout).trans h
  | cons c cs ih => exact ⟨(hm p hout.1).trans h.1, h.2.1, ih h.2.2 hout.2⟩

theorem StringAt.byte {m : Mem} {p : Word} {cs : List Byte} (h : StringAt m p cs) {i : Nat}
    (hi : i < cs.length) : m.byte (p + BitVec.ofNat 32 i) ≠ 0 := by
  induction cs generalizing p i with
  | nil => simp at hi
  | cons c cs ih =>
    cases i with
    | zero =>
      rw [BitVec.ofNat_eq_ofNat, BitVec.add_zero, h.1]
      exact h.2.1
    | succ i =>
      rw [← add_one_add_ofNat]
      exact ih h.2.2 (by simpa using hi)

theorem StringAt.end {m : Mem} {p : Word} {cs : List Byte} (h : StringAt m p cs) :
    m.byte (p + BitVec.ofNat 32 cs.length) = 0 := by
  induction cs generalizing p with
  | nil => simpa [StringAt] using h
  | cons c cs ih =>
    rw [List.length_cons, ← add_one_add_ofNat]
    exact ih h.2.2

/-- A string is shorter than the address space. -/
theorem StringAt.length_lt {m : Mem} {p : Word} {cs : List Byte} (h : StringAt m p cs) :
    cs.length < 2 ^ 32 := by
  by_contra hno
  have hwrap : p + BitVec.ofNat 32 (cs.length - 2 ^ 32) = p + BitVec.ofNat 32 cs.length := by
    bv_omega
  have hend := h.end
  rw [← hwrap] at hend
  exact h.byte (by omega) hend

/-- A string that starts behind the bytes and ends before the address space wraps around to them
lies outside them. -/
theorem stringOutside_of_le {dst p : Word} {n : Nat} {cs : List Byte} (h : n ≤ (p - dst).toNat)
    (h' : (p - dst).toNat + cs.length < 2 ^ 32) : StringOutside dst n p cs := by
  induction cs generalizing p with
  | nil => exact h
  | cons c cs ih =>
    rw [List.length_cons] at h'
    have hsucc : (p + 1 - dst).toNat = (p - dst).toNat + 1 := by bv_omega
    exact ⟨h, ih (by omega) (by omega)⟩

/-- A string outside a range of bytes is outside each part of it. -/
theorem StringOutside.within {dst p : Word} {n o k : Nat} {cs : List Byte}
    (h : StringOutside dst n p cs) (hk : o + k ≤ n) :
    StringOutside (dst + BitVec.ofNat 32 o) k p cs := by
  induction cs generalizing p with
  | nil =>
    have hp : n ≤ (p - dst).toNat := h
    show k ≤ (p - (dst + BitVec.ofNat 32 o)).toNat
    bv_omega
  | cons c cs ih =>
    have hp : n ≤ (p - dst).toNat := h.1
    exact ⟨by bv_omega, ih h.2⟩

/-! ### Buffers -/

namespace Mem

/-- The memory `m` with the bytes of `l`, and zeros after them, in the `n` bytes from `dst` on. -/
def withBuffer (m : Mem) (dst : Word) (n : Nat) (l : List Byte) : Mem :=
  ⟨fun x => if (x - dst).toNat < n then l.getD (x - dst).toNat 0 else m.byte x⟩

variable {m : Mem} {dst : Word} {n i : Nat} {l : List Byte}

theorem toNat_add_ofNat_sub (dst : Word) (hi : i < 2 ^ 32) :
    (dst + BitVec.ofNat 32 i - dst).toNat = i := by
  rw [add_sub_cancel_left, BitVec.toNat_ofNat, Nat.mod_eq_of_lt hi]

theorem byte_withBuffer (hn : n ≤ 2 ^ 32) (hi : i < n) :
    (m.withBuffer dst n l).byte (dst + BitVec.ofNat 32 i) = l.getD i 0 := by
  simp only [withBuffer, toNat_add_ofNat_sub dst (hi.trans_le hn), if_pos hi]

theorem byte_withBuffer_outside {x : Word} (hx : n ≤ (x - dst).toNat) :
    (m.withBuffer dst n l).byte x = m.byte x := if_neg (Nat.not_lt.mpr hx)

/-- The zeros after the list may be counted to it. -/
theorem withBuffer_append_zeros (k : Nat) :
    m.withBuffer dst n (l ++ List.replicate k 0) = m.withBuffer dst n l := by
  ext1
  funext x
  simp only [withBuffer]
  split
  · rw [List.getD_eq_getElem?_getD, List.getD_eq_getElem?_getD, List.getElem?_append]
    split
    · rfl
    · next h =>
      rw [List.getElem?_eq_none (Nat.not_lt.mp h), List.getElem?_replicate]
      split <;> rfl
  · rfl

theorem stringAt_withBuffer (hn : n ≤ 2 ^ 32) {cs : List Byte} (hcs : ∀ c ∈ cs, c ≠ 0)
    (hl : l.length + cs.length < n) :
    StringAt (m.withBuffer dst n (l ++ cs)) (dst + BitVec.ofNat 32 l.length) cs := by
  induction cs generalizing l with
  | nil =>
    rw [List.length_nil] at hl
    rw [StringAt, byte_withBuffer hn (by omega), List.append_nil, List.getD_eq_default _ _ le_rfl]
  | cons c cs ih =>
    rw [List.length_cons] at hl
    have hnext := ih (l := l ++ [c]) (fun d hd => hcs d (List.mem_cons_of_mem c hd))
      (by simp; omega)
    rw [List.append_assoc, List.singleton_append, List.length_append, List.length_singleton] at hnext
    refine ⟨?_, hcs c List.mem_cons_self, ?_⟩
    · rw [byte_withBuffer hn (by omega), List.getD_append_right _ _ _ _ le_rfl]
      simp
    · have hadd : dst + BitVec.ofNat 32 l.length + 1 = dst + BitVec.ofNat 32 (l.length + 1) := by
        bv_omega
      rwa [hadd]

theorem stringAt_withBuffer_start (m : Mem) (dst : Word) (n : Nat) {cs : List Byte}
    (hn : n ≤ 2 ^ 32) (hcs : ∀ c ∈ cs, c ≠ 0) (hlen : cs.length < n) :
    StringAt (m.withBuffer dst n cs) dst cs := by
  have hlen' : ([] : List Byte).length + cs.length < n := by rwa [List.length_nil, Nat.zero_add]
  have h : StringAt (m.withBuffer dst n ([] ++ cs)) (dst + BitVec.ofNat 32 0) cs :=
    stringAt_withBuffer hn hcs hlen'
  rwa [List.nil_append, BitVec.add_zero] at h

section Append

variable {k : Nat} {l' : List Byte}

/-- Bytes that are written behind others, over whatever has been written there before. -/
theorem withBuffer_withBuffer (hl : l.length ≤ n) (hn : n ≤ l.length + k)
    (hk : l.length + k ≤ 2 ^ 32) :
    (m.withBuffer dst n l).withBuffer (dst + BitVec.ofNat 32 l.length) k l'
      = m.withBuffer dst (l.length + k) (l ++ l') := by
  ext1
  funext x
  have hlt := (x - dst).isLt
  simp only [withBuffer]
  by_cases hx : (x - dst).toNat < l.length
  · have hoff : ¬(x - (dst + BitVec.ofNat 32 l.length)).toNat < k := by bv_omega
    rw [if_neg hoff, if_pos (by omega), if_pos (by omega), List.getD_append _ _ _ _ hx]
  · have hoff : (x - (dst + BitVec.ofNat 32 l.length)).toNat = (x - dst).toNat - l.length := by
      bv_omega
    rw [hoff, List.getD_append_right _ _ _ _ (Nat.not_lt.mp hx)]
    by_cases hx' : (x - dst).toNat < l.length + k
    · rw [if_pos (by omega), if_pos hx']
    · rw [if_neg (by omega), if_neg (by omega), if_neg hx']

/-- Bytes that are written behind others, among zeros. -/
theorem withBuffer_within (hn : n ≤ 2 ^ 32) (hk : l.length + k ≤ n) (hl' : l'.length ≤ k) :
    (m.withBuffer dst n l).withBuffer (dst + BitVec.ofNat 32 l.length) k l'
      = m.withBuffer dst n (l ++ l') := by
  ext1
  funext x
  have hlt := (x - dst).isLt
  simp only [withBuffer]
  by_cases hx : (x - dst).toNat < l.length
  · have hoff : ¬(x - (dst + BitVec.ofNat 32 l.length)).toNat < k := by bv_omega
    rw [if_neg hoff, List.getD_append _ _ _ _ hx]
  · have hoff : (x - (dst + BitVec.ofNat 32 l.length)).toNat = (x - dst).toNat - l.length := by
      bv_omega
    rw [hoff, List.getD_append_right _ _ _ _ (Nat.not_lt.mp hx)]
    by_cases hx' : (x - dst).toNat - l.length < k
    · rw [if_pos hx', if_pos (by omega)]
    · rw [if_neg hx', List.getD_eq_default l _ (by omega), List.getD_eq_default l' _ (by omega)]

theorem withBuffer_nil (m : Mem) (dst : Word) : m.withBuffer dst 0 [] = m := by
  ext1
  funext x
  exact byte_withBuffer_outside (Nat.zero_le _)

theorem write8_eq_withBuffer (m : Mem) (a : Word) (c : Byte) :
    m.write8 a c = m.withBuffer a 1 [c] := by
  ext1
  funext x
  rw [byte_write8]
  by_cases hx : x = a
  · rw [if_pos hx, hx]
    simp only [withBuffer, BitVec.sub_self]
    rfl
  · have hne : ¬(x - a).toNat < 1 := by bv_omega
    rw [if_neg hx]
    exact (if_neg hne).symm

/-- A store right after the list appends to it. -/
theorem write8_withBuffer_end (hn : n ≤ 2 ^ 32) (hl : l.length < n) (c : Byte) :
    (m.withBuffer dst n l).write8 (dst + BitVec.ofNat 32 l.length) c =
      m.withBuffer dst n (l ++ [c]) := by
  rw [write8_eq_withBuffer]
  exact withBuffer_within hn hl le_rfl

/-- A byte and the bytes behind it. -/
theorem withBuffer_cons (m : Mem) (dst : Word) (c : Byte) (hk : 1 + k ≤ 2 ^ 32) :
    (m.write8 dst c).withBuffer (dst + 1) k l = m.withBuffer dst (1 + k) (c :: l) := by
  rw [write8_eq_withBuffer]
  exact withBuffer_withBuffer (l := [c]) le_rfl (by simp) hk

/-- Bytes that are written in front of one that has been written before. -/
theorem withBuffer_write8 (m : Mem) (dst : Word) (c : Byte) (hl : l.length < 2 ^ 32) :
    (m.write8 (dst + BitVec.ofNat 32 l.length) c).withBuffer dst l.length l
      = m.withBuffer dst (l.length + 1) (l ++ [c]) := by
  ext1
  funext x
  have hlt := (x - dst).isLt
  simp only [withBuffer, byte_write8]
  by_cases hx : (x - dst).toNat < l.length
  · rw [if_pos hx, if_pos (by omega), List.getD_append _ _ _ _ hx]
  · rw [if_neg hx, List.getD_append_right _ _ _ _ (Nat.not_lt.mp hx)]
    by_cases heq : x = dst + BitVec.ofNat 32 l.length
    · have hoff : (x - dst).toNat = l.length := by bv_omega
      rw [if_pos heq, hoff, if_pos (Nat.lt_succ_self _), Nat.sub_self]
      rfl
    · have hoff : ¬(x - dst).toNat < l.length + 1 := by bv_omega
      rw [if_neg heq, if_neg hoff]

end Append

end Mem

/-! ### Recorded stores -/

/-- A memory, and the addresses of the bytes stored so far, the last store last. -/
structure Traced where
  mem : Mem
  stores : List Word

namespace Traced

def byte (t : Traced) (a : Word) : Byte := t.mem.byte a

def write8 (t : Traced) (a : Word) (v : Byte) : Traced := ⟨t.mem.write8 a v, t.stores ++ [a]⟩

@[simp] theorem mem_write8 (t : Traced) (a : Word) (v : Byte) :
    (t.write8 a v).mem = t.mem.write8 a v := rfl

/-- The stores that lead from `t` to `t'` all satisfy `P`. -/
def StoresWithin (P : Word → Prop) (t t' : Traced) : Prop :=
  ∃ l, t'.stores = t.stores ++ l ∧ ∀ a ∈ l, P a

variable {P Q : Word → Prop} {t t' t'' : Traced} {a : Word} {v : Byte}

theorem StoresWithin.refl : StoresWithin P t t := ⟨[], by simp, by simp⟩

theorem StoresWithin.write8 (h : P a) : StoresWithin P t (t.write8 a v) :=
  ⟨[a], rfl, fun _ hb => List.mem_singleton.mp hb ▸ h⟩

theorem StoresWithin.trans (h : StoresWithin P t t') (h' : StoresWithin P t' t'') :
    StoresWithin P t t'' := by
  obtain ⟨l, hl, hP⟩ := h
  obtain ⟨l', hl', hP'⟩ := h'
  refine ⟨l ++ l', by rw [hl', hl, List.append_assoc], fun b hb => ?_⟩
  rcases List.mem_append.mp hb with hb | hb
  · exact hP b hb
  · exact hP' b hb

theorem StoresWithin.mono (h : StoresWithin P t t') (hPQ : ∀ a, P a → Q a) :
    StoresWithin Q t t' := by
  obtain ⟨l, hl, hP⟩ := h
  exact ⟨l, hl, fun b hb => hPQ b (hP b hb)⟩

theorem StoresWithin.mem (h : StoresWithin P t t') (ha : a ∈ t.stores) : a ∈ t'.stores := by
  obtain ⟨l, hl, -⟩ := h
  exact hl ▸ List.mem_append_left l ha

/-- From a record without stores, all stores of the record satisfy `P`. -/
theorem StoresWithin.of_nil (h : StoresWithin P t t') (ht : t.stores = []) :
    ∀ a ∈ t'.stores, P a := by
  obtain ⟨l, hl, hP⟩ := h
  rwa [hl, ht, List.nil_append]

theorem mem_stores_write8 : a ∈ (t.write8 a v).stores :=
  List.mem_append_right _ List.mem_cons_self

end Traced

end BasicX86Kernel.Machine
