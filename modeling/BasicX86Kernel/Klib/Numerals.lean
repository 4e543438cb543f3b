import BasicX86Kernel.Klib.String

/-! What `strfromu` and `strhex` write, told by a reader of numerals that knows nothing of the way
they are made: the digits of the number without a leading zero, which read back as the number. -/

namespace BasicX86Kernel.Klib

open Machine

/-! ### Reading a numeral -/

/-- What a decimal digit or an upper-case letter counts. -/
def digitValue (c : Byte) : Nat := if c.toNat < 0x41 then c.toNat - 0x30 else c.toNat - 0x41 + 10

/-- A character between `0` and `9` or between `A` and `F` that counts less than the base. -/
def IsDigit (b : Nat) (c : Byte) : Prop :=
  (0x30 ≤ c.toNat ∧ c.toNat ≤ 0x39 ∨ 0x41 ≤ c.toNat ∧ c.toNat ≤ 0x46) ∧ digitValue c < b

instance (b : Nat) (c : Byte) : Decidable (IsDigit b c) := inferInstanceAs (Decidable (_ ∧ _))

/-- The number that a list of digits stands for. -/
def readNumeral (b : Nat) (cs : List Byte) : Nat := cs.foldl (fun v c => b * v + digitValue c) 0

/-- The canonical numeral of `n`: digits that read back as `n`, the first of which is zero only
when it is the only one. -/
structure IsNumeral (b n : Nat) (cs : List Byte) : Prop where
  digits : ∀ c ∈ cs, IsDigit b c
  leading : n ≠ 0 → cs.head? ≠ some 0x30#8
  zero : n = 0 → cs = [0x30#8]
  value : readNumeral b cs = n

theorem readNumeral_append (b : Nat) (cs : List Byte) (c : Byte) :
    readNumeral b (cs ++ [c]) = b * readNumeral b cs + digitValue c := by
  rw [readNumeral, List.foldl_append]
  rfl

theorem digitValue_digitByte {d : Nat} (hd : d < 16) : digitValue (digitByte d) = d := by
  have h : ∀ d < 16, digitValue (digitByte d) = d := by decide
  exact h d hd

theorem isDigit_digitByte {b d : Nat} (hb : b ≤ 16) (hd : d < b) : IsDigit b (digitByte d) := by
  have h : ∀ d < 16, IsDigit 16 (digitByte d) := by decide
  refine ⟨(h d (by omega)).1, ?_⟩
  rwa [digitValue_digitByte (by omega)]

theorem digitByte_eq_zero_iff {d : Nat} (hd : d < 16) : digitByte d = 0x30#8 ↔ d = 0 := by
  have h : ∀ d < 16, digitByte d = 0x30#8 ↔ d = 0 := by decide
  exact h d hd

/-! ### The numerals that are written -/

section Numeral

variable {b : Nat} (hb : 2 ≤ b) (hb' : b ≤ 16)

include hb hb'

theorem readNumeral_numeral (n : Nat) : readNumeral b (numeral b n) = n := by
  induction n using Nat.strong_induction_on with
  | _ n ih =>
    rcases Nat.lt_or_ge n b with hlt | hge
    · rw [numeral_lt hlt]
      exact (Nat.zero_add _).trans (digitValue_digitByte (by omega))
    · have hmod : n % b < b := Nat.mod_lt n (by omega)
      rw [numeral_ge hb hge, readNumeral_append, ih _ (Nat.div_lt_self (by omega) hb),
        digitValue_digitByte (by omega)]
      exact Nat.div_add_mod n b

theorem head_numeral {n : Nat} (hn : n ≠ 0) : (numeral b n).head? ≠ some 0x30#8 := by
  induction n using Nat.strong_induction_on with
  | _ n ih =>
    rcases Nat.lt_or_ge n b with hlt | hge
    · rw [numeral_lt hlt, List.head?_singleton, Ne, Option.some_inj,
        digitByte_eq_zero_iff (by omega)]
      exact hn
    · have hdiv : n / b ≠ 0 := Nat.div_ne_zero_iff.mpr ⟨by omega, hge⟩
      have hne : numeral b (n / b) ≠ [] := List.ne_nil_of_length_pos (length_numeral_pos hb)
      rw [numeral_ge hb hge, List.head?_append_of_ne_nil _ hne]
      exact ih _ (Nat.div_lt_self (by omega) hb) hdiv

theorem digits_numeral (n : Nat) : ∀ c ∈ numeral b n, IsDigit b c := by
  induction n using Nat.strong_induction_on with
  | _ n ih =>
    rcases Nat.lt_or_ge n b with hlt | hge
    · rw [numeral_lt hlt]
      intro c hc
      obtain rfl := List.mem_singleton.mp hc
      exact isDigit_digitByte hb' hlt
    · rw [numeral_ge hb hge]
      intro c hc
      rcases List.mem_append.mp hc with hc | hc
      · exact ih _ (Nat.div_lt_self (by omega) hb) c hc
      · obtain rfl := List.mem_singleton.mp hc
        exact isDigit_digitByte hb' (Nat.mod_lt n (by omega))

theorem isNumeral_numeral (n : Nat) : IsNumeral b n (numeral b n) where
  digits := digits_numeral hb hb' n
  leading := head_numeral hb hb'
  zero := by
    rintro rfl
    rfl
  value := readNumeral_numeral hb hb' n

end Numeral

/-! ### Only one numeral -/

section Unique

variable {b n : Nat} {c : Byte} {cs : List Byte}

theorem IsDigit.digitByte_digitValue (hb : b ≤ 16) (h : IsDigit b c) :
    digitByte (digitValue c) = c := by
  have hall : ∀ c : Byte, IsDigit 16 c → digitByte (digitValue c) = c := by decide
  exact hall c ⟨h.1, h.2.trans_le hb⟩

/-- Digits that do not begin with a zero stand for a positive number. -/
theorem readNumeral_pos (hb : 2 ≤ b) (hb' : b ≤ 16) (hdigits : ∀ c ∈ cs, IsDigit b c)
    (hne : cs ≠ []) (hhead : cs.head? ≠ some 0x30#8) : 0 < readNumeral b cs := by
  induction cs using List.reverseRecOn with
  | nil => exact absurd rfl hne
  | append_singleton cs c ih =>
    rw [readNumeral_append]
    by_cases hnil : cs = []
    · subst hnil
      have hc := hdigits c (by simp)
      have hlt : digitValue c < 16 := hc.2.trans_le hb'
      have hvalue : digitValue c ≠ 0 := by
        intro h0
        refine hhead (congrArg some ?_)
        rw [← hc.digitByte_digitValue hb', digitByte_eq_zero_iff hlt]
        exact h0
      omega
    · rw [List.head?_append_of_ne_nil _ hnil] at hhead
      have hpos := ih (fun c hc => hdigits c (List.mem_append_left _ hc)) hnil hhead
      have := Nat.mul_pos (show 0 < b by omega) hpos
      omega

theorem IsNumeral.eq_numeral (hb : 2 ≤ b) (hb' : b ≤ 16) (h : IsNumeral b n cs) :
    cs = numeral b n := by
  induction cs using List.reverseRecOn generalizing n with
  | nil =>
    have h0 : n = 0 := h.value.symm
    exact absurd (h.zero h0) (by simp)
  | append_singleton cs c ih =>
    have hc := h.digits c (by simp)
    have hvalue := h.value
    rw [readNumeral_append] at hvalue
    by_cases hnil : cs = []
    · subst hnil
      have hn : n = digitValue c := hvalue.symm.trans (Nat.zero_add _)
      rw [List.nil_append, hn, numeral_lt hc.2, hc.digitByte_digitValue hb']
    · have hn : n ≠ 0 := by
        intro h0
        refine hnil ?_
        simpa using congrArg List.length (h.zero h0)
      have hhead := h.leading hn
      rw [List.head?_append_of_ne_nil _ hnil] at hhead
      have hdigits : ∀ c ∈ cs, IsDigit b c := fun c hc => h.digits c (List.mem_append_left _ hc)
      have hpos := readNumeral_pos hb hb' hdigits hnil hhead
      have hfront := ih ⟨hdigits, fun _ => hhead, fun h0 => absurd h0 hpos.ne', rfl⟩
      have hge : b ≤ n := by
        have := Nat.mul_le_mul_left b hpos
        omega
      have hdiv : n / b = readNumeral b cs := by
        rw [← hvalue, Nat.mul_add_div (by omega), Nat.div_eq_of_lt hc.2, Nat.add_zero]
      have hmod : n % b = digitValue c := by
        rw [← hvalue, Nat.mul_add_mod, Nat.mod_eq_of_lt hc.2]
      rw [numeral_ge hb hge, hdiv, hmod, ← hfront, hc.digitByte_digitValue hb']

/-- The canonical numeral is the one that the conversions write. -/
theorem isNumeral_iff (hb : 2 ≤ b) (hb' : b ≤ 16) : IsNumeral b n cs ↔ cs = numeral b n :=
  ⟨fun h => h.eq_numeral hb hb', fun h => h ▸ isNumeral_numeral hb hb' n⟩

end Unique

/-! ### Round trip -/

/-- A conversion has written the numeral of `n` and its zero at `s` and nothing else, and returned
the length of the numeral. -/
def WritesNumeral (b : Nat) (t : Traced) (n s : Word) (r : Option Word × Traced) : Prop :=
  ∃ cs, IsNumeral b n.toNat cs ∧ StringAt r.2.mem s cs ∧
    (∀ x : Word, cs.length < (x - s).toNat → r.2.mem.byte x = t.mem.byte x) ∧
    r.1 = some (BitVec.ofNat 32 cs.length)

theorem writesNumeral_strfrom (r : Radix) (t : Traced) (n s : Word) :
    WritesNumeral r.base.toNat t n s (strfrom r t n s) := by
  have hnumeral := isNumeral_numeral r.two_le r.le_sixteen n.toNat
  have hlen := length_numeral_le r.two_le n
  obtain ⟨hret, hmem⟩ := convertsOver_strfrom r t n s
  beta_reduce at hret hmem
  refine ⟨numeral r.base.toNat n.toNat, hnumeral, ?_, fun x hx => ?_, hret⟩
  · rw [hmem]
    exact Mem.stringAt_withBuffer_start t.mem s _ (by omega)
      (numeral_ne_zero r.two_le r.le_sixteen) (Nat.lt_succ_self _)
  · rw [hmem]
    exact Mem.byte_withBuffer_outside hx

/-- Whatever the memory holds, `strfromu` and `strhex` write the decimal and the hexadecimal numeral
of the number, which read back as the number, and store nothing else. -/
theorem strfromu_strhex_writesNumeral (t : Traced) (n s : Word) :
    WritesNumeral 10 t n s (strfromu t n s) ∧ WritesNumeral 16 t n s (strhex t n s) :=
  ⟨writesNumeral_strfrom decimal t n s, writesNumeral_strfrom upperHex t n s⟩

end BasicX86Kernel.Klib
