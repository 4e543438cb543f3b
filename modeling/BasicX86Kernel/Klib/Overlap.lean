import BasicX86Kernel.Klib.Mem
import BasicX86Kernel.Klib.Vsprintf

/-! Copies forward, byte by byte, over a source that they may overlap: `memcpy`, which repeats the
bytes before the destination, and `strcpy`, which may run after its own output and never end. -/

namespace BasicX86Kernel.Klib

open Machine

/-! ### `memcpy` -/

/-- The memory `m` with the `n` bytes from `src` on, as they are in `m`, from `dst` on. -/
def moved (m : Mem) (dst src n : Word) : Mem :=
  ⟨fun x => if (x - dst).toNat < n.toNat then m.byte (src + (x - dst)) else m.byte x⟩

theorem byte_moved (m : Mem) (dst src : Word) {n : Word} {i : Nat} (hi : i < n.toNat) :
    (moved m dst src n).byte (dst + BitVec.ofNat 32 i) = m.byte (src + BitVec.ofNat 32 i) := by
  rw [moved]
  simp only [Mem.toNat_add_ofNat_sub dst (hi.trans n.isLt), if_pos hi]
  rw [add_sub_cancel_left]

/-- The last pass of the loop. -/
theorem memcpyLoop_succ (n : Nat) (m : Mem) (dst src : Word) :
    memcpyLoop (n + 1) m dst src
      = (memcpyLoop n m dst src).write8 (dst + BitVec.ofNat 32 n)
          ((memcpyLoop n m dst src).byte (src + BitVec.ofNat 32 n)) := by
  induction n generalizing m dst src with
  | zero => simp [memcpyLoop]
  | succ n ih =>
    rw [memcpyLoop, ih, add_one_add_ofNat, add_one_add_ofNat]
    rfl

/-- The loop stores to the `n` bytes from `dst` on. -/
theorem byte_memcpyLoop_outside {n : Nat} (m : Mem) {dst x : Word} (src : Word)
    (hx : n ≤ (x - dst).toNat) : (memcpyLoop n m dst src).byte x = m.byte x := by
  induction n with
  | zero => rfl
  | succ n ih =>
    rw [memcpyLoop_succ, Mem.byte_write8_ne (by bv_omega)]
    exact ih (Nat.le_of_succ_le hx)

/-- A byte is stored once, and what is read has been stored `d` passes before or not at all: from
pass `d` on the loop repeats what it has copied. -/
theorem byte_memcpyLoop_mod {n : Nat} (m : Mem) (dst src : Word) (hn : n ≤ 2 ^ 32) {i : Nat}
    (hi : i < n) :
    (memcpyLoop n m dst src).byte (dst + BitVec.ofNat 32 i)
      = m.byte (src + BitVec.ofNat 32 (i % (dst - src).toNat)) := by
  induction n generalizing i with
  | zero => exact absurd hi (Nat.not_lt_zero i)
  | succ n ih =>
    rw [memcpyLoop_succ]
    rcases Nat.lt_succ_iff_lt_or_eq.mp hi with hlt | rfl
    · rw [Mem.byte_write8_ne (by bv_omega)]
      exact ih (by omega) hlt
    · rw [Mem.byte_write8_same]
      have hd := (dst - src).isLt
      rcases Nat.lt_or_ge i (dst - src).toNat with hfirst | hagain
      · -- the byte is read before the stores get to it
        rw [Nat.mod_eq_of_lt hfirst, byte_memcpyLoop_outside m src (by bv_omega)]
      · rcases Nat.eq_zero_or_pos (dst - src).toNat with hzero | hpos
        · -- source and destination are one
          rw [hzero, Nat.mod_zero, byte_memcpyLoop_outside m src (by bv_omega)]
        · have hsrc : src + BitVec.ofNat 32 i
              = dst + BitVec.ofNat 32 (i - (dst - src).toNat) := by bv_omega
          rw [hsrc, ih (by omega) (by omega), ← Nat.mod_eq_sub_mod hagain]

theorem byte_memcpy_mod (m : Mem) (dst src n : Word) {i : Nat} (hi : i < n.toNat) :
    (memcpy m dst src n).byte (dst + BitVec.ofNat 32 i)
      = m.byte (src + BitVec.ofNat 32 (i % (dst - src).toNat)) := by
  have hn : n ≠ 0 := by
    rintro rfl
    exact absurd hi (Nat.not_lt_zero i)
  rw [memcpy, if_neg hn]
  exact byte_memcpyLoop_mod m dst src n.isLt.le hi

theorem byte_memcpy_outside (m : Mem) {dst x : Word} (src : Word) {n : Word}
    (hx : n.toNat ≤ (x - dst).toNat) : (memcpy m dst src n).byte x = m.byte x := by
  rw [memcpy]
  split
  · rfl
  · exact byte_memcpyLoop_outside m src hx

/-- The two agree in the bytes they store when no pass reads what has been stored before. -/
theorem memcpy_eq_moved {dst src n : Word} (h : dst = src ∨ n.toNat ≤ (dst - src).toNat)
    (m : Mem) : memcpy m dst src n = moved m dst src n := by
  ext1
  funext x
  simp only [moved]
  rcases Nat.lt_or_ge (x - dst).toNat n.toNat with hx | hx
  · have hmod : (x - dst).toNat % (dst - src).toNat = (x - dst).toNat := by
      rcases h with rfl | h
      · rw [BitVec.sub_self]
        exact Nat.mod_zero _
      · exact Nat.mod_eq_of_lt (hx.trans_le h)
    have hbyte := byte_memcpy_mod m dst src n hx
    rw [hmod, BitVec.ofNat_toNat, BitVec.setWidth_eq, add_sub_cancel] at hbyte
    rw [if_pos hx, hbyte]
  · rw [if_neg (Nat.not_lt.mpr hx), byte_memcpy_outside m src hx]

/-- `memcpy` fills its destination with the bytes from the source up to the destination, again and
again, and changes nothing else; it moves the bytes of every memory just when the destination does
not begin inside the source. -/
theorem memcpy_repeats (dst src n : Word) :
    (∀ m : Mem, (∀ i < n.toNat, (memcpy m dst src n).byte (dst + BitVec.ofNat 32 i)
          = m.byte (src + BitVec.ofNat 32 (i % (dst - src).toNat)))
        ∧ ∀ x : Word, n.toNat ≤ (x - dst).toNat → (memcpy m dst src n).byte x = m.byte x)
      ∧ ((∀ m, memcpy m dst src n = moved m dst src n)
        ↔ dst = src ∨ n.toNat ≤ (dst - src).toNat) := by
  refine ⟨fun m => ⟨fun i hi => byte_memcpy_mod m dst src n hi,
    fun x hx => byte_memcpy_outside m src hx⟩, ?_, memcpy_eq_moved⟩
  intro h
  by_contra hno
  obtain ⟨hne, hlt⟩ := not_or.mp hno
  rw [Nat.not_le] at hlt
  -- the first byte that is copied twice, in a memory that tells it from the one it is copied over
  have htwice : ∀ m : Mem, m.byte dst = m.byte src := by
    intro m
    have hbyte := byte_memcpy_mod m dst src n hlt
    have hdst : src + BitVec.ofNat 32 (dst - src).toNat = dst := by bv_omega
    rwa [h, byte_moved m dst src hlt, hdst, Nat.mod_self,
      BitVec.add_zero] at hbyte
  have hdiffer := htwice (Mem.write8 ⟨fun _ => 0⟩ src 1)
  rw [Mem.byte_write8_ne hne, Mem.byte_write8_same] at hdiffer
  have hzero : (0 : Byte) = 1 := hdiffer
  exact absurd hzero (by decide)

/-! ### `strcpy` -/

/-- `none` when the loop does not end. -/
def strcpy (t : Traced) (dst src : Word) : Option Word × Traced :=
  let retv := dst
  let (end', t) := copyLoop addressSpace t dst src
  (end'.map fun _ => retv, t)

/-- A string that no pass of the loop overwrites before it has been read. -/
theorem copyLoop_ends {src dst : Word} {s : List Byte} {t : Traced} (hs : StringAt t.mem src s)
    (hd : dst = src ∨ s.length < (dst - src).toNat) {fuel : Nat} (hfuel : s.length < fuel) :
    (copyLoop fuel t dst src).1 = some (dst + BitVec.ofNat 32 (s.length + 1)) ∧
      (copyLoop fuel t dst src).2.mem = t.mem.withBuffer dst (s.length + 1) s := by
  obtain ⟨fuel, rfl⟩ := Nat.exists_eq_succ_of_ne_zero (Nat.ne_zero_of_lt hfuel)
  induction s generalizing t dst src fuel with
  | nil =>
    have hsrc : t.byte src = 0 := hs
    simp only [copyLoop, hsrc, ne_eq, not_true_eq_false, if_false]
    refine ⟨rfl, ?_⟩
    rw [Traced.mem_write8, Mem.write8_eq_withBuffer]
    exact Mem.withBuffer_append_zeros (l := []) 1
  | cons c s ih =>
    have hlt := hs.length_lt
    rw [List.length_cons] at hfuel hlt hd ⊢
    obtain ⟨hc, hc0, hrest⟩ := hs
    have hsrc : t.byte src = c := hc
    have hkept : StringAt (t.write8 dst c).mem (src + 1) s := by
      rcases hd with rfl | hd
      · rw [Traced.mem_write8, ← hc, Mem.write8_byte]
        exact hrest
      · have hout : StringOutside dst 1 (src + 1) s :=
          stringOutside_of_le (by bv_omega) (by bv_omega)
        exact hrest.congr hout fun x hx => Mem.byte_write8_ne (by bv_omega)
    have hd' : dst + 1 = src + 1 ∨ s.length < (dst + 1 - (src + 1)).toNat := by
      rcases hd with rfl | hd
      · exact .inl rfl
      · exact .inr (by bv_omega)
    obtain ⟨fuel, rfl⟩ := Nat.exists_eq_succ_of_ne_zero (show fuel ≠ 0 by omega)
    obtain ⟨hret, hmem⟩ := ih hkept hd' fuel (by omega)
    rw [copyLoop]
    simp only [hsrc, ne_eq, hc0, not_false_eq_true, if_true]
    refine ⟨?_, ?_⟩
    · rw [hret, add_one_add_ofNat]
    · rw [hmem, Traced.mem_write8, Mem.withBuffer_cons _ _ _ (by omega), Nat.add_comm 1]

/-- When the destination lies inside the string, the loop never meets a zero: its last `d` stores
are what it reads next. -/
theorem copyLoop_never_ends {src : Word} {d : Nat} (hd : 0 < d) (hlt : d < 2 ^ 32) (fuel : Nat)
    {t : Traced} (ht : ∀ k < d, t.byte (src + BitVec.ofNat 32 k) ≠ 0) :
    (copyLoop fuel t (src + BitVec.ofNat 32 d) src).1 = none := by
  induction fuel generalizing t src with
  | zero => rfl
  | succ fuel ih =>
    have hsrc : t.byte src ≠ 0 := by
      have h := ht 0 hd
      rwa [BitVec.ofNat_eq_ofNat, BitVec.add_zero] at h
    have hnext : src + BitVec.ofNat 32 d + 1 = src + 1 + BitVec.ofNat 32 d := by bv_omega
    rw [copyLoop]
    simp only [ne_eq, hsrc, not_false_eq_true, if_true, hnext]
    refine ih fun k hk => ?_
    rw [add_one_add_ofNat]
    rcases Nat.lt_or_ge (k + 1) d with hin | hend
    · have hne : src + BitVec.ofNat 32 (k + 1) ≠ src + BitVec.ofNat 32 d := by bv_omega
      exact (Mem.byte_write8_ne hne).trans_ne (ht (k + 1) hin)
    · obtain rfl : d = k + 1 := by omega
      exact (Mem.byte_write8_same _ _ _).trans_ne hsrc

/-- `strcpy` returns, with the string and its end at the destination and all else as it was, when
the destination is the source or does not lie inside the string and its end; otherwise its loop
never ends. -/
theorem strcpy_returns_iff (t : Traced) (dst : Word) {src : Word} {s : List Byte}
    (hs : StringAt t.mem src s) :
    ((strcpy t dst src).1 = some dst ↔ dst = src ∨ s.length < (dst - src).toNat)
      ∧ ((strcpy t dst src).1 = some dst
          → (strcpy t dst src).2.mem = t.mem.withBuffer dst (s.length + 1) s)
      ∧ ((strcpy t dst src).1 ≠ some dst → ∀ fuel, (copyLoop fuel t dst src).1 = none) := by
  have hret : (strcpy t dst src).1 = (copyLoop addressSpace t dst src).1.map fun _ => dst := rfl
  have hmem : (strcpy t dst src).2 = (copyLoop addressSpace t dst src).2 := rfl
  by_cases hd : dst = src ∨ s.length < (dst - src).toNat
  · obtain ⟨hend, hcopied⟩ := copyLoop_ends hs hd (length_lt_addressSpace hs)
    rw [hret, hmem, hend]
    exact ⟨iff_of_true rfl hd, fun _ => hcopied, fun hno => absurd rfl hno⟩
  · obtain ⟨hne, hle⟩ := not_or.mp hd
    have hnever : ∀ fuel, (copyLoop fuel t dst src).1 = none := by
      intro fuel
      have hdst : dst = src + BitVec.ofNat 32 (dst - src).toNat := by bv_omega
      rw [hdst]
      exact copyLoop_never_ends (by bv_omega) (dst - src).isLt fuel fun k hk =>
        hs.byte (by omega)
    rw [hret, hnever]
    refine ⟨iff_of_false (by simp) hd, fun h => ?_, fun _ => hnever⟩
    simp at h

/-- The word "ab" copied over its own second letter. -/
theorem strcpy_inside : (strcpy ⟨((⟨fun _ => 0⟩ : Mem).write8 0x1000 0x61).write8 0x1001 0x62, []⟩
    0x1001 0x1000).1 ≠ some 0x1001 := by
  have hs : StringAt (((⟨fun _ => 0⟩ : Mem).write8 0x1000 0x61).write8 0x1001 0x62) 0x1000
      [0x61, 0x62] := by decide
  obtain ⟨hiff, -, -⟩ := strcpy_returns_iff ⟨_, []⟩ 0x1001 hs
  intro h
  exact absurd (hiff.mp h) (by decide)

end BasicX86Kernel.Klib
