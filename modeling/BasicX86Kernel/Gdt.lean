import BasicX86Kernel.System

/-! `ksrc/gdt.c`: the descriptors that `gdt_set_gate` packs, read back as `gdt_entry_t`. -/

namespace BasicX86Kernel.Gdt

open Machine

/-! ### The functions -/

def gdtSetGate (m : Mem) (entry limit base type flags : Word) : Mem :=
  let m := m.write32 entry ((limit &&& 0xFFFF#32) ||| ((base &&& 0xFFFF#32) <<< 16))
  m.write32 (entry + 4) (((base >>> 16) &&& 0xFF#32) ||| type |||
    (((limit >>> 16) &&& 0x0F#32) <<< 16) ||| flags ||| (base &&& 0xFF000000#32))

/-- `gdt_entry_t` -/
structure GdtEntry where
  limitLow : BitVec 16
  baseLow : BitVec 16
  baseMiddle : BitVec 8
  ac : Bool
  rw : Bool
  dc : Bool
  ex : Bool
  r1 : Bool
  privilege : BitVec 2
  present : Bool
  limitHigh : BitVec 4
  r2 : Bool
  r3 : Bool
  size : Bool
  granularity : Bool
  baseHigh : BitVec 8

/-- The fields of an entry in memory; the bits of a byte belong to its fields from the lowest on. -/
def gdtEntryAt (m : Mem) (entry : Word) : GdtEntry :=
  let access := m.byte (entry + 5)
  let upper := m.byte (entry + 6)
  { limitLow := m.read16 entry
    baseLow := m.read16 (entry + 2)
    baseMiddle := m.byte (entry + 4)
    ac := access.getLsbD 0
    rw := access.getLsbD 1
    dc := access.getLsbD 2
    ex := access.getLsbD 3
    r1 := access.getLsbD 4
    privilege := access.extractLsb' 5 2
    present := access.getLsbD 7
    limitHigh := upper.extractLsb' 0 4
    r2 := upper.getLsbD 4
    r3 := upper.getLsbD 5
    size := upper.getLsbD 6
    granularity := upper.getLsbD 7
    baseHigh := m.byte (entry + 7) }

/-- What `gdt_get_segment_vma` makes of the entry of the segment. -/
def gdtGetSegmentVma (entry : GdtEntry) : Word :=
  let base := (entry.baseLow.setWidth 32 &&& 0xFFFF#32) |||
    ((entry.baseMiddle.setWidth 32 &&& 0xFF#32) <<< 16) |||
    ((entry.baseHigh.setWidth 32 &&& 0xFF#32) <<< 24)
  base + kernelConfigVma

/-! ### Descriptors -/

/-- What `gdt_set_gate` is given for a segment: a limit of 20 bits, a type in bits 8 to 11, and
flags in bits 12 to 15 and 20 to 23. -/
@[ext] structure Segment where
  limit : Word
  base : Word
  type : Word
  flags : Word
  limit_lt : limit.toNat < 2 ^ 20
  type_within : type &&& ~~~0xF00#32 = 0
  flags_within : flags &&& ~~~0xF0F000#32 = 0

namespace Segment

variable (x : Segment)

def written (m : Mem) (entry : Word) : Mem :=
  gdtSetGate m entry x.limit x.base x.type x.flags

def low : Word := (x.limit &&& 0xFFFF#32) ||| ((x.base &&& 0xFFFF#32) <<< 16)

def high : Word :=
  ((x.base >>> 16) &&& 0xFF#32) ||| x.type ||| (((x.limit >>> 16) &&& 0x0F#32) <<< 16) |||
    x.flags ||| (x.base &&& 0xFF000000#32)

/-- The descriptor of the segment. -/
def value : BitVec 64 := x.high ++ x.low

theorem written_eq (m : Mem) (entry : Word) : x.written m entry = m.write64 entry x.value :=
  Mem.write32_write32 m entry x.low x.high

/-- A word has no bit outside of a mask. -/
theorem getLsbD_of_within {w mask : Word} (h : w &&& ~~~mask = 0) {i : Nat}
    (hi : mask.getLsbD i = false) : w.getLsbD i = false := by
  by_cases hlt : i < 32
  · have hbit := congrArg (fun v => v.getLsbD i) h
    simp only [BitVec.getLsbD_and, BitVec.getLsbD_not, hlt, hi] at hbit
    simpa using hbit
  · exact BitVec.getLsbD_of_ge w i (by omega)

theorem getLsbD_type {i : Nat} (hi : i < 8 ∨ 12 ≤ i) : x.type.getLsbD i = false := by
  by_cases hlt : i < 32
  · have hmask : ∀ i < 32, i < 8 ∨ 12 ≤ i → (0xF00#32).getLsbD i = false := by decide
    exact getLsbD_of_within x.type_within (hmask i hlt hi)
  · exact BitVec.getLsbD_of_ge _ i (by omega)

theorem getLsbD_flags {i : Nat} (hi : i < 12 ∨ (16 ≤ i ∧ i < 20) ∨ 24 ≤ i) :
    x.flags.getLsbD i = false := by
  by_cases hlt : i < 32
  · have hmask : ∀ i < 32, i < 12 ∨ (16 ≤ i ∧ i < 20) ∨ 24 ≤ i →
        (0xF0F000#32).getLsbD i = false := by decide
    exact getLsbD_of_within x.flags_within (hmask i hlt hi)
  · exact BitVec.getLsbD_of_ge _ i (by omega)

theorem getLsbD_low {i : Nat} (hi : i < 32) :
    x.low.getLsbD i = if i < 16 then x.limit.getLsbD i else x.base.getLsbD (i - 16) := by
  have hmask : ∀ i < 32, (0xFFFF#32).getLsbD i = decide (i < 16) := by decide
  rw [low, BitVec.getLsbD_or, BitVec.getLsbD_and, BitVec.getLsbD_shiftLeft, BitVec.getLsbD_and,
    hmask i hi, hmask (i - 16) (by omega)]
  by_cases h : i < 16
  · simp [h]
  · simp [h, hi, show i - 16 < 16 by omega]

theorem getLsbD_high {i : Nat} (hi : i < 32) :
    x.high.getLsbD i = if i < 8 then x.base.getLsbD (16 + i)
      else if i < 12 then x.type.getLsbD i
      else if i < 16 then x.flags.getLsbD i
      else if i < 20 then x.limit.getLsbD i
      else if i < 24 then x.flags.getLsbD i
      else x.base.getLsbD i := by
  have h8 : ∀ i < 32, (0xFF#32).getLsbD i = decide (i < 8) := by decide
  have h4 : ∀ i < 32, (0x0F#32).getLsbD i = decide (i < 4) := by decide
  have h24 : ∀ i < 32, (0xFF000000#32).getLsbD i = decide (24 ≤ i) := by decide
  simp only [high, BitVec.getLsbD_or, BitVec.getLsbD_and, BitVec.getLsbD_shiftLeft,
    BitVec.getLsbD_ushiftRight, h8 i hi, h4 (i - 16) (by omega), h24 i hi]
  rcases Nat.lt_or_ge i 8 with h | h
  · rw [x.getLsbD_type (Or.inl h), x.getLsbD_flags (i := i) (by omega)]
    simp [h, show i < 16 by omega, show ¬24 ≤ i by omega]
  rcases Nat.lt_or_ge i 12 with h' | h'
  · rw [x.getLsbD_flags (i := i) (by omega)]
    simp [show ¬i < 8 by omega, h', show i < 16 by omega, show ¬24 ≤ i by omega]
  rw [x.getLsbD_type (Or.inr h')]
  rcases Nat.lt_or_ge i 16 with h | h
  · simp [show ¬i < 8 by omega, show ¬i < 12 by omega, h, show ¬24 ≤ i by omega]
  rcases Nat.lt_or_ge i 20 with h' | h'
  · rw [x.getLsbD_flags (i := i) (by omega)]
    simp [hi, show ¬i < 8 by omega, show ¬i < 12 by omega, show ¬i < 16 by omega, h',
      show i - 16 < 4 by omega, show 16 + (i - 16) = i by omega, show ¬24 ≤ i by omega]
  rcases Nat.lt_or_ge i 24 with h | h
  · simp [show ¬i < 8 by omega, show ¬i < 12 by omega, show ¬i < 16 by omega,
      show ¬i < 20 by omega, h, show ¬i - 16 < 4 by omega, show ¬24 ≤ i by omega]
  · rw [x.getLsbD_flags (i := i) (by omega)]
    simp [show ¬i < 8 by omega, show ¬i < 12 by omega, show ¬i < 16 by omega,
      show ¬i < 20 by omega, show ¬i < 24 by omega, h, show ¬i - 16 < 4 by omega]

/-- Where the bits of the descriptor come from. -/
theorem getLsbD_value {i : Nat} (hi : i < 64) :
    x.value.getLsbD i = if i < 16 then x.limit.getLsbD i
      else if i < 40 then x.base.getLsbD (i - 16)
      else if i < 44 then x.type.getLsbD (i - 32)
      else if i < 48 then x.flags.getLsbD (i - 32)
      else if i < 52 then x.limit.getLsbD (i - 32)
      else if i < 56 then x.flags.getLsbD (i - 32)
      else x.base.getLsbD (i - 32) := by
  rw [value, BitVec.getLsbD_append]
  split
  · next h =>
    rw [x.getLsbD_low h]
    split
    · rfl
    · rw [if_pos (by omega)]
  · next h =>
    rw [x.getLsbD_high (by omega)]
    simp only [show ¬i < 16 by omega, show i - 32 < 8 ↔ i < 40 by omega,
      show i - 32 < 12 ↔ i < 44 by omega, show i - 32 < 16 ↔ i < 48 by omega,
      show i - 32 < 20 ↔ i < 52 by omega, show i - 32 < 24 ↔ i < 56 by omega,
      show 16 + (i - 32) = i - 16 by omega, if_false]

end Segment

/-! ### What is read back -/

/-- The fields of a descriptor. -/
def entryOf (v : BitVec 64) : GdtEntry where
  limitLow := v.extractLsb' 0 16
  baseLow := v.extractLsb' 16 16
  baseMiddle := v.extractLsb' 32 8
  ac := v.getLsbD 40
  rw := v.getLsbD 41
  dc := v.getLsbD 42
  ex := v.getLsbD 43
  r1 := v.getLsbD 44
  privilege := v.extractLsb' 45 2
  present := v.getLsbD 47
  limitHigh := v.extractLsb' 48 4
  r2 := v.getLsbD 52
  r3 := v.getLsbD 53
  size := v.getLsbD 54
  granularity := v.getLsbD 55
  baseHigh := v.extractLsb' 56 8

theorem gdtEntryAt_write64 (m : Mem) (entry : Word) (v : BitVec 64) :
    gdtEntryAt (m.write64 entry v) entry = entryOf v := by
  have hlimit : (m.write64 entry v).read16 entry = v.extractLsb' 0 16 := by
    simpa using Mem.read16_write64 m entry v (i := 0) (by decide)
  have hbase : (m.write64 entry v).read16 (entry + 2) = v.extractLsb' 16 16 :=
    Mem.read16_write64 m entry v (i := 2) (by decide)
  have hmiddle : (m.write64 entry v).byte (entry + 4) = v.extractLsb' 32 8 :=
    Mem.byte_write64 m entry v (i := 4) (by decide)
  have haccess : (m.write64 entry v).byte (entry + 5) = v.extractLsb' 40 8 :=
    Mem.byte_write64 m entry v (i := 5) (by decide)
  have hupper : (m.write64 entry v).byte (entry + 6) = v.extractLsb' 48 8 :=
    Mem.byte_write64 m entry v (i := 6) (by decide)
  have hhigh : (m.write64 entry v).byte (entry + 7) = v.extractLsb' 56 8 :=
    Mem.byte_write64 m entry v (i := 7) (by decide)
  have hprivilege : (v.extractLsb' 40 8).extractLsb' 5 2 = v.extractLsb' 45 2 := by
    ext i hi
    simp [show 5 + i < 8 by omega, show 40 + (5 + i) = 45 + i by omega]
  have hlimitHigh : (v.extractLsb' 48 8).extractLsb' 0 4 = v.extractLsb' 48 4 := by
    ext i hi
    simp [show i < 8 by omega]
  rw [gdtEntryAt, hlimit, hbase, hmiddle, haccess, hupper, hhigh]
  simp only [hprivilege, hlimitHigh, BitVec.getLsbD_extractLsb']
  rfl

/-- The fields of an entry are the ones that the segment asks for: its limit and base, put together,
and the bits of its type and its flags. -/
structure EntryReads (e : GdtEntry) (x : Segment) : Prop where
  limit : (e.limitHigh ++ e.limitLow).setWidth 32 = x.limit
  vma : gdtGetSegmentVma e = x.base + kernelConfigVma
  ac : e.ac = x.type.getLsbD 8
  rw : e.rw = x.type.getLsbD 9
  dc : e.dc = x.type.getLsbD 10
  ex : e.ex = x.type.getLsbD 11
  s : e.r1 = x.flags.getLsbD 12
  privilege : e.privilege = x.flags.extractLsb' 13 2
  present : e.present = x.flags.getLsbD 15
  available : e.r2 = x.flags.getLsbD 20
  long : e.r3 = x.flags.getLsbD 21
  size : e.size = x.flags.getLsbD 22
  granularity : e.granularity = x.flags.getLsbD 23

namespace Segment

variable (x : Segment)

theorem limit_entryOf : ((entryOf x.value).limitHigh ++ (entryOf x.value).limitLow).setWidth 32 =
    x.limit := by
  apply BitVec.eq_of_getLsbD_eq
  intro i hi
  rw [BitVec.getLsbD_setWidth, BitVec.getLsbD_append, decide_eq_true hi, Bool.true_and]
  rcases Nat.lt_or_ge i 16 with h | h
  · rw [if_pos h, entryOf, BitVec.getLsbD_extractLsb', Nat.zero_add, x.getLsbD_value (by omega),
      if_pos h, decide_eq_true h, Bool.true_and]
  · rw [if_neg (by omega), entryOf, BitVec.getLsbD_extractLsb']
    rcases Nat.lt_or_ge i 20 with h' | h'
    · rw [x.getLsbD_value (by omega), decide_eq_true (by omega), Bool.true_and]
      simp only [show ¬48 + (i - 16) < 16 by omega, show ¬48 + (i - 16) < 40 by omega,
        show ¬48 + (i - 16) < 44 by omega, show ¬48 + (i - 16) < 48 by omega,
        show 48 + (i - 16) < 52 by omega, if_false, if_true, show 48 + (i - 16) - 32 = i by omega]
    · rw [decide_eq_false (by omega), Bool.false_and, getLsbD_of_lt x.limit_lt h']

theorem vma_entryOf : gdtGetSegmentVma (entryOf x.value) = x.base + kernelConfigVma := by
  have h16 : ∀ i < 32, (0xFFFF#32).getLsbD i = decide (i < 16) := by decide
  have h8 : ∀ i < 32, (0xFF#32).getLsbD i = decide (i < 8) := by decide
  have hbase : ∀ i, 16 ≤ i → i < 40 → x.value.getLsbD i = x.base.getLsbD (i - 16) := by
    intro i hi hi'
    rw [x.getLsbD_value (by omega), if_neg (by omega), if_pos hi']
  have hhigh : ∀ i, 56 ≤ i → i < 64 → x.value.getLsbD i = x.base.getLsbD (i - 32) := by
    intro i hi hi'
    rw [x.getLsbD_value hi', if_neg (by omega), if_neg (by omega), if_neg (by omega),
      if_neg (by omega), if_neg (by omega), if_neg (by omega)]
  refine congrArg (· + kernelConfigVma) (BitVec.eq_of_getLsbD_eq fun i hi => ?_)
  simp only [entryOf, BitVec.getLsbD_or, BitVec.getLsbD_and, BitVec.getLsbD_shiftLeft,
    BitVec.getLsbD_setWidth, BitVec.getLsbD_extractLsb', h16 i hi, h8 (i - 16) (by omega),
    h8 (i - 24) (by omega)]
  rcases Nat.lt_or_ge i 16 with h | h
  · rw [hbase (16 + i) (by omega) (by omega), Nat.add_sub_cancel_left]
    simp [h, hi, show i < 24 by omega]
  rcases Nat.lt_or_ge i 24 with h' | h'
  · rw [hbase (32 + (i - 16)) (by omega) (by omega), show 32 + (i - 16) - 16 = i by omega]
    simp [hi, show ¬i < 16 by omega, h', show i - 16 < 8 by omega, show i - 16 < 32 by omega]
  · rw [hhigh (56 + (i - 24)) (by omega) (by omega), show 56 + (i - 24) - 32 = i by omega]
    simp [hi, show ¬i < 16 by omega, show ¬i < 24 by omega, show ¬i - 16 < 8 by omega,
      show i - 24 < 8 by omega, show i - 24 < 32 by omega]

theorem entryReads_entryOf : EntryReads (entryOf x.value) x where
  limit := x.limit_entryOf
  vma := x.vma_entryOf
  ac := x.getLsbD_value (by decide)
  rw := x.getLsbD_value (by decide)
  dc := x.getLsbD_value (by decide)
  ex := x.getLsbD_value (by decide)
  s := x.getLsbD_value (by decide)
  privilege := by
    apply BitVec.eq_of_getLsbD_eq
    intro i hi
    rw [entryOf, BitVec.getLsbD_extractLsb', BitVec.getLsbD_extractLsb',
      x.getLsbD_value (by omega)]
    simp only [show ¬45 + i < 16 by omega, show ¬45 + i < 40 by omega, show ¬45 + i < 44 by omega,
      show 45 + i < 48 by omega, if_false, if_true, show 45 + i - 32 = 13 + i by omega]
  present := x.getLsbD_value (by decide)
  available := x.getLsbD_value (by decide)
  long := x.getLsbD_value (by decide)
  size := x.getLsbD_value (by decide)
  granularity := x.getLsbD_value (by decide)

end Segment

section Inj

variable {e : GdtEntry} {x y : Segment} (hx : EntryReads e x) (hy : EntryReads e y)

include hx hy

theorem EntryReads.type_eq : x.type = y.type := by
  apply BitVec.eq_of_getLsbD_eq
  intro i hi
  by_cases h : i < 8 ∨ 12 ≤ i
  · rw [x.getLsbD_type h, y.getLsbD_type h]
  · have hi' : i = 8 ∨ i = 9 ∨ i = 10 ∨ i = 11 := by omega
    rcases hi' with rfl | rfl | rfl | rfl
    · exact hx.ac.symm.trans hy.ac
    · exact hx.rw.symm.trans hy.rw
    · exact hx.dc.symm.trans hy.dc
    · exact hx.ex.symm.trans hy.ex

theorem EntryReads.flags_eq : x.flags = y.flags := by
  have hprivilege : x.flags.extractLsb' 13 2 = y.flags.extractLsb' 13 2 :=
    hx.privilege.symm.trans hy.privilege
  have hdpl : ∀ i < 2, x.flags.getLsbD (13 + i) = y.flags.getLsbD (13 + i) := by
    intro i hi
    have hbit := congrArg (fun v => v.getLsbD i) hprivilege
    simpa only [BitVec.getLsbD_extractLsb', decide_eq_true hi, Bool.true_and] using hbit
  apply BitVec.eq_of_getLsbD_eq
  intro i hi
  by_cases h : i < 12 ∨ (16 ≤ i ∧ i < 20) ∨ 24 ≤ i
  · rw [x.getLsbD_flags h, y.getLsbD_flags h]
  · have hi' : i = 12 ∨ i = 13 ∨ i = 14 ∨ i = 15 ∨ i = 20 ∨ i = 21 ∨ i = 22 ∨ i = 23 := by omega
    rcases hi' with rfl | rfl | rfl | rfl | rfl | rfl | rfl | rfl
    · exact hx.s.symm.trans hy.s
    · exact hdpl 0 (by decide)
    · exact hdpl 1 (by decide)
    · exact hx.present.symm.trans hy.present
    · exact hx.available.symm.trans hy.available
    · exact hx.long.symm.trans hy.long
    · exact hx.size.symm.trans hy.size
    · exact hx.granularity.symm.trans hy.granularity

/-- The fields tell segments apart. -/
theorem EntryReads.inj : x = y := by
  have hlimit := hx.limit.symm.trans hy.limit
  have hbase := add_right_cancel (hx.vma.symm.trans hy.vma)
  exact Segment.ext hlimit hbase (hx.type_eq hy) (hx.flags_eq hy)

end Inj

/-- A descriptor reads as the segment it has been made for, and descriptors that have been made for
different segments differ. -/
theorem gdtSetGate_roundTrip (m : Mem) (entry : Word) :
    (∀ x : Segment, EntryReads (gdtEntryAt (x.written m entry) entry) x) ∧
      Function.Injective fun x : Segment => (x.written m entry).read64 entry := by
  refine ⟨fun x => ?_, fun x y h => ?_⟩
  · rw [x.written_eq, gdtEntryAt_write64]
    exact x.entryReads_entryOf
  · simp only [Segment.written_eq, Mem.read64_write64_same] at h
    have hy := y.entryReads_entryOf
    rw [← h] at hy
    exact x.entryReads_entryOf.inj hy

end BasicX86Kernel.Gdt
