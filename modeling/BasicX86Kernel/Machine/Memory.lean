import BasicX86Kernel.Machine.Word

/-! A flat, byte-addressed, little-endian memory of 32-bit addresses; ranges of bytes in it; and
page-aligned tables of 1024 words, which a processor and a program both read and write. -/

namespace BasicX86Kernel.Machine

/-- A memory: a byte at every address. -/
@[ext] structure Mem where
  byte : Word → Byte

namespace Mem

def write8 (m : Mem) (a : Word) (v : Byte) : Mem := ⟨Function.update m.byte a v⟩

def read16 (m : Mem) (a : Word) : BitVec 16 := m.byte (a + 1) ++ m.byte a

def write16 (m : Mem) (a : Word) (v : BitVec 16) : Mem :=
  (m.write8 a (v.extractLsb' 0 8)).write8 (a + 1) (v.extractLsb' 8 8)

def read32 (m : Mem) (a : Word) : Word :=
  m.byte (a + 3) ++ m.byte (a + 2) ++ m.byte (a + 1) ++ m.byte a

def write32 (m : Mem) (a : Word) (v : Word) : Mem :=
  (((m.write8 a (v.extractLsb' 0 8)).write8 (a + 1) (v.extractLsb' 8 8)).write8 (a + 2)
    (v.extractLsb' 16 8)).write8 (a + 3) (v.extractLsb' 24 8)

def read64 (m : Mem) (a : Word) : BitVec 64 := m.read32 (a + 4) ++ m.read32 a

def write64 (m : Mem) (a : Word) (v : BitVec 64) : Mem :=
  (m.write32 a (v.extractLsb' 0 32)).write32 (a + 4) (v.extractLsb' 32 32)

theorem byte_write8 (m : Mem) (a x : Word) (v : Byte) :
    (m.write8 a v).byte x = if x = a then v else m.byte x := by
  simp [write8, Function.update_apply]

@[simp] theorem byte_write8_same (m : Mem) (a : Word) (v : Byte) :
    (m.write8 a v).byte a = v := by
  simp [byte_write8]

theorem byte_write8_ne {m : Mem} {a x : Word} {v : Byte} (h : x ≠ a) :
    (m.write8 a v).byte x = m.byte x := by
  simp [byte_write8, h]

/-- A 16-bit store changes the two bytes at its address. -/
theorem byte_write16_ne {m : Mem} {a x : Word} {v : BitVec 16} (h : 2 ≤ (x - a).toNat) :
    (m.write16 a v).byte x = m.byte x := by
  rw [write16, byte_write8_ne (by bv_omega), byte_write8_ne (by bv_omega)]

@[simp] theorem byte_write16_same (m : Mem) (a : Word) (v : BitVec 16) :
    (m.write16 a v).byte a = v.extractLsb' 0 8 := by
  rw [write16, byte_write8_ne (by bv_omega), byte_write8_same]

@[simp] theorem read16_write16_same (m : Mem) (a : Word) (v : BitVec 16) :
    (m.write16 a v).read16 a = v := by
  rw [read16, byte_write16_same, write16, byte_write8_same,
    BitVec.extractLsb'_append_extractLsb'_eq_extractLsb' (by rfl)]
  simp

/-- A 32-bit store changes the four bytes at its address. -/
theorem byte_write32_ne {m : Mem} {a x v : Word} (h : 4 ≤ (x - a).toNat) :
    (m.write32 a v).byte x = m.byte x := by
  rw [write32, byte_write8_ne (by bv_omega), byte_write8_ne (by bv_omega),
    byte_write8_ne (by bv_omega), byte_write8_ne (by bv_omega)]

/-- Byte `i` of a stored word. -/
theorem byte_write32 (m : Mem) (a v : Word) {i : Nat} (hi : i < 4) :
    (m.write32 a v).byte (a + BitVec.ofNat 32 i) = v.extractLsb' (8 * i) 8 := by
  rw [write32]
  have hcases : i = 3 ∨ i = 2 ∨ i = 1 ∨ i = 0 := by omega
  rcases hcases with rfl | rfl | rfl | rfl
  · exact byte_write8_same _ _ _
  · exact (byte_write8_ne (by bv_omega)).trans (byte_write8_same _ _ _)
  · rw [byte_write8_ne (by bv_omega), byte_write8_ne (by bv_omega)]
    exact byte_write8_same _ _ _
  · rw [byte_write8_ne (by bv_omega), byte_write8_ne (by bv_omega), byte_write8_ne (by bv_omega),
      BitVec.add_zero]
    exact byte_write8_same _ _ _

/-- A word is its four bytes, the highest first. -/
theorem bytes_append (v : Word) :
    v.extractLsb' 24 8 ++ v.extractLsb' 16 8 ++ v.extractLsb' 8 8 ++ v.extractLsb' 0 8 = v := by
  rw [BitVec.extractLsb'_append_extractLsb'_eq_extractLsb' (by rfl),
    BitVec.extractLsb'_append_extractLsb'_eq_extractLsb' (by rfl),
    BitVec.extractLsb'_append_extractLsb'_eq_extractLsb' (by rfl)]
  simp

@[simp] theorem read32_write32_same (m : Mem) (a v : Word) : (m.write32 a v).read32 a = v := by
  simp only [read32, write32, byte_write8_same]
  rw [byte_write8_ne (x := a + 2) (by bv_omega), byte_write8_ne (x := a + 1) (by bv_omega),
    byte_write8_ne (x := a + 1) (by bv_omega), byte_write8_ne (x := a) (by bv_omega),
    byte_write8_ne (x := a) (by bv_omega), byte_write8_ne (x := a) (by bv_omega)]
  simp only [byte_write8_same]
  exact bytes_append v

/-- The bytes at `a`, `a + 1`, `a + 2` and `a + 3` make up the word at `a`. -/
theorem read32_congr {m m' : Mem} {a : Word}
    (h : ∀ x : Word, (x - a).toNat < 4 → m'.byte x = m.byte x) : m'.read32 a = m.read32 a := by
  simp only [read32]
  rw [h (a + 3) (by bv_omega), h (a + 2) (by bv_omega), h (a + 1) (by bv_omega),
    h a (by bv_omega)]

theorem read32_write32_ne {m : Mem} {a b v : Word} (ha : a.toNat % 4 = 0) (hb : b.toNat % 4 = 0)
    (h : b ≠ a) : (m.write32 a v).read32 b = m.read32 b :=
  read32_congr fun x hx => byte_write32_ne (by bv_omega)

theorem read32_write32_disjoint {m : Mem} {a b v : Word} (ha : a.toNat + 4 ≤ 2 ^ 32)
    (hb : b.toNat + 4 ≤ 2 ^ 32) (h : a.toNat + 4 ≤ b.toNat ∨ b.toNat + 4 ≤ a.toNat) :
    (m.write32 a v).read32 b = m.read32 b :=
  read32_congr fun x hx => byte_write32_ne (by bv_omega)

/-- A store to one word leaves the words that do not overlap it. -/
theorem read32_write32_far {m : Mem} {a b v : Word} (h : 4 ≤ (b - a).toNat)
    (h' : (b - a).toNat + 4 ≤ 2 ^ 32) : (m.write32 a v).read32 b = m.read32 b :=
  read32_congr fun x hx => byte_write32_ne (by bv_omega)

@[simp] theorem read64_write64_same (m : Mem) (a : Word) (v : BitVec 64) :
    (m.write64 a v).read64 a = v := by
  rw [read64, write64, read32_write32_same, read32_write32_far (by bv_omega) (by bv_omega),
    read32_write32_same, BitVec.extractLsb'_append_extractLsb'_eq_extractLsb' (by rfl)]
  simp

/-- Byte `i` of a stored 64-bit value. -/
theorem byte_write64 (m : Mem) (a : Word) (v : BitVec 64) {i : Nat} (hi : i < 8) :
    (m.write64 a v).byte (a + BitVec.ofNat 32 i) = v.extractLsb' (8 * i) 8 := by
  rw [write64]
  rcases Nat.lt_or_ge i 4 with h4 | h4
  · rw [byte_write32_ne (by bv_omega), byte_write32 _ _ _ h4,
      BitVec.extractLsb'_extractLsb'_of_le (by omega)]
  · have hadd : a + BitVec.ofNat 32 i = a + 4 + BitVec.ofNat 32 (i - 4) := by bv_omega
    rw [hadd, byte_write32 _ _ _ (by omega)]
    ext k hk
    simp [show 8 * (i - 4) + k < 32 by omega, show 32 + (8 * (i - 4) + k) = 8 * i + k by omega]

/-- Two neighbouring bytes of a stored 64-bit value. -/
theorem read16_write64 (m : Mem) (a : Word) (v : BitVec 64) {i : Nat} (hi : i < 7) :
    (m.write64 a v).read16 (a + BitVec.ofNat 32 i) = v.extractLsb' (8 * i) 16 := by
  have hnext : a + BitVec.ofNat 32 i + 1 = a + BitVec.ofNat 32 (i + 1) := by bv_omega
  rw [read16, hnext, byte_write64 _ _ _ (by omega), byte_write64 _ _ _ (by omega)]
  exact BitVec.extractLsb'_append_extractLsb'_eq_extractLsb' (by omega)

/-- Two words stored one after the other are a 64-bit store. -/
theorem write32_write32 (m : Mem) (a lo hi : Word) :
    (m.write32 a lo).write32 (a + 4) hi = m.write64 a (hi ++ lo) := by
  rw [write64, BitVec.extractLsb'_append_eq_right, BitVec.extractLsb'_append_eq_left]

/-- A 64-bit store leaves the words that do not overlap it. -/
theorem read32_write64_disjoint {m : Mem} {a b : Word} {v : BitVec 64} (ha : a.toNat + 8 ≤ 2 ^ 32)
    (hb : b.toNat + 4 ≤ 2 ^ 32) (h : a.toNat + 8 ≤ b.toNat ∨ b.toNat + 4 ≤ a.toNat) :
    (m.write64 a v).read32 b = m.read32 b := by
  have hadd : (a + 4).toNat = a.toNat + 4 := by bv_omega
  rw [write64, read32_write32_disjoint (by omega) hb (by omega),
    read32_write32_disjoint (by omega) hb (by omega)]

theorem read64_write32_disjoint {m : Mem} {a b v : Word} (ha : a.toNat + 4 ≤ 2 ^ 32)
    (hb : b.toNat + 8 ≤ 2 ^ 32) (h : a.toNat + 4 ≤ b.toNat ∨ b.toNat + 8 ≤ a.toNat) :
    (m.write32 a v).read64 b = m.read64 b := by
  have hadd : (b + 4).toNat = b.toNat + 4 := by bv_omega
  rw [read64, read32_write32_disjoint ha (by omega) (by omega),
    read32_write32_disjoint ha (by omega) (by omega), read64]

theorem read64_write64_disjoint {m : Mem} {a b : Word} {v : BitVec 64} (ha : a.toNat + 8 ≤ 2 ^ 32)
    (hb : b.toNat + 8 ≤ 2 ^ 32) (h : a.toNat + 8 ≤ b.toNat ∨ b.toNat + 8 ≤ a.toNat) :
    (m.write64 a v).read64 b = m.read64 b := by
  have hadd : (a + 4).toNat = a.toNat + 4 := by bv_omega
  rw [write64, read64_write32_disjoint (by omega) hb (by omega),
    read64_write32_disjoint (by omega) hb (by omega)]

theorem byte_write64_ne {m : Mem} {a x : Word} {v : BitVec 64} (h : 8 ≤ (x - a).toNat) :
    (m.write64 a v).byte x = m.byte x := by
  rw [write64, byte_write32_ne (by bv_omega), byte_write32_ne (by omega)]

theorem read64_congr {m m' : Mem} {a : Word}
    (h : ∀ x : Word, (x - a).toNat < 8 → m'.byte x = m.byte x) : m'.read64 a = m.read64 a := by
  have hhigh : m'.read32 (a + 4) = m.read32 (a + 4) := read32_congr fun x hx => h x (by bv_omega)
  have hlow : m'.read32 a = m.read32 a := read32_congr fun x hx => h x (by omega)
  rw [read64, read64, hhigh, hlow]

theorem read64_write64_far {m : Mem} {a b : Word} {v : BitVec 64} (h : 8 ≤ (b - a).toNat)
    (h' : (b - a).toNat + 8 ≤ 2 ^ 32) : (m.write64 a v).read64 b = m.read64 b :=
  read64_congr fun x hx => byte_write64_ne (by bv_omega)

theorem read32_of_zero {m : Mem} {a : Word} (h : ∀ x : Word, (x - a).toNat < 4 → m.byte x = 0) :
    m.read32 a = 0 := by
  simp only [read32]
  rw [h (a + 3) (by bv_omega), h (a + 2) (by bv_omega), h (a + 1) (by bv_omega),
    h a (by bv_omega)]
  rfl

theorem read64_of_zero {m : Mem} {a : Word} (h : ∀ x : Word, (x - a).toNat < 8 → m.byte x = 0) :
    m.read64 a = 0 := by
  rw [read64, read32_of_zero fun x hx => h x (by bv_omega),
    read32_of_zero fun x hx => h x (by omega)]
  rfl

theorem write8_byte (m : Mem) (a : Word) : m.write8 a (m.byte a) = m := by
  ext1
  exact Function.update_eq_self a m.byte

/-- Storing the word that is there already changes nothing. -/
theorem write32_read32 (m : Mem) (a : Word) : m.write32 a (m.read32 a) = m := by
  have h0 : (m.read32 a).extractLsb' 0 8 = m.byte a := BitVec.extractLsb'_append_eq_right
  have h1 : (m.read32 a).extractLsb' 8 8 = m.byte (a + 1) := by
    rw [read32, BitVec.extractLsb'_append_eq_of_le (by decide)]
    exact BitVec.extractLsb'_append_eq_right
  have h2 : (m.read32 a).extractLsb' 16 8 = m.byte (a + 2) := by
    rw [read32, BitVec.extractLsb'_append_eq_of_le (by decide),
      BitVec.extractLsb'_append_eq_of_le (by decide)]
    exact BitVec.extractLsb'_append_eq_right
  have h3 : (m.read32 a).extractLsb' 24 8 = m.byte (a + 3) := by
    rw [read32, BitVec.extractLsb'_append_eq_of_le (by decide),
      BitVec.extractLsb'_append_eq_of_le (by decide)]
    exact BitVec.extractLsb'_append_eq_left
  rw [write32, h0, h1, h2, h3, write8_byte, write8_byte, write8_byte, write8_byte]

/-! ### Tables -/

/-- Word `i` of the table at `base`. -/
def entry (m : Mem) (base i : Word) : Word := m.read32 (base + 4 * i)

def setEntry (m : Mem) (base i v : Word) : Mem := m.write32 (base + 4 * i) v

/-- The address of a 4 KiB page. -/
def PageAligned (a : Word) : Prop := a.toNat % 4096 = 0

instance (a : Word) : Decidable (PageAligned a) := inferInstanceAs (Decidable (_ = _))

theorem toNat_entry {base i : Word} (hb : PageAligned base) (hi : i.toNat < 1024) :
    (base + 4 * i).toNat = base.toNat + 4 * i.toNat := by
  unfold PageAligned at hb
  bv_omega

@[simp] theorem entry_setEntry_same (m : Mem) (base i v : Word) :
    (m.setEntry base i v).entry base i = v :=
  read32_write32_same m _ v

/-- A store to one word of a table leaves the other words of that table, and of every other
table, as they were. -/
theorem entry_setEntry_ne {m : Mem} {base base' i j v : Word} (hb : PageAligned base)
    (hb' : PageAligned base') (hi : i.toNat < 1024) (hj : j.toNat < 1024)
    (h : base' ≠ base ∨ j ≠ i) : (m.setEntry base i v).entry base' j = m.entry base' j := by
  have h1 := toNat_entry hb hi
  have h2 := toNat_entry hb' hj
  unfold PageAligned at hb hb'
  refine read32_write32_ne (by omega) (by omega) fun heq => ?_
  have := congrArg BitVec.toNat heq
  rcases h with h | h
  · exact h (by apply BitVec.eq_of_toNat_eq; omega)
  · exact h (by apply BitVec.eq_of_toNat_eq; omega)

theorem setEntry_entry (m : Mem) (base i : Word) : m.setEntry base i (m.entry base i) = m :=
  write32_read32 m _

/-- A store to one word of a table changes no byte outside the table's page. -/
theorem byte_setEntry_ne {m : Mem} {base i v x : Word} (hb : PageAligned base)
    (hi : i.toNat < 1024) (h : 4096 ≤ (x - base).toNat) :
    (m.setEntry base i v).byte x = m.byte x := by
  have := toNat_entry hb hi
  exact byte_write32_ne (by bv_omega)

theorem entry_congr {m m' : Mem} {base i : Word} (hb : PageAligned base) (hi : i.toNat < 1024)
    (h : ∀ x : Word, (x - base).toNat < 4096 → m'.byte x = m.byte x) :
    m'.entry base i = m.entry base i := by
  have := toNat_entry hb hi
  exact read32_congr fun x hx => h x (by bv_omega)

end Mem

end BasicX86Kernel.Machine
