import BasicX86Kernel.Machine.Word

/-! The 32-bit address translation of an x86 processor with 4 MiB pages enabled: the walk over a
page directory and page tables, and the translation lookaside buffer.  The accessed and dirty bits
that a processor sets in the entries take no part in a translation and are left out. -/

namespace BasicX86Kernel.Machine

/-! ### Entries -/

section Entries

variable (e : Word)

def present : Bool := e.getLsbD 0

def writable : Bool := e.getLsbD 1

def user : Bool := e.getLsbD 2

/-- The page-size bit of a directory entry: the entry maps a 4 MiB page. -/
def large : Bool := e.getLsbD 7

/-- The 4 KiB frame or the page table of an entry. -/
def frame : Word := e &&& 0xFFFFF000#32

/-- The 4 MiB frame of a directory entry. -/
def largeFrame : Word := e &&& 0xFFC00000#32

end Entries

/-- The directory entry of a linear address. -/
def dirIndex (a : Word) : Word := a >>> 22

/-- The page-table entry of a linear address. -/
def tblIndex (a : Word) : Word := (a >>> 12) &&& 0x3FF#32

theorem toNat_dirIndex (a : Word) : (dirIndex a).toNat = a.toNat / 4194304 := by
  rw [dirIndex, BitVec.toNat_ushiftRight, Nat.shiftRight_eq_div_pow]

theorem toNat_tblIndex (a : Word) : (tblIndex a).toNat = a.toNat / 4096 % 1024 := by
  rw [tblIndex, toNat_and_0x3FF, BitVec.toNat_ushiftRight, Nat.shiftRight_eq_div_pow]

theorem dirIndex_lt (a : Word) : (dirIndex a).toNat < 1024 := by
  rw [toNat_dirIndex]; omega

theorem tblIndex_lt (a : Word) : (tblIndex a).toNat < 1024 := by
  rw [toNat_tblIndex]; omega

theorem toNat_frame (e : Word) : (frame e).toNat = e.toNat / 4096 * 4096 :=
  toNat_and_0xFFFFF000 e

theorem toNat_largeFrame (e : Word) : (largeFrame e).toNat = e.toNat / 4194304 * 4194304 :=
  toNat_and_0xFFC00000 e

/-- Two addresses lie in one 4 KiB page when both their indices agree. -/
theorem page_eq_iff (a b : Word) :
    a >>> 12 = b >>> 12 ↔ dirIndex a = dirIndex b ∧ tblIndex a = tblIndex b := by
  simp only [← BitVec.toNat_inj, toNat_dirIndex, toNat_tblIndex, BitVec.toNat_ushiftRight,
    Nat.shiftRight_eq_div_pow]
  omega

/-- An address with the given indices. -/
theorem exists_address {i j : Word} (hi : i.toNat < 1024) (hj : j.toNat < 1024) :
    ∃ a, dirIndex a = i ∧ tblIndex a = j := by
  have ha : (BitVec.ofNat 32 (i.toNat * 4194304 + j.toNat * 4096)).toNat =
      i.toNat * 4194304 + j.toNat * 4096 := by
    rw [BitVec.toNat_ofNat]
    exact Nat.mod_eq_of_lt (by omega)
  constructor
  constructor
  · apply BitVec.eq_of_toNat_eq
    rw [toNat_dirIndex, ha]
    omega
  · apply BitVec.eq_of_toNat_eq
    rw [toNat_tblIndex, ha]
    omega

/-- A frame with flags below 4096 or-ed in. -/
theorem frame_or {p f : Word} (hf : f.toNat < 4096) : frame (frame p ||| f) = frame p := by
  apply BitVec.eq_of_toNat_eq
  have hp := toNat_frame p
  rw [toNat_frame, toNat_or_low (k := 12) (by omega) hf, hp]
  omega

theorem toNat_frame_or_offset (p a : Word) :
    (frame p ||| (a &&& 0xFFF#32)).toNat = p.toNat / 4096 * 4096 + a.toNat % 4096 := by
  have ha := toNat_and_0xFFF a
  have hp := toNat_frame p
  rw [toNat_or_low (k := 12) (by omega) (by omega), hp, ha]

theorem toNat_largeFrame_or_offset (p a : Word) :
    (largeFrame p ||| (a &&& 0x3FFFFF#32)).toNat =
      p.toNat / 4194304 * 4194304 + a.toNat % 4194304 := by
  have ha := toNat_and_0x3FFFFF a
  have hp := toNat_largeFrame p
  rw [toNat_or_low (k := 22) (by omega) (by omega), hp, ha]

theorem frame_or_offset_inj {p q a : Word} :
    frame p ||| (a &&& 0xFFF#32) = frame q ||| (a &&& 0xFFF#32) ↔ frame p = frame q := by
  rw [← BitVec.toNat_inj, ← BitVec.toNat_inj, toNat_frame_or_offset, toNat_frame_or_offset,
    toNat_frame, toNat_frame, Nat.add_right_cancel_iff]

theorem largeFrame_or_offset_inj {p q a : Word} :
    largeFrame p ||| (a &&& 0x3FFFFF#32) = largeFrame q ||| (a &&& 0x3FFFFF#32) ↔
      largeFrame p = largeFrame q := by
  rw [← BitVec.toNat_inj, ← BitVec.toNat_inj, toNat_largeFrame_or_offset,
    toNat_largeFrame_or_offset, toNat_largeFrame, toNat_largeFrame, Nat.add_right_cancel_iff]

/-- A 4 KiB page is a page of a 4 MiB page when its frame is at the page's place in that one. -/
theorem frame_or_eq_largeFrame_or_iff {p q a : Word} :
    frame p ||| (a &&& 0xFFF#32) = largeFrame q ||| (a &&& 0x3FFFFF#32) ↔
      (frame p).toNat = (largeFrame q).toNat + 4096 * (tblIndex a).toNat := by
  rw [← BitVec.toNat_inj, toNat_frame_or_offset, toNat_largeFrame_or_offset, toNat_frame,
    toNat_largeFrame, toNat_tblIndex]
  have h : a.toNat % 4194304 = a.toNat % 4096 + 4096 * (a.toNat / 4096 % 1024) :=
    Nat.mod_mul (a := 4096) (b := 1024)
  rw [h, Nat.add_comm (a.toNat % 4096), ← Nat.add_assoc, Nat.add_right_cancel_iff]

theorem getLsbD_frame {p : Word} {i : Nat} (hi : i < 12) : (frame p).getLsbD i = false := by
  rw [frame, mask_0xFFFFF000]
  exact getLsbD_and_high p hi

theorem getLsbD_largeFrame {p : Word} {i : Nat} (hi : i < 22) :
    (largeFrame p).getLsbD i = false := by
  rw [largeFrame, mask_0xFFC00000]
  exact getLsbD_and_high p hi

/-! ### The walk -/

/-- What a walk finds: the physical address, and the rights that both levels grant. -/
structure Translation where
  phys : Word
  writable : Bool
  user : Bool
  deriving DecidableEq

/-- The walk of linear address `a` over the directory entries `dir`, where `tbl t j` is entry `j`
of the page table at physical address `t`. -/
def walk (dir : Word → Word) (tbl : Word → Word → Word) (a : Word) : Option Translation :=
  let pde := dir (dirIndex a)
  if present pde then
    if large pde then
      some ⟨largeFrame pde ||| (a &&& 0x3FFFFF#32), writable pde, user pde⟩
    else
      let pte := tbl (frame pde) (tblIndex a)
      if present pte then
        some ⟨frame pte ||| (a &&& 0xFFF#32), writable pde && writable pte, user pde && user pte⟩
      else none
  else none

section Walk

variable {dir dir' : Word → Word} {tbl tbl' : Word → Word → Word} {a : Word}

theorem walk_absent (h : present (dir (dirIndex a)) = false) : walk dir tbl a = none := by
  simp [walk, h]

theorem walk_large (h : present (dir (dirIndex a)) = true) (hl : large (dir (dirIndex a)) = true) :
    walk dir tbl a = some ⟨largeFrame (dir (dirIndex a)) ||| (a &&& 0x3FFFFF#32),
      writable (dir (dirIndex a)), user (dir (dirIndex a))⟩ := by
  simp [walk, h, hl]

theorem walk_small (h : present (dir (dirIndex a)) = true)
    (hl : large (dir (dirIndex a)) = false)
    (hp : present (tbl (frame (dir (dirIndex a))) (tblIndex a)) = true) :
    walk dir tbl a = some ⟨frame (tbl (frame (dir (dirIndex a))) (tblIndex a)) ||| (a &&& 0xFFF#32),
      writable (dir (dirIndex a)) && writable (tbl (frame (dir (dirIndex a))) (tblIndex a)),
      user (dir (dirIndex a)) && user (tbl (frame (dir (dirIndex a))) (tblIndex a))⟩ := by
  simp [walk, h, hl, hp]

theorem walk_small_absent (h : present (dir (dirIndex a)) = true)
    (hl : large (dir (dirIndex a)) = false)
    (hp : present (tbl (frame (dir (dirIndex a))) (tblIndex a)) = false) :
    walk dir tbl a = none := by
  simp [walk, h, hl, hp]

/-- A walk reads one directory entry and, when that entry references a table, one entry of it. -/
theorem walk_congr (hdir : dir' (dirIndex a) = dir (dirIndex a))
    (htbl : present (dir (dirIndex a)) = true → large (dir (dirIndex a)) = false →
      tbl' (frame (dir (dirIndex a))) (tblIndex a) = tbl (frame (dir (dirIndex a))) (tblIndex a)) :
    walk dir' tbl' a = walk dir tbl a := by
  simp only [walk, hdir]
  by_cases hp : present (dir (dirIndex a)) = true
  · by_cases hl : large (dir (dirIndex a)) = true
    · simp [hp, hl]
    · rw [htbl hp (by simpa using hl)]
  · simp [hp]

end Walk

end BasicX86Kernel.Machine
