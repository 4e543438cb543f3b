import BasicX86Kernel.System
import BasicX86Kernel.Klib.Mem

/-! `console_putc` of `ksrc/printk.c`, and what each of its parts does to the cells of the screen. -/

namespace BasicX86Kernel

open Machine

/-- What the BIOS data area says about the screen; `numberOfRows` is one less than the rows. -/
structure Geometry where
  numberOfColumns : BitVec 16
  numberOfRows : BitVec 8

namespace Geometry

variable (g : Geometry)

def columns : Word := g.numberOfColumns.setWidth 32

/-- The last row. -/
def lastRow : Word := g.numberOfRows.setWidth 32

end Geometry

/-- The text mode of 80 columns and 25 rows. -/
def vgaText : Geometry := ⟨80, 24⟩

/-- The number of cells of the video window, from 0xB8000 to 0xBFFFF. -/
def videoCells : Nat := 0x4000

/-- The screen fits into the video window, with as many rows again behind it. -/
structure Geometry.Fits (g : Geometry) : Prop where
  columns_pos : 1 ≤ g.columns.toNat
  cells : 2 * ((g.lastRow.toNat + 1) * g.columns.toNat) ≤ videoCells

/-- The video memory, which is a memory of its own, and the static variables of `console_putc`. -/
structure Console where
  video : Mem
  column : Word
  row : Word

def videoBase : Word := 0xB8000#32 + kernelConfigVma

/-- The address of `video[i]`. -/
def videoAddr (i : Word) : Word := videoBase + 2 * i

namespace Console

variable (g : Geometry) (k : Console)

/-- Last column: start a new row. -/
def wrap : Console :=
  if k.column ≥ g.columns then { k with column := 0, row := k.row + 1 } else k

/-- Behind the last row: scroll up. -/
def scroll : Console :=
  if k.row ≥ g.lastRow + 1 then
    { video := Klib.memcpy k.video (videoAddr 0) (videoAddr (1 * g.columns))
        ((k.row * g.columns + k.column) * 2)
      row := g.lastRow
      column := 0 }
  else k

def newline : Console := { k with column := 0, row := k.row + 1 }

/-- Clear old garbage when the row is new. -/
def clear : Console :=
  if k.column = 0 then
    { k with
      video := Klib.memset k.video (videoAddr (k.row * g.columns)) 0 (k.row * g.columns * 2) }
  else k

/-- The store of `0xF100|c`, where `c` is a signed character. -/
def store (c : Byte) : Console :=
  { k with
    video := k.video.write16 (videoAddr (k.row * g.columns + k.column))
      (0xF100#16 ||| c.signExtend 16) }

def nextColumn : Console := { k with column := k.column + 1 }

/-- The state in which `console_putc` stores its character. -/
def atStore : Console := ((k.wrap g).scroll g).clear g

end Console

def consolePutc (g : Geometry) (k : Console) (c : Byte) : Console :=
  if c = 0x0A#8 then ((k.wrap g).scroll g).newline
  else ((k.atStore g).store g c).nextColumn

/-- The low byte of the cell with index `i`. -/
def cellAt (video : Mem) (i : Nat) : Byte := video.byte (videoAddr (BitVec.ofNat 32 i))

/-- The character at row `r` and column `j`. -/
def Console.cell (g : Geometry) (k : Console) (r j : Nat) : Byte :=
  cellAt k.video (r * g.columns.toNat + j)

/-! ### Indices of cells -/

theorem toNat_videoAddr {i : Word} (hi : i.toNat < 0x10000000) :
    (videoAddr i).toNat = 0xC00B8000 + 2 * i.toNat := by
  have hbase : videoBase.toNat = 0xC00B8000 := rfl
  unfold videoAddr
  bv_omega

namespace Geometry

variable {g : Geometry}

theorem toNat_columns (g : Geometry) : g.columns.toNat = g.numberOfColumns.toNat := by
  rw [columns, BitVec.toNat_setWidth]
  omega

theorem toNat_lastRow_lt (g : Geometry) : g.lastRow.toNat < 256 := by
  rw [lastRow, BitVec.toNat_setWidth]
  omega

theorem toNat_lastRow_succ (g : Geometry) : (g.lastRow + 1).toNat = g.lastRow.toNat + 1 := by
  have := g.toNat_lastRow_lt
  bv_omega

theorem columns_le (g : Geometry) : g.columns.toNat ≤ 65535 := by
  have := g.numberOfColumns.isLt
  rw [toNat_columns]
  omega

/-- The first cell of a row up to some rows behind the screen. -/
theorem row_le {r : Nat} (hr : r ≤ g.lastRow.toNat + 3) :
    r * g.columns.toNat ≤ 259 * 65535 := by
  have := g.toNat_lastRow_lt
  exact Nat.mul_le_mul (by omega) g.columns_le

/-- The product that the code computes for the first cell of a row does not wrap around. -/
theorem toNat_row (g : Geometry) (row : Word) (hr : row.toNat ≤ g.lastRow.toNat + 3) :
    (row * g.columns).toNat = row.toNat * g.columns.toNat := by
  have := row_le hr
  rw [BitVec.toNat_mul, Nat.mod_eq_of_lt (by omega)]

/-- A cell of an earlier row has a smaller index than the first cell of a later row. -/
theorem cell_lt_row {r r' j : Nat} (hr : r < r') (hj : j < g.columns.toNat) :
    r * g.columns.toNat + j < r' * g.columns.toNat := by
  calc r * g.columns.toNat + j < (r + 1) * g.columns.toNat := by
        rw [Nat.add_mul, Nat.one_mul]
        omega
    _ ≤ r' * g.columns.toNat := Nat.mul_le_mul_right _ hr

end Geometry

/-! ### The video memory after the parts of the function -/

/-- The byte at an offset from the first cell. -/
def videoByte (m : Mem) (o : Nat) : Byte := m.byte (videoBase + BitVec.ofNat 32 o)

theorem cellAt_eq (m : Mem) (i : Nat) : cellAt m i = videoByte m (2 * i) := by
  rw [cellAt, videoAddr, videoByte, BitVec.ofNat_mul]
  rfl

section Bytes

variable {m : Mem} {o : Nat}

theorem toNat_two_mul {p : Word} (hp : p.toNat < 2 ^ 26) : (2 * p).toNat = 2 * p.toNat := by
  bv_omega

/-- The distance of a byte from a cell. -/
theorem toNat_offset_sub {p : Word} (hp : p.toNat < 2 ^ 26) (ho : o < 2 ^ 32) :
    (videoBase + BitVec.ofNat 32 o - videoAddr p).toNat =
      if 2 * p.toNat ≤ o then o - 2 * p.toNat else 2 ^ 32 + o - 2 * p.toNat := by
  rw [videoAddr, add_sub_add_left_eq_sub, BitVec.toNat_sub, toNat_two_mul hp, BitVec.toNat_ofNat]
  split <;> omega

theorem videoByte_memcpy {c n : Word} (hc : c.toNat < 2 ^ 26) (hn : n.toNat < 2 ^ 26)
    (ho : o < 2 ^ 32) :
    videoByte (Klib.memcpy m (videoAddr 0) (videoAddr c) (n * 2)) o =
      if o < 2 * n.toNat then videoByte m (o + 2 * c.toNat) else videoByte m o := by
  have hdst : (videoAddr 0).toNat = 0xC00B8000 := toNat_videoAddr (by decide)
  have hsrc := toNat_videoAddr (i := c) (by omega)
  have hbytes : (n * 2).toNat = 2 * n.toNat := by
    rw [BitVec.mul_comm]
    exact toNat_two_mul hn
  have hoff : (videoBase + BitVec.ofNat 32 o - videoAddr 0).toNat = o :=
    (toNat_offset_sub (by decide) ho).trans (if_pos (Nat.zero_le o))
  have haddr : videoAddr c + (videoBase + BitVec.ofNat 32 o - videoAddr 0)
      = videoBase + BitVec.ofNat 32 (o + 2 * c.toNat) := by
    have hzero : videoAddr 0 = videoBase := rfl
    rw [hzero, add_sub_cancel_left, videoAddr, BitVec.add_assoc, BitVec.ofNat_add,
      ← toNat_two_mul hc, BitVec.ofNat_toNat, BitVec.setWidth_eq,
      BitVec.add_comm (BitVec.ofNat 32 o)]
  rw [videoByte, Klib.byte_memcpy _ (by omega) (by omega), hbytes, hoff, haddr]
  rfl

theorem videoByte_memset {p n : Word} (hp : p.toNat < 2 ^ 26) (hn : n.toNat < 2 ^ 26)
    (ho : o < 2 ^ 32) :
    videoByte (Klib.memset m (videoAddr p) 0 (n * 2)) o =
      if 2 * p.toNat ≤ o ∧ o < 2 * (p.toNat + n.toNat) then 0 else videoByte m o := by
  have hoff := toNat_offset_sub hp ho
  have hbytes : (n * 2).toNat = 2 * n.toNat := by
    rw [BitVec.mul_comm]
    exact toNat_two_mul hn
  rw [videoByte, Klib.byte_memset, hbytes, hoff]
  by_cases hin : 2 * p.toNat ≤ o ∧ o < 2 * (p.toNat + n.toNat)
  · rw [if_pos hin.1, if_pos (by omega), if_pos hin]
    rfl
  · rw [if_neg hin, videoByte, if_neg]
    split <;> omega

/-- The store of a cell leaves the bytes outside it as they are. -/
theorem videoByte_write16_ne {p : Word} {v : BitVec 16} (hp : p.toNat < 2 ^ 26) (ho : o < 2 ^ 32)
    (hne : o < 2 * p.toNat ∨ 2 * p.toNat + 2 ≤ o) :
    videoByte (m.write16 (videoAddr p) v) o = videoByte m o := by
  have hoff := toNat_offset_sub hp ho
  apply Mem.byte_write16_ne
  rw [hoff]
  split <;> omega

theorem videoByte_write16_same {p : Word} {v : BitVec 16} (hp : p.toNat < 2 ^ 26) :
    videoByte (m.write16 (videoAddr p) v) (2 * p.toNat) = v.extractLsb' 0 8 := by
  have haddr : videoBase + BitVec.ofNat 32 (2 * p.toNat) = videoAddr p := by
    rw [← toNat_two_mul hp, BitVec.ofNat_toNat, BitVec.setWidth_eq, videoAddr]
  rw [videoByte, haddr, Mem.byte_write16_same]

end Bytes

/-! ### Cells after the parts of the function -/

section Cells

variable {m : Mem} {i : Nat}

theorem cellAt_memcpy {c n : Word} (hc : c.toNat < 2 ^ 26) (hn : n.toNat < 2 ^ 26)
    (hi : i < 2 ^ 26) :
    cellAt (Klib.memcpy m (videoAddr 0) (videoAddr c) (n * 2)) i =
      if i < n.toNat then cellAt m (i + c.toNat) else cellAt m i := by
  rw [cellAt_eq, videoByte_memcpy hc hn (by omega), cellAt_eq, cellAt_eq, Nat.mul_add]
  simp only [Nat.mul_lt_mul_left (show 0 < 2 by omega)]

theorem cellAt_memset {p n : Word} (hp : p.toNat < 2 ^ 26) (hn : n.toNat < 2 ^ 26)
    (hi : i < 2 ^ 26) :
    cellAt (Klib.memset m (videoAddr p) 0 (n * 2)) i =
      if p.toNat ≤ i ∧ i < p.toNat + n.toNat then 0 else cellAt m i := by
  rw [cellAt_eq, videoByte_memset hp hn (by omega), cellAt_eq]
  simp only [Nat.mul_lt_mul_left, Nat.mul_le_mul_left_iff, show 0 < 2 by omega]

theorem cellAt_write16 {p : Word} {v : BitVec 16} (hp : p.toNat < 2 ^ 26) (hi : i < 2 ^ 26) :
    cellAt (m.write16 (videoAddr p) v) i =
      if i = p.toNat then v.extractLsb' 0 8 else cellAt m i := by
  rw [cellAt_eq]
  split
  · next hip => rw [hip, videoByte_write16_same hp]
  · next hip => rw [videoByte_write16_ne hp (by omega) (by omega), cellAt_eq]

/-- The low byte of what is stored for a character is the character. -/
theorem extractLsb_char (c : Byte) : (0xF100#16 ||| c.signExtend 16).extractLsb' 0 8 = c := by
  revert c
  decide

end Cells

end BasicX86Kernel
