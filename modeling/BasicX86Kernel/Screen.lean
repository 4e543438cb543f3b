import BasicX86Kernel.Console
import Mathlib.Data.List.GetD

/-! The text that has been printed, as a list of rows, and the screen that shows the end of it. -/

namespace BasicX86Kernel

open Machine

/-- A text: its rows before the last one, and the last row. -/
structure Text where
  done : List (List Byte)
  last : List Byte
  deriving DecidableEq

namespace Text

def empty : Text := ⟨[], []⟩

/-- The index of the last row. -/
def lastIndex (t : Text) : Nat := t.done.length

/-- Row `i`. -/
def row (t : Text) (i : Nat) : List Byte := (t.done ++ [t.last]).getD i []

def newRow (t : Text) : Text := ⟨t.done ++ [t.last], []⟩

/-- A row of `columns` characters ends before the next character. -/
def wrap (columns : Nat) (t : Text) : Text := if columns ≤ t.last.length then t.newRow else t

def put (columns : Nat) (t : Text) (c : Byte) : Text :=
  if c = 0x0A#8 then (t.wrap columns).newRow
  else ⟨(t.wrap columns).done, (t.wrap columns).last ++ [c]⟩

/-- The text of a string. -/
def ofBytes (columns : Nat) (s : List Byte) : Text := s.foldl (put columns) empty

theorem row_lastIndex (t : Text) : t.row t.lastIndex = t.last := by
  rw [row, lastIndex, List.getD_append_right _ _ _ _ le_rfl, Nat.sub_self]
  rfl

theorem row_of_lt {t : Text} {i : Nat} (h : i < t.lastIndex) : t.row i = t.done.getD i [] :=
  List.getD_append _ _ _ _ h

theorem row_newRow {t : Text} {i : Nat} (h : i ≤ t.lastIndex) : t.newRow.row i = t.row i := by
  rw [row, newRow, List.getD_append, row]
  rw [List.length_append, List.length_singleton]
  exact Nat.lt_succ_of_le h

@[simp] theorem lastIndex_newRow (t : Text) : t.newRow.lastIndex = t.lastIndex + 1 := by
  rw [lastIndex, newRow, List.length_append, List.length_singleton, lastIndex]

@[simp] theorem last_newRow (t : Text) : t.newRow.last = [] := rfl

end Text

/-- The screen shows the text: the cursor is behind its last character, and the rows of the screen
down to the cursor are the last rows of the text.  The cursor may be behind the last row of the
screen, on a row that is still empty. -/
structure Shows (g : Geometry) (k : Console) (t : Text) : Prop where
  column : k.column.toNat = t.last.length
  length_le : ∀ i, (t.row i).length ≤ g.columns.toNat
  row_le : k.row.toNat ≤ t.lastIndex
  row_le_succ : k.row.toNat ≤ g.lastRow.toNat + 1
  row_eq : k.row.toNat = t.lastIndex ∨ g.lastRow.toNat ≤ k.row.toNat
  pending : k.row.toNat = g.lastRow.toNat + 1 → t.last = []
  cells : ∀ r ≤ k.row.toNat, ∀ j, (h : j < (t.row (t.lastIndex - k.row.toNat + r)).length) →
    k.cell g r j = (t.row (t.lastIndex - k.row.toNat + r))[j]

namespace Shows

variable {g : Geometry} {k : Console} {t : Text}

theorem start (video : Mem) : Shows g ⟨video, 0, 0⟩ Text.empty where
  column := rfl
  length_le := fun i => by cases i <;> simp [Text.row, Text.empty]
  row_le := le_rfl
  row_le_succ := Nat.zero_le _
  row_eq := Or.inl rfl
  pending := fun _ => rfl
  cells := by
    intro r hr j h
    obtain rfl : r = 0 := Nat.le_zero.mp hr
    exact absurd h (Nat.not_lt_zero j)

/-- The last row of the text, when the cursor is on a row of the screen. -/
theorem row_eq_min (h : Shows g k t) (hrow : k.row.toNat ≤ g.lastRow.toNat) :
    k.row.toNat = min t.lastIndex g.lastRow.toNat := by
  have := h.row_le
  rcases h.row_eq with heq | hge <;> omega

/-- The start of a new row, on the screen and in the text. -/
theorem newline (h : Shows g k t) (hrow : k.row.toNat ≤ g.lastRow.toNat) :
    Shows g k.newline t.newRow := by
  have hsucc : k.newline.row.toNat = k.row.toNat + 1 := by
    have := g.toNat_lastRow_lt
    show (k.row + 1).toNat = _
    bv_omega
  have hle := h.row_le
  constructor
  · rfl
  · intro i
    rcases Nat.lt_or_ge t.lastIndex i with hi | hi
    · rw [Text.row, Text.newRow]
      rcases Nat.eq_or_lt_of_le (Nat.succ_le_of_lt hi) with rfl | hi'
      · simp [Text.lastIndex]
      · rw [List.getD_eq_default]
        · exact Nat.zero_le _
        · unfold Text.lastIndex at hi'
          simp
          omega
    · rw [Text.row_newRow hi]
      exact h.length_le i
  · rw [hsucc, Text.lastIndex_newRow]
    omega
  · rw [hsucc]
    omega
  · rw [hsucc, Text.lastIndex_newRow]
    rcases h.row_eq with heq | hge <;> omega
  · exact fun _ => rfl
  · rw [hsucc, Text.lastIndex_newRow, Nat.add_sub_add_right]
    intro r hr j hj
    rcases Nat.eq_or_lt_of_le hr with rfl | hlt
    · have hlast : t.lastIndex - k.row.toNat + (k.row.toNat + 1) = t.newRow.lastIndex := by
        rw [Text.lastIndex_newRow]
        omega
      simp only [hlast, Text.row_lastIndex] at hj
      exact absurd hj (Nat.not_lt_zero j)
    · have hold := Text.row_newRow (t := t) (i := t.lastIndex - k.row.toNat + r) (by omega)
      simp only [hold] at hj ⊢
      exact h.cells r (by omega) j hj

/-- The wrap keeps the text on the screen, and leaves a free column. -/
theorem wrap (h : Shows g k t) (hC : 1 ≤ g.columns.toNat) :
    Shows g (k.wrap g) (t.wrap g.columns.toNat) ∧ (t.wrap g.columns.toNat).last.length < g.columns.toNat := by
  have hcol := h.column
  rw [Console.wrap, Text.wrap]
  by_cases hfull : g.columns.toNat ≤ t.last.length
  · rw [if_pos (by rwa [ge_iff_le, BitVec.le_def, hcol]), if_pos hfull]
    refine ⟨h.newline ?_, hC⟩
    have hle := h.row_le_succ
    have hne : k.row.toNat ≠ g.lastRow.toNat + 1 := by
      intro heq
      rw [h.pending heq, List.length_nil] at hfull
      omega
    omega
  · rw [if_neg (by rwa [ge_iff_le, BitVec.le_def, hcol]), if_neg hfull]
    exact ⟨h, Nat.not_le.mp hfull⟩

/-- The scroll keeps the text on the screen, and brings the cursor back to it. -/
theorem scroll (h : Shows g k t) :
    Shows g (k.scroll g) t ∧ (k.scroll g).row.toNat ≤ g.lastRow.toNat := by
  have hle := h.row_le_succ
  have hsucc := g.toNat_lastRow_succ
  rw [Console.scroll]
  by_cases hpending : k.row ≥ g.lastRow + 1
  · rw [if_pos hpending]
    have hrow : k.row.toNat = g.lastRow.toNat + 1 := by
      have : g.lastRow.toNat + 1 ≤ k.row.toNat := hsucc ▸ hpending
      omega
    have hlast := h.pending hrow
    have hcol : k.column = 0 := by
      apply BitVec.eq_of_toNat_eq
      rw [h.column, hlast]
      rfl
    have hindex := h.row_le
    refine ⟨⟨by rw [hlast]; rfl, h.length_le, ?_, ?_, ?_, ?_, ?_⟩, le_rfl⟩
    · show g.lastRow.toNat ≤ _
      omega
    · show g.lastRow.toNat ≤ _
      omega
    · exact Or.inr le_rfl
    · exact fun _ => hlast
    · show ∀ r ≤ g.lastRow.toNat, _
      intro r hr j hj
      have hcells := h.cells
      rw [hrow] at hcells
      have hidx : t.lastIndex - g.lastRow.toNat + r =
          t.lastIndex - (g.lastRow.toNat + 1) + (r + 1) := by omega
      simp only [hidx] at hj ⊢
      rw [← hcells (r + 1) (by omega) j hj]
      have hj' : j < g.columns.toNat := hj.trans_le (h.length_le _)
      have hn := Geometry.toNat_row g k.row (by omega)
      have hbound := Geometry.row_le (g := g) (r := k.row.toNat) (by omega)
      have hcell := Geometry.cell_lt_row (show r < k.row.toNat by omega) hj'
      have hcols := g.columns_le
      unfold Console.cell
      simp only [hcol, add_zero, one_mul]
      rw [cellAt_memcpy (by omega) (by omega) (by omega), if_pos (by omega)]
      congr 1
      rw [Nat.add_mul, Nat.one_mul]
      omega
  · rw [if_neg hpending]
    have hlt : k.row.toNat < g.lastRow.toNat + 1 := by
      rw [← hsucc]
      exact Nat.not_le.mp hpending
    exact ⟨h, by omega⟩

/-- The clearing of a new row keeps the text on the screen. -/
theorem clear (h : Shows g k t) (hrow : k.row.toNat ≤ g.lastRow.toNat) :
    Shows g (k.clear g) t := by
  rw [Console.clear]
  split
  · next hcol =>
    have hlast : t.last = [] := by
      have hlen := h.column
      rw [hcol] at hlen
      exact List.length_eq_zero_iff.mp hlen.symm
    refine ⟨h.column, h.length_le, h.row_le, h.row_le_succ, h.row_eq, h.pending, ?_⟩
    intro r hr j hj
    rw [← h.cells r hr j hj]
    have hr' : r < k.row.toNat := by
      refine Nat.lt_of_le_of_ne hr fun heq => ?_
      have hidx : t.lastIndex - k.row.toNat + r = t.lastIndex := by
        have := h.row_le
        omega
      simp only [hidx, Text.row_lastIndex, hlast] at hj
      exact absurd hj (Nat.not_lt_zero j)
    have hn := Geometry.toNat_row g k.row (by omega)
    have hbound := Geometry.row_le (g := g) (r := k.row.toNat) (by omega)
    have hcell := Geometry.cell_lt_row hr' (hj.trans_le (h.length_le _))
    unfold Console.cell
    dsimp only
    rw [cellAt_memset (by omega) (by omega) (by omega), if_neg (by omega)]
  · exact h

/-- The store of a character at the cursor, and the step of the cursor behind it. -/
theorem store (h : Shows g k t) (hrow : k.row.toNat ≤ g.lastRow.toNat)
    (hlen : t.last.length < g.columns.toNat) (c : Byte) :
    Shows g (k.store g c).nextColumn ⟨t.done, t.last ++ [c]⟩ := by
  have hcolumn := h.column
  have hrowle := h.row_le
  have hold : ∀ i ≠ t.lastIndex, Text.row ⟨t.done, t.last ++ [c]⟩ i = t.row i := by
    intro i hi
    rcases Nat.lt_or_gt_of_ne hi with hlt | hgt
    · exact (Text.row_of_lt (t := ⟨t.done, t.last ++ [c]⟩) hlt).trans (Text.row_of_lt hlt).symm
    · unfold Text.lastIndex at hgt
      rw [Text.row, List.getD_eq_default _ _ (by simp; omega), Text.row,
        List.getD_eq_default _ _ (by simp; omega)]
  have hnew : Text.row ⟨t.done, t.last ++ [c]⟩ t.lastIndex = t.last ++ [c] :=
    Text.row_lastIndex ⟨t.done, t.last ++ [c]⟩
  have hcols := g.columns_le
  have hstep : (k.column + 1).toNat = k.column.toNat + 1 := by
    bv_omega
  have hn := Geometry.toNat_row g k.row (by omega)
  have hbound := Geometry.row_le (g := g) (r := k.row.toNat + 1) (by omega)
  have hpos : (k.row * g.columns + k.column).toNat = k.row.toNat * g.columns.toNat + t.last.length := by
    rw [Nat.add_mul, Nat.one_mul] at hbound
    rw [BitVec.toNat_add, hn, hcolumn, Nat.mod_eq_of_lt (by omega)]
  have hcell : ∀ r ≤ k.row.toNat, ∀ j < g.columns.toNat,
      (k.store g c).nextColumn.cell g r j =
        if r * g.columns.toNat + j = k.row.toNat * g.columns.toNat + t.last.length then c
        else k.cell g r j := by
    intro r hr j hj
    have hlt := Geometry.cell_lt_row (show r < k.row.toNat + 1 by omega) hj
    rw [Nat.add_mul, Nat.one_mul] at hlt hbound
    show cellAt (k.video.write16 _ _) _ = _
    rw [cellAt_write16 (by omega) (by omega), hpos, extractLsb_char]
    rfl
  refine ⟨?_, ?_, hrowle, h.row_le_succ, h.row_eq, ?_, ?_⟩
  · show (k.column + 1).toNat = (t.last ++ [c]).length
    rw [hstep, hcolumn, List.length_append, List.length_singleton]
  · intro i
    by_cases hi : i = t.lastIndex
    · rw [hi, hnew, List.length_append, List.length_singleton]
      exact hlen
    · rw [hold i hi]
      exact h.length_le i
  · intro hpending
    exact absurd hpending (by show ¬k.row.toNat = _; omega)
  · show ∀ r ≤ k.row.toNat, ∀ j, (hj : j < (Text.row ⟨t.done, t.last ++ [c]⟩
      (t.lastIndex - k.row.toNat + r)).length) → _
    intro r hr j hj
    show _ = (Text.row ⟨t.done, t.last ++ [c]⟩ (t.lastIndex - k.row.toNat + r))[j]
    by_cases hlast : r = k.row.toNat
    · subst hlast
      have hidx : t.lastIndex - k.row.toNat + k.row.toNat = t.lastIndex := by omega
      simp only [hidx, hnew] at hj ⊢
      rw [List.length_append, List.length_singleton] at hj
      rw [hcell _ le_rfl j (by omega)]
      by_cases hj' : j = t.last.length
      · subst hj'
        rw [if_pos rfl, List.getElem_concat_length]
        rfl
      · have hlt : j < t.last.length := by omega
        have hshow := h.cells k.row.toNat le_rfl j (by rwa [hidx, Text.row_lastIndex])
        simp only [hidx, Text.row_lastIndex] at hshow
        rw [if_neg (by omega), hshow, List.getElem_append_left hlt]
    · have hidx : t.lastIndex - k.row.toNat + r ≠ t.lastIndex := by omega
      simp only [hold _ hidx] at hj ⊢
      have hlt := Geometry.cell_lt_row (show r < k.row.toNat by omega)
        (hj.trans_le (h.length_le _))
      rw [hcell r hr j (hj.trans_le (h.length_le _)), if_neg (by omega)]
      exact h.cells r hr j hj

/-- Up to the store of a character, the text stays on the screen and its last row gets room. -/
theorem scroll_wrap (h : Shows g k t) (hC : 1 ≤ g.columns.toNat) :
    Shows g ((k.wrap g).scroll g) (t.wrap g.columns.toNat) ∧
      ((k.wrap g).scroll g).row.toNat ≤ g.lastRow.toNat ∧
      (t.wrap g.columns.toNat).last.length < g.columns.toNat := by
  obtain ⟨hwrap, hlen⟩ := h.wrap hC
  obtain ⟨hscroll, hrow⟩ := hwrap.scroll
  exact ⟨hscroll, hrow, hlen⟩

theorem atStore (h : Shows g k t) (hC : 1 ≤ g.columns.toNat) :
    Shows g (k.atStore g) (t.wrap g.columns.toNat) ∧
      (k.atStore g).row.toNat ≤ g.lastRow.toNat ∧
      (k.atStore g).column.toNat < g.columns.toNat := by
  obtain ⟨hscroll, hrow, hlen⟩ := h.scroll_wrap hC
  have hclear := hscroll.clear hrow
  have hsame : (k.atStore g).row = ((k.wrap g).scroll g).row := by
    rw [Console.atStore, Console.clear]
    split <;> rfl
  refine ⟨hclear, hsame ▸ hrow, ?_⟩
  rw [Console.atStore, hclear.column]
  exact hlen

theorem put (h : Shows g k t) (hC : 1 ≤ g.columns.toNat) (c : Byte) :
    Shows g (consolePutc g k c) (t.put g.columns.toNat c) := by
  rw [consolePutc, Text.put]
  split
  · obtain ⟨hscroll, hrow, -⟩ := h.scroll_wrap hC
    exact hscroll.newline hrow
  · obtain ⟨hstore, hrow, hcolumn⟩ := h.atStore hC
    exact hstore.store hrow (hstore.column ▸ hcolumn) c

/-- The cursor is on the screen after a character. -/
theorem row_le_put (h : Shows g k t) (hC : 1 ≤ g.columns.toNat) {c : Byte} (hc : c ≠ 0x0A#8) :
    (consolePutc g k c).row.toNat ≤ g.lastRow.toNat := by
  rw [consolePutc, if_neg hc]
  exact (h.atStore hC).2.1

theorem column_le (h : Shows g k t) : k.column.toNat ≤ g.columns.toNat := by
  rw [h.column, ← t.row_lastIndex]
  exact h.length_le _

theorem foldl (h : Shows g k t) (hC : 1 ≤ g.columns.toNat) (s : List Byte) :
    Shows g (s.foldl (consolePutc g) k) (s.foldl (Text.put g.columns.toNat) t) := by
  induction s generalizing k t with
  | nil => exact h
  | cons c s ih => exact ih (h.put hC c)

end Shows

/-- Whatever has been printed, the cursor stays in its range, a character is stored into a cell of
the screen, and then the rows of the screen down to the cursor are the last rows of the text. -/
theorem console_keeps_text (g : Geometry) (hg : g.Fits) (video : Mem) (s : List Byte) :
    let k := s.foldl (consolePutc g) ⟨video, 0, 0⟩
    k.row.toNat ≤ g.lastRow.toNat + 1 ∧ k.column.toNat ≤ g.columns.toNat ∧
      ∀ c : Byte, c ≠ 0x0A#8 →
        let k' := consolePutc g k c
        let t' := Text.ofBytes g.columns.toNat (s ++ [c])
        (k.atStore g).row.toNat ≤ g.lastRow.toNat ∧
          (k.atStore g).column.toNat < g.columns.toNat ∧
          k'.row.toNat = min t'.lastIndex g.lastRow.toNat ∧
          ∀ r ≤ k'.row.toNat, ∀ j, (h : j < (t'.row (t'.lastIndex - k'.row.toNat + r)).length) →
            k'.cell g r j = (t'.row (t'.lastIndex - k'.row.toNat + r))[j] := by
  intro k
  have hshows : Shows g k (Text.ofBytes g.columns.toNat s) := (Shows.start video).foldl hg.columns_pos s
  refine ⟨hshows.row_le_succ, hshows.column_le, fun c hc => ?_⟩
  have htext : Text.ofBytes g.columns.toNat (s ++ [c]) =
      (Text.ofBytes g.columns.toNat s).put g.columns.toNat c := by
    rw [Text.ofBytes, Text.ofBytes, List.foldl_append]
    rfl
  intro k' t'
  have hshows' : Shows g k' t' := by
    show Shows g _ (Text.ofBytes _ _)
    rw [htext]
    exact hshows.put hg.columns_pos c
  obtain ⟨-, hrow, hcolumn⟩ := hshows.atStore hg.columns_pos
  exact ⟨hrow, hcolumn, hshows'.row_eq_min (hshows.row_le_put hg.columns_pos hc), hshows'.cells⟩

theorem console_keeps_text_vga : vgaText.Fits ∧ ∀ video : Mem,
    ([0x41#8, 0x42#8].foldl (consolePutc vgaText) ⟨video, 0, 0⟩).cell vgaText 0 1 = 0x42#8 := by
  have hfits : vgaText.Fits := ⟨by decide, by decide⟩
  refine ⟨hfits, fun video => ?_⟩
  obtain ⟨-, -, hchar⟩ := console_keeps_text vgaText hfits video [0x41#8]
  obtain ⟨-, -, hrow, hcells⟩ := hchar 0x42#8 (by decide)
  have hzero : (consolePutc vgaText ([0x41#8].foldl (consolePutc vgaText) ⟨video, 0, 0⟩)
      0x42#8).row.toNat = 0 := hrow.trans (by decide)
  have hcell := hcells 0 (Nat.zero_le _) 1
  simp only [hzero] at hcell
  exact hcell (by decide)

end BasicX86Kernel
