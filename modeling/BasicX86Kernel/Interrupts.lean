import BasicX86Kernel.Screen

/-! `console_putc` as a sequence of statements, between which an interrupt handler may print a
string of its own, and the cells that hold what has been printed. -/

namespace BasicX86Kernel

open Machine

/-! ### Statements -/

/-- A store of a character: its row and column, and whether no byte printed earlier was in its
cell. -/
structure Stored where
  row : Word
  column : Word
  free : Bool
  deriving DecidableEq

/-- The console, the cells that hold a byte that has been printed, and the stores so far. -/
structure Display where
  console : Console
  occupied : Nat → Bool
  stores : List Stored

namespace Display

variable (g : Geometry) (d : Display)

def setColumn (v : Word) : Display := { d with console := { d.console with column := v } }

def setRow (v : Word) : Display := { d with console := { d.console with row := v } }

/-- The cell of the cursor, as the code computes it. -/
def cell : Word := d.console.row * g.columns + d.console.column

/-- The copy of `cell` cells from the second row on to the first row. -/
def copyUp : Display where
  console := { d.console with
    video := Klib.memcpy d.console.video (videoAddr 0) (videoAddr (1 * g.columns)) (d.cell g * 2) }
  occupied := fun i =>
    if i < (d.cell g).toNat then d.occupied (i + g.columns.toNat) else d.occupied i
  stores := d.stores

/-- As many cells are cleared from the start of the row on as there are before it. -/
def clearRow : Display where
  console := { d.console with
    video := Klib.memset d.console.video (videoAddr (d.console.row * g.columns)) 0
      (d.console.row * g.columns * 2) }
  occupied := fun i =>
    if (d.console.row * g.columns).toNat ≤ i ∧ i < 2 * (d.console.row * g.columns).toNat then false
    else d.occupied i
  stores := d.stores

def store (c : Byte) : Display where
  console := d.console.store g c
  occupied := fun i => if i = (d.cell g).toNat then true else d.occupied i
  stores := d.stores ++ [⟨d.console.row, d.console.column, !d.occupied (d.cell g).toNat⟩]

/-! ### A call without interruption -/

def wrap : Display :=
  if d.console.column ≥ g.columns then (d.setColumn 0).setRow (d.console.row + 1) else d

def scroll : Display :=
  if d.console.row ≥ g.lastRow + 1 then ((d.copyUp g).setRow g.lastRow).setColumn 0 else d

def newline : Display := (d.setColumn 0).setRow (d.console.row + 1)

def clear : Display := if d.console.column = 0 then d.clearRow g else d

def nextColumn : Display := d.setColumn (d.console.column + 1)

def putc (c : Byte) : Display :=
  if c = 0x0A#8 then ((d.wrap g).scroll g).newline
  else ((((d.wrap g).scroll g).clear g).store g c).nextColumn

def puts (s : List Byte) : Display := s.foldl (fun d c => d.putc g c) d

/-- The console after a call is the one `consolePutc` returns. -/
theorem console_putc (c : Byte) : (d.putc g c).console = consolePutc g d.console c := by
  have hwrap : (d.wrap g).console = d.console.wrap g := by
    unfold wrap Console.wrap
    split <;> rfl
  have hscroll : ∀ d : Display, (d.scroll g).console = d.console.scroll g := by
    intro d
    unfold scroll Console.scroll
    split <;> rfl
  have hclear : ∀ d : Display, (d.clear g).console = d.console.clear g := by
    intro d
    unfold clear Console.clear
    split <;> rfl
  unfold putc consolePutc
  split
  · show ((d.wrap g).scroll g).console.newline = _
    rw [hscroll, hwrap]
  · show ((((d.wrap g).scroll g).clear g).console.store g c).nextColumn = _
    rw [hclear, hscroll, hwrap]
    rfl

end Display

/-- The statement of `console_putc` that is next; `done` when the call has returned. -/
inductive Pc where
  | testColumn | wrapColumn | wrapRow
  | testRow | copy | lastRow | firstColumn
  | testNewline | newlineColumn | newlineRow
  | testFirst | clear | store | nextColumn | done
  deriving DecidableEq

/-- One statement of `console_putc`. -/
def statement (g : Geometry) (c : Byte) : Pc → Display → Pc × Display
  | .testColumn, d => (if d.console.column ≥ g.columns then .wrapColumn else .testRow, d)
  | .wrapColumn, d => (.wrapRow, d.setColumn 0)
  | .wrapRow, d => (.testRow, d.setRow (d.console.row + 1))
  | .testRow, d => (if d.console.row ≥ g.lastRow + 1 then .copy else .testNewline, d)
  | .copy, d => (.lastRow, d.copyUp g)
  | .lastRow, d => (.firstColumn, d.setRow g.lastRow)
  | .firstColumn, d => (.testNewline, d.setColumn 0)
  | .testNewline, d => (if c = 0x0A#8 then .newlineColumn else .testFirst, d)
  | .newlineColumn, d => (.newlineRow, d.setColumn 0)
  | .newlineRow, d => (.done, d.setRow (d.console.row + 1))
  | .testFirst, d => (if d.console.column = 0 then .clear else .store, d)
  | .clear, d => (.store, d.clearRow g)
  | .store, d => (.nextColumn, d.store g c)
  | .nextColumn, d => (.done, d.setColumn (d.console.column + 1))
  | .done, d => (.done, d)

/-- Statements without interruption. -/
def statements (g : Geometry) (c : Byte) : Nat → Pc × Display → Pc × Display
  | 0, s => s
  | n + 1, s => statements g c n (statement g c s.1 s.2)

section

variable (g : Geometry) (c : Byte)

theorem statements_done (n : Nat) (d : Display) : statements g c n (.done, d) = (.done, d) := by
  induction n with
  | zero => rfl
  | succ n ih => exact ih

theorem statements_store (n : Nat) (d : Display) :
    statements g c (n + 2) (.store, d) = (.done, (d.store g c).nextColumn) :=
  statements_done g c n _

theorem statements_testFirst (n : Nat) (d : Display) :
    statements g c (n + 4) (.testFirst, d) = (.done, ((d.clear g).store g c).nextColumn) := by
  rw [statements, statement, Display.clear]
  split
  · exact statements_store g c n _
  · exact statements_store g c (n + 1) _

theorem statements_testNewline (n : Nat) (d : Display) :
    statements g c (n + 5) (.testNewline, d) = (.done, if c = 0x0A#8 then d.newline
      else ((d.clear g).store g c).nextColumn) := by
  rw [statements, statement]
  split
  · exact statements_done g c (n + 2) _
  · exact statements_testFirst g c n d

theorem statements_testRow (n : Nat) (d : Display) :
    statements g c (n + 9) (.testRow, d) = (.done, if c = 0x0A#8 then (d.scroll g).newline
      else (((d.scroll g).clear g).store g c).nextColumn) := by
  rw [statements, statement, Display.scroll]
  split
  · exact statements_testNewline g c n _
  · exact statements_testNewline g c (n + 3) d

/-- The statements of a call, one after the other, are the call. -/
theorem statements_putc (d : Display) :
    statements g c 12 (.testColumn, d) = (.done, d.putc g c) := by
  rw [statements, statement, Display.putc, Display.wrap]
  split
  · exact statements_testRow g c 0 _
  · exact statements_testRow g c 2 d

end

/-! ### Runs -/

/-- A call in progress, or none when `pc` is `done`, and the rest of the string. -/
structure Running where
  pc : Pc
  c : Byte
  rest : List Byte
  display : Display

/-- The call goes on by a statement, the next call begins, or a handler prints a string, where it
is allowed to. -/
inductive Step (g : Geometry) (allowed : Running → List Byte → Prop) : Running → Running → Prop where
  | statement (r : Running) (h : r.pc ≠ .done) : Step g allowed r
      { r with pc := (statement g r.c r.pc r.display).1
               display := (statement g r.c r.pc r.display).2 }
  | call (r : Running) (c : Byte) (rest : List Byte) (h : r.pc = .done) (hrest : r.rest = c :: rest) :
      Step g allowed r { r with pc := .testColumn, c, rest }
  | interrupt (r : Running) (s : List Byte) (h : allowed r s) :
      Step g allowed r { r with display := r.display.puts g s }

/-- The string is about to be printed on a console that has not printed anything. -/
def start (video : Mem) (s : List Byte) : Running where
  pc := .done
  c := 0
  rest := s
  display := { console := ⟨video, 0, 0⟩, occupied := fun _ => false, stores := [] }

/-- A store into a cell of the screen that shows no earlier byte. -/
def Stored.Good (g : Geometry) (x : Stored) : Prop :=
  x.row.toNat ≤ g.lastRow.toNat ∧ x.column.toNat < g.columns.toNat ∧ x.free = true

/-- The cursor is in its range whenever no call is in progress, and every store has been good. -/
structure Running.Good (g : Geometry) (r : Running) : Prop where
  cursor : r.pc = .done → r.display.console.row.toNat ≤ g.lastRow.toNat + 1
    ∧ r.display.console.column.toNat ≤ g.columns.toNat
  stores : ∀ x ∈ r.display.stores, x.Good g

/-! ### Where a string ends -/

/-- A position on the screen. -/
structure Cursor where
  column : Nat
  row : Nat

/-- The position behind a byte that is laid out from a position. -/
def Cursor.put (g : Geometry) (p : Cursor) (c : Byte) : Cursor :=
  let p : Cursor := if g.columns.toNat ≤ p.column then ⟨0, p.row + 1⟩ else p
  let p : Cursor := if g.lastRow.toNat + 1 ≤ p.row then ⟨0, g.lastRow.toNat⟩ else p
  if c = 0x0A#8 then ⟨0, p.row + 1⟩ else ⟨p.column + 1, p.row⟩

/-- The position behind a string. -/
def Cursor.after (g : Geometry) (p : Cursor) (s : List Byte) : Cursor := s.foldl (Cursor.put g) p

namespace Display

variable (g : Geometry) (d : Display)

def cursor : Cursor := ⟨d.console.column.toNat, d.console.row.toNat⟩

/-- The index of the cell at the cursor. -/
def index : Nat := d.cursor.row * g.columns.toNat + d.cursor.column

/-- No cell from the given one on is occupied. -/
def FreeFrom (n : Nat) : Prop := ∀ i, n ≤ i → d.occupied i = false

/-- The string does not begin on top of what has been printed: it begins with a newline, on free
cells, on a row that is cleared first, or on a new row. -/
def Starts (s : List Byte) : Prop :=
  s.head? = some 0x0A#8 ∨ d.FreeFrom (d.index g) ∨ (d.cursor.column = 0 ∧ 1 ≤ d.cursor.row)
    ∨ g.columns.toNat ≤ d.cursor.column ∨ g.lastRow.toNat + 1 ≤ d.cursor.row

end Display

/-- Where a nested string may end, by the statement of the outer call that is next. -/
def Ends (g : Geometry) (pc : Pc) (c : Byte) (s : List Byte) (p : Cursor) : Prop :=
  match pc with
  | .testColumn | .wrapColumn | .copy | .done => True
  -- the row behind the cursor is taken for a new one, with the column left as it is
  | .wrapRow => c = 0x0A#8 ∨ g.lastRow.toNat ≤ p.row ∨ p.column < g.columns.toNat
  | .testRow => c = 0x0A#8 ∨ p.column < g.columns.toNat
  -- the cursor goes back to the start of the last row, which is cleared unless it is the first
  | .lastRow => c = 0x0A#8 ∨ 1 ≤ g.lastRow.toNat ∨ ∀ b ∈ s, b = 0x0A#8
  | .firstColumn => p.row ≤ g.lastRow.toNat ∧ (c = 0x0A#8 ∨ 1 ≤ g.lastRow.toNat)
  | .testNewline => p.row ≤ g.lastRow.toNat ∧ (c = 0x0A#8 ∨ p.column < g.columns.toNat)
  | .newlineColumn | .newlineRow => p.row ≤ g.lastRow.toNat
  | .testFirst | .clear | .store =>
    p.row ≤ g.lastRow.toNat ∧ p.column < g.columns.toNat
  | .nextColumn => p.column < g.columns.toNat

/-- A nested string that neither begins on top of what has been printed nor ends where the outer
call is not prepared for it. -/
def Harmless (g : Geometry) (r : Running) (s : List Byte) : Prop :=
  s = [] ∨ (r.display.Starts g s ∧ Ends g r.pc r.c s (r.display.cursor.after g s))

/-! ### The invariant -/

namespace Display

variable {g : Geometry} {d : Display}

theorem FreeFrom.mono {n n' : Nat} (h : d.FreeFrom n) (hle : n ≤ n') : d.FreeFrom n' :=
  fun i hi => h i (hle.trans hi)

/-- The parts of the invariant that hold at every statement. -/
structure Sound (g : Geometry) (d : Display) : Prop where
  column : d.cursor.column ≤ g.columns.toNat
  row : d.cursor.row ≤ g.lastRow.toNat + 2
  edge : g.lastRow.toNat + 2 ≤ d.cursor.row → d.cursor.column < g.columns.toNat
  screen : d.FreeFrom ((g.lastRow.toNat + 1) * g.columns.toNat)
  below : d.FreeFrom ((d.cursor.row + 1) * g.columns.toNat)
  stores : ∀ x ∈ d.stores, x.Good g

/-- The state between two calls. -/
structure Settled (g : Geometry) (d : Display) : Prop extends Sound g d where
  row_le : d.cursor.row ≤ g.lastRow.toNat + 1
  free : d.FreeFrom (d.index g)

/-- The cells from the cursor on are free, or will be when its row has been cleared. -/
def Clearable (g : Geometry) (d : Display) : Prop :=
  d.FreeFrom (d.index g) ∨ (d.cursor.column = 0 ∧ 1 ≤ d.cursor.row)

theorem cursor_row : d.cursor.row = d.console.row.toNat := rfl

theorem cursor_column : d.cursor.column = d.console.column.toNat := rfl

/-- A row index that is not much behind the screen is counted up without wrapping around. -/
theorem toNat_succ_row (h : d.cursor.row ≤ g.lastRow.toNat + 2) :
    (d.console.row + 1).toNat = d.cursor.row + 1 := by
  have := g.toNat_lastRow_lt
  rw [cursor_row] at h ⊢
  bv_omega

theorem toNat_rowStart (h : d.cursor.row ≤ g.lastRow.toNat + 3) :
    (d.console.row * g.columns).toNat = d.cursor.row * g.columns.toNat := by
  rw [cursor_row] at h ⊢
  exact Geometry.toNat_row g d.console.row h

theorem toNat_cell (h : d.cursor.row ≤ g.lastRow.toNat + 3)
    (hcol : d.cursor.column ≤ g.columns.toNat) : (d.cell g).toNat = d.index g := by
  have hle := Geometry.row_le h
  have hc := g.columns_le
  rw [cell, BitVec.toNat_add, toNat_rowStart h, index, ← cursor_column]
  exact Nat.mod_eq_of_lt (by omega)

/-! ### What the statements do -/

theorem freeFrom_copyUp {n : Nat} (h : d.FreeFrom n) : (d.copyUp g).FreeFrom n := by
  intro i hi
  show (if i < (d.cell g).toNat then d.occupied (i + g.columns.toNat) else d.occupied i) = false
  split
  · exact h _ (by omega)
  · exact h i hi

theorem freeFrom_clearRow {n : Nat} (h : d.FreeFrom n) : (d.clearRow g).FreeFrom n := by
  intro i hi
  show (if _ then false else d.occupied i) = false
  split
  · rfl
  · exact h i hi

/-- Copying up with the cursor on or behind the last row frees the last row. -/
theorem freeFrom_copyUp_lastRow (hs : d.Sound g) (hrow : g.lastRow.toNat ≤ d.cursor.row)
    (h : d.FreeFrom (d.index g)) :
    (d.copyUp g).FreeFrom (g.lastRow.toNat * g.columns.toNat) := by
  have hcell := toNat_cell (by have := hs.row; omega) hs.column
  have hnext : (g.lastRow.toNat + 1) * g.columns.toNat
      = g.lastRow.toNat * g.columns.toNat + g.columns.toNat := Nat.succ_mul _ _
  intro i hi
  show (if i < (d.cell g).toNat then d.occupied (i + g.columns.toNat) else d.occupied i) = false
  rw [hcell]
  split
  · exact hs.screen _ (by omega)
  · exact h i (by omega)

/-- A row that is not the first is cleared from its start on. -/
theorem freeFrom_clearRow_row (hs : d.Sound g) (hpos : 1 ≤ d.cursor.row) :
    (d.clearRow g).FreeFrom (d.cursor.row * g.columns.toNat) := by
  have hstart := toNat_rowStart (by have := hs.row; omega : d.cursor.row ≤ g.lastRow.toNat + 3)
  have hone : 1 * g.columns.toNat ≤ d.cursor.row * g.columns.toNat := Nat.mul_le_mul_right _ hpos
  have hbelow := hs.below
  rw [Nat.succ_mul] at hbelow
  intro i hi
  show (if _ then false else d.occupied i) = false
  rw [hstart]
  split
  · rfl
  · exact hbelow i (by omega)

/-- The store at a free cell of the screen is good, and the cells behind it stay free. -/
theorem store_good (c : Byte) (hs : d.Sound g) (hrow : d.cursor.row ≤ g.lastRow.toNat)
    (hcol : d.cursor.column < g.columns.toNat) (h : d.FreeFrom (d.index g)) :
    (d.store g c).FreeFrom (d.index g + 1) ∧ ∀ x ∈ (d.store g c).stores, x.Good g := by
  have hcell := toNat_cell (by omega) (by omega : d.cursor.column ≤ g.columns.toNat)
  constructor
  · intro i hi
    show (if i = (d.cell g).toNat then true else d.occupied i) = false
    rw [hcell, if_neg (by omega)]
    exact h i (by omega)
  · intro x hx
    rcases List.mem_append.mp hx with hx | hx
    · exact hs.stores x hx
    · obtain rfl := List.mem_singleton.mp hx
      exact ⟨hrow, hcol, by simp [hcell, h _ (Nat.le_refl _)]⟩

theorem toNat_succ_column (hcol : d.cursor.column < g.columns.toNat) :
    d.nextColumn.cursor.column = d.cursor.column + 1 := by
  have hc := g.columns_le
  show (d.console.column + 1).toNat = _
  rw [cursor_column] at hcol ⊢
  bv_omega

namespace Sound

variable (hs : d.Sound g)

include hs

theorem setColumn_zero (hpos : 1 ≤ g.columns.toNat) : (d.setColumn 0).Sound g where
  column := Nat.zero_le _
  row := hs.row
  edge := fun _ => hpos
  screen := hs.screen
  below := hs.below
  stores := hs.stores

theorem setRow_succ (hrow : d.cursor.row ≤ g.lastRow.toNat + 1)
    (hedge : d.cursor.row = g.lastRow.toNat + 1 → d.cursor.column < g.columns.toNat) :
    (d.setRow (d.console.row + 1)).Sound g := by
  have hsucc : (d.setRow (d.console.row + 1)).cursor.row = d.cursor.row + 1 :=
    toNat_succ_row hs.row
  refine ⟨hs.column, by omega, fun h => hedge (by omega), hs.screen, ?_, hs.stores⟩
  rw [hsucc]
  exact hs.below.mono (Nat.mul_le_mul_right _ (by omega))

theorem freeFrom_setRow_succ :
    (d.setRow (d.console.row + 1)).FreeFrom ((d.setRow (d.console.row + 1)).index g) := by
  have hsucc : (d.setRow (d.console.row + 1)).cursor.row = d.cursor.row + 1 :=
    toNat_succ_row hs.row
  rw [index, hsucc]
  exact hs.below.mono (Nat.le_add_right _ _)

theorem copyUp : (d.copyUp g).Sound g where
  column := hs.column
  row := hs.row
  edge := hs.edge
  screen := freeFrom_copyUp hs.screen
  below := freeFrom_copyUp hs.below
  stores := hs.stores

theorem setRow_lastRow : (d.setRow g.lastRow).Sound g where
  column := hs.column
  row := Nat.le_add_right _ _
  edge := fun h => absurd h (by show ¬_ ≤ g.lastRow.toNat; omega)
  screen := hs.screen
  below := hs.screen
  stores := hs.stores

theorem clearRow : (d.clearRow g).Sound g where
  column := hs.column
  row := hs.row
  edge := hs.edge
  screen := freeFrom_clearRow hs.screen
  below := freeFrom_clearRow hs.below
  stores := hs.stores

theorem store (c : Byte) (hrow : d.cursor.row ≤ g.lastRow.toNat)
    (hcol : d.cursor.column < g.columns.toNat) (h : d.FreeFrom (d.index g)) :
    (d.store g c).Sound g := by
  obtain ⟨hfree, hgood⟩ := store_good c hs hrow hcol h
  have hend : d.index g + 1 ≤ (d.cursor.row + 1) * g.columns.toNat := by
    rw [index, Nat.succ_mul]
    omega
  exact ⟨hs.column, hs.row, hs.edge,
    hfree.mono (hend.trans (Nat.mul_le_mul_right _ (by omega))), hfree.mono hend, hgood⟩

theorem nextColumn (hcol : d.cursor.column < g.columns.toNat)
    (hrow : d.cursor.row ≤ g.lastRow.toNat + 1) : d.nextColumn.Sound g := by
  have hsucc := toNat_succ_column hcol
  exact ⟨by omega, hs.row, fun h => absurd h (by show ¬_ ≤ d.cursor.row; omega), hs.screen,
    hs.below, hs.stores⟩

end Sound

end Display

/-- What holds of the display before a statement, besides that it is sound. -/
def AtPc (g : Geometry) (pc : Pc) (c : Byte) (d : Display) : Prop :=
  match pc with
  | .done => d.cursor.row ≤ g.lastRow.toNat + 1 ∧ d.FreeFrom (d.index g)
  | .testColumn => d.Starts g [c]
  | .wrapColumn => d.cursor.row ≤ g.lastRow.toNat + 1
  | .wrapRow => d.cursor.row ≤ g.lastRow.toNat + 1
    ∧ (d.cursor.row = g.lastRow.toNat + 1 → d.cursor.column < g.columns.toNat)
    ∧ (c = 0x0A#8 ∨ g.lastRow.toNat ≤ d.cursor.row ∨ d.cursor.column < g.columns.toNat)
  | .testRow => g.lastRow.toNat < d.cursor.row ∨ c = 0x0A#8
    ∨ (d.cursor.column < g.columns.toNat ∧ d.Clearable g)
  | .copy => g.lastRow.toNat ≤ d.cursor.row ∧ d.FreeFrom (d.index g)
  | .lastRow => g.lastRow.toNat ≤ d.cursor.row
    ∧ (c = 0x0A#8 ∨ 1 ≤ g.lastRow.toNat ∨ d.FreeFrom 0)
  | .firstColumn => d.cursor.row = g.lastRow.toNat
    ∧ (c = 0x0A#8 ∨ 1 ≤ g.lastRow.toNat ∨ d.FreeFrom 0)
  | .testNewline => d.cursor.row ≤ g.lastRow.toNat
    ∧ (c = 0x0A#8 ∨ (d.cursor.column < g.columns.toNat ∧ d.Clearable g))
  | .newlineColumn | .newlineRow => d.cursor.row ≤ g.lastRow.toNat
  | .testFirst => d.cursor.row ≤ g.lastRow.toNat ∧ d.cursor.column < g.columns.toNat
    ∧ d.Clearable g
  | .clear => d.cursor.row ≤ g.lastRow.toNat ∧ d.cursor.column < g.columns.toNat ∧ d.Clearable g
  | .store => d.cursor.row ≤ g.lastRow.toNat ∧ d.cursor.column < g.columns.toNat
    ∧ d.FreeFrom (d.index g)
  | .nextColumn => d.cursor.row ≤ g.lastRow.toNat + 1 ∧ d.cursor.column < g.columns.toNat
    ∧ d.FreeFrom (d.index g + 1)

/-- The statement keeps what holds. -/
def StatementKeeps (g : Geometry) (pc : Pc) (c : Byte) (d : Display) : Prop :=
  (statement g c pc d).2.Sound g ∧ AtPc g (statement g c pc d).1 c (statement g c pc d).2

section

variable {g : Geometry} {d : Display} {c : Byte}

theorem word_ge_iff (v w : Word) : v ≥ w ↔ w.toNat ≤ v.toNat := BitVec.le_def

theorem keeps_testColumn (hs : d.Sound g) (h : d.Starts g [c]) :
    StatementKeeps g .testColumn c d := by
  refine ⟨hs, ?_⟩
  rw [statement]
  by_cases hcol : d.console.column ≥ g.columns
  · rw [if_pos hcol]
    have hcol := (word_ge_iff _ _).mp hcol
    show d.cursor.row ≤ g.lastRow.toNat + 1
    by_contra hrow
    have hedge := hs.edge (by omega)
    rw [Display.cursor_column] at hedge
    omega
  · rw [if_neg hcol]
    have hcol := fun h => hcol ((word_ge_iff _ _).mpr h)
    rcases h with h | h | h | h | h
    · exact .inr (.inl (by simpa using h))
    · exact .inr (.inr ⟨Nat.not_le.mp hcol, .inl h⟩)
    · exact .inr (.inr ⟨Nat.not_le.mp hcol, .inr h⟩)
    · exact absurd h hcol
    · exact .inl h

theorem keeps_wrapRow (hs : d.Sound g) (h : AtPc g .wrapRow c d) :
    StatementKeeps g .wrapRow c d := by
  obtain ⟨hrow, hedge, hend⟩ := h
  refine ⟨hs.setRow_succ hrow hedge, ?_⟩
  have hsucc := Display.toNat_succ_row hs.row
  show g.lastRow.toNat < (d.console.row + 1).toNat ∨ _ ∨ _ ∧ _
  rw [hsucc]
  rcases hend with hnl | hbelow | hcol
  · exact .inr (.inl hnl)
  · exact .inl (by omega)
  · exact .inr (.inr ⟨hcol, .inl hs.freeFrom_setRow_succ⟩)

theorem keeps_testRow (hs : d.Sound g) (h : AtPc g .testRow c d) :
    StatementKeeps g .testRow c d := by
  have hlast := g.toNat_lastRow_succ
  refine ⟨hs, ?_⟩
  rw [statement]
  by_cases hrow : d.console.row ≥ g.lastRow + 1
  · rw [if_pos hrow]
    have hrow := (word_ge_iff _ _).mp hrow
    rw [hlast, ← Display.cursor_row] at hrow
    exact ⟨(Nat.le_succ _).trans hrow, hs.screen.mono
      ((Nat.mul_le_mul_right _ hrow).trans (Nat.le_add_right _ _))⟩
  · rw [if_neg hrow]
    have hrow : ¬(g.lastRow + 1).toNat ≤ d.console.row.toNat :=
      fun h => hrow ((word_ge_iff _ _).mpr h)
    rw [hlast, ← Display.cursor_row] at hrow
    have hrow : d.cursor.row ≤ g.lastRow.toNat := by omega
    exact ⟨hrow, h.resolve_left (Nat.not_lt.mpr hrow)⟩

/-- A screen of one row is blank when its only row has been scrolled away. -/
theorem keeps_copy (hs : d.Sound g) (h : AtPc g .copy c d) : StatementKeeps g .copy c d := by
  obtain ⟨hrow, hfree⟩ := h
  refine ⟨hs.copyUp, hrow, ?_⟩
  by_cases hmany : 1 ≤ g.lastRow.toNat
  · exact .inr (.inl hmany)
  · refine .inr (.inr ?_)
    have hup := Display.freeFrom_copyUp_lastRow hs hrow hfree
    rwa [Nat.eq_zero_of_not_pos hmany, Nat.zero_mul] at hup

theorem keeps_firstColumn (hpos : 1 ≤ g.columns.toNat) (hs : d.Sound g)
    (h : AtPc g .firstColumn c d) : StatementKeeps g .firstColumn c d := by
  obtain ⟨hrow, hend⟩ := h
  refine ⟨hs.setColumn_zero hpos, hrow.le, ?_⟩
  rcases hend with hnl | hmany | hfree
  · exact .inl hnl
  · exact .inr ⟨hpos, .inr ⟨rfl, hrow ▸ hmany⟩⟩
  · exact .inr ⟨hpos, .inl (Display.FreeFrom.mono hfree (Nat.zero_le _))⟩

theorem keeps_testNewline (hs : d.Sound g) (h : AtPc g .testNewline c d) :
    StatementKeeps g .testNewline c d := by
  refine ⟨hs, ?_⟩
  rw [statement]
  by_cases hnl : c = 0x0A#8
  · rw [if_pos hnl]
    exact h.1
  · rw [if_neg hnl]
    exact ⟨h.1, h.2.resolve_left hnl⟩

theorem keeps_newlineRow (hs : d.Sound g) (h : d.cursor.row ≤ g.lastRow.toNat) :
    StatementKeeps g .newlineRow c d := by
  have hsucc := Display.toNat_succ_row hs.row
  refine ⟨hs.setRow_succ (by omega) (by omega), ?_, hs.freeFrom_setRow_succ⟩
  show (d.console.row + 1).toNat ≤ _
  omega

/-- In any column but the first there is nothing to clear. -/
theorem keeps_testFirst (hs : d.Sound g) (h : AtPc g .testFirst c d) :
    StatementKeeps g .testFirst c d := by
  refine ⟨hs, ?_⟩
  obtain ⟨hrow, hcol, hclear⟩ := h
  rw [statement]
  by_cases hfirst : d.console.column = 0
  · rw [if_pos hfirst]
    exact ⟨hrow, hcol, hclear⟩
  · rw [if_neg hfirst]
    refine ⟨hrow, hcol, hclear.resolve_right fun hzero => hfirst ?_⟩
    exact BitVec.eq_of_toNat_eq hzero.1

theorem keeps_clear (hs : d.Sound g) (h : AtPc g .clear c d) : StatementKeeps g .clear c d := by
  obtain ⟨hrow, hcol, hclear⟩ := h
  refine ⟨hs.clearRow, hrow, hcol, ?_⟩
  rcases hclear with hfree | ⟨hzero, hpos⟩
  · exact Display.freeFrom_clearRow hfree
  · exact (Display.freeFrom_clearRow_row hs hpos).mono (Nat.le_add_right _ _)

theorem keeps_store (hs : d.Sound g) (h : AtPc g .store c d) : StatementKeeps g .store c d := by
  obtain ⟨hrow, hcol, hfree⟩ := h
  exact ⟨hs.store c hrow hcol hfree, Nat.le_succ_of_le hrow, hcol,
    (Display.store_good c hs hrow hcol hfree).1⟩

theorem keeps_nextColumn (hs : d.Sound g) (h : AtPc g .nextColumn c d) :
    StatementKeeps g .nextColumn c d := by
  obtain ⟨hrow, hcol, hfree⟩ := h
  refine ⟨hs.nextColumn hcol hrow, hrow, ?_⟩
  have hsucc := Display.toNat_succ_column hcol
  have hindex : (d.setColumn (d.console.column + 1)).index g = d.index g + 1 := by
    rw [Display.index, Display.index, Nat.add_assoc, ← hsucc]
    rfl
  show Display.FreeFrom _ ((d.setColumn (d.console.column + 1)).index g)
  rw [hindex]
  exact hfree

theorem statement_keeps {pc : Pc} (hpos : 1 ≤ g.columns.toNat) (hs : d.Sound g)
    (h : AtPc g pc c d) :
    (statement g c pc d).2.Sound g ∧ AtPc g (statement g c pc d).1 c (statement g c pc d).2 := by
  cases pc with
  | testColumn => exact keeps_testColumn hs h
  | wrapColumn => exact ⟨hs.setColumn_zero hpos, h, fun _ => hpos, .inr (.inr hpos)⟩
  | wrapRow => exact keeps_wrapRow hs h
  | testRow => exact keeps_testRow hs h
  | copy => exact keeps_copy hs h
  | lastRow => exact ⟨hs.setRow_lastRow, rfl, h.2⟩
  | firstColumn => exact keeps_firstColumn hpos hs h
  | testNewline => exact keeps_testNewline hs h
  | newlineColumn => exact ⟨hs.setColumn_zero hpos, h⟩
  | newlineRow => exact keeps_newlineRow hs h
  | testFirst => exact keeps_testFirst hs h
  | clear => exact keeps_clear hs h
  | store => exact keeps_store hs h
  | nextColumn => exact keeps_nextColumn hs h
  | done => exact ⟨hs, h⟩

end

/-! ### Nested strings -/

theorem statements_keep {g : Geometry} {c : Byte} (hpos : 1 ≤ g.columns.toNat) (n : Nat) {pc : Pc}
    {d : Display} (hs : d.Sound g) (h : AtPc g pc c d) :
    (statements g c n (pc, d)).2.Sound g
      ∧ AtPc g (statements g c n (pc, d)).1 c (statements g c n (pc, d)).2 := by
  induction n generalizing pc d with
  | zero => exact ⟨hs, h⟩
  | succ n ih =>
    obtain ⟨hs', h'⟩ := statement_keeps hpos hs h
    exact ih hs' h'

namespace Cursor

variable {g : Geometry} (p : Cursor) (c : Byte)

/-- A byte leaves the cursor on the screen, or at the start of the row behind it. -/
theorem put_row : (p.put g c).row ≤ g.lastRow.toNat
    ∨ ((p.put g c).row = g.lastRow.toNat + 1 ∧ (p.put g c).column = 0) := by
  unfold put
  generalize (if g.columns.toNat ≤ p.column then (⟨0, p.row + 1⟩ : Cursor) else p) = q
  dsimp only
  by_cases hq : g.lastRow.toNat + 1 ≤ q.row
  · rw [if_pos hq]
    split
    · exact .inr ⟨rfl, rfl⟩
    · exact .inl (Nat.le_refl _)
  · rw [if_neg hq]
    split
    · by_cases hlast : q.row = g.lastRow.toNat
      · exact .inr ⟨congrArg (· + 1) hlast, rfl⟩
      · exact .inl (by dsimp only; omega)
    · exact .inl (by dsimp only; omega)

theorem le_put_row (h : g.lastRow.toNat ≤ p.row) : g.lastRow.toNat ≤ (p.put g c).row := by
  unfold put
  dsimp only
  split <;> split <;> split <;> dsimp only at * <;> omega

theorem after_row {s : List Byte} (hs : s ≠ []) : (p.after g s).row ≤ g.lastRow.toNat
    ∨ ((p.after g s).row = g.lastRow.toNat + 1 ∧ (p.after g s).column = 0) := by
  rw [← List.dropLast_append_getLast hs, after, List.foldl_append]
  exact put_row _ _

theorem le_after_row (s : List Byte) (h : g.lastRow.toNat ≤ p.row) :
    g.lastRow.toNat ≤ (p.after g s).row := by
  induction s generalizing p with
  | nil => exact h
  | cons c s ih => exact ih _ (le_put_row p c h)

end Cursor

namespace Display

variable {g : Geometry} {d : Display}

theorem cursor_wrap (hs : d.Sound g) : (d.wrap g).cursor
    = if g.columns.toNat ≤ d.cursor.column then ⟨0, d.cursor.row + 1⟩ else d.cursor := by
  have hge : d.console.column ≥ g.columns ↔ g.columns.toNat ≤ d.cursor.column := BitVec.le_def
  rw [wrap]
  by_cases h : g.columns.toNat ≤ d.cursor.column
  · rw [if_pos (hge.mpr h), if_pos h]
    exact congrArg (Cursor.mk 0) (toNat_succ_row hs.row)
  · rw [if_neg (mt hge.mp h), if_neg h]

theorem cursor_scroll : (d.scroll g).cursor
    = if g.lastRow.toNat + 1 ≤ d.cursor.row then ⟨0, g.lastRow.toNat⟩ else d.cursor := by
  have hge : d.console.row ≥ g.lastRow + 1 ↔ g.lastRow.toNat + 1 ≤ d.cursor.row := by
    rw [ge_iff_le, BitVec.le_def, g.toNat_lastRow_succ, cursor_row]
  rw [scroll]
  by_cases h : g.lastRow.toNat + 1 ≤ d.cursor.row
  · rw [if_pos (hge.mpr h), if_pos h]
    rfl
  · rw [if_neg (mt hge.mp h), if_neg h]

theorem cursor_clear : (d.clear g).cursor = d.cursor := by
  rw [clear]
  split <;> rfl

theorem cursor_putc (hs : d.Sound g) (c : Byte) : (d.putc g c).cursor = d.cursor.put g c := by
  have hplaced : ((d.wrap g).scroll g).cursor.row ≤ g.lastRow.toNat
      ∧ ((d.wrap g).scroll g).cursor.column ≤ g.columns.toNat := by
    have hcol := hs.column
    rw [cursor_scroll]
    split
    · exact ⟨Nat.le_refl _, Nat.zero_le _⟩
    · refine ⟨by omega, ?_⟩
      rw [cursor_wrap hs]
      split
      · exact Nat.zero_le _
      · exact hcol
  rw [Cursor.put, ← cursor_wrap hs, ← cursor_scroll, putc]
  generalize (d.wrap g).scroll g = e at hplaced ⊢
  obtain ⟨hrow, hcol⟩ := hplaced
  by_cases hc : c = 0x0A#8
  · rw [if_pos hc, if_pos hc]
    exact congrArg (Cursor.mk 0) (toNat_succ_row (g := g) (by omega))
  · rw [if_neg hc, if_neg hc]
    have hclear : (e.clear g).console.row = e.console.row
        ∧ (e.clear g).console.column = e.console.column := by
      rw [clear]
      split <;> exact ⟨rfl, rfl⟩
    have hsucc : (e.console.column + 1).toNat = e.cursor.column + 1 := by
      have hc := g.columns_le
      rw [cursor_column] at hcol ⊢
      bv_omega
    show Cursor.mk ((e.clear g).console.column + 1).toNat (e.clear g).console.row.toNat = _
    rw [hclear.1, hclear.2, hsucc]
    rfl

theorem putc_settled (hpos : 1 ≤ g.columns.toNat) (hs : d.Sound g) {c : Byte}
    (h : d.Starts g [c]) : (d.putc g c).Settled g := by
  have hstart : AtPc g .testColumn c d := h
  have hkeep := statements_keep hpos 12 hs hstart
  rw [statements_putc] at hkeep
  exact ⟨hkeep.1, hkeep.2.1, hkeep.2.2⟩

theorem Settled.starts (h : d.Settled g) (s : List Byte) : d.Starts g s := .inr (.inl h.free)

theorem Settled.puts (hpos : 1 ≤ g.columns.toNat) (h : d.Settled g) (s : List Byte) :
    (d.puts g s).Settled g ∧ (d.puts g s).cursor = d.cursor.after g s := by
  induction s generalizing d with
  | nil => exact ⟨h, rfl⟩
  | cons c s ih =>
    obtain ⟨hsettled, hcursor⟩ := ih (putc_settled hpos h.toSound (h.starts [c]))
    refine ⟨hsettled, hcursor.trans ?_⟩
    rw [cursor_putc h.toSound]
    rfl

/-- A string that does not begin on top of what has been printed leaves the display settled. -/
theorem puts_settled (hpos : 1 ≤ g.columns.toNat) (hs : d.Sound g) {s : List Byte} (hne : s ≠ [])
    (h : d.Starts g s) : (d.puts g s).Settled g ∧ (d.puts g s).cursor = d.cursor.after g s := by
  cases s with
  | nil => exact absurd rfl hne
  | cons c s =>
    obtain ⟨hsettled, hcursor⟩ := (putc_settled hpos hs h).puts hpos s
    refine ⟨hsettled, hcursor.trans ?_⟩
    rw [cursor_putc hs]
    rfl

theorem freeFrom_newlines {n : Nat} (h : d.FreeFrom n) {s : List Byte}
    (hs : ∀ b ∈ s, b = 0x0A#8) : (d.puts g s).FreeFrom n := by
  induction s generalizing d with
  | nil => exact h
  | cons c s ih =>
    have hc : c = 0x0A#8 := hs c (by simp)
    refine ih ?_ fun b hb => hs b (by simp [hb])
    have hwrap : (d.wrap g).FreeFrom n := by
      unfold wrap
      split <;> exact h
    show (d.putc g c).FreeFrom n
    rw [putc, if_pos hc, scroll]
    split
    · exact freeFrom_copyUp hwrap
    · exact hwrap

end Display

/-! ### Whole runs -/

/-- The invariant of a run. -/
structure Running.Inv (g : Geometry) (r : Running) : Prop where
  sound : r.display.Sound g
  atPc : AtPc g r.pc r.c r.display

theorem start_inv (g : Geometry) (video : Mem) (s : List Byte) : (start video s).Inv g where
  sound := ⟨Nat.zero_le _, Nat.zero_le _, fun h => absurd h (by simp [start, Display.cursor]),
    fun _ _ => rfl, fun _ _ => rfl, fun _ hx => nomatch hx⟩
  atPc := ⟨Nat.zero_le _, fun _ _ => rfl⟩

/-- A harmless string keeps the invariant, whatever statement is next. -/
theorem harmless_keeps {g : Geometry} {r : Running} (hpos : 1 ≤ g.columns.toNat) (h : r.Inv g)
    {s : List Byte} (hs : Harmless g r s) :
    ({ r with display := r.display.puts g s } : Running).Inv g := by
  rcases hs with rfl | ⟨hstarts, hends⟩
  · exact h
  by_cases hne : s = []
  · rw [hne]
    exact h
  obtain ⟨pc, c, rest, d⟩ := r
  obtain ⟨hsettled, hcursor⟩ := Display.puts_settled hpos h.sound hne hstarts
  refine ⟨hsettled.toSound, ?_⟩
  have hrange := d.cursor.after_row (g := g) hne
  have hlow := d.cursor.le_after_row (g := g) s
  have hat : AtPc g pc c d := h.atPc
  have hrow := hsettled.row_le
  have hfree := hsettled.free
  dsimp only at hends hrow hfree hcursor ⊢
  rw [← hcursor] at hends hrange hlow
  cases pc with
  | done => exact ⟨hrow, hfree⟩
  | testColumn => exact hsettled.starts [c]
  | wrapColumn => exact hrow
  | wrapRow => exact ⟨hrow, fun hlast => by omega, hends⟩
  | testRow =>
    rcases hends with hnl | hcol
    · exact .inr (.inl hnl)
    · exact .inr (.inr ⟨hcol, .inl hfree⟩)
  | copy => exact ⟨hlow hat.1, hfree⟩
  | lastRow =>
    refine ⟨hlow hat.1, ?_⟩
    rcases hends with hnl | hmany | hblank
    · exact .inl hnl
    · exact .inr (.inl hmany)
    · exact hat.2.imp_right (Or.imp_right fun hzero => Display.freeFrom_newlines hzero hblank)
  | firstColumn =>
    refine ⟨Nat.le_antisymm hends.1 (hlow hat.1.ge), hends.2.imp_right Or.inl⟩
  | testNewline => exact ⟨hends.1, hends.2.imp_right fun hcol => ⟨hcol, .inl hfree⟩⟩
  | newlineColumn => exact hends
  | newlineRow => exact hends
  | testFirst => exact ⟨hends.1, hends.2, .inl hfree⟩
  | clear => exact ⟨hends.1, hends.2, .inl hfree⟩
  | store => exact ⟨hends.1, hends.2, hfree⟩
  | nextColumn => exact ⟨hrow, hends, hfree.mono (Nat.le_succ _)⟩

theorem step_keeps {g : Geometry} {r r' : Running} (hpos : 1 ≤ g.columns.toNat) (h : r.Inv g)
    (hstep : Step g (Harmless g) r r') : r'.Inv g := by
  cases hstep with
  | statement hpc =>
    obtain ⟨hsound, hat⟩ := statement_keeps hpos h.sound h.atPc
    exact ⟨hsound, hat⟩
  | call c rest hpc hrest =>
    have hat := h.atPc
    rw [hpc] at hat
    exact ⟨h.sound, .inr (.inl hat.2)⟩
  | interrupt s hs => exact harmless_keeps hpos h hs

/-- In every run of a string in which all nested strings are harmless, the cursor is in its range
between calls, and every byte of the string and of the nested ones has been stored into a cell of
the screen that showed no earlier byte. -/
theorem harmless_runs_good (g : Geometry) (hpos : 1 ≤ g.columns.toNat) (video : Mem)
    (s : List Byte) (r : Running)
    (hrun : Relation.ReflTransGen (Step g (Harmless g)) (start video s) r) : r.Good g := by
  have hinv : r.Inv g := by
    induction hrun with
    | refl => exact start_inv g video s
    | tail _ hstep ih => exact step_keeps hpos ih hstep
  refine ⟨fun hpc => ?_, hinv.sound.stores⟩
  have hat := hinv.atPc
  rw [hpc] at hat
  exact ⟨hat.1, hinv.sound.column⟩

theorem steps_statements (g : Geometry) (allowed : Running → List Byte → Prop) (n : Nat)
    (r : Running) : Relation.ReflTransGen (Step g allowed) r
      { r with pc := (statements g r.c n (r.pc, r.display)).1
               display := (statements g r.c n (r.pc, r.display)).2 } := by
  induction n generalizing r with
  | zero => exact .refl
  | succ n ih =>
    by_cases hpc : r.pc = .done
    · obtain ⟨pc, c, rest, d⟩ := r
      obtain rfl : pc = .done := hpc
      rw [statements_done]
    · exact .head (.statement r hpc) (ih _)

theorem harmless_runs_good_vga : 1 ≤ vgaText.columns.toNat ∧
    ∃ r : Running, r.display.stores = [⟨0, 0, true⟩, ⟨0, 1, true⟩] ∧ r.Good vgaText := by
  have hharmless : Harmless vgaText { start ⟨fun _ => 0⟩ [0x41#8] with
      pc := .testColumn, c := 0x41#8, rest := [] } [0x42#8] :=
    .inr ⟨.inr (.inl fun _ _ => rfl), trivial⟩
  refine ⟨by decide, _, ?_, harmless_runs_good vgaText (by decide) ⟨fun _ => 0⟩ [0x41#8] _
    (.trans (.tail (.single (.call _ 0x41#8 [] rfl rfl)) (.interrupt _ [0x42#8] hharmless))
      (steps_statements _ _ 12 _))⟩
  decide

/-! ### Where a string must not end -/

/-- A call that has printed the rest without another interruption has stored behind the end of a row
or behind the screen, or left the cursor there. -/
def Spoils (g : Geometry) (c : Byte) (rest : List Byte) (s : Pc × Display) : Prop :=
  ¬Running.Good g ⟨.done, c, rest, (statements g c 12 s).2⟩

section

variable {g : Geometry} {c : Byte} {rest : List Byte} {e : Display}

theorem store_spoils
    (hout : ¬(e.cursor.row ≤ g.lastRow.toNat ∧ e.cursor.column < g.columns.toNat)) :
    ¬Running.Good g ⟨.done, c, rest, (e.store g c).nextColumn⟩ := by
  intro hgood
  have hx := hgood.stores ⟨e.console.row, e.console.column, !e.occupied (e.cell g).toNat⟩
    (by simp [Display.nextColumn, Display.setColumn, Display.store])
  exact hout ⟨hx.1, hx.2.1⟩

theorem newline_spoils (hbehind : e.cursor.row = g.lastRow.toNat + 1) :
    ¬Running.Good g ⟨.done, c, rest, e.newline⟩ := by
  intro hgood
  have hlow : (e.console.row + 1).toNat ≤ g.lastRow.toNat + 1 := (hgood.cursor rfl).1
  rw [Display.toNat_succ_row (g := g) (by omega)] at hlow
  omega

theorem clear_spoils
    (hout : ¬(e.cursor.row ≤ g.lastRow.toNat ∧ e.cursor.column < g.columns.toNat)) :
    ¬Running.Good g ⟨.done, c, rest, ((e.clear g).store g c).nextColumn⟩ := by
  refine store_spoils ?_
  rwa [Display.cursor_clear]

/-- The wrap has been passed, and the column is behind the end of the row. -/
theorem testRow_spoils (n : Nat) (hrow : e.cursor.row ≤ g.lastRow.toNat)
    (hcol : g.columns.toNat ≤ e.cursor.column) (hc : c ≠ 0x0A#8) :
    ¬Running.Good g ⟨.done, c, rest, (statements g c (n + 9) (.testRow, e)).2⟩ := by
  rw [statements_testRow, if_neg hc]
  refine clear_spoils ?_
  rw [Display.cursor_scroll, if_neg (by omega)]
  omega

theorem wrapRow_spoils (hsound : e.Sound g) (hends : ¬(c = 0x0A#8 ∨ g.lastRow.toNat ≤ e.cursor.row
    ∨ e.cursor.column < g.columns.toNat)) : Spoils g c rest (.wrapRow, e) := by
  obtain ⟨hc, hends⟩ := not_or.mp hends
  have hsucc := Display.toNat_succ_row hsound.row
  show ¬Running.Good g ⟨.done, c, rest,
    (statements g c 11 (.testRow, e.setRow (e.console.row + 1))).2⟩
  refine testRow_spoils 2 ?_ ?_ hc
  · show (e.console.row + 1).toNat ≤ _
    omega
  · show _ ≤ e.cursor.column
    omega

/-- The scroll has been passed, and the cursor is behind the last row. -/
theorem firstColumn_spoils (hbehind : e.cursor.row = g.lastRow.toNat + 1) :
    Spoils g c rest (.firstColumn, e) := by
  show ¬Running.Good g ⟨.done, c, rest, (statements g c 11 (.testNewline, e.setColumn 0)).2⟩
  rw [statements_testNewline g c 6]
  by_cases hc : c = 0x0A#8
  · rw [if_pos hc]
    exact newline_spoils hbehind
  · rw [if_neg hc]
    refine clear_spoils fun hin => absurd hin.1 ?_
    show ¬e.cursor.row ≤ _
    omega

theorem testNewline_spoils (hrow : e.cursor.row ≤ g.lastRow.toNat + 1)
    (hends : ¬(e.cursor.row ≤ g.lastRow.toNat
      ∧ (c = 0x0A#8 ∨ e.cursor.column < g.columns.toNat))) :
    Spoils g c rest (.testNewline, e) := by
  rw [Spoils, statements_testNewline g c 7]
  by_cases hc : c = 0x0A#8
  · rw [if_pos hc]
    have hbelow : ¬e.cursor.row ≤ g.lastRow.toNat := fun hle => hends ⟨hle, .inl hc⟩
    exact newline_spoils (by omega)
  · rw [if_neg hc]
    exact clear_spoils fun hin => hends ⟨hin.1, .inr hin.2⟩

/-- The column is counted up from the end of the row. -/
theorem nextColumn_spoils (hsound : e.Sound g) (hout : ¬e.cursor.column < g.columns.toNat) :
    Spoils g c rest (.nextColumn, e) := by
  intro hgood
  have hin : (e.console.column + 1).toNat ≤ g.columns.toNat := (hgood.cursor rfl).2
  have hc := g.columns_le
  have hcol := hsound.column
  rw [Display.cursor_column] at hout hcol
  bv_omega

/-- On a screen of several rows a nested string must not end elsewhere: if it does, the call that
goes on without another interruption stores behind the end of a row or behind the screen, or
leaves the cursor there. -/
theorem ends_needed {r : Running} (hpos : 1 ≤ g.columns.toNat) (hmany : 1 ≤ g.lastRow.toNat)
    (h : r.Inv g) {s : List Byte} (hne : s ≠ []) (hstarts : r.display.Starts g s)
    (hends : ¬Ends g r.pc r.c s (r.display.cursor.after g s)) :
    ¬Running.Good g { r with
      pc := .done, display := (statements g r.c 12 (r.pc, r.display.puts g s)).2 } := by
  obtain ⟨pc, c, rest, d⟩ := r
  obtain ⟨hsettled, hcursor⟩ := Display.puts_settled hpos h.sound hne hstarts
  have hrange := d.cursor.after_row (g := g) hne
  dsimp only at hends hcursor ⊢
  rw [← hcursor] at hends hrange
  generalize d.puts g s = e at hsettled hends hrange ⊢
  have hrow := hsettled.row_le
  show Spoils g c rest (pc, e)
  cases pc with
  | testColumn => exact absurd trivial hends
  | wrapColumn => exact absurd trivial hends
  | copy => exact absurd trivial hends
  | done => exact absurd trivial hends
  | lastRow => exact absurd (.inr (.inl hmany)) hends
  | wrapRow => exact wrapRow_spoils hsettled.toSound hends
  | testRow =>
    obtain ⟨hc, hcol⟩ := not_or.mp hends
    exact testRow_spoils 3 (by omega) (by omega) hc
  | firstColumn =>
    have hbelow : ¬e.cursor.row ≤ g.lastRow.toNat := fun hle => hends ⟨hle, .inr hmany⟩
    exact firstColumn_spoils (by omega)
  | testNewline => exact testNewline_spoils hrow hends
  | newlineColumn =>
    have hbelow : ¬e.cursor.row ≤ g.lastRow.toNat := hends
    have hbehind : e.cursor.row = g.lastRow.toNat + 1 := by omega
    exact newline_spoils (e := e.setColumn 0) hbehind
  | newlineRow =>
    have hbelow : ¬e.cursor.row ≤ g.lastRow.toNat := hends
    have hbehind : e.cursor.row = g.lastRow.toNat + 1 := by omega
    intro hgood
    have hlow : (e.console.row + 1).toNat ≤ g.lastRow.toNat + 1 := (hgood.cursor rfl).1
    rw [Display.toNat_succ_row (g := g) (by omega)] at hlow
    omega
  | testFirst =>
    rw [Spoils, statements_testFirst g c 8]
    exact clear_spoils hends
  | clear =>
    show ¬Running.Good g ⟨.done, c, rest, (statements g c 11 (.store, e.clearRow g)).2⟩
    rw [statements_store g c 9]
    exact store_spoils (e := e.clearRow g) hends
  | store =>
    rw [Spoils, statements_store g c 10]
    exact store_spoils hends
  | nextColumn => exact nextColumn_spoils hsettled.toSound hends

end

/-- The handler prints a byte between the store of the first byte and the step of the column. -/
theorem nested_byte_overwrites : ∃ r, Relation.ReflTransGen (Step vgaText fun _ _ => True)
    (start ⟨fun _ => 0⟩ [0x41#8]) r ∧ ¬r.Good vgaText := by
  refine ⟨_, .tail (.trans (.single (.call _ 0x41#8 [] rfl rfl)) (steps_statements _ _ 6 _))
    (.interrupt _ [0x42#8] trivial), ?_⟩
  intro h
  have hstore := h.stores ⟨0, 0, false⟩ (by decide)
  exact absurd hstore.2.2 (by decide)

end BasicX86Kernel
