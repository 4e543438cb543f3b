import BasicX86Kernel.Screen
import BasicX86Kernel.Machine.Run

/-! Which bytes of the video memory each part of `console_putc` changes, and in which runs none of
them is behind the screen or in another row than the one that is being started. -/

namespace BasicX86Kernel

open Machine

namespace Geometry

/-- The offset of the first byte of a row. -/
def rowStart (g : Geometry) (r : Nat) : Nat := 2 * (r * g.columns.toNat)

variable {g : Geometry}

theorem rowStart_succ (r : Nat) : g.rowStart (r + 1) = g.rowStart r + 2 * g.columns.toNat := by
  rw [rowStart, rowStart, Nat.add_mul, Nat.one_mul, Nat.mul_add]

theorem rowStart_mono {r r' : Nat} (h : r ≤ r') : g.rowStart r ≤ g.rowStart r' :=
  Nat.mul_le_mul_left 2 (Nat.mul_le_mul_right _ h)

theorem rowStart_lt (r : Nat) (hr : r ≤ g.lastRow.toNat + 3) : g.rowStart r < 2 ^ 26 := by
  have := row_le hr
  unfold rowStart
  omega

end Geometry

section

variable (g : Geometry) (k : Console)

/-- The row the cursor is on once a full row has been left. -/
def nextRow : Nat := k.row.toNat + if g.columns.toNat ≤ k.column.toNat then 1 else 0

/-- The row of the screen that is written, after the scroll if there is one. -/
def startedRow : Nat := min (nextRow g k) g.lastRow.toNat

theorem startedRow_le : startedRow g k ≤ g.lastRow.toNat := Nat.min_le_right _ _

/-- The cursor is at the start of a row, or a full row is left. -/
def StartsRow : Prop := k.column.toNat = 0 ∨ g.columns.toNat ≤ k.column.toNat

end

/-- The state in which the row to be written has been found. -/
def Console.atRow (g : Geometry) (k : Console) : Console := (k.wrap g).scroll g

/-! ### The parts of the function -/

namespace Shows

variable {g : Geometry} {k : Console} {t : Text}

theorem nextRow_le (h : Shows g k t) (hC : 1 ≤ g.columns.toNat) :
    nextRow g k ≤ g.lastRow.toNat + 1 := by
  have hle := h.row_le_succ
  unfold nextRow
  split
  · next hfull =>
    have hne : k.row.toNat ≠ g.lastRow.toNat + 1 := by
      intro heq
      rw [h.column, h.pending heq, List.length_nil] at hfull
      omega
    omega
  · omega

theorem wrap_cursor (h : Shows g k t) : (k.wrap g).row.toNat = nextRow g k ∧
    (k.wrap g).column.toNat = (if g.columns.toNat ≤ k.column.toNat then 0 else k.column.toNat) ∧
    (k.wrap g).video = k.video := by
  have hle := h.row_le_succ
  have hlast := g.toNat_lastRow_lt
  have hiff : k.column ≥ g.columns ↔ g.columns.toNat ≤ k.column.toNat := Iff.rfl
  rw [Console.wrap, nextRow]
  split
  · next hfull =>
    rw [if_pos (hiff.mp hfull), if_pos (hiff.mp hfull)]
    refine ⟨?_, rfl, rfl⟩
    show (k.row + 1).toNat = _
    bv_omega
  · next hfull =>
    rw [if_neg fun hge => hfull (hiff.mpr hge), if_neg fun hge => hfull (hiff.mpr hge)]
    exact ⟨rfl, rfl, rfl⟩

theorem scroll_eq (h : Shows g k t) :
    (k.scroll g).row.toNat = min k.row.toNat g.lastRow.toNat ∧
      (k.scroll g).column = k.column ∧
      ∀ o < 2 ^ 32, videoByte (k.scroll g).video o =
        if k.row.toNat = g.lastRow.toNat + 1 ∧ o < g.rowStart (g.lastRow.toNat + 1)
        then videoByte k.video (o + 2 * g.columns.toNat) else videoByte k.video o := by
  have hle := h.row_le_succ
  have hsucc := g.toNat_lastRow_succ
  have hcols := g.columns_le
  rw [Console.scroll]
  split
  · next hpending =>
    have hrow : k.row.toNat = g.lastRow.toNat + 1 := by
      have : g.lastRow.toNat + 1 ≤ k.row.toNat := hsucc ▸ hpending
      omega
    have hcol : k.column = 0 := by
      apply BitVec.eq_of_toNat_eq
      rw [h.column, h.pending hrow]
      rfl
    have hn := Geometry.toNat_row g k.row (by omega)
    have hbound := Geometry.row_le (g := g) (r := k.row.toNat) (by omega)
    refine ⟨by show g.lastRow.toNat = _; omega, hcol.symm, ?_⟩
    intro o ho
    simp only [hcol, add_zero, one_mul, hrow, true_and]
    rw [videoByte_memcpy (by omega) (by omega) ho, hn, hrow]
    rfl
  · next hpending =>
    have hlt : k.row.toNat < g.lastRow.toNat + 1 := by
      rw [← hsucc]
      exact Nat.not_le.mp hpending
    refine ⟨by omega, rfl, ?_⟩
    intro o _
    rw [if_neg]
    omega

theorem clear_eq (hrow : k.row.toNat ≤ g.lastRow.toNat) {o : Nat} (ho : o < 2 ^ 32) :
    videoByte (k.clear g).video o =
      if k.column = 0 ∧ g.rowStart k.row.toNat ≤ o ∧ o < g.rowStart (2 * k.row.toNat) then 0
      else videoByte k.video o := by
  have hn := Geometry.toNat_row g k.row (by omega)
  have hbound := Geometry.row_le (g := g) (r := k.row.toNat) (by omega)
  have hdouble : g.rowStart (2 * k.row.toNat)
      = 2 * (k.row.toNat * g.columns.toNat + k.row.toNat * g.columns.toNat) := by
    rw [Geometry.rowStart, Nat.mul_assoc, Nat.two_mul (k.row.toNat * _)]
  rw [Console.clear]
  split
  · next hcol =>
    simp only [hcol, true_and]
    rw [videoByte_memset (by omega) (by omega) ho, hn, hdouble]
    rfl
  · next hcol => simp only [hcol, false_and, if_false]

theorem store_eq (hrow : k.row.toNat ≤ g.lastRow.toNat) (hcol : k.column.toNat < g.columns.toNat)
    (c : Byte) {o : Nat} (ho : o < 2 ^ 32)
    (hne : o < g.rowStart k.row.toNat + 2 * k.column.toNat
      ∨ g.rowStart k.row.toNat + 2 * k.column.toNat + 2 ≤ o) :
    videoByte (k.store g c).video o = videoByte k.video o := by
  have hn := Geometry.toNat_row g k.row (by omega)
  have hbound := Geometry.row_le (g := g) (r := k.row.toNat) (by omega)
  have hcols := g.columns_le
  have hpos : (k.row * g.columns + k.column).toNat
      = k.row.toNat * g.columns.toNat + k.column.toNat := by
    rw [BitVec.toNat_add, hn, Nat.mod_eq_of_lt (by omega)]
  unfold Geometry.rowStart at hne
  exact videoByte_write16_ne (by omega) ho (by omega)

/-- Where a call writes, and what its memory is by then. -/
theorem atRow_eq (h : Shows g k t) (hC : 1 ≤ g.columns.toNat) :
    (k.atRow g).row.toNat = startedRow g k ∧ ((k.atRow g).column = 0 ↔ StartsRow g k) ∧
      (k.atRow g).column.toNat < g.columns.toNat ∧
      ∀ o < 2 ^ 32, videoByte (k.atRow g).video o =
        if nextRow g k = g.lastRow.toNat + 1 ∧ o < g.rowStart (g.lastRow.toNat + 1)
        then videoByte k.video (o + 2 * g.columns.toNat) else videoByte k.video o := by
  obtain ⟨hrow, hcol, hvideo⟩ := h.wrap_cursor
  obtain ⟨hshows, hlen⟩ := h.wrap hC
  obtain ⟨hrow', hcol', hvideo'⟩ := hshows.scroll_eq
  have hcolumn : (k.atRow g).column.toNat
      = if g.columns.toNat ≤ k.column.toNat then 0 else k.column.toNat := by
    rw [Console.atRow, hcol', hcol]
  refine ⟨by rw [Console.atRow, hrow', hrow]; rfl, ?_, ?_, ?_⟩
  · rw [← BitVec.toNat_inj, hcolumn, StartsRow]
    show _ = 0 ↔ _
    split <;> omega
  · rw [hcolumn]
    split <;> omega
  · intro o ho
    rw [Console.atRow, hvideo' o ho, hrow, hvideo]

end Shows

/-! ### Bytes behind the screen -/

/-- The bytes from the first one behind the screen on, and those around the end of the memory, stay
as they are. -/
def KeepsBehind (g : Geometry) (video video' : Mem) : Prop :=
  ∀ o < 2 ^ 32, g.rowStart (g.lastRow.toNat + 1) ≤ o → videoByte video' o = videoByte video o

/-- The parts of a call change no byte behind the screen, and the clearing none outside the row
that is started. -/
structure StaysOnScreen (g : Geometry) (k : Console) (c : Byte) : Prop where
  scroll : KeepsBehind g k.video (k.atRow g).video
  clear : c ≠ 0x0A#8 → KeepsBehind g (k.atRow g).video (k.atStore g).video
  store : c ≠ 0x0A#8 → KeepsBehind g (k.atStore g).video ((k.atStore g).store g c).video
  call : KeepsBehind g k.video (consolePutc g k c).video
  row : c ≠ 0x0A#8 → ∀ o < 2 ^ 32,
    o < g.rowStart (k.atRow g).row.toNat ∨ g.rowStart ((k.atRow g).row.toNat + 1) ≤ o →
    videoByte (k.atStore g).video o = videoByte (k.atRow g).video o

/-- A character that starts a row finds the rows behind it, as many as are above it, already
blank. -/
def Quiet (g : Geometry) (k : Console) (c : Byte) : Prop :=
  c ≠ 0x0A#8 → StartsRow g k → ∀ o, g.rowStart (startedRow g k + 1) ≤ o →
    o < g.rowStart (2 * startedRow g k) → videoByte k.video o = 0

namespace Shows

variable {g : Geometry} {k : Console} {t : Text}

/-- The memory behind the row that is started is as it was before the call. -/
theorem atRow_behind (h : Shows g k t) (hC : 1 ≤ g.columns.toNat) {o : Nat} (ho : o < 2 ^ 32)
    (hbehind : g.rowStart (startedRow g k + 1) ≤ o) :
    videoByte (k.atRow g).video o = videoByte k.video o := by
  obtain ⟨-, -, -, hvideo⟩ := h.atRow_eq hC
  rw [hvideo o ho, if_neg]
  rintro ⟨hrow, hlt⟩
  have hstarted : startedRow g k = g.lastRow.toNat := by
    rw [startedRow, hrow]
    omega
  rw [hstarted] at hbehind
  omega

/-- The rows that are cleared with the row that is started. -/
theorem clear_behind (h : Shows g k t) (hC : 1 ≤ g.columns.toNat) (hstarts : StartsRow g k) {o : Nat}
    (hlow : g.rowStart (startedRow g k + 1) ≤ o) (hhigh : o < g.rowStart (2 * startedRow g k)) :
    o < 2 ^ 32 ∧ videoByte (k.atStore g).video o = 0 := by
  obtain ⟨hrow, hcol, -, -⟩ := h.atRow_eq hC
  have hle := startedRow_le g k
  have hsmall := g.rowStart_lt (startedRow g k) (by omega)
  have hdouble : g.rowStart (2 * startedRow g k)
      = g.rowStart (startedRow g k) + g.rowStart (startedRow g k) := by
    rw [Geometry.rowStart, Geometry.rowStart, Nat.mul_assoc]
    omega
  have ho : o < 2 ^ 32 := by omega
  have hclear := clear_eq (k := k.atRow g) (by rw [hrow]; exact hle) ho
  have hmono := Geometry.rowStart_mono (g := g)
    (show startedRow g k ≤ startedRow g k + 1 by omega)
  rw [hrow, if_pos ⟨hcol.mpr hstarts, by omega, hhigh⟩] at hclear
  exact ⟨ho, hclear⟩

theorem quiet_of_stays (h : Shows g k t) (hC : 1 ≤ g.columns.toNat) {c : Byte}
    (hstays : StaysOnScreen g k c) : Quiet g k c := by
  intro hc hstarts o hlow hhigh
  obtain ⟨ho, hclear⟩ := h.clear_behind hC hstarts hlow hhigh
  obtain ⟨hrow, -, -, -⟩ := h.atRow_eq hC
  have hsame := hstays.row hc o ho (.inr (by rw [hrow]; exact hlow))
  rw [← h.atRow_behind hC ho hlow, ← hsame]
  exact hclear

theorem stays_of_quiet (h : Shows g k t) (hC : 1 ≤ g.columns.toNat) {c : Byte}
    (hquiet : Quiet g k c) : StaysOnScreen g k c := by
  obtain ⟨hrow, hcol, hcolumn, hvideo⟩ := h.atRow_eq hC
  have hle := startedRow_le g k
  have hscreen := Geometry.rowStart_mono (g := g) (Nat.add_le_add_right hle 1)
  have hscroll : KeepsBehind g k.video (k.atRow g).video :=
    fun o ho hbehind => h.atRow_behind hC ho (hscreen.trans hbehind)
  have hclears : c ≠ 0x0A#8 → ∀ o < 2 ^ 32,
      o < g.rowStart (k.atRow g).row.toNat ∨ g.rowStart ((k.atRow g).row.toNat + 1) ≤ o →
      videoByte (k.atStore g).video o = videoByte (k.atRow g).video o := by
    intro hc o ho hout
    have hclear := clear_eq (k := k.atRow g) (by rw [hrow]; exact hle) ho
    rw [hrow] at hclear hout
    refine hclear.trans ?_
    split
    · next hin =>
      obtain ⟨hzero, hlow, hhigh⟩ := hin
      have hbehind := hout.resolve_left (Nat.not_lt.mpr hlow)
      rw [h.atRow_behind hC ho hbehind]
      exact (hquiet hc (hcol.mp hzero) o hbehind hhigh).symm
    · rfl
  have hclearBehind : c ≠ 0x0A#8 → KeepsBehind g (k.atRow g).video (k.atStore g).video :=
    fun hc o ho hbehind => hclears hc o ho (.inr (by rw [hrow]; exact hscreen.trans hbehind))
  obtain ⟨-, hstored, hfree⟩ := h.atStore hC
  have hrowStore : (k.atStore g).row.toNat ≤ g.lastRow.toNat := hstored
  have hstoreBehind : KeepsBehind g (k.atStore g).video ((k.atStore g).store g c).video := by
    intro o ho hbehind
    have hnext := Geometry.rowStart_mono (g := g) (Nat.add_le_add_right hrowStore 1)
    rw [Geometry.rowStart_succ (k.atStore g).row.toNat] at hnext
    exact store_eq hrowStore hfree c ho (.inr (by omega))
  refine ⟨hscroll, hclearBehind, fun _ => hstoreBehind, ?_, hclears⟩
  intro o ho hbehind
  rw [consolePutc]
  split
  · exact hscroll o ho hbehind
  · next hc =>
    exact (hstoreBehind o ho hbehind).trans
      ((hclearBehind hc o ho hbehind).trans (hscroll o ho hbehind))

/-- A run stays on the screen exactly when its calls are quiet. -/
theorem allowed_stays_iff (h : Shows g k t) (hC : 1 ≤ g.columns.toNat) (s : List Byte) :
    Allowed (consolePutc g) (StaysOnScreen g) k s ↔ Allowed (consolePutc g) (Quiet g) k s := by
  induction s generalizing k t with
  | nil => exact Iff.rfl
  | cons c s ih =>
    rw [allowed_cons, allowed_cons, ih (h.put hC c)]
    refine and_congr_left fun _ => ⟨h.quiet_of_stays hC, h.stays_of_quiet hC⟩

end Shows

/-! ### Rows that are passed over -/

theorem newlines_eq (g : Geometry) (hC : 1 ≤ g.columns.toNat) (video : Mem) {n : Nat}
    (hn : n ≤ g.lastRow.toNat) :
    (List.replicate n 0x0A#8).foldl (consolePutc g) ⟨video, 0, 0⟩
      = ⟨video, 0, BitVec.ofNat 32 n⟩ := by
  have hlast := g.toNat_lastRow_lt
  have hsucc := g.toNat_lastRow_succ
  induction n with
  | zero => rfl
  | succ n ih =>
    have hcol : ¬(0 : Word) ≥ g.columns := fun h => absurd (show g.columns.toNat ≤ 0 from h) (by omega)
    have hrow : ¬BitVec.ofNat 32 n ≥ g.lastRow + 1 := by
      intro h
      have : (g.lastRow + 1).toNat ≤ (BitVec.ofNat 32 n).toNat := h
      rw [hsucc, BitVec.toNat_ofNat] at this
      omega
    rw [List.replicate_succ', List.foldl_append, ih (by omega)]
    show consolePutc g ⟨video, 0, BitVec.ofNat 32 n⟩ 0x0A#8 = _
    rw [consolePutc, if_pos rfl, Console.wrap, if_neg hcol, Console.scroll, if_neg hrow,
      Console.newline, BitVec.ofNat_add]
    rfl

/-- A memory without a blank byte. -/
def garbage : Mem := ⟨fun _ => 0xFF⟩

/-- The first byte behind the screen is lost when the last row of three or more is started. -/
theorem garbage_not_quiet (g : Geometry) (hC : 1 ≤ g.columns.toNat) (hrows : 2 ≤ g.lastRow.toNat)
    {c : Byte} (hc : c ≠ 0x0A#8) :
    ¬Quiet g ((List.replicate g.lastRow.toNat 0x0A#8).foldl (consolePutc g) ⟨garbage, 0, 0⟩) c := by
  have hlast := g.toNat_lastRow_lt
  rw [newlines_eq g hC garbage le_rfl]
  intro hquiet
  have hstarted : startedRow g ⟨garbage, 0, BitVec.ofNat 32 g.lastRow.toNat⟩ = g.lastRow.toNat := by
    have hzero : ¬g.columns.toNat ≤ (0 : Word).toNat := by
      show ¬g.columns.toNat ≤ 0
      omega
    rw [startedRow, nextRow, if_neg hzero, BitVec.toNat_ofNat]
    omega
  have hbyte := hquiet hc (.inl rfl) (g.rowStart (g.lastRow.toNat + 1)) (by rw [hstarted]) ?_
  · exact absurd hbyte (by show ¬(0xFF : Byte) = 0; decide)
  · rw [hstarted]
    have hmono := Geometry.rowStart_mono (g := g) (show g.lastRow.toNat + 2 ≤ 2 * g.lastRow.toNat
      by omega)
    rw [Geometry.rowStart_succ] at hmono
    omega

/-- On 25 rows, the character that starts the last one clears the bytes behind the screen. -/
theorem console_clears_behind :
    ¬KeepsBehind vgaText garbage
      ((List.replicate 24 0x0A#8 ++ [0x41#8]).foldl (consolePutc vgaText) ⟨garbage, 0, 0⟩).video := by
  have hshows := (Shows.start garbage).foldl (g := vgaText) (by decide) (List.replicate 24 0x0A#8)
  have hk := newlines_eq vgaText (by decide) garbage (n := 24) (by decide)
  rw [hk] at hshows
  rw [List.foldl_append, hk]
  intro hkeeps
  have hbyte := hkeeps 4000 (by decide) (by decide)
  obtain ⟨ho, hclear⟩ := hshows.clear_behind (by decide) (.inl rfl) (o := 4000) (by decide)
    (by decide)
  obtain ⟨-, hrow, hcol⟩ := hshows.atStore (by decide)
  have hstore := Shows.store_eq hrow hcol 0x41#8 ho (.inr (by decide))
  have hzero : (0 : Byte) = 0xFF := hclear.symm.trans (hstore.symm.trans hbyte)
  exact absurd hzero (by decide)

/-- A character that starts one of the first two rows is quiet. -/
theorem quiet_of_row_le {g : Geometry} {k : Console} (hrow : startedRow g k ≤ 1) (c : Byte) :
    Quiet g k c := by
  intro _ _ o hlow hhigh
  have hmono := Geometry.rowStart_mono (g := g)
    (show 2 * startedRow g k ≤ startedRow g k + 1 by omega)
  omega

/-- In a run of `console_putc` no part of a call changes a byte behind the screen, and the clearing
none outside its row, exactly when the calls are quiet. All runs are like that on a screen of one or
two rows, and on no other. -/
theorem console_stays_iff (g : Geometry) (hC : 1 ≤ g.columns.toNat) :
    (∀ video s, Allowed (consolePutc g) (StaysOnScreen g) ⟨video, 0, 0⟩ s
      ↔ Allowed (consolePutc g) (Quiet g) ⟨video, 0, 0⟩ s) ∧
    ((∀ video s, Allowed (consolePutc g) (StaysOnScreen g) ⟨video, 0, 0⟩ s)
      ↔ g.lastRow.toNat ≤ 1) := by
  have hiff : ∀ video s, Allowed (consolePutc g) (StaysOnScreen g) ⟨video, 0, 0⟩ s
      ↔ Allowed (consolePutc g) (Quiet g) ⟨video, 0, 0⟩ s :=
    fun video s => (Shows.start video).allowed_stays_iff hC s
  refine ⟨hiff, ?_, ?_⟩
  · intro hall
    by_contra hrows
    have hrun := (hiff garbage _).mp (hall garbage
      (List.replicate g.lastRow.toNat 0x0A#8 ++ [0x41#8]))
    exact garbage_not_quiet g hC (by omega) (by decide) (allowed_append_singleton.mp hrun).2
  · intro hrows video s
    rw [hiff]
    have hquiet : ∀ k c, Quiet g k c :=
      fun k c => quiet_of_row_le ((startedRow_le g k).trans hrows) c
    generalize (⟨video, 0, 0⟩ : Console) = k
    induction s generalizing k with
    | nil => trivial
    | cons c s ih => exact ⟨hquiet k c, ih _⟩

/-- A call writes to no row of the screen behind the one that the text comes to. -/
theorem Shows.startedRow_le_lastIndex {g : Geometry} {k : Console} {t : Text} (h : Shows g k t) :
    startedRow g k ≤ (t.wrap g.columns.toNat).lastIndex := by
  have hrow := h.row_le
  have hcol := h.column
  rw [startedRow, nextRow, Text.wrap, hcol]
  split
  · rw [Text.lastIndex_newRow]
    omega
  · omega

/-- On a screen of stale bytes a text on the first two rows stays, and a character on the last row
does not. -/
theorem console_stays_vga :
    Allowed (consolePutc vgaText) (StaysOnScreen vgaText) ⟨garbage, 0, 0⟩
        [0x41#8, 0x0A#8, 0x42#8] ∧
      ¬Allowed (consolePutc vgaText) (StaysOnScreen vgaText) ⟨garbage, 0, 0⟩
        (List.replicate 24 0x0A#8 ++ [0x41#8]) ∧
      ¬∀ video s, Allowed (consolePutc vgaText) (StaysOnScreen vgaText) ⟨video, 0, 0⟩ s := by
  have hC : 1 ≤ vgaText.columns.toNat := by decide
  obtain ⟨hiff, hall⟩ := console_stays_iff vgaText hC
  have h₀ := Shows.start (g := vgaText) garbage
  have h₁ := h₀.put hC 0x41#8
  have h₂ := h₁.put hC 0x0A#8
  refine ⟨(hiff _ _).mpr ⟨?_, ?_, ?_, trivial⟩, fun hrun => ?_, fun hevery => ?_⟩
  · exact quiet_of_row_le (h₀.startedRow_le_lastIndex.trans (by decide)) _
  · exact quiet_of_row_le (h₁.startedRow_le_lastIndex.trans (by decide)) _
  · exact quiet_of_row_le (h₂.startedRow_le_lastIndex.trans (by decide)) _
  · have hlast := (allowed_append_singleton.mp ((hiff _ _).mp hrun)).2
    exact garbage_not_quiet vgaText hC (by decide) (by decide) hlast
  · exact absurd (hall.mp hevery) (by decide)

end BasicX86Kernel
