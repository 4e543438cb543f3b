import BasicX86Kernel.Screen.Visible

/-! The cells of the screen behind the text of their row: in which runs of `console_putc` they are
blank, and not left over from the initial memory or from the row that a scroll pulls in. -/

namespace BasicX86Kernel

open Machine

/-- The bytes of a row are blank from a column on. -/
def BlankFrom (g : Geometry) (video : Mem) (r j : Nat) : Prop :=
  ∀ o, g.rowStart r + 2 * j ≤ o → o < g.rowStart (r + 1) → videoByte video o = 0

theorem BlankFrom.mono {g : Geometry} {video : Mem} {r j j' : Nat} (h : BlankFrom g video r j)
    (hj : j ≤ j') : BlankFrom g video r j' := fun o hlow hhigh => h o (by omega) hhigh

theorem BlankFrom.full (g : Geometry) (video : Mem) (r : Nat) {j : Nat}
    (hj : g.columns.toNat ≤ j) : BlankFrom g video r j := by
  intro o hlow hhigh
  rw [Geometry.rowStart_succ] at hhigh
  omega

/-- Every row of the screen down to the cursor is blank behind its text, except for the row of the
cursor while there is no text on it. -/
def Clean (g : Geometry) (k : Console) (t : Text) : Prop :=
  ∀ r ≤ k.row.toNat, (r = k.row.toNat → t.last ≠ []) →
    BlankFrom g k.video r (t.row (t.lastIndex - k.row.toNat + r)).length

/-- A row without text that is passed over, and the first row of the screen when it is started,
are not cleared by the call: the row, or the one that a scroll pulls in, has to be blank, but for
the cell of the character. -/
def CoversBlank (g : Geometry) (k : Console) (c : Byte) : Prop :=
  StartsRow g k → c = 0x0A#8 ∨ startedRow g k = 0 →
    BlankFrom g k.video (nextRow g k) (if c = 0x0A#8 then 0 else 1)

section

variable {g : Geometry} {k : Console} {t : Text}

theorem clean_start (video : Mem) : Clean g ⟨video, 0, 0⟩ Text.empty := by
  intro r hr hlast
  exact absurd rfl (hlast (Nat.le_zero.mp hr))

/-- A new row leaves the rows above it clean, if the one that is left is. -/
theorem Clean.newline (h : Clean g k t) (hs : Shows g k t) (hrow : k.row.toNat ≤ g.lastRow.toNat)
    (hleft : t.last = [] → BlankFrom g k.video k.row.toNat 0) : Clean g k.newline t.newRow := by
  have hsucc : k.newline.row.toNat = k.row.toNat + 1 := by
    have := g.toNat_lastRow_lt
    show (k.row + 1).toNat = _
    bv_omega
  have hindex := hs.row_le
  intro r hr hlast
  rw [hsucc] at hr hlast ⊢
  have hle : r ≤ k.row.toNat := by
    have hne : r ≠ k.row.toNat + 1 := fun heq => hlast heq rfl
    omega
  rw [Text.lastIndex_newRow, Nat.add_sub_add_right, Text.row_newRow (by omega)]
  by_cases hempty : r = k.row.toNat ∧ t.last = []
  · obtain ⟨rfl, hempty⟩ := hempty
    exact (hleft hempty).mono (Nat.zero_le _)
  · exact h r hle fun heq hlast' => hempty ⟨heq, hlast'⟩

theorem Clean.wrap (h : Clean g k t) (hs : Shows g k t) (hC : 1 ≤ g.columns.toNat) :
    Clean g (k.wrap g) (t.wrap g.columns.toNat) := by
  have hcol := hs.column
  rw [Console.wrap, Text.wrap]
  by_cases hfull : g.columns.toNat ≤ t.last.length
  · rw [if_pos (by rwa [ge_iff_le, BitVec.le_def, hcol]), if_pos hfull]
    have hne : t.last ≠ [] := by
      intro hempty
      rw [hempty, List.length_nil] at hfull
      omega
    refine h.newline hs ?_ fun hempty => absurd hempty hne
    have hpending : k.row.toNat ≠ g.lastRow.toNat + 1 := fun heq => hne (hs.pending heq)
    have := hs.row_le_succ
    omega
  · rw [if_neg (by rwa [ge_iff_le, BitVec.le_def, hcol]), if_neg hfull]
    exact h

theorem Clean.scroll (h : Clean g k t) (hs : Shows g k t) : Clean g (k.scroll g) t := by
  obtain ⟨hrow, -, hvideo⟩ := hs.scroll_eq
  have hle := hs.row_le_succ
  have hindex := hs.row_le
  intro r hr hlast
  rw [hrow] at hr hlast ⊢
  have hsmall := g.rowStart_lt (r + 1) (by omega)
  intro o hlow hhigh
  rw [hvideo o (by omega)]
  by_cases hpending : k.row.toNat = g.lastRow.toNat + 1
  · have hscreen := Geometry.rowStart_mono (g := g) (show r + 1 ≤ g.lastRow.toNat + 1 by omega)
    have hr' : r < g.lastRow.toNat := by
      have hne : r ≠ g.lastRow.toNat := by
        intro heq
        exact hlast (by omega) (hs.pending hpending)
      omega
    have hrow' : t.lastIndex - min k.row.toNat g.lastRow.toNat + r
        = t.lastIndex - k.row.toNat + (r + 1) := by omega
    rw [hrow'] at hlow
    have hold := h (r + 1) (by omega) (by omega) (o + 2 * g.columns.toNat)
    rw [if_pos ⟨hpending, by omega⟩]
    rw [Geometry.rowStart_succ (r + 1), Geometry.rowStart_succ r] at hold
    rw [Geometry.rowStart_succ r] at hhigh
    exact hold (by omega) (by omega)
  · rw [if_neg (fun hin => hpending hin.1)]
    have hmin : min k.row.toNat g.lastRow.toNat = k.row.toNat := by omega
    rw [hmin] at hlow hlast hr
    exact h r hr hlast o hlow hhigh

/-- The row that a call comes to is blank when the one it comes from is. -/
theorem blankFrom_atRow_iff (hs : Shows g k t) (hC : 1 ≤ g.columns.toNat) (j : Nat) :
    BlankFrom g (k.atRow g).video (k.atRow g).row.toNat j
      ↔ BlankFrom g k.video (nextRow g k) j := by
  obtain ⟨hrow, -, -, hvideo⟩ := hs.atRow_eq hC
  have hle := hs.nextRow_le hC
  have hstarted := startedRow_le g k
  have hsmall := g.rowStart_lt (startedRow g k + 1) (by omega)
  rw [hrow]
  by_cases hpending : nextRow g k = g.lastRow.toNat + 1
  · have heq : startedRow g k = g.lastRow.toNat := by
      rw [startedRow, hpending]
      omega
    rw [heq] at hsmall ⊢
    have hnext := Geometry.rowStart_succ (g := g) g.lastRow.toNat
    have hnext' := Geometry.rowStart_succ (g := g) (g.lastRow.toNat + 1)
    have hmove : ∀ o < g.rowStart (g.lastRow.toNat + 1), videoByte (k.atRow g).video o
        = videoByte k.video (o + 2 * g.columns.toNat) := by
      intro o ho
      rw [hvideo o (by omega), if_pos ⟨hpending, ho⟩]
    rw [hpending]
    constructor
    · intro h o hlow hhigh
      have hold := h (o - 2 * g.columns.toNat) (by omega) (by omega)
      rw [hmove _ (by omega), Nat.sub_add_cancel (by omega)] at hold
      exact hold
    · intro h o hlow hhigh
      rw [hmove o hhigh]
      exact h _ (by omega) (by omega)
  · have heq : startedRow g k = nextRow g k := by
      unfold startedRow
      omega
    rw [heq] at hsmall ⊢
    have hsame : ∀ o < g.rowStart (nextRow g k + 1), videoByte (k.atRow g).video o
        = videoByte k.video o := by
      intro o ho
      rw [hvideo o (by omega), if_neg (fun hin => hpending hin.1)]
    constructor
    · intro h o hlow hhigh
      rw [← hsame o hhigh]
      exact h o hlow hhigh
    · intro h o hlow hhigh
      rw [hsame o hhigh]
      exact h o hlow hhigh

/-- What a call leaves of the memory it finds when it comes to its row, but for the cell of the
character. -/
theorem videoByte_put (hs : Shows g k t) (hC : 1 ≤ g.columns.toNat) {c : Byte} (hc : c ≠ 0x0A#8)
    {o : Nat} (ho : o < 2 ^ 32)
    (hne : o < g.rowStart (k.atRow g).row.toNat + 2 * (k.atRow g).column.toNat
      ∨ g.rowStart (k.atRow g).row.toNat + 2 * (k.atRow g).column.toNat + 2 ≤ o) :
    videoByte (consolePutc g k c).video o =
      if (k.atRow g).column = 0 ∧ g.rowStart (k.atRow g).row.toNat ≤ o
          ∧ o < g.rowStart (2 * (k.atRow g).row.toNat)
      then 0 else videoByte (k.atRow g).video o := by
  obtain ⟨hrow, -, hcol, -⟩ := hs.atRow_eq hC
  have hle : (k.atRow g).row.toNat ≤ g.lastRow.toNat := by
    rw [hrow]
    exact startedRow_le g k
  have hsame : (k.atStore g).row = (k.atRow g).row ∧ (k.atStore g).column = (k.atRow g).column := by
    show ((k.atRow g).clear g).row = _ ∧ ((k.atRow g).clear g).column = _
    rw [Console.clear]
    split
    · exact ⟨rfl, rfl⟩
    · exact ⟨rfl, rfl⟩
  have hstore := Shows.store_eq (k := k.atStore g) (by rw [hsame.1]; exact hle)
    (by rw [hsame.2]; exact hcol) c ho (by rw [hsame.1, hsame.2]; exact hne)
  rw [consolePutc, if_neg hc]
  exact hstore.trans (Shows.clear_eq hle ho)

/-- A newline keeps the rows clean when it covers a blank row. -/
theorem Clean.put_newline (h : Clean g k t) (hs : Shows g k t) (hC : 1 ≤ g.columns.toNat)
    (hcovers : CoversBlank g k 0x0A#8) :
    Clean g (consolePutc g k 0x0A#8) (t.put g.columns.toNat 0x0A#8) := by
  obtain ⟨hshows, hrow, -⟩ := hs.scroll_wrap hC
  obtain ⟨hwrap, -⟩ := hs.wrap hC
  have hclean := (h.wrap hs hC).scroll hwrap
  obtain ⟨-, hcol, -, -⟩ := hs.atRow_eq hC
  rw [consolePutc, Text.put, if_pos rfl, if_pos rfl]
  refine hclean.newline hshows hrow fun hempty => ?_
  have hzero : (k.atRow g).column = 0 := by
    apply BitVec.eq_of_toNat_eq
    rw [Console.atRow, hshows.column, hempty]
    rfl
  exact (blankFrom_atRow_iff hs hC 0).mpr (hcovers (hcol.mp hzero) (.inl rfl))

theorem row_put (g : Geometry) (k : Console) {c : Byte} (hc : c ≠ 0x0A#8) :
    (consolePutc g k c).row = (k.atRow g).row := by
  rw [consolePutc, if_neg hc]
  show ((k.atRow g).clear g).row = _
  rw [Console.clear]
  split <;> rfl

/-- A call leaves the rows above the one it writes to as they are. -/
theorem blankFrom_put_above (hs : Shows g k t) (hC : 1 ≤ g.columns.toNat) {c : Byte}
    (hc : c ≠ 0x0A#8) {r j : Nat} (hr : r < (k.atRow g).row.toNat)
    (h : BlankFrom g (k.atRow g).video r j) : BlankFrom g (consolePutc g k c).video r j := by
  obtain ⟨hrow, -, -, -⟩ := hs.atRow_eq hC
  have hle := startedRow_le g k
  have hsmall := g.rowStart_lt (r + 1) (by omega)
  have hmono := Geometry.rowStart_mono (g := g) (show r + 1 ≤ (k.atRow g).row.toNat from hr)
  intro o hlow hhigh
  rw [videoByte_put hs hC hc (by omega) (.inl (by omega)), if_neg (by omega)]
  exact h o hlow hhigh

/-- The row that a character is written to is blank behind it when it was blank there before, or
when it is cleared. -/
theorem blankFrom_put_row (hs : Shows g k t) (hC : 1 ≤ g.columns.toNat) {c : Byte}
    (hc : c ≠ 0x0A#8) :
    BlankFrom g (consolePutc g k c).video (k.atRow g).row.toNat ((k.atRow g).column.toNat + 1)
      ↔ ((k.atRow g).column = 0 → (k.atRow g).row.toNat = 0) →
        BlankFrom g (k.atRow g).video (k.atRow g).row.toNat ((k.atRow g).column.toNat + 1) := by
  obtain ⟨hrow, -, -, -⟩ := hs.atRow_eq hC
  have hle := startedRow_le g k
  have hsmall := g.rowStart_lt ((k.atRow g).row.toNat + 1) (by omega)
  have hput : ∀ o, g.rowStart (k.atRow g).row.toNat + 2 * ((k.atRow g).column.toNat + 1) ≤ o →
      o < g.rowStart ((k.atRow g).row.toNat + 1) → _ :=
    fun o hlow hhigh => videoByte_put (o := o) hs hC hc (by omega) (.inr (by omega))
  constructor
  · intro h hfirst o hlow hhigh
    have hbyte := h o hlow hhigh
    rw [hput o hlow hhigh, if_neg] at hbyte
    · exact hbyte
    · rintro ⟨hzero, hin, hin'⟩
      rw [hfirst hzero, Nat.mul_zero] at hin'
      rw [hfirst hzero] at hin
      omega
  · intro h o hlow hhigh
    rw [hput o hlow hhigh]
    split
    · rfl
    · next hout =>
      refine h ?_ o hlow hhigh
      intro hzero
      by_contra hpos
      have hmono := Geometry.rowStart_mono (g := g)
        (show (k.atRow g).row.toNat + 1 ≤ 2 * (k.atRow g).row.toNat by omega)
      exact hout ⟨hzero, by omega, by omega⟩

/-- Of the rows down to the cursor, only the one that is written can become unclean. -/
theorem clean_put_iff (hs : Shows g k t) (hC : 1 ≤ g.columns.toNat) {c : Byte} (hc : c ≠ 0x0A#8)
    (hclean : Clean g (k.atRow g) (t.wrap g.columns.toNat)) :
    Clean g (consolePutc g k c) (t.put g.columns.toNat c)
      ↔ BlankFrom g (consolePutc g k c).video (k.atRow g).row.toNat
          ((k.atRow g).column.toNat + 1) := by
  obtain ⟨hshows, -, -⟩ := hs.scroll_wrap hC
  have hcolumn : (k.atRow g).column.toNat = (t.wrap g.columns.toNat).last.length := hshows.column
  have hindex : (k.atRow g).row.toNat ≤ (t.wrap g.columns.toNat).lastIndex := hshows.row_le
  have habove := fun r j => blankFrom_put_above (r := r) (j := j) hs hC hc
  rw [Clean, row_put g k hc, Text.put, if_neg hc]
  generalize t.wrap g.columns.toNat = u at *
  have hlast : Text.row ⟨u.done, u.last ++ [c]⟩ u.lastIndex = u.last ++ [c] :=
    Text.row_lastIndex ⟨u.done, u.last ++ [c]⟩
  have hrow : ∀ r ≤ (k.atRow g).row.toNat,
      (Text.row ⟨u.done, u.last ++ [c]⟩ (u.lastIndex - (k.atRow g).row.toNat + r)).length
        = if r = (k.atRow g).row.toNat then (k.atRow g).column.toNat + 1
          else (u.row (u.lastIndex - (k.atRow g).row.toNat + r)).length := by
    intro r hr
    split
    · next heq =>
      rw [heq, Nat.sub_add_cancel hindex, hlast, List.length_append, List.length_singleton, hcolumn]
    · next hne =>
      have hlt : u.lastIndex - (k.atRow g).row.toNat + r < u.lastIndex := by omega
      rw [Text.row_of_lt (t := ⟨u.done, u.last ++ [c]⟩) hlt, Text.row_of_lt hlt]
  have hne : u.last ++ [c] ≠ [] := by simp
  constructor
  · intro h
    have hcursor := h (k.atRow g).row.toNat le_rfl fun _ => hne
    rw [show Text.lastIndex ⟨u.done, u.last ++ [c]⟩ = u.lastIndex from rfl, hrow _ le_rfl,
      if_pos rfl] at hcursor
    exact hcursor
  · intro h r hr _
    rw [show Text.lastIndex ⟨u.done, u.last ++ [c]⟩ = u.lastIndex from rfl, hrow r hr]
    by_cases heq : r = (k.atRow g).row.toNat
    · rw [if_pos heq, heq]
      exact h
    · rw [if_neg heq]
      exact habove r _ (by omega) (hclean r hr fun h => absurd h heq)

/-- A character keeps the rows clean exactly when it covers a blank row. -/
theorem Clean.put_char (h : Clean g k t) (hs : Shows g k t) (hC : 1 ≤ g.columns.toNat) {c : Byte}
    (hc : c ≠ 0x0A#8) :
    Clean g (consolePutc g k c) (t.put g.columns.toNat c) ↔ CoversBlank g k c := by
  obtain ⟨hshows, -, -⟩ := hs.scroll_wrap hC
  obtain ⟨hwrap, -⟩ := hs.wrap hC
  have hclean : Clean g (k.atRow g) (t.wrap g.columns.toNat) := (h.wrap hs hC).scroll hwrap
  have hcolumn : (k.atRow g).column.toNat = (t.wrap g.columns.toNat).last.length := hshows.column
  have hindex : (k.atRow g).row.toNat ≤ (t.wrap g.columns.toNat).lastIndex := hshows.row_le
  obtain ⟨hrow, hcol, -, -⟩ := hs.atRow_eq hC
  rw [clean_put_iff hs hC hc hclean, blankFrom_put_row hs hC hc, CoversBlank, if_neg hc, ← hcol]
  by_cases hzero : (k.atRow g).column = 0
  · rw [← blankFrom_atRow_iff hs hC, ← hrow, hzero]
    simp only [hc, false_or, forall_const]
    rfl
  · refine ⟨fun _ hstarts => absurd hstarts hzero, fun _ _ => ?_⟩
    have hlast : (t.wrap g.columns.toNat).last ≠ [] := by
      intro hempty
      rw [hempty] at hcolumn
      exact hzero (BitVec.eq_of_toNat_eq hcolumn)
    have hcursor := hclean (k.atRow g).row.toNat le_rfl fun _ => hlast
    rw [Nat.sub_add_cancel hindex, Text.row_lastIndex, ← hcolumn] at hcursor
    exact hcursor.mono (Nat.le_succ _)

/-- The rows stay clean in a run whose calls cover blank rows. -/
theorem clean_foldl (h : Clean g k t) (hs : Shows g k t) (hC : 1 ≤ g.columns.toNat) {s : List Byte}
    (hallowed : Allowed (consolePutc g) (CoversBlank g) k s) :
    Clean g (s.foldl (consolePutc g) k) (s.foldl (Text.put g.columns.toNat) t) := by
  induction s generalizing k t with
  | nil => exact h
  | cons c s ih =>
    obtain ⟨hc, hrest⟩ := hallowed
    refine ih ?_ (hs.put hC c) hrest
    by_cases hnewline : c = 0x0A#8
    · subst hnewline
      exact h.put_newline hs hC hc
    · exact (h.put_char hs hC hnewline).mpr hc

end

/-- After a run whose calls cover blank rows, a character leaves every row of the screen down to
the cursor blank behind its text exactly when it covers a blank row itself. -/
theorem console_blank_iff (g : Geometry) (hC : 1 ≤ g.columns.toNat) (video : Mem) (s : List Byte)
    (hallowed : Allowed (consolePutc g) (CoversBlank g) ⟨video, 0, 0⟩ s) (c : Byte)
    (hc : c ≠ 0x0A#8) :
    let k := s.foldl (consolePutc g) ⟨video, 0, 0⟩
    let k' := consolePutc g k c
    let t' := Text.ofBytes g.columns.toNat (s ++ [c])
    (∀ r ≤ k'.row.toNat,
        BlankFrom g k'.video r (t'.row (t'.lastIndex - k'.row.toNat + r)).length)
      ↔ CoversBlank g k c := by
  intro k k' t'
  have hshows : Shows g k (Text.ofBytes g.columns.toNat s) := (Shows.start video).foldl hC s
  have hclean : Clean g k (Text.ofBytes g.columns.toNat s) :=
    clean_foldl (clean_start video) (Shows.start video) hC hallowed
  have htext : t' = (Text.ofBytes g.columns.toNat s).put g.columns.toNat c := by
    show Text.ofBytes _ _ = _
    rw [Text.ofBytes, Text.ofBytes, List.foldl_append]
    rfl
  have hlast : t'.last ≠ [] := by
    rw [htext, Text.put, if_neg hc]
    simp
  rw [← hclean.put_char hshows hC hc, ← htext]
  exact ⟨fun h r hr _ => h r hr, fun h r hr => h r hr fun _ => hlast⟩

/-! ### Texts that cover nothing stale -/

/-- A newline ends a row that has text and room, and a character does not start the first row. -/
def Covered (columns : Nat) (t : Text) (c : Byte) : Prop :=
  (t.last ≠ [] ∧ t.last.length < columns) ∨ (c ≠ 0x0A#8 ∧ t.done ≠ [])

instance (columns : Nat) (t : Text) (c : Byte) : Decidable (Covered columns t c) :=
  inferInstanceAs (Decidable (_ ∨ _))

theorem Shows.coversBlank {g : Geometry} {k : Console} {t : Text} {c : Byte} (hs : Shows g k t)
    (hrows : 1 ≤ g.lastRow.toNat) (h : Covered g.columns.toNat t c) : CoversBlank g k c := by
  intro hstarts hfirst
  rcases h with ⟨htext, hroom⟩ | ⟨hc, hdone⟩
  · rw [StartsRow, hs.column] at hstarts
    have hpos := List.length_pos_iff.mpr htext
    omega
  · have hzero := hfirst.resolve_left hc
    have hrow : k.row.toNat = 0 := by
      unfold startedRow nextRow at hzero
      omega
    have hindex : t.lastIndex = 0 := by
      rcases hs.row_eq with heq | hge <;> omega
    exact absurd (List.length_eq_zero_iff.mp hindex) hdone

theorem Shows.allowed_coversBlank {g : Geometry} {k : Console} {t : Text} (hs : Shows g k t)
    (hC : 1 ≤ g.columns.toNat) (hrows : 1 ≤ g.lastRow.toNat) {s : List Byte}
    (h : Allowed (Text.put g.columns.toNat) (Covered g.columns.toNat) t s) :
    Allowed (consolePutc g) (CoversBlank g) k s := by
  induction s generalizing k t with
  | nil => trivial
  | cons c s ih => exact ⟨hs.coversBlank hrows h.1, ih (hs.put hC c) h.2⟩

/-- A screen with stale bytes on all of its rows but the first. -/
def staleVideo : Mem := ⟨fun a => if a < 0xC00B80A0#32 then 0 else 0xFF⟩

/-- An empty row, and a character on each of the next `n` rows. -/
def belowEmptyRow (n : Nat) : List Byte :=
  0x0A#8 :: (List.replicate n [0x41#8, 0x0A#8]).flatten

/-- The empty row is passed over, the stale rows are written, and the last character scrolls. -/
theorem console_blank_vga :
    let k := (belowEmptyRow 24).foldl (consolePutc vgaText) ⟨staleVideo, 0, 0⟩
    let k' := consolePutc vgaText k 0x42#8
    let t' := Text.ofBytes vgaText.columns.toNat (belowEmptyRow 24 ++ [0x42#8])
    videoByte staleVideo (vgaText.rowStart 1) = 0xFF#8 ∧ CoversBlank vgaText k 0x42#8 ∧
      k'.row.toNat = 24 ∧ t'.lastIndex = 25 ∧
      ∀ r ≤ 24, BlankFrom vgaText k'.video r (t'.row (1 + r)).length := by
  intro k k' t'
  have hC : 1 ≤ vgaText.columns.toNat := by decide
  have hstart : CoversBlank vgaText ⟨staleVideo, 0, 0⟩ 0x0A#8 := by
    intro _ _ o _ hhigh
    have ho : o < 160 := hhigh
    show (if videoBase + BitVec.ofNat 32 o < 0xC00B80A0#32 then (0 : Byte) else 0xFF) = 0
    rw [if_pos]
    rw [BitVec.lt_def, BitVec.toNat_add, BitVec.toNat_ofNat]
    show (0xC00B8000 + o % 2 ^ 32) % 2 ^ 32 < 0xC00B80A0
    omega
  have hput := (Shows.start staleVideo).put (g := vgaText) hC 0x0A#8
  have hallowed : Allowed (consolePutc vgaText) (CoversBlank vgaText) ⟨staleVideo, 0, 0⟩
      (belowEmptyRow 24) :=
    ⟨hstart, hput.allowed_coversBlank hC (by decide) (by decide)⟩
  have hshows : Shows vgaText k (Text.ofBytes vgaText.columns.toNat (belowEmptyRow 24)) :=
    (Shows.start staleVideo).foldl hC _
  have hcovers : CoversBlank vgaText k 0x42#8 := hshows.coversBlank (by decide) (by decide)
  have hindex : t'.lastIndex = 25 := by decide
  have hrow : k'.row.toNat = 24 := by
    have h := (hshows.put hC 0x42#8).row_eq_min (hshows.row_le_put hC (by decide))
    exact h.trans (by decide)
  have hblank := (console_blank_iff vgaText hC staleVideo _ hallowed 0x42#8 (by decide)).mpr hcovers
  refine ⟨by decide, hcovers, hrow, hindex, fun r hr => ?_⟩
  have h := hblank r (by rw [hrow]; exact hr)
  rw [hrow] at h
  rw [hindex] at h
  exact h

/-- The first row shows what has been in the video memory before. -/
theorem console_not_blank :
    let k' := consolePutc vgaText ⟨garbage, 0, 0⟩ 0x41#8
    let t' := Text.ofBytes vgaText.columns.toNat [0x41#8]
    ¬∀ r ≤ k'.row.toNat,
      BlankFrom vgaText k'.video r (t'.row (t'.lastIndex - k'.row.toNat + r)).length := by
  intro k' t' h
  have hblank := h 0 (Nat.zero_le _) 2 (by decide) (by decide)
  have hbyte := videoByte_put (Shows.start garbage) (g := vgaText) (c := 0x41#8) (o := 2)
    (by decide) (by decide) (by decide) (.inr (by decide))
  rw [if_neg (by decide)] at hbyte
  have hzero : (0 : Byte) = 0xFF := hblank.symm.trans hbyte
  exact absurd hzero (by decide)

end BasicX86Kernel
