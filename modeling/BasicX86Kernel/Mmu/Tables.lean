import BasicX86Kernel.Mmu.Paging

/-! The words that the mapping functions store, the entries of the page directory and of the page
tables after each of them, and the walk over `_pgdir`. -/

namespace BasicX86Kernel.Mmu

open Machine

/-! ### Entry words -/

/-- The directory entry that `paging_map_4mb` stores. -/
def largeEntry (phyaddr flags : Word) : Word :=
  (phyaddr &&& 0xFFC00000#32) ||| pagingPdeSize ||| flags

/-- The directory entry that `paging_map_4kb` stores for a table at `pgtbl`. -/
def tableEntry (pgtbl : Word) : Word :=
  (pgtbl &&& 0xFFFFF000#32) ||| pagingPdePresent ||| pagingPdeReadwrite ||| pagingPdeSupervisor

/-- The page-table entry that `paging_map_4kb` stores. -/
def smallEntry (phyaddr flags : Word) : Word := (phyaddr &&& 0xFFFFF000#32) ||| flags

section Entries

variable (p f t : Word)

theorem getLsbD_smallEntry {i : Nat} (hi : i < 12) : (smallEntry p f).getLsbD i = f.getLsbD i := by
  have h := getLsbD_frame (p := p) hi
  rw [frame] at h
  rw [smallEntry, BitVec.getLsbD_or, h, Bool.false_or]

@[simp] theorem present_smallEntry : present (smallEntry p f) = present f :=
  getLsbD_smallEntry p f (by decide)

@[simp] theorem writable_smallEntry : writable (smallEntry p f) = writable f :=
  getLsbD_smallEntry p f (by decide)

@[simp] theorem user_smallEntry : user (smallEntry p f) = user f :=
  getLsbD_smallEntry p f (by decide)

theorem frame_smallEntry {f : Word} (hf : f.toNat < 4096) : frame (smallEntry p f) = frame p :=
  frame_or hf

theorem getLsbD_largeEntry {i : Nat} (hi : i < 22) :
    (largeEntry p f).getLsbD i = (pagingPdeSize.getLsbD i || f.getLsbD i) := by
  have h := getLsbD_largeFrame (p := p) hi
  rw [largeFrame] at h
  rw [largeEntry, BitVec.getLsbD_or, BitVec.getLsbD_or, h, Bool.false_or]

@[simp] theorem present_largeEntry : present (largeEntry p f) = present f :=
  (getLsbD_largeEntry p f (by decide)).trans (Bool.false_or _)

@[simp] theorem large_largeEntry : large (largeEntry p f) = true :=
  (getLsbD_largeEntry p f (by decide)).trans (Bool.true_or _)

variable {f} in
theorem frame_largeEntry (hf : f.toNat < 4096) : frame (largeEntry p f) = largeFrame p := by
  have hp := toNat_largeFrame p
  have hlow : (pagingPdeSize ||| f).toNat < 4096 := by
    rw [BitVec.toNat_or]
    exact Nat.or_lt_two_pow (n := 12) (by decide) hf
  apply BitVec.eq_of_toNat_eq
  rw [largeEntry, BitVec.or_assoc, toNat_frame, ← largeFrame,
    toNat_or_low (k := 12) (by omega) hlow, hp]
  omega

variable {f} in
theorem largeFrame_largeEntry (hf : f.toNat < 4096) :
    largeFrame (largeEntry p f) = largeFrame p := by
  have h := congrArg BitVec.toNat (frame_largeEntry p hf)
  apply BitVec.eq_of_toNat_eq
  rw [toNat_frame, toNat_largeFrame] at h
  rw [toNat_largeFrame, toNat_largeFrame]
  generalize (largeEntry p f).toNat = e at h ⊢
  have hq : e / 4096 = p.toNat / 4194304 * 1024 := by omega
  rw [show 4194304 = 4096 * 1024 from rfl, ← Nat.div_div_eq_div_mul, hq,
    Nat.mul_div_cancel _ (by decide)]

theorem tableEntry_eq : tableEntry t = frame t ||| 3#32 := by
  have h : pagingPdePresent ||| (pagingPdeReadwrite ||| pagingPdeSupervisor) = 3#32 := by decide
  rw [tableEntry, BitVec.or_assoc, BitVec.or_assoc, h, frame]

theorem getLsbD_tableEntry {i : Nat} (hi : i < 12) :
    (tableEntry t).getLsbD i = (3#32).getLsbD i := by
  rw [tableEntry_eq, BitVec.getLsbD_or, getLsbD_frame hi, Bool.false_or]

@[simp] theorem present_tableEntry : present (tableEntry t) = true :=
  getLsbD_tableEntry t (by decide)

@[simp] theorem writable_tableEntry : writable (tableEntry t) = true :=
  getLsbD_tableEntry t (by decide)

@[simp] theorem user_tableEntry : user (tableEntry t) = false :=
  getLsbD_tableEntry t (by decide)

@[simp] theorem large_tableEntry : large (tableEntry t) = false :=
  getLsbD_tableEntry t (by decide)

@[simp] theorem frame_tableEntry : frame (tableEntry t) = frame t := by
  rw [tableEntry_eq]
  exact frame_or (by decide)

theorem and_present_eq_zero_iff (e : Word) : e &&& pagingPdePresent = 0 ↔ present e = false := by
  rw [show pagingPdePresent = BitVec.twoPow 32 0 by decide]
  exact and_twoPow_eq_zero_iff e (by decide)

theorem and_size_eq_zero_iff (e : Word) : e &&& pagingPdeSize = 0 ↔ large e = false := by
  rw [show pagingPdeSize = BitVec.twoPow 32 7 by decide]
  exact and_twoPow_eq_zero_iff e (by decide)

end Entries

/-! ### Addresses -/

theorem pageAligned_frame (e : Word) : Mem.PageAligned (frame e + kernelConfigVma) := by
  rw [Mem.PageAligned, BitVec.toNat_add, toNat_frame, toNat_kernelConfigVma]
  omega

namespace Layout

variable (L : Layout)

theorem pgdir_pageAligned : Mem.PageAligned L.pgdir := L.pgdir_aligned

theorem toNat_table {t : Nat} (ht : t < 10) : (L.table t).toNat = L.pgtbls.toNat + 4096 * t := by
  have := L.pgtbls_end
  rw [table, show (4096 : Word) = 4096#32 from rfl]
  simp only [BitVec.toNat_add, BitVec.toNat_mul, BitVec.toNat_ofNat]
  omega

theorem table_pageAligned {t : Nat} (ht : t < 10) : Mem.PageAligned (L.table t) := by
  have := L.pgtbls_aligned
  rw [Mem.PageAligned, L.toNat_table ht]
  omega

theorem table_injective {t u : Nat} (ht : t < 10) (hu : u < 10) (h : L.table t = L.table u) :
    t = u := by
  have := congrArg BitVec.toNat h
  rw [L.toNat_table ht, L.toNat_table hu] at this
  omega

theorem table_ne_pgdir {t : Nat} (ht : t < 10) : L.table t ≠ L.pgdir := by
  intro h
  have := congrArg BitVec.toNat h
  rw [L.toNat_table ht] at this
  have := L.disjoint
  omega

@[simp] theorem tablePhys_add_vma (t : Nat) : L.tablePhys t + kernelConfigVma = L.table t := by
  simp only [tablePhys, table]
  rw [add_right_comm, BitVec.sub_add_cancel]

theorem toNat_tablePhys {t : Nat} (ht : t < 10) :
    (L.tablePhys t).toNat = L.pgtbls.toNat - 0xC0000000 + 4096 * t := by
  have h := congrArg BitVec.toNat (L.tablePhys_add_vma t)
  have := L.pgtbls_image
  have := L.pgtbls_end
  have := (L.tablePhys t).isLt
  rw [L.toNat_table ht, BitVec.toNat_add, toNat_kernelConfigVma] at h
  omega

@[simp] theorem frame_tablePhys {t : Nat} (ht : t < 10) :
    frame (L.tablePhys t) = L.tablePhys t := by
  have := L.pgtbls_aligned
  have := L.pgtbls_image
  apply BitVec.eq_of_toNat_eq
  rw [toNat_frame, L.toNat_tablePhys ht]
  omega

theorem tablePhys_injective {t u : Nat} (ht : t < 10) (hu : u < 10)
    (h : L.tablePhys t = L.tablePhys u) : t = u :=
  L.table_injective ht hu (by rw [← tablePhys_add_vma, h, tablePhys_add_vma])

theorem tablePhys_ne_zero {t : Nat} (ht : t < 10) : L.tablePhys t ≠ 0 := by
  intro h
  have h0 : (L.tablePhys t).toNat = 0 := by rw [h]; rfl
  rw [L.toNat_tablePhys ht] at h0
  have := L.pgtbls_image
  omega

theorem toNat_cr3 : L.cr3.toNat = L.pgdir.toNat - 0xC0000000 := by
  have := L.pgdir_image
  have := L.pgdir.isLt
  rw [cr3, BitVec.toNat_sub, toNat_kernelConfigVma]
  omega

@[simp] theorem frame_cr3 : frame L.cr3 = L.cr3 := by
  have := L.pgdir_aligned
  have := L.pgdir_image
  apply BitVec.eq_of_toNat_eq
  rw [toNat_frame, L.toNat_cr3]
  omega

theorem cr3_ne_zero : L.cr3 ≠ 0 := by
  intro h
  have h0 : L.cr3.toNat = 0 := by rw [h]; rfl
  rw [L.toNat_cr3] at h0
  have := L.pgdir_image
  omega

@[simp] theorem cr3_add_vma : L.cr3 + kernelConfigVma = L.pgdir := BitVec.sub_add_cancel _ _

theorem tablePhys_ne_cr3 {t : Nat} (ht : t < 10) : L.tablePhys t ≠ L.cr3 := fun h =>
  L.table_ne_pgdir ht (by rw [← tablePhys_add_vma, h, cr3_add_vma])

end Layout

/-! ### The free table -/

section FreeTable

variable {L : Layout} {m : Mem}

theorem pagingTableUsed_iff {tbl : Word} :
    pagingTableUsed m tbl = true ↔ ∃ j : Word, j.toNat < 1024 ∧ present (m.entry tbl j) = true := by
  simp only [pagingTableUsed, List.any_eq_true, List.mem_range]
  constructor
  · rintro ⟨i, hi, h⟩
    exact ⟨BitVec.ofNat 32 i, by rw [BitVec.toNat_ofNat]; omega, h⟩
  · rintro ⟨j, hj, h⟩
    exact ⟨j.toNat, hj, by rwa [BitVec.ofNat_toNat, BitVec.setWidth_eq]⟩

theorem pagingTableUsed_eq_false_iff {tbl : Word} :
    pagingTableUsed m tbl = false ↔ ∀ j : Word, j.toNat < 1024 → present (m.entry tbl j) = false := by
  rw [← Bool.not_eq_true, pagingTableUsed_iff]
  push Not
  simp

theorem find?_unused_some {used : Nat → Bool} {n t : Nat}
    (h : (List.range n).find? (fun i => !used i) = some t) :
    t < n ∧ used t = false ∧ ∀ u < t, used u = true := by
  obtain ⟨ht, hmem, hlt⟩ := List.find?_range_eq_some.mp h
  exact ⟨List.mem_range.mp hmem, by simpa using ht, fun u hu => by simpa using hlt u hu⟩

theorem find?_unused_none {used : Nat → Bool} {n : Nat}
    (h : (List.range n).find? (fun i => !used i) = none) : ∀ t < n, used t = true := by
  intro t ht
  simpa using List.find?_eq_none.mp h t (List.mem_range.mpr ht)

theorem pagingTableUsed_congr {m' : Mem} {tbl : Word}
    (h : ∀ j : Word, j.toNat < 1024 → m'.entry tbl j = m.entry tbl j) :
    pagingTableUsed m' tbl = pagingTableUsed m tbl := by
  rw [Bool.eq_iff_iff, pagingTableUsed_iff, pagingTableUsed_iff]
  exact exists_congr fun j => and_congr_right fun hj => by rw [h j hj]

/-- `paging_get_page_table` hands out the first unused table, or `NULL` when all are used. -/
theorem pagingFreeTable_cases (L : Layout) (m : Mem) :
    (∃ t < 10, pagingFreeTable L m = L.tablePhys t ∧ pagingTableUsed m (L.table t) = false ∧
      ∀ u < t, pagingTableUsed m (L.table u) = true) ∨
    (pagingFreeTable L m = 0 ∧ ∀ t < 10, pagingTableUsed m (L.table t) = true) := by
  unfold pagingFreeTable
  generalize h : (List.range kernelConfigPagingPageTables).find?
      (fun idx => !pagingTableUsed m (L.table idx)) = found
  cases found with
  | some t =>
    obtain ⟨ht, hfree, hlt⟩ := find?_unused_some h
    exact Or.inl ⟨t, ht, rfl, hfree, hlt⟩
  | none => exact Or.inr ⟨rfl, find?_unused_none h⟩

theorem pageAligned_freeTable (L : Layout) (m : Mem) :
    Mem.PageAligned (pagingFreeTable L m + kernelConfigVma) := by
  rcases pagingFreeTable_cases L m with ⟨t, ht, h, -⟩ | ⟨h, -⟩
  · rw [h, L.tablePhys_add_vma]
    exact L.table_pageAligned ht
  · rw [h]
    exact (by decide : (0 + kernelConfigVma).toNat % 4096 = 0)

theorem frame_freeTable (L : Layout) (m : Mem) :
    frame (pagingFreeTable L m) = pagingFreeTable L m := by
  rcases pagingFreeTable_cases L m with ⟨t, ht, h, -⟩ | ⟨h, -⟩
  · rw [h, L.frame_tablePhys ht]
  · rw [h]
    decide

/-- The free table, or the page at physical address 0 in its place, is not the directory. -/
theorem freeTable_ne_cr3 (L : Layout) (m : Mem) : pagingFreeTable L m ≠ L.cr3 := by
  intro h
  rcases pagingFreeTable_cases L m with ⟨t, ht, h', -⟩ | ⟨h', -⟩
  · exact L.tablePhys_ne_cr3 ht (h'.symm.trans h)
  · exact L.cr3_ne_zero (h.symm.trans h')

end FreeTable

/-! ### The walk over `_pgdir` -/

theorem walkAt_cr3 (L : Layout) (m : Mem) (a : Word) :
    walkAt m L.cr3 a = walk (m.entry L.pgdir) (fun t => m.entry (t + kernelConfigVma)) a := by
  rw [walkAt, L.frame_cr3, L.cr3_add_vma]

theorem largeAt_cr3 (L : Layout) (m : Mem) (a : Word) :
    largeAt m L.cr3 a =
      (present (m.entry L.pgdir (dirIndex a)) && large (m.entry L.pgdir (dirIndex a))) := by
  rw [largeAt, L.frame_cr3, L.cr3_add_vma]

/-! ### The mapping functions -/

/-- The page table, by its physical address, in which `paging_map_4kb` stores its entry. -/
def pageTable (L : Layout) (m : Mem) (linaddr : Word) : Word :=
  if present (m.entry L.pgdir (dirIndex linaddr)) then frame (m.entry L.pgdir (dirIndex linaddr))
  else pagingFreeTable L m

section Map

variable (L : Layout) (s : System) (phyaddr linaddr flags : Word)

theorem pagingMap4mb_mem : (pagingMap4mb L s phyaddr linaddr flags).mem =
    s.mem.setEntry L.pgdir (dirIndex linaddr) (largeEntry phyaddr flags) := rfl

/-- With the directory entry present, the call stores one word. -/
theorem pagingMap4kb_present (h : present (s.mem.entry L.pgdir (dirIndex linaddr)) = true) :
    pagingMap4kb L s phyaddr linaddr flags =
      (s.store32 (pageTable L s.mem linaddr + kernelConfigVma + 4 * tblIndex linaddr)
        (smallEntry phyaddr flags)).invlpg linaddr := by
  have hp : ¬s.mem.entry L.pgdir (dirIndex linaddr) &&& pagingPdePresent = 0 := by
    rw [and_present_eq_zero_iff, h]
    decide
  rw [pageTable, if_pos h]
  rw [Mem.entry, dirIndex] at hp
  simp only [pagingMap4kb, if_neg hp]
  rfl

/-- With the directory entry not present, the call stores that entry first. -/
theorem pagingMap4kb_absent (h : present (s.mem.entry L.pgdir (dirIndex linaddr)) = false) :
    pagingMap4kb L s phyaddr linaddr flags =
      (((pagingGetPageTable L s).2.store32 (L.pgdir + 4 * dirIndex linaddr)
        (tableEntry (pagingFreeTable L s.mem))).store32
          (pagingFreeTable L s.mem + kernelConfigVma + 4 * tblIndex linaddr)
          (smallEntry phyaddr flags)).invlpg linaddr := by
  have hp : s.mem.entry L.pgdir (dirIndex linaddr) &&& pagingPdePresent = 0 := by
    rw [and_present_eq_zero_iff]
    exact h
  rw [Mem.entry, dirIndex] at hp
  simp only [pagingMap4kb, if_pos hp, pagingGetPageTable, pagingFlushPtblEntry,
    System.printk_mem]
  rfl

theorem pagingMap4kb_mem_present (h : present (s.mem.entry L.pgdir (dirIndex linaddr)) = true) :
    (pagingMap4kb L s phyaddr linaddr flags).mem =
      s.mem.setEntry (pageTable L s.mem linaddr + kernelConfigVma) (tblIndex linaddr)
        (smallEntry phyaddr flags) := by
  rw [pagingMap4kb_present L s phyaddr linaddr flags h]
  rfl

theorem pagingMap4kb_mem_absent (h : present (s.mem.entry L.pgdir (dirIndex linaddr)) = false) :
    (pagingMap4kb L s phyaddr linaddr flags).mem =
      (s.mem.setEntry L.pgdir (dirIndex linaddr) (tableEntry (pagingFreeTable L s.mem))).setEntry
        (pagingFreeTable L s.mem + kernelConfigVma) (tblIndex linaddr)
        (smallEntry phyaddr flags) := by
  rw [pagingMap4kb_absent L s phyaddr linaddr flags h]
  rfl

/-- What the call stores depends on the memory only. -/
theorem pagingMap4kb_mem_congr {s' : System} (h : s'.mem = s.mem) :
    (pagingMap4kb L s' phyaddr linaddr flags).mem = (pagingMap4kb L s phyaddr linaddr flags).mem := by
  cases hp : present (s.mem.entry L.pgdir (dirIndex linaddr)) with
  | true =>
    rw [pagingMap4kb_mem_present L s phyaddr linaddr flags hp,
      pagingMap4kb_mem_present L s' phyaddr linaddr flags (by rw [h, hp]), h]
  | false =>
    rw [pagingMap4kb_mem_absent L s phyaddr linaddr flags hp,
      pagingMap4kb_mem_absent L s' phyaddr linaddr flags (by rw [h, hp]), h]

@[simp] theorem pagingMap4mb_cr3 : (pagingMap4mb L s phyaddr linaddr flags).cr3 = s.cr3 := rfl

@[simp] theorem pagingMap4kb_cr3 : (pagingMap4kb L s phyaddr linaddr flags).cr3 = s.cr3 := by
  simp only [pagingMap4kb]
  split <;> rfl

@[simp] theorem pagingMap4mb_fills : (pagingMap4mb L s phyaddr linaddr flags).fills = s.fills := rfl

@[simp] theorem pagingMap4kb_fills :
    (pagingMap4kb L s phyaddr linaddr flags).fills = s.fills := by
  simp only [pagingMap4kb]
  split <;> rfl

end Map

end BasicX86Kernel.Mmu
