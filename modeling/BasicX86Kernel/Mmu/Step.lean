import BasicX86Kernel.Machine.Run
import BasicX86Kernel.Mmu.Tables

/-! Calls of the mapping functions as the steps of a machine: the entries and the walk after one
call, and the facts about the directory that every call keeps. -/

namespace BasicX86Kernel.Mmu

open Machine

inductive PagingCall
  | map4kb (phyaddr linaddr flags : Word)
  | map4mb (phyaddr linaddr flags : Word)

namespace PagingCall

def linaddr : PagingCall → Word
  | map4kb _ l _ | map4mb _ l _ => l

def flags : PagingCall → Word
  | map4kb _ _ f | map4mb _ _ f => f

end PagingCall

def pagingStep (L : Layout) (s : System) : PagingCall → System
  | .map4kb p l f => pagingMap4kb L s p l f
  | .map4mb p l f => pagingMap4mb L s p l f

@[simp] theorem pagingStep_cr3 (L : Layout) (s : System) (c : PagingCall) :
    (pagingStep L s c).cr3 = s.cr3 := by
  cases c <;> simp [pagingStep]

/-- The entry of `_pgdir` that covers `a`. -/
abbrev pdeOf (L : Layout) (m : Mem) (a : Word) : Word := m.entry L.pgdir (dirIndex a)

/-- The directory entry of `a` references a page table. -/
def HasTable (L : Layout) (m : Mem) (a : Word) : Prop :=
  present (pdeOf L m a) = true ∧ large (pdeOf L m a) = false

/-- The call does not take the page directory for a page table. -/
def SparesDirectory (L : Layout) (s : System) : PagingCall → Prop
  | .map4kb _ l _ => pageTable L s.mem l ≠ L.cr3
  | .map4mb .. => True

/-- The call is a `paging_map_4kb` that finds its directory entry not present. -/
def allocates (L : Layout) (s : System) : PagingCall → Bool
  | .map4kb _ l _ => !present (pdeOf L s.mem l)
  | .map4mb .. => false

/-- How many of the calls allocate a page table. -/
def allocations (L : Layout) : System → List PagingCall → Nat
  | _, [] => 0
  | s, c :: cs => (allocates L s c).toNat + allocations L (pagingStep L s c) cs

theorem allocations_le_length (L : Layout) (s : System) (cs : List PagingCall) :
    allocations L s cs ≤ cs.length := by
  induction cs generalizing s with
  | nil => exact le_rfl
  | cons c cs ih =>
    have hc := Bool.toNat_le (allocates L s c)
    have hcs := ih (pagingStep L s c)
    rw [allocations, List.length_cons]
    omega

theorem allocations_append_singleton (L : Layout) (s : System) (cs : List PagingCall)
    (c : PagingCall) : allocations L s (cs ++ [c]) =
      allocations L s cs + (allocates L (cs.foldl (pagingStep L) s) c).toNat := by
  induction cs generalizing s with
  | nil => simp [allocations]
  | cons d cs ih => simp [allocations, ih, Nat.add_assoc]

theorem pageTable_present {L : Layout} {m : Mem} {a : Word} (h : present (pdeOf L m a) = true) :
    pageTable L m a = frame (pdeOf L m a) := by
  rw [pageTable, if_pos h]

theorem pageTable_absent {L : Layout} {m : Mem} {a : Word} (h : present (pdeOf L m a) = false) :
    pageTable L m a = pagingFreeTable L m := by
  rw [pageTable, if_neg (by rw [h]; decide)]

theorem pageAligned_pageTable (L : Layout) (m : Mem) (a : Word) :
    Mem.PageAligned (pageTable L m a + kernelConfigVma) := by
  rw [pageTable]
  split
  · exact pageAligned_frame _
  · exact pageAligned_freeTable L m

/-- The translation through a page table. -/
theorem translate_hasTable {L : Layout} {m : Mem} {a : Word} (ha : HasTable L m a) :
    translate m L.cr3 a =
      let pte := m.entry (frame (pdeOf L m a) + kernelConfigVma) (tblIndex a)
      if present pte then some (frame pte ||| (a &&& 0xFFF#32)) else none := by
  obtain ⟨hp, hl⟩ := ha
  rw [translate, walkAt_cr3]
  simp only [walk, hp, hl, if_true, Bool.false_eq_true, if_false]
  split <;> rfl

theorem add_vma_ne_pgdir {L : Layout} {t : Word} (h : t ≠ L.cr3) : t + kernelConfigVma ≠ L.pgdir :=
  fun heq => h (by rw [Layout.cr3, ← heq, BitVec.add_sub_cancel])

theorem add_vma_inj {t u : Word} : t + kernelConfigVma = u + kernelConfigVma ↔ t = u :=
  BitVec.add_left_inj _

section Step

variable {L : Layout} {s : System} {p l f : Word}

/-! ### `paging_map_4mb` -/

theorem pde_map4mb_same {a : Word} (h : dirIndex a = dirIndex l) :
    pdeOf L (pagingMap4mb L s p l f).mem a = largeEntry p f := by
  rw [pagingMap4mb_mem, pdeOf, h, Mem.entry_setEntry_same]

theorem pde_map4mb_ne {a : Word} (h : dirIndex a ≠ dirIndex l) :
    pdeOf L (pagingMap4mb L s p l f).mem a = pdeOf L s.mem a := by
  rw [pagingMap4mb_mem]
  exact Mem.entry_setEntry_ne L.pgdir_pageAligned L.pgdir_pageAligned (dirIndex_lt l)
    (dirIndex_lt a) (Or.inr h)

theorem entry_map4mb {b j : Word} (hb : Mem.PageAligned b) (hj : j.toNat < 1024)
    (hne : b ≠ L.pgdir) : (pagingMap4mb L s p l f).mem.entry b j = s.mem.entry b j := by
  rw [pagingMap4mb_mem]
  exact Mem.entry_setEntry_ne L.pgdir_pageAligned hb (dirIndex_lt l) hj (Or.inl hne)

/-- A store to one directory entry leaves the walks of the other 4 MiB regions alone. -/
theorem walkAt_setPde_ne {m : Mem} {v a : Word} (h : dirIndex a ≠ dirIndex l)
    (ha : HasTable L m a → frame (pdeOf L m a) ≠ L.cr3) :
    walkAt (m.setEntry L.pgdir (dirIndex l) v) L.cr3 a = walkAt m L.cr3 a := by
  rw [walkAt_cr3, walkAt_cr3]
  refine walk_congr ?_ fun hp hl => ?_
  · exact Mem.entry_setEntry_ne L.pgdir_pageAligned L.pgdir_pageAligned (dirIndex_lt l)
      (dirIndex_lt a) (Or.inr h)
  · exact Mem.entry_setEntry_ne L.pgdir_pageAligned (pageAligned_frame _) (dirIndex_lt l)
      (tblIndex_lt a) (Or.inl (add_vma_ne_pgdir (ha ⟨hp, hl⟩)))

theorem walkAt_map4mb_ne {a : Word} (h : dirIndex a ≠ dirIndex l)
    (ha : HasTable L s.mem a → frame (pdeOf L s.mem a) ≠ L.cr3) :
    walkAt (pagingMap4mb L s p l f).mem L.cr3 a = walkAt s.mem L.cr3 a := by
  rw [pagingMap4mb_mem]
  exact walkAt_setPde_ne h ha

theorem walkAt_map4mb_same {a : Word} (h : dirIndex a = dirIndex l) (hf : f.toNat < 4096)
    (hp : present f = true) :
    (walkAt (pagingMap4mb L s p l f).mem L.cr3 a).map Translation.phys =
      some (largeFrame p ||| (a &&& 0x3FFFFF#32)) := by
  have hpde : (pagingMap4mb L s p l f).mem.entry L.pgdir (dirIndex a) = largeEntry p f :=
    pde_map4mb_same h
  rw [walkAt_cr3, walk_large (by rw [hpde, present_largeEntry, hp])
    (by rw [hpde, large_largeEntry]), hpde, largeFrame_largeEntry p hf]
  rfl

theorem walkAt_map4mb_absent {a : Word} (h : dirIndex a = dirIndex l) (hp : present f = false) :
    walkAt (pagingMap4mb L s p l f).mem L.cr3 a = none := by
  have hpde : (pagingMap4mb L s p l f).mem.entry L.pgdir (dirIndex a) = largeEntry p f :=
    pde_map4mb_same h
  rw [walkAt_cr3, walk_absent (by rw [hpde, present_largeEntry, hp])]

theorem largeAt_map4mb : largeAt (pagingMap4mb L s p l f).mem L.cr3 l = present f := by
  have hpde := pde_map4mb_same (L := L) (s := s) (p := p) (f := f) (a := l) rfl
  rw [pdeOf] at hpde
  rw [largeAt_cr3, hpde, present_largeEntry, large_largeEntry, Bool.and_true]

/-! ### `paging_map_4kb` -/

/-- The entry that `paging_map_4kb` writes last is the one it was asked for. -/
theorem entry_map4kb_same :
    (pagingMap4kb L s p l f).mem.entry (pageTable L s.mem l + kernelConfigVma) (tblIndex l) =
      smallEntry p f := by
  cases h : present (pdeOf L s.mem l) with
  | true => rw [pagingMap4kb_mem_present L s p l f h, Mem.entry_setEntry_same]
  | false =>
    rw [pageTable_absent h, pagingMap4kb_mem_absent L s p l f h, Mem.entry_setEntry_same]

theorem entry_map4kb_page (hl : HasTable L s.mem l) {a : Word} (hpage : a >>> 12 = l >>> 12) :
    (pagingMap4kb L s p l f).mem.entry (frame (pdeOf L s.mem a) + kernelConfigVma) (tblIndex a) =
      smallEntry p f := by
  obtain ⟨hd, hj⟩ := (page_eq_iff a l).mp hpage
  have hframe : frame (pdeOf L s.mem a) = pageTable L s.mem l := by
    rw [pageTable_present hl.1, pdeOf, hd]
  rw [hframe, hj, entry_map4kb_same]

theorem entry_map4kb_ne {b j : Word} (hb : Mem.PageAligned b) (hj : j.toNat < 1024)
    (hdir : b ≠ L.pgdir ∨ j ≠ dirIndex l ∨ present (pdeOf L s.mem l) = true)
    (hpt : b ≠ pageTable L s.mem l + kernelConfigVma ∨ j ≠ tblIndex l) :
    (pagingMap4kb L s p l f).mem.entry b j = s.mem.entry b j := by
  cases h : present (pdeOf L s.mem l) with
  | true =>
    rw [pagingMap4kb_mem_present L s p l f h]
    exact Mem.entry_setEntry_ne (pageAligned_pageTable L s.mem l) hb (tblIndex_lt l) hj hpt
  | false =>
    have hdir' : b ≠ L.pgdir ∨ j ≠ dirIndex l := by simpa [h] using hdir
    rw [pagingMap4kb_mem_absent L s p l f h]
    rw [pageTable_absent h] at hpt
    rw [Mem.entry_setEntry_ne (pageAligned_freeTable L s.mem) hb (tblIndex_lt l) hj hpt,
      Mem.entry_setEntry_ne L.pgdir_pageAligned hb (dirIndex_lt l) hj hdir']

theorem pde_map4kb_ne {a : Word} (hpt : pageTable L s.mem l ≠ L.cr3)
    (h : dirIndex a ≠ dirIndex l ∨ present (pdeOf L s.mem l) = true) :
    pdeOf L (pagingMap4kb L s p l f).mem a = pdeOf L s.mem a :=
  entry_map4kb_ne L.pgdir_pageAligned (dirIndex_lt a) (Or.inr h)
    (Or.inl (add_vma_ne_pgdir hpt).symm)

theorem pde_map4kb_absent {a : Word} (h : dirIndex a = dirIndex l)
    (hp : present (pdeOf L s.mem l) = false) :
    pdeOf L (pagingMap4kb L s p l f).mem a = tableEntry (pagingFreeTable L s.mem) := by
  rw [pagingMap4kb_mem_absent L s p l f hp, pdeOf, h,
    Mem.entry_setEntry_ne (pageAligned_freeTable L s.mem) L.pgdir_pageAligned (tblIndex_lt l)
      (dirIndex_lt l) (Or.inl (add_vma_ne_pgdir (freeTable_ne_cr3 L s.mem)).symm),
    Mem.entry_setEntry_same]

/-- After `paging_map_4kb` outside a 4 MiB page, the directory entry references the page table in
which the call stored its entry. -/
theorem hasTable_map4kb (hpt : pageTable L s.mem l ≠ L.cr3)
    (hlarge : present (pdeOf L s.mem l) = true → large (pdeOf L s.mem l) = false) :
    HasTable L (pagingMap4kb L s p l f).mem l ∧
      frame (pdeOf L (pagingMap4kb L s p l f).mem l) = pageTable L s.mem l := by
  cases h : present (pdeOf L s.mem l) with
  | true =>
    have hpde := pde_map4kb_ne (p := p) (f := f) (a := l) hpt (Or.inr h)
    rw [HasTable, hpde, pageTable_present h]
    exact ⟨⟨h, hlarge h⟩, rfl⟩
  | false =>
    have hpde := pde_map4kb_absent (p := p) (f := f) (a := l) rfl h
    rw [HasTable, hpde, pageTable_absent h, frame_tableEntry, frame_freeTable]
    exact ⟨⟨present_tableEntry _, large_tableEntry _⟩, rfl⟩

/-- The walk of the mapped page, whose rights are those of the two entries together. -/
theorem walkAt_map4kb_same {a : Word} (hpt : pageTable L s.mem l ≠ L.cr3)
    (hlarge : present (pdeOf L s.mem l) = true → large (pdeOf L s.mem l) = false)
    (hpage : a >>> 12 = l >>> 12) (hp : present f = true) :
    walkAt (pagingMap4kb L s p l f).mem L.cr3 a =
      some ⟨frame (smallEntry p f) ||| (a &&& 0xFFF#32),
        writable (pdeOf L (pagingMap4kb L s p l f).mem l) && writable f,
        user (pdeOf L (pagingMap4kb L s p l f).mem l) && user f⟩ := by
  obtain ⟨hd, ht⟩ := (page_eq_iff a l).mp hpage
  obtain ⟨⟨h1, h2⟩, h3⟩ := hasTable_map4kb (p := p) (f := f) hpt hlarge
  have hpte := entry_map4kb_same (L := L) (s := s) (p := p) (l := l) (f := f)
  rw [walkAt_cr3, walk_small] <;> simp only [hd, ht, h1, h2, h3, hpte, present_smallEntry, hp,
    writable_smallEntry, user_smallEntry]

/-- `paging_map_4kb` in a region without a page table leaves the other pages of that region
unmapped, when a table is left. -/
theorem walkAt_map4kb_fresh {a : Word} {t : Nat} (ht : t < 10)
    (habs : present (pdeOf L s.mem l) = false) (hfree : pagingFreeTable L s.mem = L.tablePhys t)
    (hunused : pagingTableUsed s.mem (L.table t) = false) (hd : dirIndex a = dirIndex l)
    (hne : tblIndex a ≠ tblIndex l) :
    walkAt (pagingMap4kb L s p l f).mem L.cr3 a = none := by
  have hpde : (pagingMap4kb L s p l f).mem.entry L.pgdir (dirIndex a) =
      tableEntry (L.tablePhys t) := (pde_map4kb_absent hd habs).trans (by rw [hfree])
  have hpte : (pagingMap4kb L s p l f).mem.entry (L.table t) (tblIndex a) =
      s.mem.entry (L.table t) (tblIndex a) :=
    entry_map4kb_ne (L.table_pageAligned ht) (tblIndex_lt a) (Or.inl (L.table_ne_pgdir ht))
      (Or.inr hne)
  rw [walkAt_cr3, walk_small_absent] <;> simp only [hpde, present_tableEntry, large_tableEntry,
    frame_tableEntry, L.frame_tablePhys ht, L.tablePhys_add_vma, hpte]
  exact pagingTableUsed_eq_false_iff.mp hunused _ (tblIndex_lt a)

/-- `paging_map_4kb` leaves a walk alone that does not start at a directory entry it fills and
does not end at the page-table entry it stores. -/
theorem walkAt_map4kb_ne {a : Word} (hpt : pageTable L s.mem l ≠ L.cr3)
    (h : dirIndex a ≠ dirIndex l ∨ present (pdeOf L s.mem l) = true)
    (ha : HasTable L s.mem a → frame (pdeOf L s.mem a) ≠ L.cr3)
    (hne : HasTable L s.mem a → frame (pdeOf L s.mem a) ≠ pageTable L s.mem l ∨
      tblIndex a ≠ tblIndex l) :
    walkAt (pagingMap4kb L s p l f).mem L.cr3 a = walkAt s.mem L.cr3 a := by
  rw [walkAt_cr3, walkAt_cr3]
  refine walk_congr (pde_map4kb_ne hpt h) fun hp hl => ?_
  refine entry_map4kb_ne (pageAligned_frame _) (tblIndex_lt a)
    (Or.inl (add_vma_ne_pgdir (ha ⟨hp, hl⟩))) ?_
  rw [Ne, add_vma_inj]
  exact hne ⟨hp, hl⟩

/-- A call that spares the directory leaves the entries of the other regions alone. -/
theorem pde_step_ne {c : PagingCall} (hc : SparesDirectory L s c) {a : Word}
    (hd : dirIndex a ≠ dirIndex c.linaddr) :
    pdeOf L (pagingStep L s c).mem a = pdeOf L s.mem a := by
  cases c with
  | map4mb p l f => exact pde_map4mb_ne hd
  | map4kb p l f => exact pde_map4kb_ne hc (Or.inl hd)

end Step

end BasicX86Kernel.Mmu
