import BasicX86Kernel.Mmu.Directory

/-! `paging_map_4kb` in a region that a 4 MiB page maps.  The call takes the frame of the 4 MiB page
for a page table and stores its entry there. -/

namespace BasicX86Kernel.Mmu

open Machine

/-- The byte at `x` belongs to `_pgdir` or to `_pgtbls`. -/
def InTables (L : Layout) (x : Word) : Prop :=
  (x - L.pgdir).toNat < 4096 ∨ (x - L.pgtbls).toNat < 40960

/-- The call stores outside no table, keeps the translations of the other pages of the region, and
maps its page to `phyaddr` or leaves it as it was. -/
structure SplitSafe (L : Layout) (s : System) (phyaddr linaddr flags : Word) : Prop where
  outside : ∀ x, ¬InTables L x → (pagingMap4kb L s phyaddr linaddr flags).mem.byte x = s.mem.byte x
  others : ∀ a, dirIndex a = dirIndex linaddr → tblIndex a ≠ tblIndex linaddr →
    translate (pagingMap4kb L s phyaddr linaddr flags).mem L.cr3 a = translate s.mem L.cr3 a
  page : (∀ a : Word, a >>> 12 = linaddr >>> 12 →
      translate (pagingMap4kb L s phyaddr linaddr flags).mem L.cr3 a =
        some (frame phyaddr ||| (a &&& 0xFFF#32))) ∨
    ∀ a : Word, a >>> 12 = linaddr >>> 12 →
      translate (pagingMap4kb L s phyaddr linaddr flags).mem L.cr3 a = translate s.mem L.cr3 a

/-- The frame of the 4 MiB page is a page table or the directory, or the word that the call stores
is already there. -/
def StoresInTables (L : Layout) (s : System) (phyaddr linaddr flags : Word) : Prop :=
  s.mem.entry (frame (pdeOf L s.mem linaddr) + kernelConfigVma) (tblIndex linaddr) =
      smallEntry phyaddr flags ∨
    (∃ t < 10, frame (pdeOf L s.mem linaddr) = L.tablePhys t) ∨
    frame (pdeOf L s.mem linaddr) = L.cr3

/-- Entry `j` of the page table that `pde` references, when `pde` is stored as the directory entry
of the region of `linaddr` through that entry's own table. -/
def selfPte (L : Layout) (m : Mem) (linaddr pde j : Word) : Word :=
  if frame pde = L.cr3 ∧ j = tblIndex linaddr then pde
  else m.entry (frame pde + kernelConfigVma) j

/-- The entry that the call stores, taken for the directory entry of the region, maps the pages of
the region where the 4 MiB page mapped them, and its own page there or to `phyaddr`. -/
def RegionReproduced (L : Layout) (s : System) (phyaddr linaddr flags : Word) : Prop :=
  let pde := smallEntry phyaddr flags
  if large pde then largeFrame pde = largeFrame (pdeOf L s.mem linaddr)
  else ∀ j : Word, j.toNat < 1024 →
    let pte := selfPte L s.mem linaddr pde j
    present pte = true ∧
      ((frame pte).toNat = (largeFrame (pdeOf L s.mem linaddr)).toNat + 4096 * j.toNat ∨
        j = tblIndex linaddr ∧ frame pte = frame phyaddr)

/-- When `paging_map_4kb` is safe inside a 4 MiB page. -/
def SplitCondition (L : Layout) (s : System) (phyaddr linaddr flags : Word) : Prop :=
  StoresInTables L s phyaddr linaddr flags ∧
    (frame (pdeOf L s.mem linaddr) = L.cr3 → tblIndex linaddr = dirIndex linaddr →
      RegionReproduced L s phyaddr linaddr flags)

/-- A page holds bytes of the tables only when it is one of them. -/
theorem inTables_iff {L : Layout} {b x : Word} (hb : Mem.PageAligned b)
    (hx : (x - b).toNat < 4096) : InTables L x ↔ b = L.pgdir ∨ ∃ t < 10, b = L.table t := by
  have hdir := L.pgdir_aligned
  have htbl := L.pgtbls_aligned
  have hend := L.pgtbls_end
  rw [Mem.PageAligned] at hb
  constructor
  · rintro (h | h)
    · left
      bv_omega
    · right
      refine ⟨(b.toNat - L.pgtbls.toNat) / 4096, by bv_omega, ?_⟩
      apply BitVec.eq_of_toNat_eq
      rw [L.toNat_table (by bv_omega)]
      bv_omega
  · rintro (rfl | ⟨t, ht, rfl⟩)
    · exact Or.inl hx
    · have := L.toNat_table ht
      right
      bv_omega

section Split

variable {L : Layout} {s : System} {p l f : Word}
  (hp : present (pdeOf L s.mem l) = true)
include hp

theorem map4kb_mem_large : (pagingMap4kb L s p l f).mem =
    s.mem.setEntry (frame (pdeOf L s.mem l) + kernelConfigVma) (tblIndex l) (smallEntry p f) := by
  rw [pagingMap4kb_mem_present L s p l f hp, pageTable_present hp]

theorem outside_iff : (∀ x, ¬InTables L x → (pagingMap4kb L s p l f).mem.byte x = s.mem.byte x) ↔
    StoresInTables L s p l f := by
  have halign := pageAligned_frame (pdeOf L s.mem l)
  have hidx := tblIndex_lt l
  rw [map4kb_mem_large hp, StoresInTables]
  constructor
  · intro h
    by_contra hno
    rw [not_or, not_or] at hno
    obtain ⟨hword, htbl, hdir⟩ := hno
    refine hword ?_
    rw [← Mem.entry_congr halign hidx fun x hx => h x ?_, Mem.entry_setEntry_same]
    rw [inTables_iff halign hx]
    rintro (heq | ⟨t, ht, heq⟩)
    · exact hdir (by rw [Layout.cr3, ← heq, BitVec.add_sub_cancel])
    · rw [← L.tablePhys_add_vma, add_vma_inj] at heq
      exact htbl ⟨t, ht, heq⟩
  · rintro (hword | hin) x hx
    · rw [← hword, Mem.setEntry_entry]
    · refine Mem.byte_setEntry_ne halign hidx ?_
      by_contra hlt
      refine hx ((inTables_iff halign (Nat.not_le.mp hlt)).mpr ?_)
      rcases hin with ⟨t, ht, heq⟩ | heq
      · exact Or.inr ⟨t, ht, by rw [heq, L.tablePhys_add_vma]⟩
      · exact Or.inl (by rw [heq, L.cr3_add_vma])

variable (hl : large (pdeOf L s.mem l) = true)
include hl

theorem translate_large {a : Word} (ha : dirIndex a = dirIndex l) :
    translate s.mem L.cr3 a = some (largeFrame (pdeOf L s.mem l) ||| (a &&& 0x3FFFFF#32)) := by
  rw [translate, walkAt_cr3, walk_large (by rw [ha]; exact hp) (by rw [ha]; exact hl), ha,
    Option.map_some]

/-- The region keeps its translations unless the call stores its entry as the region's own
directory entry. -/
theorem translate_map4kb_large {a : Word} (ha : dirIndex a = dirIndex l)
    (hself : frame (pdeOf L s.mem l) = L.cr3 → tblIndex l ≠ dirIndex l) :
    translate (pagingMap4kb L s p l f).mem L.cr3 a = translate s.mem L.cr3 a := by
  have hpde : pdeOf L (pagingMap4kb L s p l f).mem a = pdeOf L s.mem a := by
    refine entry_map4kb_ne L.pgdir_pageAligned (dirIndex_lt a) (Or.inr (Or.inr hp)) ?_
    rw [pageTable_present hp, ha]
    by_cases hdir : frame (pdeOf L s.mem l) = L.cr3
    · exact Or.inr (hself hdir).symm
    · exact Or.inl (add_vma_ne_pgdir hdir).symm
  rw [translate, translate, walkAt_cr3, walkAt_cr3]
  refine congrArg _ (walk_congr hpde fun _ hsmall => ?_)
  rw [ha] at hsmall
  exact absurd hl (ne_true_of_eq_false hsmall)

end Split

/-! ### The entry stored as the region's own directory entry -/

section Self

variable {L : Layout} {s : System} {p l f a : Word}
  (hp : present (pdeOf L s.mem l) = true) (hdir : frame (pdeOf L s.mem l) = L.cr3)

include hp hdir in
theorem entry_map4kb_self {j : Word} (hj : j.toNat < 1024) : (pagingMap4kb L s p l f).mem.entry
    (frame (smallEntry p f) + kernelConfigVma) j = selfPte L s.mem l (smallEntry p f) j := by
  rw [map4kb_mem_large hp, hdir, selfPte]
  split
  · next h => rw [h.1, h.2, Mem.entry_setEntry_same]
  · next h =>
    refine Mem.entry_setEntry_ne ?_ (pageAligned_frame _) (tblIndex_lt l) hj ?_
    · rw [L.cr3_add_vma]
      exact L.pgdir_pageAligned
    · rw [Ne, add_vma_inj, ← not_and_or]
      exact h

variable (hself : tblIndex l = dirIndex l)
include hp hdir hself

theorem pde_map4kb_self (ha : dirIndex a = dirIndex l) :
    pdeOf L (pagingMap4kb L s p l f).mem a = smallEntry p f := by
  rw [map4kb_mem_large hp, hdir, L.cr3_add_vma, pdeOf, ha, hself, Mem.entry_setEntry_same]

variable (hf : present f = true)
include hf

theorem translate_self_large (hle : large (smallEntry p f) = true) (ha : dirIndex a = dirIndex l) :
    translate (pagingMap4kb L s p l f).mem L.cr3 a =
      some (largeFrame (smallEntry p f) ||| (a &&& 0x3FFFFF#32)) := by
  have hpde := pde_map4kb_self (p := p) (f := f) hp hdir hself ha
  rw [translate_large (l := a) ?_ ?_ rfl, hpde]
  · rw [hpde, present_smallEntry, hf]
  · rw [hpde, hle]

theorem translate_self_small (hle : large (smallEntry p f) = false) (ha : dirIndex a = dirIndex l) :
    translate (pagingMap4kb L s p l f).mem L.cr3 a =
      if present (selfPte L s.mem l (smallEntry p f) (tblIndex a)) then
        some (frame (selfPte L s.mem l (smallEntry p f) (tblIndex a)) ||| (a &&& 0xFFF#32))
      else none := by
  have hpde := pde_map4kb_self (p := p) (f := f) hp hdir hself ha
  have htbl : HasTable L (pagingMap4kb L s p l f).mem a := by
    rw [HasTable, hpde, present_smallEntry]
    exact ⟨hf, hle⟩
  rw [translate_hasTable htbl, hpde, entry_map4kb_self hp hdir (tblIndex_lt a)]

variable (hl : large (pdeOf L s.mem l) = true)
include hl

/-- With a 4 MiB page in the stored entry, its frame has to be the one of the region. -/
theorem regionReproduced_large (hle : large (smallEntry p f) = true) :
    ((∀ a, dirIndex a = dirIndex l → tblIndex a ≠ tblIndex l →
        translate (pagingMap4kb L s p l f).mem L.cr3 a = translate s.mem L.cr3 a) →
      RegionReproduced L s p l f) ∧
    (RegionReproduced L s p l f → ∀ a, dirIndex a = dirIndex l →
      translate (pagingMap4kb L s p l f).mem L.cr3 a = translate s.mem L.cr3 a) := by
  simp only [RegionReproduced, hle, if_true]
  constructor
  · intro hothers
    obtain ⟨j, hj, hne⟩ : ∃ j : Word, j.toNat < 1024 ∧ j ≠ tblIndex l := by
      by_cases h0 : tblIndex l = 0
      · exact ⟨1, by decide, by rw [h0]; decide⟩
      · exact ⟨0, by decide, fun h => h0 h.symm⟩
    obtain ⟨a, ha, rfl⟩ := exists_address (dirIndex_lt l) hj
    have h := hothers a ha hne
    rw [translate_self_large hp hdir hself hf hle ha, translate_large hp hl ha, Option.some_inj,
      largeFrame_or_offset_inj] at h
    exact h
  · intro hsame a ha
    rw [translate_self_large hp hdir hself hf hle ha, translate_large hp hl ha, hsame]

/-- With a page table in the stored entry, page `a` keeps its translation when its entry there is
present and has the page's frame. -/
theorem translate_self_eq_iff (hle : large (smallEntry p f) = false)
    (ha : dirIndex a = dirIndex l) :
    translate (pagingMap4kb L s p l f).mem L.cr3 a = translate s.mem L.cr3 a ↔
      present (selfPte L s.mem l (smallEntry p f) (tblIndex a)) = true ∧
        (frame (selfPte L s.mem l (smallEntry p f) (tblIndex a))).toNat =
          (largeFrame (pdeOf L s.mem l)).toNat + 4096 * (tblIndex a).toNat := by
  rw [translate_self_small hp hdir hself hf hle ha, translate_large hp hl ha]
  split
  · next h => rw [Option.some_inj, frame_or_eq_largeFrame_or_iff, h, eq_self, true_and]
  · next h => simp [h]

omit hl in
theorem translate_self_phyaddr_iff (hle : large (smallEntry p f) = false)
    (ha : dirIndex a = dirIndex l) :
    translate (pagingMap4kb L s p l f).mem L.cr3 a = some (frame p ||| (a &&& 0xFFF#32)) ↔
      present (selfPte L s.mem l (smallEntry p f) (tblIndex a)) = true ∧
        frame (selfPte L s.mem l (smallEntry p f) (tblIndex a)) = frame p := by
  rw [translate_self_small hp hdir hself hf hle ha]
  split
  · next h => rw [Option.some_inj, frame_or_offset_inj, h, eq_self, true_and]
  · next h => simp [h]

theorem regionReproduced_iff :
    ((∀ a, dirIndex a = dirIndex l → tblIndex a ≠ tblIndex l →
        translate (pagingMap4kb L s p l f).mem L.cr3 a = translate s.mem L.cr3 a) ∧
      ((∀ a : Word, a >>> 12 = l >>> 12 → translate (pagingMap4kb L s p l f).mem L.cr3 a =
          some (frame p ||| (a &&& 0xFFF#32))) ∨
        ∀ a : Word, a >>> 12 = l >>> 12 →
          translate (pagingMap4kb L s p l f).mem L.cr3 a = translate s.mem L.cr3 a)) ↔
      RegionReproduced L s p l f := by
  cases hle : large (smallEntry p f) with
  | true =>
    obtain ⟨h1, h2⟩ := regionReproduced_large hp hdir hself hf hl hle
    refine ⟨fun h => h1 h.1, fun h => ⟨fun a ha _ => h2 h a ha, Or.inr fun a ha => ?_⟩⟩
    exact h2 h a ((page_eq_iff a l).mp ha).1
  | false =>
    simp only [RegionReproduced, hle, Bool.false_eq_true, if_false]
    constructor
    · rintro ⟨hothers, hpage⟩ j hj
      by_cases hjl : j = tblIndex l
      · subst hjl
        rcases hpage with h | h
        · have h := (translate_self_phyaddr_iff hp hdir hself hf hle rfl).mp (h l rfl)
          exact ⟨h.1, Or.inr ⟨rfl, h.2⟩⟩
        · have h := (translate_self_eq_iff hp hdir hself hf hl hle rfl).mp (h l rfl)
          exact ⟨h.1, Or.inl h.2⟩
      · obtain ⟨a, ha, rfl⟩ := exists_address (dirIndex_lt l) hj
        have h := (translate_self_eq_iff hp hdir hself hf hl hle ha).mp (hothers a ha hjl)
        exact ⟨h.1, Or.inl h.2⟩
    · intro h
      refine ⟨fun a ha hne => ?_, ?_⟩
      · obtain ⟨hpres, hframe⟩ := h _ (tblIndex_lt a)
        exact (translate_self_eq_iff hp hdir hself hf hl hle ha).mpr
          ⟨hpres, hframe.resolve_right fun h => hne h.1⟩
      · obtain ⟨hpres, hframe⟩ := h _ (tblIndex_lt l)
        rcases hframe with hframe | ⟨-, hframe⟩
        · right
          intro a ha
          obtain ⟨hd, hj⟩ := (page_eq_iff a l).mp ha
          rw [translate_self_eq_iff hp hdir hself hf hl hle hd, hj]
          exact ⟨hpres, hframe⟩
        · left
          intro a ha
          obtain ⟨hd, hj⟩ := (page_eq_iff a l).mp ha
          rw [translate_self_phyaddr_iff hp hdir hself hf hle hd, hj]
          exact ⟨hpres, hframe⟩

end Self

/-- `paging_map_4kb` with a present page is safe inside a 4 MiB page exactly when its store falls
into the tables, or changes nothing, and does not move the region. -/
theorem pagingMap4kb_splitSafe_iff (L : Layout) (s : System) (p l f : Word)
    (hp : present (pdeOf L s.mem l) = true) (hl : large (pdeOf L s.mem l) = true)
    (hf : present f = true) : SplitSafe L s p l f ↔ SplitCondition L s p l f := by
  constructor
  · intro h
    refine ⟨(outside_iff hp).mp h.outside, fun hdir hself => ?_⟩
    exact (regionReproduced_iff hp hdir hself hf hl).mp ⟨h.others, h.page⟩
  · rintro ⟨hstore, hregion⟩
    by_cases hself : frame (pdeOf L s.mem l) = L.cr3 ∧ tblIndex l = dirIndex l
    · obtain ⟨hothers, hpage⟩ := (regionReproduced_iff hp hself.1 hself.2 hf hl).mpr
        (hregion hself.1 hself.2)
      exact ⟨(outside_iff hp).mpr hstore, hothers, hpage⟩
    · have hall : ∀ a, dirIndex a = dirIndex l →
          translate (pagingMap4kb L s p l f).mem L.cr3 a = translate s.mem L.cr3 a := fun a ha =>
        translate_map4kb_large hp hl ha fun hdir hidx => hself ⟨hdir, hidx⟩
      exact ⟨(outside_iff hp).mpr hstore, fun a ha _ => hall a ha,
        Or.inr fun a ha => hall a ((page_eq_iff a l).mp ha).1⟩

/-- The directory entry of the kernel's first 4 MiB. -/
theorem pde_kernelPage (L : Layout) (s : System) {l : Word} (hl : dirIndex l = 768#32) :
    pdeOf L (pagingMap4mb L s 0#32 0xC0000000#32 0x3#32).mem l = 0x83#32 := by
  have hd : dirIndex l = dirIndex 0xC0000000#32 := hl
  rw [pde_map4mb_same hd]
  decide

/-- A second call finds the word that the first one stored. -/
theorem pagingMap4kb_splitSafe_kernelElf : SplitSafe kernelElf.toLayout
    (pagingMap4kb kernelElf.toLayout
      (pagingMap4mb kernelElf.toLayout System.blank 0#32 0xC0000000#32 0x3#32)
      0x7FE1000#32 0xC0005000#32 0x3#32) 0x7FE1000#32 0xC0005000#32 0x3#32 := by
  have hpde := pde_kernelPage kernelElf.toLayout System.blank (l := 0xC0005000#32) (by decide)
  generalize pagingMap4mb kernelElf.toLayout System.blank 0#32 0xC0000000#32 0x3#32 = s at hpde ⊢
  have hpres : present (pdeOf kernelElf.toLayout s.mem 0xC0005000#32) = true := by
    rw [hpde]
    decide
  have hframe : frame (0x83#32) = 0 := by decide
  have hpt : pageTable kernelElf.toLayout s.mem 0xC0005000#32 = 0 := by
    rw [pageTable_present hpres, hpde, hframe]
  have hcr3 : pageTable kernelElf.toLayout s.mem 0xC0005000#32 ≠ kernelElf.cr3 :=
    hpt ▸ kernelElf.cr3_ne_zero.symm
  have hpde' := (pde_map4kb_ne (p := 0x7FE1000#32) (f := 0x3#32) hcr3 (Or.inr hpres)).trans hpde
  refine (pagingMap4kb_splitSafe_iff _ _ _ _ _ ?_ ?_ ?_).mpr ⟨Or.inl ?_, fun hdir => ?_⟩
  · rw [hpde']
    decide
  · rw [hpde']
    decide
  · decide
  · rw [hpde', hframe, ← hpt]
    exact entry_map4kb_same
  · rw [hpde', hframe] at hdir
    exact absurd hdir.symm kernelElf.cr3_ne_zero

/-- The first call overwrites a word at physical address 0x14. -/
theorem pagingMap4kb_splitUnsafe_kernelElf :
    pdeOf kernelElf.toLayout (pagingMap4mb kernelElf.toLayout System.blank 0#32 0xC0000000#32
      0x3#32).mem 0xC0005000#32 = 0x83#32 ∧
    ¬SplitSafe kernelElf.toLayout
      (pagingMap4mb kernelElf.toLayout System.blank 0#32 0xC0000000#32 0x3#32)
      0x7FE1000#32 0xC0005000#32 0x3#32 := by
  have hpde := pde_kernelPage kernelElf.toLayout System.blank (l := 0xC0005000#32) (by decide)
  have hframe : frame (0x83#32) = 0 := by decide
  refine ⟨hpde, fun hsafe => ?_⟩
  rcases (outside_iff (by rw [hpde]; decide)).mp hsafe.outside with hword | ⟨t, ht, heq⟩ | heq
  · rw [hpde, hframe, entry_map4mb (by decide) (by decide) (by decide)] at hword
    rw [Mem.entry, read32_blank] at hword
    exact absurd hword (by decide)
  · rw [hpde, hframe] at heq
    exact kernelElf.tablePhys_ne_zero ht heq.symm
  · rw [hpde, hframe] at heq
    exact kernelElf.cr3_ne_zero heq.symm

end BasicX86Kernel.Mmu
