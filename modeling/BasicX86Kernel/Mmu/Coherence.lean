import BasicX86Kernel.Mmu.Init

/-! Coherence of the translation lookaside buffer with the tables through the mapping calls.  Each
call flushes the page of its own address.  That is not enough when `paging_map_4mb` takes a whole
region away: the other pages of the region stay cached. -/

namespace BasicX86Kernel.Mmu

open Machine

/-- The flush of the call covers everything that the call changes: a `paging_map_4mb` maps its
region or takes nothing away but its own page, and a `paging_map_4kb` stores neither in the
directory nor in an entry through which another region maps a page. -/
def FlushesAll (L : Layout) (s : System) : PagingCall → Prop
  | .map4mb _ l f => f.toNat < 0x1000 ∧ (present f = true ∨
      ∀ a : Word, dirIndex a = dirIndex l → a >>> 12 ≠ l >>> 12 → translate s.mem L.cr3 a = none)
  | .map4kb p l f => f.toNat < 0x1000 ∧ pageTable L s.mem l ≠ L.cr3 ∧
      ∀ a, HasTable L s.mem a → dirIndex a ≠ dirIndex l →
        frame (pdeOf L s.mem a) = pageTable L s.mem l →
        present (s.mem.entry (pageTable L s.mem l + kernelConfigVma) (tblIndex l)) = true →
        present f = true ∧ frame p =
          frame (s.mem.entry (pageTable L s.mem l + kernelConfigVma) (tblIndex l))

/-- Every cached translation, and every directory entry that the calls rely on, is in order. -/
structure CoherentState (L : Layout) (s : System) : Prop where
  cr3 : s.cr3 = L.cr3
  dirOk : DirOk L s.mem
  coherent : s.Coherent

section Step

variable {L : Layout} {s : System} {p l f : Word}

theorem toNat_pageOf_region (a : Word) : (pageOf a).toNat / 1024 = (dirIndex a).toNat := by
  rw [toNat_pageOf, toNat_dirIndex, Nat.div_div_eq_div_mul]

theorem dirIndex_eq_of_region {a b : Word} (h : (pageOf a).toNat / 1024 = (dirIndex b).toNat) :
    dirIndex a = dirIndex b :=
  BitVec.eq_of_toNat_eq ((toNat_pageOf_region a).symm.trans h)

theorem translate_map4mb_ne (h : DirOk L s.mem) {a : Word} (hd : dirIndex a ≠ dirIndex l) :
    translate (pagingMap4mb L s p l f).mem L.cr3 a = translate s.mem L.cr3 a := by
  rw [translate, translate, walkAt_map4mb_ne hd fun ha => h.tables.frame_ne_cr3 ha]

theorem CoherentState.map4mb (h : CoherentState L s) (hc : FlushesAll L s (.map4mb p l f)) :
    (pagingMap4mb L s p l f).Coherent := by
  obtain ⟨hf, hc⟩ := hc
  have hmem : s.mem.write32 (L.pgdir + 4 * dirIndex l) (largeEntry p f) =
      (pagingMap4mb L s p l f).mem := rfl
  cases hp : present f with
  | true =>
    -- the region is one page now, which the flush covers
    have hout : (s.store32 (L.pgdir + 4 * dirIndex l) (largeEntry p f)).CoherentOutside
        (fun q => q.toNat / 1024 = (dirIndex l).toNat) := by
      refine System.CoherentOutside.store32 (Tlb.Coherent.outside h.coherent) ?_
      intro a q ha htr
      rw [h.cr3, hmem, translate_map4mb_ne h.dirOk]
      · rwa [h.cr3] at htr
      · exact fun hd => ha ((toNat_pageOf_region a).trans (congrArg BitVec.toNat hd))
    refine hout.invlpg fun q hq => ?_
    rw [System.store32_mem, System.store32_cr3, h.cr3, hmem, Tlb.InPage, largeAt_map4mb, hp]
    exact hq
  | false =>
    -- the region is gone, and no page of it but the flushed one was mapped
    have hnone := hc.resolve_left (by rw [hp]; decide)
    have hout : (s.store32 (L.pgdir + 4 * dirIndex l) (largeEntry p f)).CoherentOutside
        (fun q => q = pageOf l) := by
      refine System.CoherentOutside.store32 (Tlb.Coherent.outside h.coherent) ?_
      intro a q ha htr
      rw [h.cr3] at htr ⊢
      by_cases hd : dirIndex a = dirIndex l
      · rw [hnone a hd fun hpage => ha ((pageOf_eq_iff a l).mpr hpage)] at htr
        exact absurd htr (by simp)
      · rw [hmem, translate_map4mb_ne h.dirOk hd, htr]
    refine hout.invlpg fun q hq => ?_
    rw [System.store32_mem, System.store32_cr3, h.cr3, hmem, Tlb.InPage, largeAt_map4mb, hp]
    exact hq

/-- The store of a page-table entry keeps the translations of the other pages, unless another
region maps a page through the same entry. -/
theorem translate_setPte {m : Mem} {t : Word} (hf : f.toNat < 0x1000) (ht : t ≠ L.cr3)
    (halign : Mem.PageAligned (t + kernelConfigVma))
    (hshare : ∀ a, HasTable L m a → dirIndex a ≠ dirIndex l → frame (pdeOf L m a) = t →
      present (m.entry (t + kernelConfigVma) (tblIndex l)) = true →
        present f = true ∧ frame p = frame (m.entry (t + kernelConfigVma) (tblIndex l)))
    {a q : Word} (ha : pageOf a ≠ pageOf l) (htr : translate m L.cr3 a = some q) :
    translate (m.setEntry (t + kernelConfigVma) (tblIndex l) (smallEntry p f)) L.cr3 a =
      some q := by
  have hpde : pdeOf L (m.setEntry (t + kernelConfigVma) (tblIndex l) (smallEntry p f)) a =
      pdeOf L m a :=
    Mem.entry_setEntry_ne halign L.pgdir_pageAligned (tblIndex_lt l) (dirIndex_lt a)
      (Or.inl (add_vma_ne_pgdir ht).symm)
  by_cases hsame : HasTable L m a ∧ frame (pdeOf L m a) = t ∧ tblIndex a = tblIndex l
  · obtain ⟨htbl, hframe, hj⟩ := hsame
    have hd : dirIndex a ≠ dirIndex l := fun hd =>
      ha ((pageOf_eq_iff a l).mpr ((page_eq_iff a l).mpr ⟨hd, hj⟩))
    have htbl' : HasTable L (m.setEntry (t + kernelConfigVma) (tblIndex l) (smallEntry p f)) a := by
      rwa [HasTable, hpde]
    rw [translate_hasTable htbl, hframe, hj] at htr
    rw [translate_hasTable htbl', hpde, hframe, hj, Mem.entry_setEntry_same]
    cases hold : present (m.entry (t + kernelConfigVma) (tblIndex l)) with
    | true =>
      obtain ⟨hpres, hfr⟩ := hshare a htbl hd hframe hold
      simp only [present_smallEntry, hpres, frame_smallEntry p hf, hfr, if_true]
      simpa only [hold, if_true] using htr
    | false =>
      simp only [hold] at htr
      exact absurd htr (by simp)
  · rw [← htr, translate, translate, walkAt_cr3, walkAt_cr3]
    refine congrArg _ (walk_congr hpde fun hp hl => ?_)
    refine Mem.entry_setEntry_ne halign (pageAligned_frame _) (tblIndex_lt l) (tblIndex_lt a) ?_
    rw [Ne, add_vma_inj, ← not_and_or]
    exact fun hboth => hsame ⟨⟨hp, hl⟩, hboth⟩

theorem CoherentState.map4kb (h : CoherentState L s) (hc : FlushesAll L s (.map4kb p l f)) :
    (pagingMap4kb L s p l f).Coherent := by
  obtain ⟨hf, hpt, hshare⟩ := hc
  have hstart : s.CoherentOutside (fun q => q = pageOf l) := Tlb.Coherent.outside h.coherent
  have hflush : ∀ (s' : System) (q : BitVec 20), q = pageOf l →
      Tlb.InPage (largeAt s'.mem s'.cr3) l q := fun s' q hq => hq ▸ Tlb.inPage_pageOf _ l
  have halign := pageAligned_pageTable L s.mem l
  cases habs : present (pdeOf L s.mem l) with
  | true =>
    rw [pagingMap4kb_present L s p l f habs]
    refine System.CoherentOutside.invlpg (hstart.store32 fun a q ha htr => ?_) (hflush _)
    rw [h.cr3] at htr ⊢
    exact translate_setPte hf hpt halign hshare ha htr
  | false =>
    have hfree := pageTable_absent habs
    rw [hfree] at hpt hshare halign
    rw [pagingMap4kb_absent L s p l f habs]
    generalize hs₁ : (pagingGetPageTable L s).2 = s₁
    have hmem : s₁.mem = s.mem := by rw [← hs₁]; rfl
    have hcr3 : s₁.cr3 = L.cr3 := by rw [← hs₁]; exact h.cr3
    have hstart₁ : s₁.CoherentOutside (fun q => q = pageOf l) := by rw [← hs₁]; exact hstart
    have hother : ∀ a, dirIndex a ≠ dirIndex l → pdeOf L (s.mem.setEntry L.pgdir (dirIndex l)
        (tableEntry (pagingFreeTable L s.mem))) a = pdeOf L s.mem a := fun a hd =>
      Mem.entry_setEntry_ne L.pgdir_pageAligned L.pgdir_pageAligned (dirIndex_lt l)
        (dirIndex_lt a) (Or.inr hd)
    refine System.CoherentOutside.invlpg (System.CoherentOutside.store32
      (hstart₁.store32 fun a q ha htr => ?_) fun a q ha htr => ?_) (hflush _)
    · -- the region was not mapped before its entry is stored
      rw [hcr3, hmem] at htr ⊢
      have hd : dirIndex a ≠ dirIndex l := fun hd => by
        rw [translate, walkAt_cr3, walk_absent (by rw [hd]; exact habs)] at htr
        exact absurd htr (by simp)
      rw [← htr, translate, translate]
      exact congrArg _ (walkAt_setPde_ne hd fun ha => h.dirOk.tables.frame_ne_cr3 ha)
    · have hset : s.mem.write32 (L.pgdir + 4 * dirIndex l) (tableEntry (pagingFreeTable L s.mem)) =
          s.mem.setEntry L.pgdir (dirIndex l) (tableEntry (pagingFreeTable L s.mem)) := rfl
      have hpte : (s.mem.setEntry L.pgdir (dirIndex l) (tableEntry (pagingFreeTable L s.mem))).entry
          (pagingFreeTable L s.mem + kernelConfigVma) (tblIndex l) =
            s.mem.entry (pagingFreeTable L s.mem + kernelConfigVma) (tblIndex l) :=
        Mem.entry_setEntry_ne L.pgdir_pageAligned halign (dirIndex_lt l) (tblIndex_lt l)
          (Or.inl (add_vma_ne_pgdir hpt))
      rw [System.store32_mem, System.store32_cr3, hcr3, hmem, hset] at htr ⊢
      refine translate_setPte hf hpt halign ?_ ha htr
      intro b hb hd hframe hpres
      rw [HasTable, hother b hd] at hb
      rw [hother b hd] at hframe
      rw [hpte] at hpres ⊢
      exact hshare b hb hd hframe hpres

end Step

theorem CoherentState.step {L : Layout} {s : System} (h : CoherentState L s) {c : PagingCall}
    (hc : FlushesAll L s c) : CoherentState L (pagingStep L s c) := by
  have hspares : SparesDirectory L s c := by
    cases c with
    | map4mb p l f => trivial
    | map4kb p l f => exact hc.2.1
  have hflags : c.flags.toNat < 0x1000 := by
    cases c with
    | map4mb p l f => exact hc.1
    | map4kb p l f => exact hc.1
  refine ⟨by rw [pagingStep_cr3, h.cr3], h.dirOk.step hspares hflags, ?_⟩
  cases c with
  | map4mb p l f => exact h.map4mb hc
  | map4kb p l f => exact h.map4kb hc

theorem coherentState_initEnd (I : Image) (s : System) :
    CoherentState I.toLayout (initEnd I s) :=
  ⟨rfl, (initialized_initEnd I s).dirOk, coherent_initEnd I s⟩

/-- After `paging_init` and any calls whose flushes cover what they change, whatever the processor
caches in between, every cached translation is the one that the tables give. -/
theorem pagingRun_coherent (I : Image) (s s' : System) (cs : List PagingCall)
    (hword : s.mem.read32 (I.kernelPhysicalEnd + kernelConfigVma) = 0)
    (hinit : pagingInit I s = some s')
    (hrun : Allowed (pagingStep I.toLayout) (FlushesAll I.toLayout) s' cs) :
    (cs.foldl (pagingStep I.toLayout) s').Coherent := by
  rw [pagingInit_of_zero hword] at hinit
  obtain rfl := Option.some_inj.mp hinit
  exact (hrun.invariant (coherentState_initEnd I s) fun _ _ h hc => h.step hc).coherent

/-- The page of the LAPIC may be cached when `paging_init` returns. -/
theorem lapic_cached_kernelElf :
    (⟨0xFEE00#20, 0xFEE00#20⟩ : TlbEntry) ∈ (initEnd kernelElf System.blank).tlb := by
  refine mem_tlb_initEnd (fun off => ?_) fun n => trivial
  rw [translate_initEnd]
  refine initCalls_apic (Or.inr ?_)
  have hpage : pageOf (0xFEE00#20 ++ off) = pageOf 0xFEE00000#32 := pageOf_append _ off
  exact (pageOf_eq_iff _ _).mp hpage

/-- Another page in place of the LAPIC's, which is cached, and then a 4 MiB page in place of their
region. -/
def replacingCalls : List PagingCall :=
  [.map4kb 0x00009000#32 0xFEE00000#32 0x3#32, .map4mb 0x00400000#32 0xFEC00000#32 0x3#32]

theorem pagingRun_coherent_kernelElf :
    let s := replacingCalls.foldl (pagingStep kernelElf.toLayout) (initEnd kernelElf System.blank)
    s.Coherent ∧ translate s.mem s.cr3 0xFEE00000#32 = some 0x00600000#32 ∧
      (⟨0xFEE00#20, 0xFEE00#20⟩ : TlbEntry) ∉ s.tlb := by
  have hinit := initialized_initEnd kernelElf System.blank
  have htable := hinit.apic 0xFEE00000#32 (by decide)
  -- the one region with a page table owns it
  have hfirst : FlushesAll kernelElf.toLayout (initEnd kernelElf System.blank)
      (.map4kb 0x00009000#32 0xFEE00000#32 0x3#32) := by
    refine ⟨by decide, ?_, fun a ha hd hframe => ?_⟩
    · rw [pageTable_present htable.1]
      exact hinit.inOrder.owned.frame_ne_cr3 htable
    · rw [pageTable_present htable.1] at hframe
      exact absurd (hinit.inOrder.owned.own a _ ha htable hframe) hd
  have hrun : Allowed (pagingStep kernelElf.toLayout) (FlushesAll kernelElf.toLayout)
      (initEnd kernelElf System.blank) replacingCalls :=
    ⟨hfirst, ⟨by decide, Or.inl (by decide)⟩, trivial⟩
  have hcoherent := pagingRun_coherent kernelElf System.blank _ _ (read32_blank _)
    (pagingInit_of_zero (read32_blank _)) hrun
  have hcr3 : (pagingMap4kb kernelElf.toLayout (initEnd kernelElf System.blank) 0x00009000#32
      0xFEE00000#32 0x3#32).cr3 = kernelElf.cr3 := pagingMap4kb_cr3 ..
  simp only [replacingCalls, List.foldl_cons, List.foldl_nil, pagingStep] at hcoherent ⊢
  generalize pagingMap4kb kernelElf.toLayout (initEnd kernelElf System.blank) 0x00009000#32
    0xFEE00000#32 0x3#32 = s at hcoherent hcr3 ⊢
  have htranslate : translate (pagingMap4mb kernelElf.toLayout s 0x00400000#32 0xFEC00000#32
      0x3#32).mem (pagingMap4mb kernelElf.toLayout s 0x00400000#32 0xFEC00000#32 0x3#32).cr3
      0xFEE00000#32 = some 0x00600000#32 := by
    have hsame := walkAt_map4mb_same (L := kernelElf.toLayout) (s := s) (p := 0x00400000#32)
      (l := 0xFEC00000#32) (f := 0x3#32) (a := 0xFEE00000#32) (by decide) (by decide) (by decide)
    rw [pagingMap4mb_cr3, hcr3, translate, hsame]
    decide
  refine ⟨hcoherent, htranslate, fun hcached => ?_⟩
  have hagrees := hcoherent _ hcached 0
  have hpage : 0xFEE00#20 ++ (0 : BitVec 12) = 0xFEE00000#32 := by decide
  rw [hpage, htranslate] at hagrees
  exact absurd hagrees (by decide)

/-! ### What stays cached -/

/-- A `paging_map_4mb` without a present page leaves the other pages of its region cached. -/
theorem not_coherent_map4mb {L : Layout} {s : System} {p l f : Word} (hcr3 : s.cr3 = L.cr3)
    (hp : present f = false) {e : TlbEntry} (he : e ∈ s.tlb)
    (hregion : e.page.toNat / 1024 = (dirIndex l).toNat) (hne : e.page ≠ pageOf l) :
    ¬(pagingMap4mb L s p l f).Coherent := by
  intro h
  have hkept : e ∈ (pagingMap4mb L s p l f).tlb := by
    refine Or.inl ⟨Or.inl he, ?_⟩
    have hlarge : largeAt (pagingMap4mb L s p l f).mem s.cr3 l = false := by
      rw [hcr3, largeAt_map4mb, hp]
    show ¬Tlb.InPage (largeAt (pagingMap4mb L s p l f).mem s.cr3) l e.page
    rw [Tlb.InPage, hlarge]
    exact hne
  have hagrees := h e hkept 0
  have hd : dirIndex (e.page ++ (0 : BitVec 12)) = dirIndex l :=
    dirIndex_eq_of_region (by rwa [pageOf_append])
  rw [pagingMap4mb_cr3, hcr3, translate, walkAt_map4mb_absent hd hp] at hagrees
  exact absurd hagrees (by simp)

/-- The page of the LAPIC is still cached after its region has been taken away. -/
theorem not_coherent_kernelElf :
    pagingInit kernelElf System.blank = some (initEnd kernelElf System.blank) ∧
      ¬(pagingStep kernelElf.toLayout (initEnd kernelElf System.blank)
        (.map4mb 0#32 0xFEC00000#32 0#32)).Coherent := by
  refine ⟨pagingInit_of_zero (s := System.blank) (read32_blank _), ?_⟩
  exact not_coherent_map4mb rfl (by decide) lapic_cached_kernelElf (by decide) (by decide)

end BasicX86Kernel.Mmu
