import BasicX86Kernel.Mmu.Owned
import Mathlib.Data.Finset.Card

/-! When two regions come to share a page table.  `paging_get_page_table` takes a table without a
present entry for an unreferenced one, so a table whose last page has been unmapped is handed out
again while its region still references it. -/

namespace BasicX86Kernel.Mmu

open Machine

/-- The call is a `paging_map_4kb` with any flags below 0x1000. -/
def PagingCall.Small : PagingCall → Prop
  | map4kb _ _ f => f.toNat < 0x1000
  | map4mb .. => False

/-- The 4 MiB regions that the calls use. -/
def regions (cs : List PagingCall) : Finset Word := (cs.map fun c => dirIndex c.linaddr).toFinset

/-- The flags of the last call for the page of `a`. -/
def lastFlags : List PagingCall → Word → Option Word :=
  lastWriter fun c a => if a >>> 12 = c.linaddr >>> 12 then some c.flags else none

/-- The last call for the page of `a` mapped it as present. -/
def lastPresent (cs : List PagingCall) (a : Word) : Bool := (lastFlags cs a).any present

/-- Some page of the region was last mapped as present. -/
def KeepsPage (cs : List PagingCall) (region : Word) : Prop :=
  ∃ a, dirIndex a = region ∧ lastPresent cs a = true

/-- If the call is the first of its region, every region used before it has kept a page. -/
def KeepsBefore (pre : List PagingCall) (c : PagingCall) : Prop :=
  dirIndex c.linaddr ∉ regions pre → ∀ r ∈ regions pre, KeepsPage pre r

/-- Every region has kept a page whenever a call is the first of its region. -/
def KeepsPages : List PagingCall → Prop := EachStep KeepsBefore

/-- Different directory entries that reference page tables reference different ones. -/
def NoAlias (L : Layout) (m : Mem) : Prop :=
  ∀ a b, HasTable L m a → HasTable L m b → frame (pdeOf L m a) = frame (pdeOf L m b) →
    dirIndex a = dirIndex b

/-- The table that `paging_get_page_table` would hand out is referenced by no directory entry. -/
def HandsOutUnreferenced (L : Layout) (m : Mem) : Prop :=
  ∀ a, HasTable L m a → frame (pdeOf L m a) ≠ pagingFreeTable L m

/-- The call leaves no aliases, and a table that it hands out was unreferenced. -/
def StepAliasFree (L : Layout) (s : System) (c : PagingCall) : Prop :=
  NoAlias L (pagingStep L s c).mem ∧ (allocates L s c = true → HandsOutUnreferenced L s.mem)

/-- No call of the run from `s` leaves aliases or hands out a referenced table. -/
def AliasFree (L : Layout) (s : System) : List PagingCall → Prop :=
  EachStep fun pre c => StepAliasFree L (pre.foldl (pagingStep L) s) c

theorem mem_regions {cs : List PagingCall} {r : Word} :
    r ∈ regions cs ↔ ∃ c ∈ cs, dirIndex c.linaddr = r := by
  simp [regions]

theorem regions_append_singleton (cs : List PagingCall) (c : PagingCall) :
    regions (cs ++ [c]) = insert (dirIndex c.linaddr) (regions cs) := by
  ext r
  simp [regions, eq_comm]

theorem lastFlags_same {cs : List PagingCall} {c : PagingCall} {a : Word}
    (h : a >>> 12 = c.linaddr >>> 12) : lastFlags (cs ++ [c]) a = some c.flags :=
  lastWriter_of_write (if_pos h)

theorem lastFlags_ne {cs : List PagingCall} {c : PagingCall} {a : Word}
    (h : a >>> 12 ≠ c.linaddr >>> 12) : lastFlags (cs ++ [c]) a = lastFlags cs a :=
  lastWriter_of_none (if_neg h)

theorem lastPresent_same {cs : List PagingCall} {c : PagingCall} {a : Word}
    (h : a >>> 12 = c.linaddr >>> 12) : lastPresent (cs ++ [c]) a = present c.flags := by
  rw [lastPresent, lastFlags_same h]
  rfl

theorem lastPresent_ne {cs : List PagingCall} {c : PagingCall} {a : Word}
    (h : a >>> 12 ≠ c.linaddr >>> 12) : lastPresent (cs ++ [c]) a = lastPresent cs a := by
  rw [lastPresent, lastFlags_ne h, ← lastPresent]

theorem present_of_lastPresent_singleton {c : PagingCall} {a : Word}
    (h : lastPresent [c] a = true) : present c.flags = true := by
  rw [← List.nil_append [c]] at h
  by_cases hpage : a >>> 12 = c.linaddr >>> 12
  · rwa [lastPresent_same hpage] at h
  · rw [lastPresent_ne hpage] at h
    exact absurd h Bool.false_ne_true

theorem lastFlags_eq_none {cs : List PagingCall} {a : Word} (h : dirIndex a ∉ regions cs) :
    lastFlags cs a = none := by
  induction cs using List.reverseRecOn with
  | nil => rfl
  | append_singleton cs c ih =>
    rw [regions_append_singleton, Finset.mem_insert, not_or] at h
    rw [lastFlags_ne fun heq => h.1 ((page_eq_iff _ _).mp heq).1, ih h.2]

/-- While the calls keep pages, the used regions own the first page tables, and an entry is present
when the last call for its page asked for that. -/
structure Tracks (L : Layout) (cs : List PagingCall) (m : Mem) : Prop where
  owned : Owned L (regions cs).card m
  region : ∀ a, dirIndex a ∈ regions cs → HasTable L m a
  absent : ∀ a, dirIndex a ∉ regions cs → present (pdeOf L m a) = false
  owner : ∀ t < (regions cs).card, ∃ a, HasTable L m a ∧ frame (pdeOf L m a) = L.tablePhys t
  entry : ∀ a, HasTable L m a →
    present (m.entry (frame (pdeOf L m a) + kernelConfigVma) (tblIndex a)) = lastPresent cs a
  unused : ∀ t < 10, (regions cs).card ≤ t → pagingTableUsed m (L.table t) = false

namespace Tracks

variable {L : Layout} {cs : List PagingCall} {m : Mem} {s : System} {p l f : Word}

theorem of_zeroed (hz : Zeroed L m) : Tracks L [] m where
  owned := Owned.of_zeroed hz
  region a ha := by simp [regions] at ha
  absent a _ := hz.absent a
  owner t ht := by simp [regions] at ht
  entry a ha := (hz.not_hasTable a ha).elim
  unused t ht _ := hz.unused ht

theorem mem_regions_of_hasTable (h : Tracks L cs m) {a : Word} (ha : HasTable L m a) :
    dirIndex a ∈ regions cs := by
  by_contra hno
  exact absurd ha.1 (ne_true_of_eq_false (h.absent a hno))

/-- The table of a region is in use when the region keeps a page. -/
theorem tableUsed_iff (h : Tracks L cs m) {a : Word} {t : Nat} (ha : HasTable L m a)
    (ht : frame (pdeOf L m a) = L.tablePhys t) :
    pagingTableUsed m (L.table t) = true ↔ KeepsPage cs (dirIndex a) := by
  rw [pagingTableUsed_iff, KeepsPage]
  constructor
  · rintro ⟨j, hj, hpres⟩
    obtain ⟨b, hb, rfl⟩ := exists_address (dirIndex_lt a) hj
    have hpde : pdeOf L m b = pdeOf L m a := by rw [pdeOf, hb]
    refine ⟨b, hb, ?_⟩
    rw [← h.entry b (by rwa [HasTable, hpde]), hpde, ht, L.tablePhys_add_vma, hpres]
  · rintro ⟨b, hb, hlast⟩
    have hpde : pdeOf L m b = pdeOf L m a := by rw [pdeOf, hb]
    refine ⟨tblIndex b, tblIndex_lt b, ?_⟩
    rw [← h.entry b (by rwa [HasTable, hpde]), hpde, ht, L.tablePhys_add_vma] at hlast
    exact hlast

/-- When every region keeps a page, the next table is handed out. -/
theorem freeTable (h : Tracks L cs m) (hcard : (regions cs).card < 10)
    (hkeep : ∀ r ∈ regions cs, KeepsPage cs r) :
    pagingFreeTable L m = L.tablePhys (regions cs).card := by
  refine pagingFreeTable_eq hcard (h.unused _ hcard le_rfl) fun t ht => ?_
  obtain ⟨a, ha, hframe⟩ := h.owner t ht
  exact (h.tableUsed_iff ha hframe).mpr (hkeep _ (h.mem_regions_of_hasTable ha))

/-- When a region has lost all its pages, a table is handed out that some region references. -/
theorem freeTable_referenced (h : Tracks L cs m) {r : Word} (hr : r ∈ regions cs)
    (hlost : ¬KeepsPage cs r) :
    ∃ a, HasTable L m a ∧ frame (pdeOf L m a) = pagingFreeTable L m := by
  obtain ⟨c, -, rfl⟩ := mem_regions.mp hr
  have hc := h.region _ hr
  obtain ⟨t, ht, htk, hframe⟩ := h.owned.table _ hc
  rw [← h.tableUsed_iff hc hframe, Bool.not_eq_true] at hlost
  rcases pagingFreeTable_cases L m with ⟨u, hu, heq, -, hlt⟩ | ⟨-, hall⟩
  · have hut : u ≤ t := by
      by_contra hno
      exact absurd (hlt t (by omega)) (ne_true_of_eq_false hlost)
    obtain ⟨a, ha, hframe'⟩ := h.owner u (by omega)
    exact ⟨a, ha, by rw [hframe', heq]⟩
  · exact absurd (hall t ht) (ne_true_of_eq_false hlost)

/-- A further call in a used region. -/
theorem map4kb_used (h : Tracks L cs s.mem) (hl : dirIndex l ∈ regions cs) :
    Tracks L (cs ++ [.map4kb p l f]) (pagingMap4kb L s p l f).mem := by
  have htbl := h.region l hl
  have hpde := h.owned.pde_map4kb (p := p) (f := f) htbl
  have hregions : regions (cs ++ [.map4kb p l f]) = regions cs := by
    rw [regions_append_singleton]
    exact Finset.insert_eq_self.mpr hl
  obtain ⟨t, ht, htk, hpt⟩ := h.owned.pageTable_eq htbl
  have hasTable : ∀ a, HasTable L (pagingMap4kb L s p l f).mem a ↔ HasTable L s.mem a := fun a => by
    rw [HasTable, hpde, ← HasTable]
  refine ⟨?_, ?_, ?_, ?_, ?_, ?_⟩
  · rw [hregions]
    exact h.owned.map4kb_table htbl
  · intro a ha
    rw [hregions] at ha
    exact (hasTable a).mpr (h.region a ha)
  · intro a ha
    rw [hregions] at ha
    rw [hpde]
    exact h.absent a ha
  · intro u hu
    rw [hregions] at hu
    obtain ⟨a, ha, hframe⟩ := h.owner u hu
    refine ⟨a, (hasTable a).mpr ha, ?_⟩
    rw [hpde, hframe]
  · intro a ha
    rw [hasTable] at ha
    rw [hpde]
    by_cases hpage : a >>> 12 = l >>> 12
    · rw [lastPresent_same (c := .map4kb p l f) hpage, entry_map4kb_page htbl hpage, present_smallEntry]
      rfl
    · rw [lastPresent_ne (c := .map4kb p l f) hpage, h.owned.entry_map4kb_ne htbl ha hpage, h.entry a ha]
  · intro u hu hku
    rw [hregions] at hku
    rw [tableUsed_map4kb_ne ht hu (by omega) hpt, h.unused u hu hku]

/-- The first call in a region, while all regions keep a page. -/
theorem map4kb_new (h : Tracks L cs s.mem) (hl : dirIndex l ∉ regions cs)
    (hcard : (regions cs).card < 10) (hkeep : ∀ r ∈ regions cs, KeepsPage cs r) :
    Tracks L (cs ++ [.map4kb p l f]) (pagingMap4kb L s p l f).mem := by
  have habs := h.absent l hl
  have hfree := h.freeTable hcard hkeep
  have hpt : pageTable L s.mem l = L.tablePhys (regions cs).card :=
    (pageTable_absent habs).trans hfree
  have hcr3 : pageTable L s.mem l ≠ L.cr3 := hpt ▸ L.tablePhys_ne_cr3 hcard
  have hcard' : (insert (dirIndex l) (regions cs)).card = (regions cs).card + 1 :=
    Finset.card_insert_of_notMem hl
  obtain ⟨hnew, hframe⟩ := hasTable_map4kb (p := p) (f := f) hcr3
    fun hp => absurd hp (ne_true_of_eq_false habs)
  have hsame : ∀ a, dirIndex a = dirIndex l → pdeOf L (pagingMap4kb L s p l f).mem a =
      pdeOf L (pagingMap4kb L s p l f).mem l := fun a ha => by rw [pdeOf, ha]
  have hother : ∀ a, dirIndex a ≠ dirIndex l →
      pdeOf L (pagingMap4kb L s p l f).mem a = pdeOf L s.mem a := fun a ha =>
    pde_map4kb_ne hcr3 (Or.inl ha)
  have hregions : regions (cs ++ [.map4kb p l f]) = insert (dirIndex l) (regions cs) :=
    regions_append_singleton cs _
  refine ⟨?_, ?_, ?_, ?_, ?_, ?_⟩
  · rw [hregions, hcard']
    exact h.owned.map4kb_absent hcard habs hfree
  · intro a ha
    rw [hregions] at ha
    by_cases hd : dirIndex a = dirIndex l
    · rwa [HasTable, hsame a hd]
    · rw [HasTable, hother a hd]
      exact h.region a (Finset.mem_of_mem_insert_of_ne ha hd)
  · intro a ha
    rw [hregions, Finset.mem_insert, not_or] at ha
    rw [hother a ha.1]
    exact h.absent a ha.2
  · intro t ht
    rw [hregions, hcard'] at ht
    rcases Nat.lt_succ_iff_lt_or_eq.mp ht with hlt | rfl
    · obtain ⟨a, ha, hfr⟩ := h.owner t hlt
      have hne : dirIndex a ≠ dirIndex l := fun heq =>
        hl (heq ▸ h.mem_regions_of_hasTable ha)
      refine ⟨a, ?_, ?_⟩
      · rwa [HasTable, hother a hne]
      · rwa [hother a hne]
    · exact ⟨l, hnew, hframe.trans hpt⟩
  · intro a ha
    by_cases hd : dirIndex a = dirIndex l
    · rw [hsame a hd, hframe]
      by_cases hj : tblIndex a = tblIndex l
      · rw [lastPresent_same (c := .map4kb p l f) ((page_eq_iff a l).mpr ⟨hd, hj⟩), hj, entry_map4kb_same,
          present_smallEntry]
        rfl
      · have hpage : a >>> 12 ≠ l >>> 12 := fun heq => hj ((page_eq_iff a l).mp heq).2
        rw [lastPresent_ne (c := .map4kb p l f) hpage, lastPresent, lastFlags_eq_none (hd ▸ hl), hpt,
          L.tablePhys_add_vma, entry_map4kb_ne (L.table_pageAligned hcard) (tblIndex_lt a)
            (Or.inl (L.table_ne_pgdir hcard)) (Or.inr hj)]
        exact pagingTableUsed_eq_false_iff.mp (h.unused _ hcard le_rfl) _ (tblIndex_lt a)
    · rw [HasTable, hother a hd] at ha
      have hpage : a >>> 12 ≠ l >>> 12 := fun heq => hd ((page_eq_iff a l).mp heq).1
      have hne : frame (pdeOf L s.mem a) ≠ pageTable L s.mem l := by
        obtain ⟨t, ht, htk, hfr⟩ := h.owned.table a ha
        rw [hfr, hpt]
        intro heq
        have := L.tablePhys_injective ht hcard heq
        omega
      rw [hother a hd, lastPresent_ne (c := .map4kb p l f) hpage, ← h.entry a ha,
        entry_map4kb_ne (pageAligned_frame _) (tblIndex_lt a)
          (Or.inl (add_vma_ne_pgdir (h.owned.frame_ne_cr3 ha)))
          (Or.inl fun heq => hne (add_vma_inj.mp heq))]
  · intro u hu hku
    rw [hregions, hcard'] at hku
    rw [tableUsed_map4kb_ne hcard hu (by omega) hpt, h.unused u hu (by omega)]

/-- The first call in a region, when some region has lost all its pages. -/
theorem map4kb_alias (h : Tracks L cs s.mem) (hl : dirIndex l ∉ regions cs) {r : Word}
    (hr : r ∈ regions cs) (hlost : ¬KeepsPage cs r) :
    ¬NoAlias L (pagingMap4kb L s p l f).mem := by
  have habs := h.absent l hl
  have hcr3 : pageTable L s.mem l ≠ L.cr3 := by
    rw [pageTable_absent habs]
    exact freeTable_ne_cr3 L s.mem
  obtain ⟨hnew, hframe⟩ := hasTable_map4kb (p := p) (f := f) hcr3
    fun hp => absurd hp (ne_true_of_eq_false habs)
  obtain ⟨a, ha, hfr⟩ := h.freeTable_referenced hr hlost
  have hd : dirIndex a ≠ dirIndex l := fun heq => hl (heq ▸ h.mem_regions_of_hasTable ha)
  have hpde : pdeOf L (pagingMap4kb L s p l f).mem a = pdeOf L s.mem a :=
    pde_map4kb_ne hcr3 (Or.inl hd)
  intro hno
  refine hd (hno a l (by rwa [HasTable, hpde]) hnew ?_)
  rw [hpde, hfr, hframe, pageTable_absent habs]

theorem handsOutUnreferenced (h : Tracks L cs m) (hcard : (regions cs).card < 10)
    (hkeep : ∀ r ∈ regions cs, KeepsPage cs r) : HandsOutUnreferenced L m := by
  intro a ha heq
  obtain ⟨t, ht, htk, hframe⟩ := h.owned.table a ha
  rw [h.freeTable hcard hkeep, hframe] at heq
  have := L.tablePhys_injective ht hcard heq
  omega

theorem next (h : Tracks L cs s.mem) {c : PagingCall} (hc : c.Small)
    (hcard : (regions (cs ++ [c])).card ≤ 10) :
    (StepAliasFree L s c ↔ KeepsBefore cs c) ∧
      (KeepsBefore cs c → Tracks L (cs ++ [c]) (pagingStep L s c).mem) := by
  cases c with
  | map4mb p l f => exact hc.elim
  | map4kb p l f =>
    by_cases hl : dirIndex l ∈ regions cs
    · have hnext := h.map4kb_used (p := p) (f := f) hl
      refine ⟨⟨fun _ hno => absurd hl hno, fun _ => ⟨hnext.owned.own, fun halloc => ?_⟩⟩,
        fun _ => hnext⟩
      rw [allocates, (h.region l hl).1] at halloc
      exact absurd halloc (by decide)
    · have hcard' : (regions cs).card < 10 := by
        rw [regions_append_singleton, PagingCall.linaddr, Finset.card_insert_of_notMem hl] at hcard
        omega
      by_cases hkeep : ∀ r ∈ regions cs, KeepsPage cs r
      · have hnext := h.map4kb_new (p := p) (f := f) hl hcard' hkeep
        exact ⟨⟨fun _ _ => hkeep, fun _ => ⟨hnext.owned.own,
          fun _ => h.handsOutUnreferenced hcard' hkeep⟩⟩, fun _ => hnext⟩
      · refine ⟨⟨fun hfree => ?_, fun hk => absurd (hk hl) hkeep⟩, fun hk => absurd (hk hl) hkeep⟩
        push Not at hkeep
        obtain ⟨r, hr, hlost⟩ := hkeep
        exact absurd hfree.1 (h.map4kb_alias hl hr hlost)

theorem run (hz : Zeroed L s.mem) (hsmall : ∀ c ∈ cs, c.Small) (hcard : (regions cs).card ≤ 10) :
    (AliasFree L s cs ↔ KeepsPages cs) ∧
      (KeepsPages cs → Tracks L cs (cs.foldl (pagingStep L) s).mem) := by
  induction cs using List.reverseRecOn with
  | nil => exact ⟨⟨fun _ => EachStep.nil, fun _ => EachStep.nil⟩, fun _ => of_zeroed hz⟩
  | append_singleton cs c ih =>
    have hle : (regions cs).card ≤ (regions (cs ++ [c])).card := by
      rw [regions_append_singleton]
      exact Finset.card_le_card (Finset.subset_insert _ _)
    obtain ⟨hiff, htracks⟩ := ih (fun d hd => hsmall d (by simp [hd])) (by omega)
    rw [AliasFree, KeepsPages, eachStep_append_singleton, eachStep_append_singleton,
      ← AliasFree, ← KeepsPages, hiff, List.foldl_append]
    refine ⟨and_congr_right fun hkeeps => ?_, fun ⟨hkeeps, hkeep⟩ => ?_⟩
    · exact ((htracks hkeeps).next (hsmall c (by simp)) hcard).1
    · exact ((htracks hkeeps).next (hsmall c (by simp)) hcard).2 hkeep

end Tracks

/-- From zeroed tables and with at most ten regions, the tables stay unaliased through exactly the
runs in which every used region keeps a present page whenever a new region starts. -/
theorem aliasFree_iff_keepsPages (L : Layout) (s : System) (cs : List PagingCall)
    (hz : Zeroed L s.mem) (hsmall : ∀ c ∈ cs, c.Small) (hcard : (regions cs).card ≤ 10) :
    AliasFree L s cs ↔ KeepsPages cs :=
  (Tracks.run hz hsmall hcard).1

theorem aliasFree_kernelElf : AliasFree kernelElf.toLayout System.blank
    [.map4kb 0x1000#32 0#32 0x3#32, .map4kb 0x2000#32 0x400000#32 0x3#32] := by
  refine (aliasFree_iff_keepsPages kernelElf.toLayout System.blank _ (zeroed_blank _) ?_ ?_).mpr ?_
  · simp [PagingCall.Small]
  · decide
  · refine (eachStep_append_singleton [_]).mpr
      ⟨(eachStep_append_singleton []).mpr ⟨EachStep.nil, ?_⟩, ?_⟩
    · intro _ r hr
      simp [regions] at hr
    · intro _ r hr
      obtain rfl : r = 0#32 := by simpa [regions, PagingCall.linaddr, dirIndex] using hr
      exact ⟨0#32, rfl, rfl⟩

/-- A page is mapped as not present in the first region, and a page of the second region receives
the same table. -/
theorem aliased_kernelElf :
    Zeroed kernelElf.toLayout System.blank.mem ∧
      (regions [.map4kb 0#32 0#32 0#32, .map4kb 0#32 0x400000#32 0x1#32]).card ≤ 10 ∧
      ¬NoAlias kernelElf.toLayout (([.map4kb 0#32 0#32 0#32, .map4kb 0#32 0x400000#32 0x1#32] :
        List PagingCall).foldl (pagingStep kernelElf.toLayout) System.blank).mem := by
  refine ⟨zeroed_blank _, by decide, ?_⟩
  have htracks : Tracks kernelElf.toLayout [.map4kb 0#32 0#32 0#32] _ :=
    (Tracks.of_zeroed (zeroed_blank _)).map4kb_new (by decide) (by decide) (by simp [regions])
  simp only [List.foldl_cons, List.foldl_nil, pagingStep]
  refine htracks.map4kb_alias (r := 0#32) (by decide) (by decide) ?_
  rintro ⟨a, -, hlast⟩
  exact absurd (present_of_lastPresent_singleton hlast) (by decide)

end BasicX86Kernel.Mmu
