import BasicX86Kernel.Mmu.Step

/-! Which directory entries own which page tables: the ownership that every call keeps as long as
`paging_get_page_table` hands out the next table in order. -/

namespace BasicX86Kernel.Mmu

open Machine

/-- `_pgdir` and `_pgtbls` hold zeros only. -/
structure Zeroed (L : Layout) (m : Mem) : Prop where
  pgdir : ∀ i : Word, i.toNat < 1024 → m.entry L.pgdir i = 0
  pgtbls : ∀ t < 10, ∀ j : Word, j.toNat < 1024 → m.entry (L.table t) j = 0

theorem read32_blank (a : Word) : System.blank.mem.read32 a = 0 :=
  Mem.read32_of_zero fun _ _ => rfl

theorem zeroed_blank (L : Layout) : Zeroed L System.blank.mem :=
  ⟨fun _ _ => read32_blank _, fun _ _ _ _ => read32_blank _⟩

theorem Zeroed.absent {L : Layout} {m : Mem} (hz : Zeroed L m) (a : Word) :
    present (pdeOf L m a) = false := by
  rw [pdeOf, hz.pgdir _ (dirIndex_lt a)]
  decide

theorem Zeroed.not_hasTable {L : Layout} {m : Mem} (hz : Zeroed L m) (a : Word) :
    ¬HasTable L m a := fun h => absurd h.1 (ne_true_of_eq_false (hz.absent a))

theorem Zeroed.unused {L : Layout} {m : Mem} (hz : Zeroed L m) {t : Nat} (ht : t < 10) :
    pagingTableUsed m (L.table t) = false := by
  rw [pagingTableUsed_eq_false_iff]
  intro j hj
  rw [hz.pgtbls t ht j hj]
  decide

/-- Each directory entry that references a table has one of the first `k` tables to itself. -/
structure Owned (L : Layout) (k : Nat) (m : Mem) : Prop where
  table : ∀ a, HasTable L m a → ∃ t < 10, t < k ∧ frame (pdeOf L m a) = L.tablePhys t
  own : ∀ a b, HasTable L m a → HasTable L m b → frame (pdeOf L m a) = frame (pdeOf L m b) →
    dirIndex a = dirIndex b

/-- Table `t` is the first that is not in use. -/
theorem pagingFreeTable_eq {L : Layout} {m : Mem} {t : Nat} (ht : t < 10)
    (hfree : pagingTableUsed m (L.table t) = false)
    (hlt : ∀ u < t, pagingTableUsed m (L.table u) = true) :
    pagingFreeTable L m = L.tablePhys t := by
  rcases pagingFreeTable_cases L m with ⟨u, -, heq, hu, hltu⟩ | ⟨-, hall⟩
  · rcases Nat.lt_trichotomy u t with h | rfl | h
    · exact absurd (hlt u h) (ne_true_of_eq_false hu)
    · exact heq
    · exact absurd (hltu t h) (ne_true_of_eq_false hfree)
  · exact absurd (hall t ht) (ne_true_of_eq_false hfree)

section Step

variable {L : Layout} {k : Nat} {m : Mem} {s : System} {p l f : Word}

theorem tableUsed_map4mb {t : Nat} (ht : t < 10) :
    pagingTableUsed (pagingMap4mb L s p l f).mem (L.table t) =
      pagingTableUsed s.mem (L.table t) :=
  pagingTableUsed_congr fun _ hj =>
    entry_map4mb (L.table_pageAligned ht) hj (L.table_ne_pgdir ht)

theorem tableUsed_map4kb_same {t : Nat} (hp : present f = true)
    (hpt : pageTable L s.mem l = L.tablePhys t) :
    pagingTableUsed (pagingMap4kb L s p l f).mem (L.table t) = true := by
  have hpte := entry_map4kb_same (L := L) (s := s) (p := p) (l := l) (f := f)
  rw [hpt, L.tablePhys_add_vma] at hpte
  exact pagingTableUsed_iff.mpr ⟨tblIndex l, tblIndex_lt l, by rw [hpte, present_smallEntry, hp]⟩

/-- `paging_map_4kb` leaves the tables alone in which it does not store. -/
theorem tableUsed_map4kb_other {u : Nat} (hu : u < 10)
    (hne : pageTable L s.mem l ≠ L.tablePhys u) :
    pagingTableUsed (pagingMap4kb L s p l f).mem (L.table u) =
      pagingTableUsed s.mem (L.table u) := by
  have htbl : L.table u ≠ pageTable L s.mem l + kernelConfigVma := by
    rw [← L.tablePhys_add_vma, Ne, add_vma_inj]
    exact hne.symm
  exact pagingTableUsed_congr fun _ hj => entry_map4kb_ne (L.table_pageAligned hu) hj
    (Or.inl (L.table_ne_pgdir hu)) (Or.inl htbl)

theorem tableUsed_map4kb_ne {t u : Nat} (ht : t < 10) (hu : u < 10) (hut : u ≠ t)
    (hpt : pageTable L s.mem l = L.tablePhys t) :
    pagingTableUsed (pagingMap4kb L s p l f).mem (L.table u) =
      pagingTableUsed s.mem (L.table u) := by
  refine tableUsed_map4kb_other hu ?_
  rw [hpt]
  exact fun heq => hut (L.tablePhys_injective hu ht heq.symm)

theorem hasTable_of_map4mb {a : Word} (ha : HasTable L (pagingMap4mb L s p l f).mem a) :
    HasTable L s.mem a ∧ pdeOf L (pagingMap4mb L s p l f).mem a = pdeOf L s.mem a := by
  by_cases hd : dirIndex a = dirIndex l
  · rw [HasTable, pde_map4mb_same hd, large_largeEntry] at ha
    exact absurd ha.2 (by decide)
  · have hpde := pde_map4mb_ne (L := L) (s := s) (p := p) (f := f) hd
    rw [HasTable, hpde] at ha
    exact ⟨ha, hpde⟩

namespace Owned

theorem of_zeroed (hz : Zeroed L m) : Owned L 0 m :=
  ⟨fun a ha => (hz.not_hasTable a ha).elim, fun a _ ha => (hz.not_hasTable a ha).elim⟩

theorem frame_ne_cr3 (h : Owned L k m) {a : Word} (ha : HasTable L m a) :
    frame (pdeOf L m a) ≠ L.cr3 := by
  obtain ⟨t, ht, -, he⟩ := h.table a ha
  rw [he]
  exact L.tablePhys_ne_cr3 ht

theorem pageTable_eq (h : Owned L k m) (hl : HasTable L m l) :
    ∃ t < 10, t < k ∧ pageTable L m l = L.tablePhys t := by
  rw [pageTable_present hl.1]
  exact h.table l hl

theorem map4mb (h : Owned L k s.mem) : Owned L k (pagingMap4mb L s p l f).mem := by
  refine ⟨fun a ha => ?_, fun a b ha hb heq => ?_⟩
  · obtain ⟨ha, hpde⟩ := hasTable_of_map4mb ha
    rw [hpde]
    exact h.table a ha
  · obtain ⟨ha, hpa⟩ := hasTable_of_map4mb ha
    obtain ⟨hb, hpb⟩ := hasTable_of_map4mb hb
    rw [hpa, hpb] at heq
    exact h.own a b ha hb heq

theorem pde_map4kb (h : Owned L k s.mem) (hl : HasTable L s.mem l) (a : Word) :
    pdeOf L (pagingMap4kb L s p l f).mem a = pdeOf L s.mem a := by
  obtain ⟨t, ht, -, hpt⟩ := h.pageTable_eq hl
  exact pde_map4kb_ne (hpt ▸ L.tablePhys_ne_cr3 ht) (Or.inr hl.1)

theorem entry_map4kb_ne (h : Owned L k s.mem) (hl : HasTable L s.mem l) {a : Word}
    (ha : HasTable L s.mem a) (hpage : a >>> 12 ≠ l >>> 12) : (pagingMap4kb L s p l f).mem.entry
      (frame (pdeOf L s.mem a) + kernelConfigVma) (tblIndex a) =
        s.mem.entry (frame (pdeOf L s.mem a) + kernelConfigVma) (tblIndex a) := by
  refine Mmu.entry_map4kb_ne (pageAligned_frame _) (tblIndex_lt a)
    (Or.inl (add_vma_ne_pgdir (h.frame_ne_cr3 ha))) ?_
  rw [Ne, add_vma_inj, pageTable_present hl.1]
  by_contra hno
  push Not at hno
  exact hpage ((page_eq_iff a l).mpr ⟨h.own a l ha hl hno.1, hno.2⟩)

theorem map4kb_table (h : Owned L k s.mem) (hl : HasTable L s.mem l) :
    Owned L k (pagingMap4kb L s p l f).mem := by
  have hpde := h.pde_map4kb (p := p) (f := f) hl
  refine ⟨fun a ha => ?_, fun a b ha hb heq => ?_⟩
  · rw [HasTable, hpde] at ha
    rw [hpde]
    exact h.table a ha
  · rw [HasTable, hpde] at ha hb
    rw [hpde, hpde] at heq
    exact h.own a b ha hb heq

/-- A region without a table receives table `k`, which no directory entry references. -/
theorem map4kb_absent (h : Owned L k s.mem) (hk : k < 10)
    (habs : present (pdeOf L s.mem l) = false) (hfree : pagingFreeTable L s.mem = L.tablePhys k) :
    Owned L (k + 1) (pagingMap4kb L s p l f).mem := by
  have hcr3 : pageTable L s.mem l ≠ L.cr3 := by
    rw [pageTable_absent habs]
    exact freeTable_ne_cr3 L s.mem
  have hsame : ∀ a, dirIndex a = dirIndex l →
      frame (pdeOf L (pagingMap4kb L s p l f).mem a) = L.tablePhys k := fun a ha => by
    rw [pde_map4kb_absent ha habs, hfree, frame_tableEntry, L.frame_tablePhys hk]
  have hother : ∀ a, dirIndex a ≠ dirIndex l →
      pdeOf L (pagingMap4kb L s p l f).mem a = pdeOf L s.mem a := fun a ha =>
    pde_map4kb_ne hcr3 (Or.inl ha)
  have hold : ∀ a, dirIndex a ≠ dirIndex l → HasTable L (pagingMap4kb L s p l f).mem a →
      ∃ t < 10, t < k ∧ frame (pdeOf L (pagingMap4kb L s p l f).mem a) = L.tablePhys t := by
    intro a hd ha
    rw [HasTable, hother a hd] at ha
    rw [hother a hd]
    exact h.table a ha
  have hclash : ∀ a, dirIndex a ≠ dirIndex l → HasTable L (pagingMap4kb L s p l f).mem a →
      frame (pdeOf L (pagingMap4kb L s p l f).mem a) ≠ L.tablePhys k := by
    intro a hd ha heq
    obtain ⟨t, ht, htk, hframe⟩ := hold a hd ha
    have := L.tablePhys_injective ht hk (hframe.symm.trans heq)
    omega
  refine ⟨fun a ha => ?_, fun a b ha hb heq => ?_⟩
  · by_cases hd : dirIndex a = dirIndex l
    · exact ⟨k, hk, by omega, hsame a hd⟩
    · obtain ⟨t, ht, htk, hframe⟩ := hold a hd ha
      exact ⟨t, ht, by omega, hframe⟩
  · by_cases hda : dirIndex a = dirIndex l <;> by_cases hdb : dirIndex b = dirIndex l
    · rw [hda, hdb]
    · exact (hclash b hdb hb (heq.symm.trans (hsame a hda))).elim
    · exact (hclash a hda ha (heq.trans (hsame b hdb))).elim
    · rw [HasTable, hother a hda] at ha
      rw [HasTable, hother b hdb] at hb
      rw [hother a hda, hother b hdb] at heq
      exact h.own a b ha hb heq

end Owned

end Step

end BasicX86Kernel.Mmu
