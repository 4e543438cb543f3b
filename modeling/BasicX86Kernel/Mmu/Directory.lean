import BasicX86Kernel.Mmu.Owned

/-! What a directory entry can be: absent, a 4 MiB page, or a reference to one of the ten page
tables, or to physical address 0 when there was none left. -/

namespace BasicX86Kernel.Mmu

open Machine

/-- The physical address of a page table, or the `NULL` of a failed allocation. -/
def IsTable (L : Layout) (t : Word) : Prop := t = 0 ∨ ∃ i < 10, t = L.tablePhys i

/-- The references to page tables are those that `paging_map_4kb` stores. -/
def TablesOk (L : Layout) (m : Mem) : Prop :=
  ∀ a, HasTable L m a → ∃ t, IsTable L t ∧ pdeOf L m a = tableEntry t

/-- In addition, the 4 MiB pages have aligned frames. -/
structure DirOk (L : Layout) (m : Mem) : Prop where
  tables : TablesOk L m
  aligned : ∀ a, present (pdeOf L m a) = true → large (pdeOf L m a) = true →
    frame (pdeOf L m a) = largeFrame (pdeOf L m a)

section

variable {L : Layout} {m : Mem} {s : System} {t p f : Word}

theorem IsTable.ne_cr3 (h : IsTable L t) : t ≠ L.cr3 := by
  rcases h with rfl | ⟨i, hi, rfl⟩
  · exact L.cr3_ne_zero.symm
  · exact L.tablePhys_ne_cr3 hi

theorem IsTable.frame_eq (h : IsTable L t) : frame t = t := by
  rcases h with rfl | ⟨i, hi, rfl⟩
  · decide
  · exact L.frame_tablePhys hi

theorem isTable_freeTable (L : Layout) (m : Mem) : IsTable L (pagingFreeTable L m) := by
  rcases pagingFreeTable_cases L m with ⟨i, hi, h, -⟩ | ⟨h, -⟩
  · exact Or.inr ⟨i, hi, h⟩
  · exact Or.inl h

theorem Zeroed.tablesOk (hz : Zeroed L m) : TablesOk L m :=
  fun a ha => (hz.not_hasTable a ha).elim

theorem Zeroed.dirOk (hz : Zeroed L m) : DirOk L m :=
  ⟨hz.tablesOk, fun a ha => absurd ha (ne_true_of_eq_false (hz.absent a))⟩

namespace TablesOk

theorem isTable_frame (h : TablesOk L m) {a : Word} (ha : HasTable L m a) :
    IsTable L (frame (pdeOf L m a)) := by
  obtain ⟨t, ht, hpde⟩ := h a ha
  rwa [hpde, frame_tableEntry, ht.frame_eq]

theorem frame_ne_cr3 (h : TablesOk L m) {a : Word} (ha : HasTable L m a) :
    frame (pdeOf L m a) ≠ L.cr3 := (h.isTable_frame ha).ne_cr3

/-- A `paging_map_4kb` outside the 4 MiB pages spares the directory. -/
theorem pageTable_ne_cr3 (h : TablesOk L m) {l : Word}
    (hl : ¬(present (pdeOf L m l) = true ∧ large (pdeOf L m l) = true)) :
    pageTable L m l ≠ L.cr3 := by
  cases habs : present (pdeOf L m l) with
  | true =>
    rw [pageTable_present habs]
    exact h.frame_ne_cr3 ⟨habs, by simpa [habs] using hl⟩
  | false =>
    rw [pageTable_absent habs]
    exact freeTable_ne_cr3 L m

theorem step (h : TablesOk L s.mem) {c : PagingCall} (hc : SparesDirectory L s c) :
    TablesOk L (pagingStep L s c).mem := by
  intro a ha
  by_cases hd : dirIndex a = dirIndex c.linaddr
  · cases c with
    | map4mb p l f =>
      obtain ⟨hold, hpde⟩ := hasTable_of_map4mb ha
      rw [pagingStep, hpde]
      exact h a hold
    | map4kb p l f =>
      cases habs : present (pdeOf L s.mem l) with
      | true =>
        have hpde : pdeOf L (pagingStep L s (.map4kb p l f)).mem a = pdeOf L s.mem a :=
          pde_map4kb_ne hc (Or.inr habs)
        rw [HasTable, hpde] at ha
        rw [hpde]
        exact h a ha
      | false =>
        rw [pagingStep, pde_map4kb_absent (l := l) hd habs]
        exact ⟨_, isTable_freeTable L s.mem, rfl⟩
  · rw [HasTable, pde_step_ne hc hd] at ha
    rw [pde_step_ne hc hd]
    exact h a ha

theorem run (h : TablesOk L s.mem) {cs : List PagingCall}
    (hrun : Allowed (pagingStep L) (SparesDirectory L) s cs) :
    TablesOk L (cs.foldl (pagingStep L) s).mem := by
  induction cs generalizing s with
  | nil => exact h
  | cons c cs ih => exact ih (h.step hrun.1) hrun.2

end TablesOk

theorem Zeroed.pageTable_ne_cr3 (hz : Zeroed L m) (l : Word) : pageTable L m l ≠ L.cr3 :=
  hz.tablesOk.pageTable_ne_cr3 fun h => absurd h.1 (ne_true_of_eq_false (hz.absent l))

namespace DirOk

theorem step (h : DirOk L s.mem) {c : PagingCall} (hc : SparesDirectory L s c)
    (hf : c.flags.toNat < 0x1000) : DirOk L (pagingStep L s c).mem := by
  refine ⟨h.tables.step hc, fun a ha hlarge => ?_⟩
  by_cases hd : dirIndex a = dirIndex c.linaddr
  · cases c with
    | map4mb p l f =>
      have hf : f.toNat < 0x1000 := hf
      rw [pagingStep, pde_map4mb_same (l := l) hd, frame_largeEntry p hf,
        largeFrame_largeEntry p hf]
    | map4kb p l f =>
      cases habs : present (pdeOf L s.mem l) with
      | true =>
        have hpde : pdeOf L (pagingStep L s (.map4kb p l f)).mem a = pdeOf L s.mem a :=
          pde_map4kb_ne hc (Or.inr habs)
        rw [hpde] at ha hlarge ⊢
        exact h.aligned a ha hlarge
      | false =>
        rw [pagingStep, pde_map4kb_absent (l := l) hd habs, large_tableEntry] at hlarge
        exact absurd hlarge (by decide)
  · rw [pde_step_ne hc hd] at ha hlarge ⊢
    exact h.aligned a ha hlarge

end DirOk

end

end BasicX86Kernel.Mmu
