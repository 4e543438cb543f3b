import BasicX86Kernel.Mmu.Refinement

/-! `paging_map_4kb` when all ten page tables are in use.  The call does not test the `NULL` that
`paging_get_page_table` returns: it makes the directory entry reference physical address 0 and
stores the page-table entry there. -/

namespace BasicX86Kernel.Mmu

open Machine

variable {L : Layout} {s : System} {p l f : Word}

theorem pagingGetPageTable_fst (L : Layout) (s : System) :
    (pagingGetPageTable L s).1 = pagingFreeTable L s.mem := by
  simp only [pagingGetPageTable, System.printk_mem]

/-- A failed allocation makes the directory entry present. -/
theorem pde_map4kb_exhausted (hnull : (pagingGetPageTable L s).1 = 0)
    (habs : present (pdeOf L s.mem l) = false) :
    pdeOf L (pagingMap4kb L s p l f).mem l = 0x3#32 := by
  rw [pagingGetPageTable_fst] at hnull
  rw [pde_map4kb_absent rfl habs, hnull]
  decide

/-- A failed allocation stores the page-table entry through `NULL`. -/
theorem entry_map4kb_exhausted (hnull : (pagingGetPageTable L s).1 = 0)
    (habs : present (pdeOf L s.mem l) = false) :
    (pagingMap4kb L s p l f).mem.entry kernelConfigVma (tblIndex l) = smallEntry p f := by
  rw [pagingGetPageTable_fst] at hnull
  have h := entry_map4kb_same (L := L) (s := s) (p := p) (l := l) (f := f)
  rwa [pageTable_absent habs, hnull, zero_add] at h

theorem mem_map4kb_exhausted (hnull : (pagingGetPageTable L s).1 = 0)
    (habs : present (pdeOf L s.mem l) = false) : (pagingMap4kb L s p l f).mem ≠ s.mem := by
  intro heq
  have h := pde_map4kb_exhausted (p := p) (f := f) hnull habs
  rw [heq] at h
  rw [h] at habs
  exact absurd habs (by decide)

/-! ### Reaching exhaustion -/

/-- One page in each of the first `n` regions. -/
def fillCalls (n : Nat) : List PagingCall :=
  (List.range n).map fun i => .map4kb 0#32 (BitVec.ofNat 32 (4194304 * i)) 0x1#32

theorem fillCalls_succ (n : Nat) : fillCalls (n + 1) =
    fillCalls n ++ [.map4kb 0#32 (BitVec.ofNat 32 (4194304 * n)) 0x1#32] := by
  simp [fillCalls, List.range_succ]

theorem inOrder_fillCalls (hz : Zeroed L s.mem) {n : Nat} (hn : n ≤ 10) :
    InOrder L n ((fillCalls n).foldl (pagingStep L) s).mem ∧
      ∀ a, n ≤ (dirIndex a).toNat →
        present (pdeOf L ((fillCalls n).foldl (pagingStep L) s).mem a) = false := by
  induction n with
  | zero => exact ⟨InOrder.of_zeroed hz, fun a _ => hz.absent a⟩
  | succ n ih =>
    obtain ⟨h, habs⟩ := ih (by omega)
    have hd : (dirIndex (BitVec.ofNat 32 (4194304 * n))).toNat = n := by
      rw [toNat_dirIndex, BitVec.toNat_ofNat]
      omega
    have hregion := habs _ hd.ge
    have hspares : SparesDirectory L ((fillCalls n).foldl (pagingStep L) s)
        (.map4kb 0#32 (BitVec.ofNat 32 (4194304 * n)) 0x1#32) := by
      rw [SparesDirectory, pageTable_absent hregion]
      exact freeTable_ne_cr3 L _
    rw [fillCalls_succ, List.foldl_append]
    refine ⟨h.map4kb_absent (by omega) hregion (by decide), fun a ha => ?_⟩
    have hne : dirIndex a ≠ dirIndex (BitVec.ofNat 32 (4194304 * n)) := by
      rintro heq
      rw [heq, hd] at ha
      omega
    rw [List.foldl_cons, List.foldl_nil, pde_step_ne hspares hne]
    exact habs a (by omega)

theorem InOrder.exhausted (h : InOrder L 10 s.mem) : (pagingGetPageTable L s).1 = 0 := by
  rw [pagingGetPageTable_fst]
  rcases pagingFreeTable_cases L s.mem with ⟨t, ht, -, hunused, -⟩ | ⟨hnull, -⟩
  · exact absurd ((h.used t ht).mpr ht) (ne_true_of_eq_false hunused)
  · exact hnull

/-- Ten regions with a present page each exhaust the tables. -/
theorem exhausted_fillCalls (hz : Zeroed L s.mem) :
    (pagingGetPageTable L ((fillCalls 10).foldl (pagingStep L) s)).1 = 0 :=
  (inOrder_fillCalls hz (le_refl 10)).1.exhausted

/-- When no page table is left, a call whose directory entry is not present never leaves the memory
as it was: it makes the entry present, with frame 0, and stores its page-table entry at the start
of physical memory. -/
theorem pagingMap4kb_exhausted (L : Layout) (s : System) (p l f : Word)
    (hnull : (pagingGetPageTable L s).1 = 0) (habs : present (pdeOf L s.mem l) = false) :
    (pagingMap4kb L s p l f).mem ≠ s.mem ∧
      pdeOf L (pagingMap4kb L s p l f).mem l = 0x3#32 ∧
      (pagingMap4kb L s p l f).mem.entry kernelConfigVma (tblIndex l) = smallEntry p f :=
  ⟨mem_map4kb_exhausted hnull habs, pde_map4kb_exhausted hnull habs,
    entry_map4kb_exhausted hnull habs⟩

theorem pagingMap4kb_exhausted_kernelElf :
    (pagingMap4kb kernelElf.toLayout ((fillCalls 10).foldl (pagingStep kernelElf.toLayout)
      System.blank) 0xFEB00000#32 0x02800000#32 0x3#32).mem.entry kernelConfigVma 0#32 =
        0xFEB00003#32 :=
  (pagingMap4kb_exhausted kernelElf.toLayout _ 0xFEB00000#32 0x02800000#32 0x3#32
    (exhausted_fillCalls (zeroed_blank _))
    ((inOrder_fillCalls (zeroed_blank _) (le_refl 10)).2 _ (by decide))).2.2.trans (by decide)

/-- The eleventh region changes memory although no table was left for it. -/
theorem exhausted_not_intact_kernelElf :
    (pagingGetPageTable kernelElf.toLayout ((fillCalls 10).foldl
        (pagingStep kernelElf.toLayout) System.blank)).1 = 0 ∧
      present (pdeOf kernelElf.toLayout ((fillCalls 10).foldl (pagingStep kernelElf.toLayout)
        System.blank).mem 0x02800000#32) = false ∧
      (pagingMap4kb kernelElf.toLayout ((fillCalls 10).foldl (pagingStep kernelElf.toLayout)
        System.blank) 0xFEB00000#32 0x02800000#32 0x3#32).mem ≠
        ((fillCalls 10).foldl (pagingStep kernelElf.toLayout) System.blank).mem := by
  have hnull := exhausted_fillCalls (zeroed_blank kernelElf.toLayout)
  have habs := (inOrder_fillCalls (zeroed_blank kernelElf.toLayout) (le_refl 10)).2 0x02800000#32
    (by decide)
  exact ⟨hnull, habs, mem_map4kb_exhausted hnull habs⟩

end BasicX86Kernel.Mmu
