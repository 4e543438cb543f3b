import BasicX86Kernel.Mmu.Directory
import BasicX86Kernel.Mmu.Exhaustion

/-! When a page table is lost.  `paging_get_page_table` takes a table with a present entry for one
in use, and `paging_map_4mb` writes over the directory entry of a region only: the entries of the
page table that it referenced stay as they were. -/

namespace BasicX86Kernel.Mmu

open Machine

/-- The call has no flag outside the low 12 bits, and is not a `paging_map_4kb` in a region that a
4 MiB page maps. -/
def NoSplit (L : Layout) (s : System) (c : PagingCall) : Prop :=
  c.flags.toNat < 0x1000 ∧
    match c with
    | .map4kb _ l _ => ¬(present (pdeOf L s.mem l) = true ∧ large (pdeOf L s.mem l) = true)
    | .map4mb .. => True

/-- Some directory entry references page table `t`. -/
def Referenced (L : Layout) (m : Mem) (t : Nat) : Prop :=
  ∃ a, HasTable L m a ∧ frame (pdeOf L m a) = L.tablePhys t

/-- The tables run out only when all ten are referenced, and a table that no directory entry
references any more is available. -/
structure NotLeaked (L : Layout) (s : System) : Prop where
  null : (pagingGetPageTable L s).1 = 0 → ∀ t < 10, Referenced L s.mem t
  available : ∀ t < 10, ¬Referenced L s.mem t → pagingTableUsed s.mem (L.table t) = false

/-- If the call is a `paging_map_4mb` over a reference to a page table with a present entry, another
directory entry references that table too. -/
def KeepsReference (L : Layout) (s : System) : PagingCall → Prop
  | .map4kb .. => True
  | .map4mb _ l _ => ∀ t < 10, HasTable L s.mem l → frame (pdeOf L s.mem l) = L.tablePhys t →
      pagingTableUsed s.mem (L.table t) = true →
      ∃ a, dirIndex a ≠ dirIndex l ∧ HasTable L s.mem a ∧ frame (pdeOf L s.mem a) = L.tablePhys t

variable {L : Layout} {s : System} {p l f : Word} {c : PagingCall}

/-- No table is lost when those in use are referenced. -/
theorem notLeaked_iff : NotLeaked L s ↔
    ∀ t < 10, pagingTableUsed s.mem (L.table t) = true → Referenced L s.mem t := by
  constructor
  · intro h t ht hused
    by_contra hno
    exact absurd hused (ne_true_of_eq_false (h.available t ht hno))
  · intro h
    refine ⟨fun hnull t ht => ?_, fun t ht hno => ?_⟩
    · rw [pagingGetPageTable_fst] at hnull
      rcases pagingFreeTable_cases L s.mem with ⟨u, hu, hfree, -⟩ | ⟨-, hall⟩
      · exact absurd (hfree.symm.trans hnull) (L.tablePhys_ne_zero hu)
      · exact h t ht (hall t ht)
    · rw [← Bool.not_eq_true]
      exact fun hused => hno (h t ht hused)

theorem Zeroed.notLeaked (hz : Zeroed L s.mem) : NotLeaked L s := by
  rw [notLeaked_iff]
  intro t ht hused
  exact absurd hused (ne_true_of_eq_false (hz.unused ht))

theorem NoSplit.sparesDirectory (h : NoSplit L s c) (hok : TablesOk L s.mem) :
    SparesDirectory L s c := by
  cases c with
  | map4mb p l f => trivial
  | map4kb p l f => exact hok.pageTable_ne_cr3 h.2

/-! ### One call -/

/-- Behind `paging_map_4mb` the references are those of the other regions. -/
theorem referenced_map4mb {t : Nat} : Referenced L (pagingMap4mb L s p l f).mem t ↔
    ∃ a, dirIndex a ≠ dirIndex l ∧ HasTable L s.mem a ∧ frame (pdeOf L s.mem a) = L.tablePhys t := by
  constructor
  · rintro ⟨a, ha, hframe⟩
    obtain ⟨hold, hpde⟩ := hasTable_of_map4mb ha
    rw [hpde] at hframe
    refine ⟨a, fun hd => ?_, hold, hframe⟩
    rw [HasTable, pde_map4mb_same hd, large_largeEntry] at ha
    exact absurd ha.2 (by decide)
  · rintro ⟨a, hd, ha, hframe⟩
    have hpde := pde_map4mb_ne (L := L) (s := s) (p := p) (f := f) hd
    exact ⟨a, by rwa [HasTable, hpde], by rwa [hpde]⟩

theorem notLeaked_map4mb_iff (h : NotLeaked L s) :
    NotLeaked L (pagingMap4mb L s p l f) ↔ KeepsReference L s (.map4mb p l f) := by
  rw [notLeaked_iff] at h ⊢
  constructor
  · intro hafter t ht _ _ hused
    refine referenced_map4mb.mp (hafter t ht ?_)
    rwa [tableUsed_map4mb ht]
  · intro hkeeps t ht hused
    rw [tableUsed_map4mb ht] at hused
    obtain ⟨a, ha, hframe⟩ := h t ht hused
    apply referenced_map4mb.mpr
    by_cases hd : dirIndex a = dirIndex l
    · refine hkeeps t ht ?_ ?_ hused
      · rwa [HasTable, pdeOf, hd] at ha
      · rwa [pdeOf, hd] at hframe
    · exact ⟨a, hd, ha, hframe⟩

/-- `paging_map_4kb` puts a reference to the table it stores in, and spares the other tables. -/
theorem NotLeaked.map4kb (h : NotLeaked L s) (hok : TablesOk L s.mem)
    (hc : NoSplit L s (.map4kb p l f)) : NotLeaked L (pagingMap4kb L s p l f) := by
  have hcr3 := hok.pageTable_ne_cr3 hc.2
  have hsmall : present (pdeOf L s.mem l) = true → large (pdeOf L s.mem l) = false := fun hp =>
    Bool.eq_false_of_not_eq_true fun hl => hc.2 ⟨hp, hl⟩
  obtain ⟨htable, hframe⟩ := hasTable_map4kb (p := p) (f := f) hcr3 hsmall
  rw [notLeaked_iff] at h ⊢
  intro t ht hused
  by_cases hpt : pageTable L s.mem l = L.tablePhys t
  · exact ⟨l, htable, hframe.trans hpt⟩
  · rw [tableUsed_map4kb_other ht hpt] at hused
    obtain ⟨a, ha, hold⟩ := h t ht hused
    have hpde : pdeOf L (pagingMap4kb L s p l f).mem a = pdeOf L s.mem a := by
      refine pde_map4kb_ne hcr3 ?_
      by_cases hd : dirIndex a = dirIndex l
      · rw [HasTable, pdeOf, hd] at ha
        exact Or.inr ha.1
      · exact Or.inl hd
    exact ⟨a, by rwa [HasTable, hpde], by rwa [hpde]⟩

theorem notLeaked_step_iff (h : NotLeaked L s) (hok : TablesOk L s.mem) (hc : NoSplit L s c) :
    NotLeaked L (pagingStep L s c) ↔ KeepsReference L s c := by
  cases c with
  | map4kb p l f => exact iff_of_true (h.map4kb hok hc) trivial
  | map4mb p l f => exact notLeaked_map4mb_iff h

/-! ### Runs -/

/-- From zeroed tables, whatever the calls map as present or not, no table is lost in any state of
a run exactly when no `paging_map_4mb` takes the last reference to a table with a present entry. -/
theorem pageTables_notLeaked_iff (L : Layout) (s : System) (cs : List PagingCall)
    (hz : Zeroed L s.mem) (hrun : Allowed (pagingStep L) (NoSplit L) s cs) :
    Always (pagingStep L) (NotLeaked L) s cs ↔
      Allowed (pagingStep L) (KeepsReference L) s cs := by
  have hnext : ∀ s c, TablesOk L s.mem → NoSplit L s c → TablesOk L (pagingStep L s c).mem :=
    fun s c hok hc => hok.step (hc.sparesDirectory hok)
  have hkeep : ∀ s c, TablesOk L s.mem → NotLeaked L s → NoSplit L s c →
      (NotLeaked L (pagingStep L s c) ↔ KeepsReference L s c) :=
    fun s c hok h hc => notLeaked_step_iff h hok hc
  exact hrun.always_iff hz.notLeaked hz.tablesOk hnext hkeep

section FirstTable

variable {p' l' f' : Word}

/-- Behind the first `paging_map_4kb` only its region has a page table. -/
theorem Zeroed.region_map4kb (hz : Zeroed L s.mem) {a : Word}
    (ha : HasTable L (pagingMap4kb L s p l f).mem a) : dirIndex a = dirIndex l := by
  by_contra hd
  rw [HasTable, pde_map4kb_ne (hz.pageTable_ne_cr3 l) (Or.inl hd)] at ha
  exact absurd ha.1 (ne_true_of_eq_false (hz.absent a))

/-- A 4 MiB page over another region keeps the reference to that table. -/
theorem Zeroed.keepsReference (hz : Zeroed L s.mem) (hd : dirIndex l' ≠ dirIndex l) :
    KeepsReference L (pagingMap4kb L s p l f) (.map4mb p' l' f') :=
  fun _ _ htable => absurd (hz.region_map4kb htable) hd

/-- A 4 MiB page over its region takes the only reference. -/
theorem Zeroed.not_keepsReference (hz : Zeroed L s.mem) (hf : present f = true)
    (hd : dirIndex l' = dirIndex l) :
    ¬KeepsReference L (pagingMap4kb L s p l f) (.map4mb p' l' f') := by
  intro hkeeps
  have habs := hz.absent l
  have hfree : pageTable L s.mem l = L.tablePhys 0 := by
    rw [pageTable_absent habs]
    exact pagingFreeTable_eq (by decide) (hz.unused (by decide)) fun u hu => absurd hu u.not_lt_zero
  obtain ⟨htable, hframe⟩ := hasTable_map4kb (p := p) (f := f) (hz.pageTable_ne_cr3 l) fun h =>
    absurd h (ne_true_of_eq_false habs)
  rw [HasTable, pdeOf, ← hd] at htable
  rw [pdeOf, ← hd, hfree] at hframe
  obtain ⟨a, hne, ha, -⟩ := hkeeps 0 (by decide) htable hframe (tableUsed_map4kb_same hf hfree)
  exact hne ((hz.region_map4kb ha).trans hd.symm)

end FirstTable

/-- One mapped page, and a 4 MiB page at `l`. -/
def tableAndLarge (l : Word) : List PagingCall :=
  [.map4kb 0x00300000#32 0x10000000#32 0x3#32, .map4mb 0x00400000#32 l 0x3#32]

/-- The 4 MiB page beside the region with the page table, and over it. -/
theorem pageTables_notLeaked_kernelElf :
    Always (pagingStep kernelElf.toLayout) (NotLeaked kernelElf.toLayout) System.blank
        (tableAndLarge 0x20000000#32) ∧
      ¬Always (pagingStep kernelElf.toLayout) (NotLeaked kernelElf.toLayout) System.blank
        (tableAndLarge 0x10000000#32) := by
  have hz := zeroed_blank kernelElf.toLayout
  have hrun : ∀ l : Word, Allowed (pagingStep kernelElf.toLayout) (NoSplit kernelElf.toLayout)
      System.blank (tableAndLarge l) := fun l =>
    ⟨⟨by decide, fun h => absurd h.1 (ne_true_of_eq_false (hz.absent _))⟩,
      ⟨(by decide : (3 : Nat) < 0x1000), trivial⟩, trivial⟩
  rw [pageTables_notLeaked_iff kernelElf.toLayout System.blank _ hz (hrun _),
    pageTables_notLeaked_iff kernelElf.toLayout System.blank _ hz (hrun _)]
  simp only [tableAndLarge, allowed_cons, Allowed.nil, and_true, pagingStep]
  have hpresent : present 0x3#32 = true := by decide
  exact ⟨⟨trivial, hz.keepsReference (by decide)⟩,
    fun hkeeps => hz.not_keepsReference hpresent rfl hkeeps.2⟩

/-! ### A lost table -/

/-- A 4 MiB page over a region with a table, when the ten tables are in use and owned. -/
theorem InOrder.leaked_map4mb (h : InOrder L 10 s.mem) (hl : HasTable L s.mem l) :
    (pagingGetPageTable L (pagingMap4mb L s p l f)).1 = 0 ∧
      ¬∀ t < 10, Referenced L (pagingMap4mb L s p l f).mem t := by
  refine ⟨h.map4mb.exhausted, fun hall => ?_⟩
  obtain ⟨t, ht, -, hframe⟩ := h.owned.table l hl
  obtain ⟨a, hd, ha, heq⟩ := referenced_map4mb.mp (hall t ht)
  exact hd (h.owned.own a l ha hl (heq.trans hframe.symm))

theorem absent_fillCalls (hz : Zeroed L s.mem) {n : Nat} (hn : n < 10) :
    present (pdeOf L ((fillCalls n).foldl (pagingStep L) s).mem
      (BitVec.ofNat 32 (4194304 * n))) = false := by
  refine (inOrder_fillCalls hz hn.le).2 _ ?_
  rw [toNat_dirIndex, BitVec.toNat_ofNat]
  omega

theorem allowed_fillCalls (hz : Zeroed L s.mem) {n : Nat} (hn : n ≤ 10) :
    Allowed (pagingStep L) (NoSplit L) s (fillCalls n) := by
  induction n with
  | zero => trivial
  | succ n ih =>
    rw [fillCalls_succ, allowed_append_singleton]
    refine ⟨ih (by omega), (by decide : (1 : Nat) < 0x1000), fun h => ?_⟩
    exact absurd h.1 (ne_true_of_eq_false (absent_fillCalls hz hn))

theorem hasTable_fillCalls (hz : Zeroed L s.mem) {n : Nat} (hn : n < 10) :
    HasTable L ((fillCalls (n + 1)).foldl (pagingStep L) s).mem
      (BitVec.ofNat 32 (4194304 * n)) := by
  have habs := absent_fillCalls hz hn
  rw [fillCalls_succ, List.foldl_append]
  refine (hasTable_map4kb ?_ fun hp => absurd hp (ne_true_of_eq_false habs)).1
  rw [pageTable_absent habs]
  exact freeTable_ne_cr3 L _

/-- Ten mapped regions, and a 4 MiB page over the last of them. -/
def leakCalls : List PagingCall :=
  fillCalls 10 ++ [.map4mb 0x00400000#32 0x02400000#32 0x3#32]

/-- No table is left, and not all of the ten are referenced. -/
theorem pageTables_leaked :
    Allowed (pagingStep kernelElf.toLayout) (NoSplit kernelElf.toLayout) System.blank leakCalls ∧
      (pagingGetPageTable kernelElf.toLayout
        (leakCalls.foldl (pagingStep kernelElf.toLayout) System.blank)).1 = 0 ∧
      ¬∀ t < 10, Referenced kernelElf.toLayout
        (leakCalls.foldl (pagingStep kernelElf.toLayout) System.blank).mem t := by
  have hz := zeroed_blank kernelElf.toLayout
  refine ⟨?_, ?_⟩
  · rw [leakCalls, allowed_append_singleton]
    exact ⟨allowed_fillCalls hz (le_refl 10), by decide, trivial⟩
  · rw [leakCalls, List.foldl_append]
    have hlast := hasTable_fillCalls hz (n := 9) (by decide)
    exact (inOrder_fillCalls hz (le_refl 10)).1.leaked_map4mb hlast

end BasicX86Kernel.Mmu
