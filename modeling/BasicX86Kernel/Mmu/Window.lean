import BasicX86Kernel.Mmu.Init
import BasicX86Kernel.Mmu.LargeSplit

/-! The window of the higher half onto physical memory: which linear addresses the tables map to
the physical address that they stand for, after `paging_init` and after further calls that map
pages of physical memory there. -/

namespace BasicX86Kernel.Mmu

open Machine

/-- The first `k` tables are in use, the kernel's region is one 4 MiB page, and the addresses mapped
to the physical address that they stand for are those of that region and those of `P`. -/
structure Window (L : Layout) (k : Nat) (P : Word → Prop) (m : Mem) : Prop where
  inOrder : InOrder L k m
  kernel : ∀ a, dirIndex a = 768#32 → pdeOf L m a = largeEntry 0#32 0x3#32
  small : ∀ a, dirIndex a ≠ 768#32 → ¬(present (pdeOf L m a) = true ∧ large (pdeOf L m a) = true)
  direct : ∀ a, translate m L.cr3 a = some (a - kernelConfigVma) ↔ dirIndex a = 768#32 ∨ P a

/-! ### Stores outside the tables -/

section Congr

variable {L : Layout} {m m' : Mem} (hm : ∀ x, InTables L x → m'.byte x = m.byte x)
include hm

theorem pdeOf_congr (a : Word) : pdeOf L m' a = pdeOf L m a :=
  Mem.entry_congr L.pgdir_pageAligned (dirIndex_lt a) fun x hx => hm x (Or.inl hx)

theorem entry_table_congr {t : Nat} (ht : t < 10) {j : Word} (hj : j.toNat < 1024) :
    m'.entry (L.table t) j = m.entry (L.table t) j := by
  have := L.toNat_table ht
  have := L.pgtbls_end
  refine Mem.entry_congr (L.table_pageAligned ht) hj fun x hx => hm x (Or.inr ?_)
  bv_omega

theorem InOrder.congr {k : Nat} (h : InOrder L k m) : InOrder L k m' := by
  have hpde := pdeOf_congr hm
  refine ⟨⟨fun a ha => ?_, fun a b ha hb heq => ?_⟩, fun t ht => ?_⟩
  · rw [HasTable, hpde] at ha
    rw [hpde]
    exact h.owned.table a ha
  · rw [HasTable, hpde] at ha hb
    rw [hpde, hpde] at heq
    exact h.owned.own a b ha hb heq
  · rw [pagingTableUsed_congr fun _ hj => entry_table_congr hm ht hj]
    exact h.used t ht

theorem Owned.translate_congr {k : Nat} (h : Owned L k m) (a : Word) :
    translate m' L.cr3 a = translate m L.cr3 a := by
  rw [translate, translate, walkAt_cr3, walkAt_cr3]
  congr 1
  refine walk_congr (pdeOf_congr hm a) fun hp hl => ?_
  obtain ⟨t, ht, -, hframe⟩ := h.table a ⟨hp, hl⟩
  rw [hframe, L.tablePhys_add_vma]
  exact entry_table_congr hm ht (tblIndex_lt a)

theorem Window.congr {k : Nat} {P : Word → Prop} (h : Window L k P m) : Window L k P m' := by
  have hpde := pdeOf_congr hm
  refine ⟨h.inOrder.congr hm, fun a ha => ?_, fun a ha => ?_, fun a => ?_⟩
  · rw [hpde, h.kernel a ha]
  · rw [hpde]
    exact h.small a ha
  · rw [h.inOrder.owned.translate_congr hm]
    exact h.direct a

end Congr

/-! ### `paging_map_4kb` of a page of physical memory -/

/-- The page at physical address `p`, mapped at the address that stands for it. -/
theorem frame_or_offset_window {a p : Word} (hp : frame p = p)
    (ha : a >>> 12 = (p + kernelConfigVma) >>> 12) :
    frame p ||| (a &&& 0xFFF#32) = a - kernelConfigVma := by
  have ha := congrArg BitVec.toNat ha
  have hp' := toNat_frame p
  have hlt := a.isLt
  have hlt' := p.isLt
  rw [BitVec.toNat_ushiftRight, BitVec.toNat_ushiftRight, Nat.shiftRight_eq_div_pow,
    Nat.shiftRight_eq_div_pow, BitVec.toNat_add, toNat_kernelConfigVma] at ha
  rw [hp] at hp'
  apply BitVec.eq_of_toNat_eq
  rw [toNat_frame_or_offset, ← hp', BitVec.toNat_sub, toNat_kernelConfigVma]
  -- whether the address of the higher half wraps around
  by_cases hwrap : p.toNat < 0x40000000
  · rw [show (p.toNat + 0xC0000000) % 2 ^ 32 = p.toNat + 0xC0000000 by omega] at ha
    omega
  · rw [show (p.toNat + 0xC0000000) % 2 ^ 32 = p.toNat - 0x40000000 by omega] at ha
    omega

theorem toNat_page_add {c : Word} (hc : c.toNat % 4096 = 0) (a : Word) :
    ((a + c) >>> 12).toNat = (a.toNat / 4096 + c.toNat / 4096) % 1048576 := by
  rw [BitVec.toNat_ushiftRight, Nat.shiftRight_eq_div_pow, BitVec.toNat_add,
    show 2 ^ 32 = 2 ^ 12 * 1048576 from rfl, Nat.mod_mul_right_div_self]
  congr 1
  omega

/-- The higher half shows the pages of physical memory as they are. -/
theorem page_sub_vma_iff (a p : Word) :
    a >>> 12 = (p + kernelConfigVma) >>> 12 ↔ (a - kernelConfigVma) >>> 12 = p >>> 12 := by
  have hvma : kernelConfigVma.toNat % 4096 = 0 := by decide
  have hq := toNat_page_add hvma (a - kernelConfigVma)
  have hp := toNat_page_add hvma p
  have hlt := (a - kernelConfigVma).isLt
  have hlt' := p.isLt
  rw [BitVec.sub_add_cancel] at hq
  rw [← BitVec.toNat_inj, ← BitVec.toNat_inj, hq, hp, BitVec.toNat_ushiftRight,
    BitVec.toNat_ushiftRight, Nat.shiftRight_eq_div_pow, Nat.shiftRight_eq_div_pow]
  generalize kernelConfigVma.toNat / 4096 = d
  omega

theorem dirIndex_eq_kernel_iff (a : Word) :
    dirIndex a = 768#32 ↔ (a - kernelConfigVma).toNat < 0x400000 := by
  have hlt := a.isLt
  rw [← BitVec.toNat_inj, toNat_dirIndex, BitVec.toNat_sub, toNat_kernelConfigVma,
    show (768#32).toNat = 768 from rfl]
  by_cases hx : a.toNat < 0xC0000000
  · rw [show (2 ^ 32 - 0xC0000000 + a.toNat) % 2 ^ 32 = a.toNat + 0x40000000 by omega]
    omega
  · rw [show (2 ^ 32 - 0xC0000000 + a.toNat) % 2 ^ 32 = a.toNat - 0xC0000000 by omega]
    omega

theorem dirIndex_eq_of_page {a b : Word} (h : a >>> 12 = b >>> 12) : dirIndex a = dirIndex b :=
  ((page_eq_iff a b).mp h).1

/-- In the region of the kernel the call takes physical page 0 for its page table. -/
theorem byte_map4kb_kernel {L : Layout} {s : System} {p l f x : Word}
    (hpde : pdeOf L s.mem l = largeEntry 0#32 0x3#32) (hx : 4096 ≤ (x - kernelConfigVma).toNat) :
    (pagingMap4kb L s p l f).mem.byte x = s.mem.byte x := by
  have hpresent : present (pdeOf L s.mem l) = true := by
    rw [hpde]
    decide
  have htable : pageTable L s.mem l + kernelConfigVma = kernelConfigVma := by
    rw [pageTable_present hpresent, hpde]
    decide
  rw [pagingMap4kb_mem_present L s p l f hpresent, htable]
  exact Mem.byte_setEntry_ne (by decide) (tblIndex_lt l) hx

namespace Window

variable {L : Layout} {k : Nat} {P : Word → Prop} {s : System} {p : Word}

theorem map4kb_kernel (h : Window L k P s.mem) (hd : dirIndex (p + kernelConfigVma) = 768#32) :
    Window L k (fun a => P a ∨ a >>> 12 = (p + kernelConfigVma) >>> 12)
      (pagingMap4kb L s p (p + kernelConfigVma) 0x3#32).mem := by
  have hvma := toNat_kernelConfigVma
  have himage := L.pgdir_image
  have himage' := L.pgtbls_image
  have hend := L.pgtbls_end
  have hm : ∀ x, InTables L x →
      (pagingMap4kb L s p (p + kernelConfigVma) 0x3#32).mem.byte x = s.mem.byte x := by
    rintro x hx
    refine byte_map4kb_kernel (h.kernel _ hd) ?_
    have := L.pgdir_aligned
    rcases hx with hx | hx <;> bv_omega
  have h' := h.congr hm
  refine ⟨h'.inOrder, h'.kernel, h'.small, fun a => (h'.direct a).trans ?_⟩
  refine ⟨fun ha => ha.imp_right Or.inl, ?_⟩
  rintro (ha | ha | ha)
  · exact Or.inl ha
  · exact Or.inr ha
  · exact Or.inl ((dirIndex_eq_of_page ha).trans hd)

/-- The call makes the page that it maps visible, and changes nothing in the rest of the window. -/
theorem map4kb (h : Window L k P s.mem) (hk : k < 10) (hp : frame p = p) :
    ∃ k' ≤ k + 1, Window L k' (fun a => P a ∨ a >>> 12 = (p + kernelConfigVma) >>> 12)
      (pagingMap4kb L s p (p + kernelConfigVma) 0x3#32).mem := by
  by_cases hd : dirIndex (p + kernelConfigVma) = 768#32
  · exact ⟨k, Nat.le_succ k, h.map4kb_kernel hd⟩
  have hmaps : MapsPresent L s (.map4kb p (p + kernelConfigVma) 0x3#32) :=
    ⟨show (0x3#32).toNat < 0x1000 by decide, show present 0x3#32 = true by decide, h.small _ hd⟩
  have halloc : (allocates L s (.map4kb p (p + kernelConfigVma) 0x3#32)).toNat ≤ 1 :=
    Bool.toNat_le _
  have hspares := h.inOrder.sparesDirectory hmaps
  obtain ⟨hinv, htr⟩ := h.inOrder.step hmaps (by omega)
  refine ⟨_, Nat.add_le_add_left halloc k, hinv, fun a ha => ?_, fun a ha => ?_, fun a => ?_⟩
  · have hne : dirIndex a ≠ dirIndex (p + kernelConfigVma) := fun heq => hd (heq ▸ ha)
    exact (pde_step_ne hspares hne).trans (h.kernel a ha)
  · by_cases heq : dirIndex a = dirIndex (p + kernelConfigVma)
    · have hlarge : present (pdeOf L s.mem (p + kernelConfigVma)) = true →
          large (pdeOf L s.mem (p + kernelConfigVma)) = false := fun hpres => by
        simpa [hpres] using h.small _ hd
      have htable := (hasTable_map4kb (p := p) (f := 0x3#32) hspares hlarge).1
      rw [pdeOf, heq]
      rintro ⟨-, hl⟩
      exact absurd hl (ne_true_of_eq_false htable.2)
    · have hpde := pde_step_ne hspares heq
      rw [pagingStep] at hpde
      rw [hpde]
      exact h.small a ha
  · have htr := htr a
    rw [pagingStep] at htr
    rw [htr, PagingCall.maps]
    by_cases ha : a >>> 12 = (p + kernelConfigVma) >>> 12
    · rw [if_pos ha, Option.some_or, frame_or_offset_window hp ha]
      exact iff_of_true rfl (Or.inr (Or.inr ha))
    · rw [if_neg ha, Option.none_or, h.direct a]
      simp only [ha, or_false]

end Window

/-! ### What the calls leave outside the tables -/

section Outside

variable {L : Layout} {k : Nat} {s : System} {x : Word}

theorem le_sub_pgdir (hx : ¬InTables L x) : 4096 ≤ (x - L.pgdir).toNat :=
  Nat.le_of_not_lt fun h => hx (Or.inl h)

theorem le_sub_table (hx : ¬InTables L x) {t : Nat} (ht : t < 10) :
    4096 ≤ (x - L.table t).toNat := by
  have := L.toNat_table ht
  have := L.pgtbls_end
  have hx : ¬(x - L.pgtbls).toNat < 40960 := fun h => hx (Or.inr h)
  bv_omega

/-- A call that maps a present page stores in the page directory and in a page table. -/
theorem InOrder.byte_step (h : InOrder L k s.mem) {c : PagingCall} (hc : MapsPresent L s c)
    (hk : k + (allocates L s c).toNat ≤ 10) (hx : ¬InTables L x) :
    (pagingStep L s c).mem.byte x = s.mem.byte x := by
  cases c with
  | map4mb p l f =>
    rw [pagingStep, pagingMap4mb_mem]
    exact Mem.byte_setEntry_ne L.pgdir_pageAligned (dirIndex_lt l) (le_sub_pgdir hx)
  | map4kb p l f =>
    rw [pagingStep]
    cases habs : present (pdeOf L s.mem l) with
    | true =>
      obtain ⟨t, ht, -, hpt⟩ := h.owned.pageTable_eq ⟨habs, by simpa [habs] using hc.2.2⟩
      rw [pagingMap4kb_mem_present L s p l f habs, hpt, L.tablePhys_add_vma]
      exact Mem.byte_setEntry_ne (L.table_pageAligned ht) (tblIndex_lt l) (le_sub_table hx ht)
    | false =>
      rw [allocates, habs] at hk
      have hk : k < 10 := hk
      rw [pagingMap4kb_mem_absent L s p l f habs, h.freeTable hk, L.tablePhys_add_vma,
        Mem.byte_setEntry_ne (L.table_pageAligned hk) (tblIndex_lt l) (le_sub_table hx hk)]
      exact Mem.byte_setEntry_ne L.pgdir_pageAligned (dirIndex_lt l) (le_sub_pgdir hx)

theorem InOrder.byte_run {cs : List PagingCall} (hz : Zeroed L s.mem)
    (hrun : Allowed (pagingStep L) (MapsPresent L) s cs) (halloc : allocations L s cs ≤ 10)
    (hx : ¬InTables L x) : (cs.foldl (pagingStep L) s).mem.byte x = s.mem.byte x := by
  induction cs using List.reverseRecOn with
  | nil => rfl
  | append_singleton cs c ih =>
    obtain ⟨hcs, hc⟩ := allowed_append_singleton.mp hrun
    rw [allocations_append_singleton] at halloc
    have hinv := (InOrder.run hz hcs (by omega)).1
    rw [List.foldl_append, List.foldl_cons, List.foldl_nil, hinv.byte_step hc halloc hx]
    exact ih hcs (by omega)

/-- `paging_init` leaves the memory outside the tables as it was. -/
theorem byte_initEnd {I : Image} (s : System) (hx : ¬InTables I.toLayout x) :
    (initEnd I s).mem.byte x = s.mem.byte x := by
  have hz := zeroed_initStart I s
  have hnot : ¬((x - I.pgtbls).toNat < 40960 ∨ (x - I.pgdir).toNat < 4096) := fun h => hx h.symm
  rw [initEnd_mem, InOrder.byte_run hz (allowed_initCalls hz)
    ((allocations_le_length _ _ _).trans (by decide)) hx, initStart, System.printk_mem,
    byte_zeroTables, if_neg hnot]

end Outside

/-- After `paging_init` the higher half shows the first 4 MiB of physical memory, and no other
address is mapped to the physical address that it stands for. -/
theorem window_initEnd (I : Image) (s : System) :
    Window I.toLayout 1 (fun _ => False) (initEnd I s).mem := by
  have h := initialized_initEnd I s
  refine ⟨h.inOrder, h.kernel, fun a ha => ?_, fun a => ?_⟩
  · rintro ⟨hp, hl⟩
    by_cases hapic : dirIndex a = 0x3FB#32
    · exact absurd hl (ne_true_of_eq_false (h.apic a hapic).2)
    · exact absurd hp (ne_true_of_eq_false (h.absent a ha hapic))
  · rw [h.translate, or_false]
    constructor
    · intro htr
      by_contra hd
      by_cases hapic : a >>> 12 = 0xFEC00#32 ∨ a >>> 12 = 0xFEE00#32
      · rw [initCalls_apic hapic, Option.some_inj] at htr
        have hvma := toNat_kernelConfigVma
        bv_omega
      · rw [not_or] at hapic
        rw [initCalls_none hd hapic.1 hapic.2] at htr
        exact Option.some_ne_none _ htr.symm
    · exact fun hd => initCalls_kernel hd

end BasicX86Kernel.Mmu
