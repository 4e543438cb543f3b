import BasicX86Kernel.Mmu.Directory

/-! Access rights.  A right holds where the directory entry and the page-table entry both grant it,
and the directory entries that `paging_map_4kb` stores are writable and for the supervisor only. -/

namespace BasicX86Kernel.Mmu

open Machine

/-- The rights that both levels grant at `a`, to write and to access in user mode, if `a` is
mapped. -/
def effectiveRights (m : Mem) (cr3 a : Word) : Option (Bool × Bool) :=
  (walkAt m cr3 a).map fun t => (t.writable, t.user)

/-- Page `a` is mapped through the page-table entry that `paging_map_4kb` stores for `l`. -/
def SharesEntry (L : Layout) (m : Mem) (l a : Word) : Prop :=
  HasTable L m a ∧ frame (pdeOf L m a) = pageTable L m l ∧ tblIndex a = tblIndex l

variable {L : Layout} {s : System} {p l f a : Word}

theorem effectiveRights_map4kb_same (h : TablesOk L s.mem)
    (hlarge : ¬(present (pdeOf L s.mem l) = true ∧ large (pdeOf L s.mem l) = true))
    (hf : present f = true) (ha : a >>> 12 = l >>> 12) :
    effectiveRights (pagingMap4kb L s p l f).mem L.cr3 a = some (writable f, false) := by
  have hpt := h.pageTable_ne_cr3 hlarge
  have hsmall : present (pdeOf L s.mem l) = true → large (pdeOf L s.mem l) = false := fun hp =>
    Bool.eq_false_of_not_eq_true fun hl => hlarge ⟨hp, hl⟩
  obtain ⟨htbl, -⟩ := hasTable_map4kb (p := p) (f := f) hpt hsmall
  have hstep : TablesOk L (pagingMap4kb L s p l f).mem :=
    h.step (c := .map4kb p l f) (by rwa [SparesDirectory])
  obtain ⟨t, -, hpde⟩ := hstep l htbl
  rw [effectiveRights, walkAt_map4kb_same hpt hsmall ha hf, hpde, writable_tableEntry,
    user_tableEntry, Bool.true_and, Bool.false_and]
  rfl

theorem effectiveRights_map4kb_ne (h : TablesOk L s.mem)
    (hlarge : ¬(present (pdeOf L s.mem l) = true ∧ large (pdeOf L s.mem l) = true))
    (hmapped : effectiveRights s.mem L.cr3 a ≠ none) (hshare : ¬SharesEntry L s.mem l a) :
    effectiveRights (pagingMap4kb L s p l f).mem L.cr3 a = effectiveRights s.mem L.cr3 a := by
  have hpt := h.pageTable_ne_cr3 hlarge
  have hregion : dirIndex a ≠ dirIndex l ∨ present (pdeOf L s.mem l) = true := by
    by_contra hno
    rw [not_or, not_not, Bool.not_eq_true] at hno
    refine hmapped ?_
    rw [effectiveRights, walkAt_cr3, walk_absent (by rw [hno.1]; exact hno.2), Option.map_none]
  rw [effectiveRights, effectiveRights, walkAt_map4kb_ne hpt hregion]
  · exact fun hb => h.frame_ne_cr3 hb
  · intro hb
    rw [← not_and_or]
    exact fun hboth => hshare ⟨hb, hboth⟩

/-- A page that `paging_map_4kb` maps outside a 4 MiB page is writable as asked for and never
accessible in user mode, and the other mapped pages keep their rights, those that share its
page-table entry apart. -/
theorem pagingMap4kb_effectiveRights (L : Layout) (s₀ : System) (cs : List PagingCall)
    (p l f : Word) (hz : Zeroed L s₀.mem)
    (hrun : Allowed (pagingStep L) (SparesDirectory L) s₀ cs)
    (hlarge : ¬(present (pdeOf L (cs.foldl (pagingStep L) s₀).mem l) = true ∧
      large (pdeOf L (cs.foldl (pagingStep L) s₀).mem l) = true)) (hf : present f = true) :
    (∀ a : Word, a >>> 12 = l >>> 12 →
      effectiveRights (pagingMap4kb L (cs.foldl (pagingStep L) s₀) p l f).mem L.cr3 a =
        some (writable f, false)) ∧
    ∀ a : Word, a >>> 12 ≠ l >>> 12 →
      effectiveRights (cs.foldl (pagingStep L) s₀).mem L.cr3 a ≠ none →
      ¬SharesEntry L (cs.foldl (pagingStep L) s₀).mem l a →
        effectiveRights (pagingMap4kb L (cs.foldl (pagingStep L) s₀) p l f).mem L.cr3 a =
          effectiveRights (cs.foldl (pagingStep L) s₀).mem L.cr3 a := by
  have h := hz.tablesOk.run hrun
  exact ⟨fun a ha => effectiveRights_map4kb_same h hlarge hf ha,
    fun a _ hmapped hshare => effectiveRights_map4kb_ne h hlarge hmapped hshare⟩

/-- A page that may only be read, and a writable page of another region. -/
def rightsCalls : List PagingCall :=
  [.map4kb 0x00300000#32 0x10000000#32 0x1#32, .map4kb 0x00302000#32 0x20002000#32 0x3#32]

/-- A third page in the first region, which has its page table by then. -/
theorem pagingMap4kb_effectiveRights_kernelElf :
    let s := rightsCalls.foldl (pagingStep kernelElf.toLayout) System.blank
    let s' := pagingMap4kb kernelElf.toLayout s 0x00301000#32 0x10001000#32 0x3#32
    HasTable kernelElf.toLayout s.mem 0x10001000#32 ∧
      effectiveRights s'.mem kernelElf.cr3 0x10001ABC#32 = some (true, false) ∧
      effectiveRights s'.mem kernelElf.cr3 0x10000DEF#32 = some (false, false) ∧
      effectiveRights s'.mem kernelElf.cr3 0x20002004#32 = some (true, false) := by
  have hz := zeroed_blank kernelElf.toLayout
  have habs₀ := ne_true_of_eq_false (hz.absent 0x10000000#32)
  have hspares₀ : SparesDirectory kernelElf.toLayout System.blank
      (.map4kb 0x00300000#32 0x10000000#32 0x1#32) := hz.pageTable_ne_cr3 _
  have hok₁ := hz.tablesOk.step hspares₀
  have htable₁ := (hasTable_map4kb (p := 0x00300000#32) (f := 0x1#32) hspares₀ fun h =>
    absurd h habs₀).1
  have hrights₁ := effectiveRights_map4kb_same (p := 0x00300000#32) (f := 0x1#32)
    (a := 0x10000DEF#32) hz.tablesOk (fun h => habs₀ h.1) (by decide) (by decide)
  have habs₁ := pde_step_ne hspares₀ (a := 0x20002000#32) (by decide)
  have hthm := pagingMap4kb_effectiveRights kernelElf.toLayout System.blank rightsCalls
    0x00301000#32 0x10001000#32 0x3#32 hz
  simp only [rightsCalls, List.foldl_cons, List.foldl_nil, pagingStep, allowed_cons,
    Allowed.nil, and_true] at hthm hok₁ habs₁ ⊢
  generalize pagingMap4kb kernelElf.toLayout System.blank 0x00300000#32 0x10000000#32 0x1#32 = s₁
    at hthm hok₁ htable₁ hrights₁ habs₁ ⊢
  -- the page of the other region, which gets a page table too
  have habs₁ : ¬present (pdeOf kernelElf.toLayout s₁.mem 0x20002000#32) = true := by
    rw [habs₁]
    exact ne_true_of_eq_false (hz.absent _)
  have hspares₁ : SparesDirectory kernelElf.toLayout s₁
      (.map4kb 0x00302000#32 0x20002000#32 0x3#32) :=
    hok₁.pageTable_ne_cr3 fun h => habs₁ h.1
  have hrights₂ := effectiveRights_map4kb_same (p := 0x00302000#32) (f := 0x3#32)
    (a := 0x20002004#32) hok₁ (fun h => habs₁ h.1) (by decide) (by decide)
  have hkept₂ := effectiveRights_map4kb_ne (p := 0x00302000#32) (f := 0x3#32)
    (a := 0x10000DEF#32) hok₁ (fun h => habs₁ h.1)
    (fun h => absurd (hrights₁.symm.trans h) (by decide))
    (fun h => absurd h.2.2 (by decide))
  have htable₂ : HasTable kernelElf.toLayout
      (pagingMap4kb kernelElf.toLayout s₁ 0x00302000#32 0x20002000#32 0x3#32).mem
      0x10001000#32 := by
    have hd : dirIndex 0x10001000#32 = dirIndex 0x10000000#32 := by decide
    rw [HasTable, pdeOf, hd, ← pdeOf, pde_map4kb_ne hspares₁ (Or.inl (by decide))]
    exact htable₁
  rw [hrights₁] at hkept₂
  generalize pagingMap4kb kernelElf.toLayout s₁ 0x00302000#32 0x20002000#32 0x3#32 = s₂
    at hthm hrights₂ hkept₂ htable₂ ⊢
  -- the third page
  obtain ⟨hnew, hold⟩ := hthm ⟨hspares₀, hspares₁⟩
    (fun h => absurd h.2 (ne_true_of_eq_false htable₂.2)) (by decide)
  refine ⟨htable₂, hnew _ (by decide), ?_, ?_⟩
  · rw [hold _ (by decide) (by rw [hkept₂]; simp) fun hshare => absurd hshare.2.2 (by decide),
      hkept₂]
    rfl
  · rw [hold _ (by decide) (by rw [hrights₂]; simp) fun hshare => absurd hshare.2.2 (by decide),
      hrights₂]
    rfl

/-- A page mapped with the user flag is not accessible in user mode. -/
theorem effectiveRights_user_kernelElf :
    user 0x7#32 = true ∧ Zeroed kernelElf.toLayout System.blank.mem ∧
      effectiveRights (pagingMap4kb kernelElf.toLayout System.blank 0x1000#32 0x1000#32
        0x7#32).mem kernelElf.cr3 0x1000#32 = some (true, false) := by
  have hz := zeroed_blank kernelElf.toLayout
  have habs := hz.absent 0x1000#32
  exact ⟨by decide, hz, effectiveRights_map4kb_same hz.tablesOk
    (fun h => absurd h.1 (ne_true_of_eq_false habs)) (by decide) rfl⟩

end BasicX86Kernel.Mmu
