import BasicX86Kernel.Mmu.Owned

/-! The page tables refine the map that remembers the last call for every page: from zeroed tables,
after any calls that map present pages and do not split a 4 MiB page, the walk over `_pgdir` finds
for each address what the most recent call that covers the address put there. -/

namespace BasicX86Kernel.Mmu

open Machine

/-- What a call maps address `a` to, if the page or the 4 MiB region of the call covers `a`. -/
def PagingCall.maps : PagingCall → Word → Option Word
  | map4kb p l _, a => if a >>> 12 = l >>> 12 then some (frame p ||| (a &&& 0xFFF#32)) else none
  | map4mb p l _, a =>
    if a >>> 22 = l >>> 22 then some (largeFrame p ||| (a &&& 0x3FFFFF#32)) else none

/-- The call maps a page as present, has no flag outside the low 12 bits, and is not a
`paging_map_4kb` inside a 4 MiB page. -/
def MapsPresent (L : Layout) (s : System) (c : PagingCall) : Prop :=
  c.flags.toNat < 0x1000 ∧ present c.flags = true ∧
    match c with
    | .map4kb _ l _ => ¬(present (pdeOf L s.mem l) = true ∧ large (pdeOf L s.mem l) = true)
    | .map4mb .. => True

/-- The invariant of the runs: the first `k` page tables are in use and owned. -/
structure InOrder (L : Layout) (k : Nat) (m : Mem) : Prop where
  owned : Owned L k m
  used : ∀ t < 10, (pagingTableUsed m (L.table t) = true ↔ t < k)

namespace InOrder

variable {L : Layout} {k : Nat} {m : Mem} {s : System} {p l f : Word}

theorem of_zeroed (hz : Zeroed L m) : InOrder L 0 m :=
  ⟨Owned.of_zeroed hz, fun t ht => by simp [hz.unused ht]⟩

theorem unused (h : InOrder L k m) (hk : k < 10) : pagingTableUsed m (L.table k) = false := by
  rw [← Bool.not_eq_true, h.used k hk]
  exact lt_irrefl k

theorem freeTable (h : InOrder L k m) (hk : k < 10) : pagingFreeTable L m = L.tablePhys k :=
  pagingFreeTable_eq hk (h.unused hk) fun u hu => (h.used u (by omega)).mpr hu

theorem map4mb (h : InOrder L k s.mem) : InOrder L k (pagingMap4mb L s p l f).mem :=
  ⟨h.owned.map4mb, fun t ht => by rw [tableUsed_map4mb ht, h.used t ht]⟩

theorem map4kb_table (h : InOrder L k s.mem) (hl : HasTable L s.mem l) (hp : present f = true) :
    InOrder L k (pagingMap4kb L s p l f).mem := by
  obtain ⟨t, ht, htk, hpt⟩ := h.owned.pageTable_eq hl
  refine ⟨h.owned.map4kb_table hl, fun u hu => ?_⟩
  by_cases hut : u = t
  · rw [hut, tableUsed_map4kb_same hp hpt]
    simp [htk]
  · rw [tableUsed_map4kb_ne ht hu hut hpt, h.used u hu]

theorem map4kb_absent (h : InOrder L k s.mem) (hk : k < 10)
    (habs : present (pdeOf L s.mem l) = false) (hp : present f = true) :
    InOrder L (k + 1) (pagingMap4kb L s p l f).mem := by
  have hpt : pageTable L s.mem l = L.tablePhys k := (pageTable_absent habs).trans (h.freeTable hk)
  refine ⟨h.owned.map4kb_absent hk habs (h.freeTable hk), fun u hu => ?_⟩
  by_cases huk : u = k
  · rw [huk, tableUsed_map4kb_same hp hpt]
    simp
  · rw [tableUsed_map4kb_ne hk hu huk hpt, h.used u hu]
    omega

/-! ### The translation after one call -/

theorem translate_map4mb (h : InOrder L k s.mem) (hf : f.toNat < 0x1000) (hp : present f = true)
    (a : Word) : translate (pagingMap4mb L s p l f).mem L.cr3 a =
      ((PagingCall.map4mb p l f).maps a).or (translate s.mem L.cr3 a) := by
  rw [translate, translate, PagingCall.maps]
  by_cases hd : a >>> 22 = l >>> 22
  · rw [if_pos hd, walkAt_map4mb_same hd hf hp, Option.some_or]
  · rw [if_neg hd, walkAt_map4mb_ne hd fun ha => h.owned.frame_ne_cr3 ha, Option.none_or]

theorem translate_map4kb_same {a : Word} (hf : f.toNat < 0x1000) (hp : present f = true)
    (hpt : pageTable L s.mem l ≠ L.cr3)
    (hlarge : present (pdeOf L s.mem l) = true → large (pdeOf L s.mem l) = false)
    (ha : a >>> 12 = l >>> 12) : translate (pagingMap4kb L s p l f).mem L.cr3 a =
      ((PagingCall.map4kb p l f).maps a).or (translate s.mem L.cr3 a) := by
  rw [translate, walkAt_map4kb_same hpt hlarge ha hp, PagingCall.maps, if_pos ha,
    frame_smallEntry p hf]
  rfl

theorem translate_map4kb_table (h : InOrder L k s.mem) (hl : HasTable L s.mem l)
    (hf : f.toNat < 0x1000) (hp : present f = true) (a : Word) :
    translate (pagingMap4kb L s p l f).mem L.cr3 a =
      ((PagingCall.map4kb p l f).maps a).or (translate s.mem L.cr3 a) := by
  have hpt : pageTable L s.mem l ≠ L.cr3 := pageTable_present hl.1 ▸ h.owned.frame_ne_cr3 hl
  by_cases ha : a >>> 12 = l >>> 12
  · exact translate_map4kb_same hf hp hpt (fun _ => hl.2) ha
  · rw [translate, translate, PagingCall.maps, if_neg ha, Option.none_or,
      walkAt_map4kb_ne hpt (Or.inr hl.1) fun hta => h.owned.frame_ne_cr3 hta]
    intro hta
    rw [pageTable_present hl.1]
    by_contra hno
    push Not at hno
    exact ha ((page_eq_iff a l).mpr ⟨h.owned.own a l hta hl hno.1, hno.2⟩)

theorem translate_map4kb_absent (h : InOrder L k s.mem) (hk : k < 10)
    (habs : present (pdeOf L s.mem l) = false) (hf : f.toNat < 0x1000) (hp : present f = true)
    (a : Word) : translate (pagingMap4kb L s p l f).mem L.cr3 a =
      ((PagingCall.map4kb p l f).maps a).or (translate s.mem L.cr3 a) := by
  have hpt : pageTable L s.mem l = L.tablePhys k := (pageTable_absent habs).trans (h.freeTable hk)
  have hcr3 : pageTable L s.mem l ≠ L.cr3 := hpt ▸ L.tablePhys_ne_cr3 hk
  by_cases ha : a >>> 12 = l >>> 12
  · exact translate_map4kb_same hf hp hcr3 (fun h => absurd h (ne_true_of_eq_false habs)) ha
  rw [translate, translate, PagingCall.maps, if_neg ha, Option.none_or]
  by_cases hd : dirIndex a = dirIndex l
  · have hnone : walkAt s.mem L.cr3 a = none := by
      rw [walkAt_cr3]
      exact walk_absent (by rw [hd]; exact habs)
    rw [hnone, walkAt_map4kb_fresh hk habs (h.freeTable hk) (h.unused hk) hd]
    exact fun ht => ha ((page_eq_iff a l).mpr ⟨hd, ht⟩)
  · rw [walkAt_map4kb_ne hcr3 (Or.inl hd) fun hta => h.owned.frame_ne_cr3 hta]
    intro hta
    left
    obtain ⟨t, ht, htk, hframe⟩ := h.owned.table a hta
    rw [hframe, hpt]
    intro heq
    have := L.tablePhys_injective ht hk heq
    omega

/-- A call that maps a present page keeps the tables in order, and sets the translation of the
addresses that it covers and of no other. -/
theorem step (h : InOrder L k s.mem) {c : PagingCall} (hc : MapsPresent L s c)
    (hk : k + (allocates L s c).toNat ≤ 10) :
    InOrder L (k + (allocates L s c).toNat) (pagingStep L s c).mem ∧
      ∀ a, translate (pagingStep L s c).mem L.cr3 a =
        (c.maps a).or (translate s.mem L.cr3 a) := by
  obtain ⟨hf, hp, hc⟩ := hc
  cases c with
  | map4mb p l f => exact ⟨h.map4mb, h.translate_map4mb hf hp⟩
  | map4kb p l f =>
    cases habs : present (pdeOf L s.mem l) with
    | true =>
      have hl : HasTable L s.mem l := ⟨habs, by simpa [habs] using hc⟩
      rw [allocates, habs]
      exact ⟨h.map4kb_table hl hp, h.translate_map4kb_table hl hf hp⟩
    | false =>
      rw [allocates, habs] at hk ⊢
      exact ⟨h.map4kb_absent hk habs hp, h.translate_map4kb_absent hk habs hf hp⟩

theorem sparesDirectory (h : InOrder L k s.mem) {c : PagingCall} (hc : MapsPresent L s c) :
    SparesDirectory L s c := by
  cases c with
  | map4mb p l f => trivial
  | map4kb p l f =>
    rw [SparesDirectory]
    cases habs : present (pdeOf L s.mem l) with
    | true =>
      rw [pageTable_present habs]
      exact h.owned.frame_ne_cr3 ⟨habs, by simpa [habs] using hc.2.2⟩
    | false =>
      rw [pageTable_absent habs]
      exact freeTable_ne_cr3 L s.mem

/-- After a run the tables are in order, and the walk is the last-writer map. -/
theorem run {cs : List PagingCall} (hz : Zeroed L s.mem)
    (hrun : Allowed (pagingStep L) (MapsPresent L) s cs) (halloc : allocations L s cs ≤ 10) :
    InOrder L (allocations L s cs) (cs.foldl (pagingStep L) s).mem ∧
      ∀ a, translate (cs.foldl (pagingStep L) s).mem L.cr3 a =
        lastWriter PagingCall.maps cs a := by
  induction cs using List.reverseRecOn with
  | nil =>
    refine ⟨of_zeroed hz, fun a => ?_⟩
    rw [List.foldl_nil, translate, walkAt_cr3, walk_absent]
    · rfl
    · exact hz.absent a
  | append_singleton cs c ih =>
    obtain ⟨hcs, hc⟩ := allowed_append_singleton.mp hrun
    rw [allocations_append_singleton] at halloc
    obtain ⟨hinv, htr⟩ := ih hcs (by omega)
    obtain ⟨hinv', hstep⟩ := hinv.step hc halloc
    rw [List.foldl_append, allocations_append_singleton]
    refine ⟨hinv', fun a => ?_⟩
    rw [lastWriter_append_singleton, ← htr a]
    exact hstep a

end InOrder

/-- After every call, the walk translates each address as the last call that covers it asked for;
a further call changes no translation outside the page or region it maps. -/
theorem pagingRun_refines_lastWriter (L : Layout) (s : System) (cs : List PagingCall)
    (hz : Zeroed L s.mem) (hrun : Allowed (pagingStep L) (MapsPresent L) s cs)
    (halloc : allocations L s cs ≤ 10) :
    (∀ a, translate (cs.foldl (pagingStep L) s).mem L.cr3 a = lastWriter PagingCall.maps cs a) ∧
      ∀ c, MapsPresent L (cs.foldl (pagingStep L) s) c → allocations L s (cs ++ [c]) ≤ 10 →
        ∀ a, c.maps a = none →
          translate (pagingStep L (cs.foldl (pagingStep L) s) c).mem L.cr3 a =
            translate (cs.foldl (pagingStep L) s).mem L.cr3 a := by
  obtain ⟨hinv, htr⟩ := InOrder.run hz hrun halloc
  refine ⟨htr, fun c hc hk a ha => ?_⟩
  rw [allocations_append_singleton] at hk
  rw [(hinv.step hc hk).2 a, ha, Option.none_or]

theorem pagingRun_refines_lastWriter_kernelElf :
    translate (pagingMap4kb kernelElf.toLayout
      (pagingMap4mb kernelElf.toLayout System.blank 0x400000#32 0x400000#32 0x83#32)
      0x5000#32 0xC000#32 0x3#32).mem kernelElf.cr3 0xCABC#32 = some 0x5ABC#32 :=
  (pagingRun_refines_lastWriter kernelElf.toLayout System.blank
    [.map4mb 0x400000#32 0x400000#32 0x83#32, .map4kb 0x5000#32 0xC000#32 0x3#32]
    (zeroed_blank _) ⟨⟨by decide, by decide, trivial⟩, ⟨by decide, by decide, by decide⟩, trivial⟩
    (by decide)).1 0xCABC#32

end BasicX86Kernel.Mmu
