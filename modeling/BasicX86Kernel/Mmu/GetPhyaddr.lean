import BasicX86Kernel.Mmu.Init

/-! `paging_get_phyaddr` once paging is on.  It follows the physical addresses in CR3 and in the
directory entry as if they were pointers, which is right where the active tables map them to
themselves; after `paging_init` the lower half is not mapped at all. -/

namespace BasicX86Kernel.Mmu

open Machine

/-- The directory entry that the processor reads for `a`. -/
def activePde (s : System) (a : Word) : Word :=
  s.mem.entry (frame s.cr3 + kernelConfigVma) (dirIndex a)

/-- The two pointers that `paging_get_phyaddr` dereferences for `a`, into the directory and into
the page table, are linear addresses that the active tables map to those entries. -/
structure PointersMapped (s : System) (a : Word) : Prop where
  directory : translate s.mem s.cr3 (pagingGetPageDirectory s + 4 * dirIndex a) =
    some (frame s.cr3 + 4 * dirIndex a)
  table : present (activePde s a) = true → large (activePde s a) = false →
    translate s.mem s.cr3 (frame (activePde s a) + 4 * tblIndex a) =
      some (frame (activePde s a) + 4 * tblIndex a)

/-- The pointers are mapped, and the result is what the walk of the processor gives, with 0 for an
address that is not mapped. -/
structure GetPhyaddrCorrect (s : System) (a : Word) : Prop extends PointersMapped s a where
  result : pagingGetPhyaddr s a = some ((translate s.mem s.cr3 a).getD 0)

theorem load32_eq {s : System} {p t i : Word}
    (h : translate s.mem s.cr3 p = some (t + 4 * i)) :
    s.load32 p = some (s.mem.entry (t + kernelConfigVma) i) := by
  rw [System.load32, h, Option.map_some, Mem.entry, add_right_comm]

theorem pagingGetPhyaddr_fault {s : System} {a : Word}
    (h : translate s.mem s.cr3 (s.cr3 + 4 * dirIndex a) = none) : pagingGetPhyaddr s a = none := by
  have hload : s.load32 (s.cr3 + 4 * dirIndex a) = none := by
    rw [System.load32, h, Option.map_none]
  rw [dirIndex] at hload
  rw [pagingGetPhyaddr, pagingGetPageDirectory, hload]
  rfl

section Branches

variable {s : System} {a e pte : Word}
  (hload : s.load32 (pagingGetPageDirectory s + 4 * dirIndex a) = some e)
include hload

theorem pagingGetPhyaddr_absent (hp : present e = false) : pagingGetPhyaddr s a = some 0 := by
  rw [dirIndex] at hload
  rw [pagingGetPhyaddr, hload, Option.bind_eq_bind, Option.bind_some,
    if_pos ((and_present_eq_zero_iff e).mpr hp)]
  rfl

theorem pagingGetPhyaddr_large (hp : present e = true) (hl : large e = true) :
    pagingGetPhyaddr s a = some (largeFrame e ||| (a &&& 0x3FFFFF#32)) := by
  have hpres : ¬e &&& pagingPdePresent = 0 := by
    rw [and_present_eq_zero_iff, hp]
    decide
  have hsize : e &&& pagingPdeSize ≠ 0 := by
    rw [Ne, and_size_eq_zero_iff, hl]
    decide
  rw [dirIndex] at hload
  rw [pagingGetPhyaddr, hload, Option.bind_eq_bind, Option.bind_some, if_neg hpres]
  simp only [if_pos hsize]
  rfl

theorem pagingGetPhyaddr_small (hp : present e = true) (hl : large e = false)
    (hpte : s.load32 (frame e + 4 * tblIndex a) = some pte) : pagingGetPhyaddr s a =
      some (if present pte then frame pte ||| (a &&& 0xFFF#32) else 0) := by
  have hpres : ¬e &&& pagingPdePresent = 0 := by
    rw [and_present_eq_zero_iff, hp]
    decide
  have hsize : ¬e &&& pagingPdeSize ≠ 0 := not_not.mpr ((and_size_eq_zero_iff e).mpr hl)
  rw [dirIndex] at hload
  rw [frame, tblIndex] at hpte
  rw [pagingGetPhyaddr, hload, Option.bind_eq_bind, Option.bind_some, if_neg hpres]
  simp only [if_neg hsize, hpte, Option.bind_some, show pagingPtePresent = pagingPdePresent from rfl]
  cases hpte' : present pte with
  | false =>
    rw [if_pos ((and_present_eq_zero_iff pte).mpr hpte')]
    rfl
  | true =>
    rw [if_neg (by rw [and_present_eq_zero_iff, hpte']; decide)]
    rfl

end Branches

/-- The walk in software is the walk of the processor when its pointers are mapped. -/
theorem PointersMapped.result {s : System} {a : Word} (h : PointersMapped s a) :
    pagingGetPhyaddr s a = some ((translate s.mem s.cr3 a).getD 0) := by
  have hload := load32_eq h.directory
  have htable := fun hp hl => load32_eq (h.table hp hl)
  rw [translate, walkAt]
  unfold activePde at htable
  generalize s.mem.entry (frame s.cr3 + kernelConfigVma) = dir at hload htable ⊢
  cases hp : present (dir (dirIndex a)) with
  | false =>
    rw [pagingGetPhyaddr_absent hload hp, walk_absent hp]
    rfl
  | true =>
    cases hl : large (dir (dirIndex a)) with
    | true =>
      rw [pagingGetPhyaddr_large hload hp hl, walk_large hp hl]
      rfl
    | false =>
      rw [pagingGetPhyaddr_small hload hp hl (htable hp hl)]
      let tbl := fun t => s.mem.entry (t + kernelConfigVma)
      cases hpte : present (tbl (frame (dir (dirIndex a))) (tblIndex a)) with
      | true =>
        rw [@walk_small dir tbl a hp hl hpte]
        rfl
      | false =>
        rw [@walk_small_absent dir tbl a hp hl hpte]
        rfl

theorem getPhyaddrCorrect_iff (s : System) (a : Word) :
    GetPhyaddrCorrect s a ↔ PointersMapped s a :=
  ⟨fun h => h.toPointersMapped, fun h => ⟨h, h.result⟩⟩

/-! ### After `paging_init` -/

/-- The call maps an address of the higher half, and the directory entry that it uses is mapped, so
that it returns. -/
def HighCall (I : Image) (s : System) (c : PagingCall) : Prop :=
  kernelConfigVma ≤ c.linaddr ∧
    translate s.mem s.cr3 (I.pgdir + 4 * dirIndex c.linaddr) ≠ none

/-- The lower half has no directory entries. -/
structure LowUnmapped (I : Image) (s : System) : Prop where
  cr3 : s.cr3 = I.cr3
  dirOk : DirOk I.toLayout s.mem
  absent : ∀ a, dirIndex a < dirIndex kernelConfigVma → present (pdeOf I.toLayout s.mem a) = false

section Runs

variable {I : Image} {s : System} {cs : List PagingCall} {a : Word}

theorem lowUnmapped_initEnd (I : Image) (s : System) : LowUnmapped I (initEnd I s) := by
  have h := initialized_initEnd I s
  refine ⟨rfl, h.dirOk, fun a ha => h.absent a ?_ ?_⟩ <;> rintro heq <;> rw [heq] at ha <;>
    exact absurd ha (by decide)

/-- Below 4 MiB the directory is not the frame of a 4 MiB page. -/
theorem LowUnmapped.sparesDirectory (h : LowUnmapped I s) (hdir : I.pgdir.toNat < 0xC0400000)
    (c : PagingCall) : SparesDirectory I.toLayout s c := by
  cases c with
  | map4mb p l f => trivial
  | map4kb p l f =>
    by_cases hl : present (pdeOf I.toLayout s.mem l) = true ∧ large (pdeOf I.toLayout s.mem l) = true
    · rw [SparesDirectory, pageTable_present hl.1, h.dirOk.aligned l hl.1 hl.2]
      intro heq
      have := congrArg BitVec.toNat heq
      rw [toNat_largeFrame, I.toNat_cr3] at this
      have := I.pgdir_image
      omega
    · exact h.dirOk.tables.pageTable_ne_cr3 hl

theorem LowUnmapped.step (h : LowUnmapped I s) (hdir : I.pgdir.toNat < 0xC0400000)
    {c : PagingCall} (hc : kernelConfigVma ≤ c.linaddr) (hf : c.flags.toNat < 0x1000) :
    LowUnmapped I (pagingStep I.toLayout s c) := by
  have hspares := h.sparesDirectory hdir c
  refine ⟨?_, h.dirOk.step hspares hf, fun a ha => ?_⟩
  · rw [pagingStep_cr3, h.cr3]
  · have hd : dirIndex a ≠ dirIndex c.linaddr := by
      rintro heq
      rw [heq, BitVec.lt_def, toNat_dirIndex, toNat_dirIndex, toNat_kernelConfigVma] at ha
      have : 0xC0000000 ≤ c.linaddr.toNat := hc
      omega
    rw [pde_step_ne hspares hd]
    exact h.absent a ha

/-- A call right after `paging_init` returns when the directory lies below 4 MiB. -/
theorem pgdir_lt_of_highCall {c : PagingCall} (hc : HighCall I (initEnd I s) c) :
    I.pgdir.toNat < 0xC0400000 := by
  have hend := I.pgdir_end
  have hbound := I.end_bound
  have hentry := Mem.toNat_entry I.pgdir_pageAligned (dirIndex_lt c.linaddr)
  have himage := I.pgdir_image
  have := dirIndex_lt c.linaddr
  by_contra hno
  refine hc.2 ?_
  have hpage : ∀ p : Word, 0xFEC00 ≤ p.toNat →
      (I.pgdir + 4 * dirIndex c.linaddr) >>> 12 ≠ p := by
    rintro p hp rfl
    rw [BitVec.toNat_ushiftRight, Nat.shiftRight_eq_div_pow, hentry] at hp
    omega
  rw [translate_initEnd, initCalls_none ?_ (hpage _ (by decide)) (hpage _ (by decide))]
  intro heq
  have := congrArg BitVec.toNat heq
  rw [toNat_dirIndex, hentry, show (768#32).toNat = 768 from rfl] at this
  omega

theorem LowUnmapped.run (hrun : Allowed (pagingStep I.toLayout) (HighCall I) (initEnd I s) cs)
    (hflags : ∀ c ∈ cs, c.flags.toNat < 0x1000) :
    LowUnmapped I (cs.foldl (pagingStep I.toLayout) (initEnd I s)) := by
  have hdir : cs ≠ [] → I.pgdir.toNat < 0xC0400000 := by
    intro hne
    obtain ⟨c, ds, rfl⟩ := List.exists_cons_of_ne_nil hne
    exact pgdir_lt_of_highCall hrun.1
  induction cs using List.reverseRecOn with
  | nil => exact lowUnmapped_initEnd I s
  | append_singleton cs c ih =>
    obtain ⟨hcs, hc⟩ := allowed_append_singleton.mp hrun
    rw [List.foldl_append]
    refine (ih hcs (fun d hd => hflags d (by simp [hd])) fun _ => hdir (by simp)).step
      (hdir (by simp)) hc.1 (hflags c (by simp))

theorem Image.dirIndex_cr3_entry (I : Image) {i : Word} (hi : i.toNat < 1024) :
    dirIndex (I.cr3 + 4 * i) < dirIndex kernelConfigVma := by
  have hend := I.pgdir_end
  have hbound := I.end_bound
  have himage := I.pgdir_image
  have haligned := I.pgdir_aligned
  have hcr3 := I.toNat_cr3
  have halign : Mem.PageAligned I.cr3 := by
    rw [Mem.PageAligned, hcr3]
    omega
  rw [BitVec.lt_def, toNat_dirIndex, toNat_dirIndex, Mem.toNat_entry halign hi, hcr3,
    toNat_kernelConfigVma]
  omega

/-- The pointer that `paging_get_phyaddr` takes from CR3 is not mapped. -/
theorem LowUnmapped.directory_fault (h : LowUnmapped I s) :
    translate s.mem s.cr3 (s.cr3 + 4 * dirIndex a) = none := by
  have hlow := h.absent _ (I.dirIndex_cr3_entry (dirIndex_lt a))
  rw [h.cr3, translate, walkAt_cr3, walk_absent hlow, Option.map_none]

theorem LowUnmapped.not_correct (h : LowUnmapped I s) : ¬GetPhyaddrCorrect s a := by
  intro hcorrect
  have hdir := hcorrect.directory
  rw [pagingGetPageDirectory, h.directory_fault] at hdir
  exact Option.some_ne_none _ hdir.symm

end Runs

/-- `paging_get_phyaddr` is right where its pointers are mapped to themselves, and no run after
`paging_init` with flags in the low 12 bits reaches a state in which they are: it faults for every
address. -/
theorem pagingGetPhyaddr_never_correct (I : Image) (s s' : System) (cs : List PagingCall)
    (hword : s.mem.read32 (I.kernelPhysicalEnd + kernelConfigVma) = 0)
    (hinit : pagingInit I s = some s')
    (hrun : Allowed (pagingStep I.toLayout) (HighCall I) s' cs) (a : Word) :
    (GetPhyaddrCorrect (cs.foldl (pagingStep I.toLayout) s') a ↔
      PointersMapped (cs.foldl (pagingStep I.toLayout) s') a) ∧
    ((∀ c ∈ cs, c.flags.toNat < 0x1000) →
      ¬GetPhyaddrCorrect (cs.foldl (pagingStep I.toLayout) s') a ∧
        pagingGetPhyaddr (cs.foldl (pagingStep I.toLayout) s') a = none) := by
  refine ⟨getPhyaddrCorrect_iff _ a, fun hflags => ?_⟩
  rw [pagingInit_of_zero hword] at hinit
  obtain rfl := Option.some_inj.mp hinit
  have h := LowUnmapped.run hrun hflags
  exact ⟨h.not_correct, pagingGetPhyaddr_fault h.directory_fault⟩

theorem pagingGetPhyaddr_kernelElf :
    pagingGetPhyaddr ([.map4kb 0xB8000#32 0xC0400000#32 0x3#32].foldl
      (pagingStep kernelElf.toLayout) (initEnd kernelElf System.blank)) 0xC0400000#32 = none := by
  have hinit := pagingInit_of_zero (I := kernelElf) (s := System.blank) (read32_blank _)
  have hcall : HighCall kernelElf (initEnd kernelElf System.blank)
      (.map4kb 0xB8000#32 0xC0400000#32 0x3#32) := by
    refine ⟨by decide, ?_⟩
    rw [translate_initEnd, initCalls_kernel (by decide)]
    exact Option.some_ne_none _
  have hrun : Allowed (pagingStep kernelElf.toLayout) (HighCall kernelElf)
      (initEnd kernelElf System.blank) [.map4kb 0xB8000#32 0xC0400000#32 0x3#32] := ⟨hcall, trivial⟩
  refine ((pagingGetPhyaddr_never_correct kernelElf System.blank _ _ (read32_blank _) hinit
    hrun _).2 ?_).2
  simp [PagingCall.flags]

/-- Right after `paging_init`, the video memory's address is not found. -/
theorem pagingGetPhyaddr_not_correct_kernelElf :
    pagingInit kernelElf System.blank = some (initEnd kernelElf System.blank) ∧
      ¬GetPhyaddrCorrect (initEnd kernelElf System.blank) 0xC00B8000#32 :=
  ⟨pagingInit_of_zero (I := kernelElf) (s := System.blank) (read32_blank _),
    (lowUnmapped_initEnd _ _).not_correct⟩

end BasicX86Kernel.Mmu
