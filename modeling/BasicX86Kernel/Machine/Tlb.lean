import BasicX86Kernel.Machine.Translation
import Mathlib.Data.Set.Basic

/-! A translation lookaside buffer as a set of cached translations, and its coherence with the
translation `tr` that the active tables give. -/

namespace BasicX86Kernel.Machine

/-- A cached translation of a 4 KiB linear page, both sides by their upper 20 bits. -/
structure TlbEntry where
  page : BitVec 20
  frame : BitVec 20

/-- The 4 KiB page of an address. -/
def pageOf (a : Word) : BitVec 20 := a.extractLsb' 12 20

theorem toNat_pageOf (a : Word) : (pageOf a).toNat = a.toNat / 4096 := by
  simp only [pageOf, BitVec.extractLsb'_toNat, Nat.shiftRight_eq_div_pow]
  have := a.isLt
  omega

theorem toNat_append_offset (p : BitVec 20) (off : BitVec 12) :
    BitVec.toNat (w := 32) (p ++ off) = p.toNat * 4096 + off.toNat := by
  have h : BitVec.toNat (w := 32) (p ++ off) = p.toNat <<< 12 ||| off.toNat :=
    BitVec.toNat_append p off
  rw [h, Nat.shiftLeft_eq, Nat.mul_comm, ← Nat.two_pow_add_eq_or_of_lt off.isLt]

@[simp] theorem pageOf_append (p : BitVec 20) (off : BitVec 12) : pageOf (p ++ off) = p := by
  apply BitVec.eq_of_toNat_eq
  rw [toNat_pageOf, toNat_append_offset]
  have := off.isLt
  omega

theorem pageOf_eq_iff (a b : Word) : pageOf a = pageOf b ↔ a >>> 12 = b >>> 12 := by
  simp only [← BitVec.toNat_inj, toNat_pageOf, BitVec.toNat_ushiftRight,
    Nat.shiftRight_eq_div_pow]

/-- The translation of every address of the entry's page is the one the entry caches. -/
def TlbEntry.Agrees (tr : Word → Option Word) (e : TlbEntry) : Prop :=
  ∀ off : BitVec 12, tr (e.page ++ off) = some (e.frame ++ off)

abbrev Tlb := Set TlbEntry

namespace Tlb

/-- The processor caches those of the `wanted` translations that the active tables give. -/
def fill (tr : Word → Option Word) (wanted : Set TlbEntry) (t : Tlb) : Tlb :=
  t ∪ {e | e ∈ wanted ∧ e.Agrees tr}

/-- `p` belongs to the page that contains `a`, which is the 4 MiB page around `a` when the active
tables map one there and the 4 KiB page of `a` otherwise. -/
def InPage (largeAt : Word → Bool) (a : Word) (p : BitVec 20) : Prop :=
  if largeAt a then p.toNat / 1024 = (dirIndex a).toNat else p = pageOf a

theorem inPage_pageOf (largeAt : Word → Bool) (a : Word) : InPage largeAt a (pageOf a) := by
  rw [InPage]
  split
  · rw [toNat_pageOf, toNat_dirIndex, Nat.div_div_eq_div_mul]
  · rfl

/-- The instruction `invlpg a`. -/
def invlpg (largeAt : Word → Bool) (a : Word) (t : Tlb) : Tlb :=
  {e | e ∈ t ∧ ¬InPage largeAt a e.page}

/-- Each cached translation is the one that the active tables give. -/
def Coherent (tr : Word → Option Word) (t : Tlb) : Prop := ∀ e ∈ t, e.Agrees tr

/-- Each cached translation of a page that is not `stale` is the one that the tables give. -/
def CoherentOutside (tr : Word → Option Word) (stale : BitVec 20 → Prop) (t : Tlb) : Prop :=
  ∀ e ∈ t, ¬stale e.page → e.Agrees tr

variable {tr tr' : Word → Option Word} {stale : BitVec 20 → Prop} {t : Tlb}

theorem Coherent.empty : Coherent tr ∅ := fun _ he => he.elim

theorem Coherent.outside (h : Coherent tr t) : CoherentOutside tr stale t :=
  fun e he _ => h e he

theorem CoherentOutside.fill (h : CoherentOutside tr stale t) (wanted : Set TlbEntry) :
    CoherentOutside tr stale (t.fill tr wanted) := by
  rintro e (he | ⟨-, he⟩) hs
  · exact h e he hs
  · exact he

theorem Coherent.fill (h : Coherent tr t) (wanted : Set TlbEntry) :
    Coherent tr (t.fill tr wanted) := by
  rintro e (he | ⟨-, he⟩)
  · exact h e he
  · exact he

/-- A change of the tables that keeps every translation outside the stale pages. -/
theorem CoherentOutside.change (h : CoherentOutside tr stale t)
    (hkeep : ∀ a p, ¬stale (pageOf a) → tr a = some p → tr' a = some p) :
    CoherentOutside tr' stale t := by
  intro e he hs off
  exact hkeep _ _ (by rwa [pageOf_append]) (h e he hs off)

/-- Flushing the page that contains `a` restores coherence when no other page is stale. -/
theorem CoherentOutside.invlpg {largeAt : Word → Bool} {a : Word}
    (h : CoherentOutside tr stale t) (hs : ∀ p, stale p → InPage largeAt a p) :
    Coherent tr (t.invlpg largeAt a) :=
  fun e he => h e he.1 fun hst => he.2 (hs _ hst)

end Tlb

end BasicX86Kernel.Machine
