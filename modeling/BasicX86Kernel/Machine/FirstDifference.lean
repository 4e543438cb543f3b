import Mathlib.Algebra.Order.Group.Int
import Mathlib.Algebra.Order.Group.Unbundled.Basic

/-! Sequences that are compared at the first index where they differ: the lexicographic order that
an order on their elements gives, and the numbers that tell how they compare. -/

namespace BasicX86Kernel.Machine

variable {β : Type*} {f g : Nat → β} {n : Nat}

/-- `i` is the first index at which two sequences differ, and lies below `n`. -/
structure DiffersAt (f g : Nat → β) (n i : Nat) : Prop where
  lt : i < n
  agree : ∀ j < i, f j = g j
  differ : f i ≠ g i

theorem DiffersAt.symm {i : Nat} (h : DiffersAt f g n i) : DiffersAt g f n i :=
  ⟨h.lt, fun j hj => (h.agree j hj).symm, h.differ.symm⟩

theorem DiffersAt.unique {i j : Nat} (hi : DiffersAt f g n i) (hj : DiffersAt f g n j) : i = j := by
  apply Nat.le_antisymm
  · exact Nat.not_lt.mp fun hji => hj.differ (hi.agree j hji)
  · exact Nat.not_lt.mp fun hij => hi.differ (hj.agree i hij)

/-- What holds of the first index, and behind equal elements of the next ones, holds of every index
that only equal elements precede. -/
theorem forall_agree_succ {P : Nat → Prop} :
    (∀ i < n + 1, (∀ j < i, f j = g j) → P i) ↔
      P 0 ∧ (f 0 = g 0 → ∀ i < n, (∀ j < i, f (j + 1) = g (j + 1)) → P (i + 1)) := by
  rw [Nat.forall_lt_succ_left]
  refine and_congr ?_ ?_
  · exact forall_prop_of_true fun j hj => absurd hj (Nat.not_lt_zero j)
  · constructor
    · intro h h0 i hi hagree
      exact h i hi (Nat.forall_lt_succ_left.mpr ⟨h0, hagree⟩)
    · intro h i hi hagree
      obtain ⟨h0, hagree⟩ := Nat.forall_lt_succ_left.mp hagree
      exact h h0 i hi hagree

/-- One sequence comes before the other in the lexicographic order on the first `n` elements. -/
def Lex (lt : β → β → Prop) (f g : Nat → β) (n : Nat) : Prop :=
  ∃ i, DiffersAt f g n i ∧ lt (f i) (g i)

theorem DiffersAt.lex_iff {lt : β → β → Prop} {i : Nat} (h : DiffersAt f g n i) :
    Lex lt f g n ↔ lt (f i) (g i) := by
  constructor
  · rintro ⟨j, hj, hlt⟩
    rwa [h.unique hj]
  · intro hlt
    exact ⟨i, h, hlt⟩

theorem not_lex {lt : β → β → Prop} (h : ∀ i < n, f i = g i) : ¬Lex lt f g n := by
  rintro ⟨i, hi, -⟩
  exact hi.differ (h i hi.lt)

/-- A number whose sign is the result of the comparison. -/
structure Compares (lt : β → β → Prop) (f g : Nat → β) (n : Nat) (r : Int) : Prop where
  zero : r = 0 ↔ ∀ i < n, f i = g i
  neg : r < 0 ↔ Lex lt f g n
  pos : 0 < r ↔ Lex lt g f n

/-- Two orders give one comparison when they agree on the elements that decide it. -/
theorem Compares.congr_iff {lt lt' : β → β → Prop} {r : Int} (h : Compares lt f g n r) :
    Compares lt' f g n r ↔
      ∀ i, DiffersAt f g n i → (lt (f i) (g i) ↔ lt' (f i) (g i)) ∧
        (lt (g i) (f i) ↔ lt' (g i) (f i)) := by
  constructor
  · intro h' i hi
    constructor
    · exact hi.lex_iff.symm.trans ((h.neg.symm.trans h'.neg).trans hi.lex_iff)
    · exact hi.symm.lex_iff.symm.trans ((h.pos.symm.trans h'.pos).trans hi.symm.lex_iff)
  · intro hagree
    have hlex : Lex lt f g n ↔ Lex lt' f g n :=
      exists_congr fun i => and_congr_right fun hi => (hagree i hi).1
    have hlex' : Lex lt g f n ↔ Lex lt' g f n :=
      exists_congr fun i => and_congr_right fun hi => (hagree i hi.symm).2
    exact ⟨h.zero, h.neg.trans hlex, h.pos.trans hlex'⟩

/-- What a scan returns that stops at the first difference: zero, or the difference of the keys of
the two elements there. -/
inductive Scanned (key : β → Int) (f g : Nat → β) (n : Nat) : Int → Prop
  | agree (h : ∀ i < n, f i = g i) : Scanned key f g n 0
  | differ (i : Nat) (h : DiffersAt f g n i) : Scanned key f g n (key (f i) - key (g i))

namespace Scanned

variable {key : β → Int} {r : Int}

/-- The scan stops at the first elements. -/
theorem head (h : f 0 ≠ g 0) : Scanned key f g (n + 1) (key (f 0) - key (g 0)) :=
  .differ 0 ⟨Nat.succ_pos n, fun _ hj => absurd hj (Nat.not_lt_zero _), h⟩

/-- The scan goes on behind the first elements. -/
theorem tail (h0 : f 0 = g 0) (h : Scanned key (fun i => f (i + 1)) (fun i => g (i + 1)) n r) :
    Scanned key f g (n + 1) r := by
  cases h with
  | agree hagree => exact .agree (Nat.forall_lt_succ_left.mpr ⟨h0, hagree⟩)
  | differ i hi =>
    refine .differ (i + 1) ⟨Nat.succ_lt_succ hi.lt, ?_, hi.differ⟩
    exact Nat.forall_lt_succ_left.mpr ⟨h0, hi.agree⟩

/-- When different elements have different keys, the scan compares by the keys. -/
theorem compares (hkey : Function.Injective key) (h : Scanned key f g n r) :
    Compares (fun b c => key b < key c) f g n r := by
  cases h with
  | agree hagree =>
    refine ⟨iff_of_true rfl hagree, ?_, ?_⟩
    · exact iff_of_false (Int.lt_irrefl 0) (not_lex hagree)
    · exact iff_of_false (Int.lt_irrefl 0) (not_lex fun i hi => (hagree i hi).symm)
  | differ i hi =>
    refine ⟨?_, ?_, ?_⟩
    · have hne : key (f i) - key (g i) ≠ 0 := fun h => hi.differ (hkey (sub_eq_zero.mp h))
      exact iff_of_false hne fun hagree => hi.differ (hagree i hi.lt)
    · rw [hi.lex_iff, sub_neg]
    · rw [hi.symm.lex_iff, sub_pos]

end Scanned

end BasicX86Kernel.Machine
