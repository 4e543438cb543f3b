import Mathlib.Data.List.MinMax
import Mathlib.Data.List.Nodup

/-! Interrupt controllers: the requests that are pending and those in service.  A request is
delivered when it is the most urgent one pending and its level is above that of all in service, and
an end of interrupt dismisses the most urgent one in service. -/

namespace BasicX86Kernel.Machine

/-- How urgent each request is, and the levels at which a request in service holds others back. -/
structure Priority (ι : Type*) where
  urgency : ι → Nat
  level : ι → Nat
  urgency_lt : ∀ {i j}, level j < level i → urgency j < urgency i

/-- The requests that are pending and those in service; and all that have become pending so far and
all that have been delivered. -/
structure Controller (ι : Type*) where
  pending : List ι
  inService : List ι
  latched : List ι
  delivered : List ι

namespace Controller

variable {ι : Type*}

def idle : Controller ι := ⟨[], [], [], []⟩

/-- The interrupt that the controller asks the processor to take, of those that are enabled. -/
def next (pr : Priority ι) (enabled : ι → Bool) (c : Controller ι) : Option ι :=
  match (c.pending.filter enabled).argmax pr.urgency with
  | some i => if c.inService.all fun j => decide (pr.level j < pr.level i) then some i else none
  | none => none

section

variable {pr : Priority ι} {enabled : ι → Bool} {c : Controller ι} {i : ι}

theorem next_eq_some (h : c.next pr enabled = some i) :
    i ∈ c.pending ∧ enabled i ∧ ∀ j ∈ c.inService, pr.level j < pr.level i := by
  rw [next] at h
  split at h
  · next k hk =>
    split at h
    · next habove =>
      obtain rfl := Option.some.inj h
      obtain ⟨hmem, henabled⟩ := List.mem_filter.mp (List.argmax_mem hk)
      exact ⟨hmem, henabled, fun j hj => of_decide_eq_true (List.all_eq_true.mp habove j hj)⟩
    · cases h
  · cases h

/-- Nothing in service holds back what is enabled and pending. -/
theorem exists_next (pr : Priority ι) (hs : c.inService = []) (hi : i ∈ c.pending)
    (he : enabled i) :
    ∃ j, c.next pr enabled = some j := by
  have hmem : i ∈ c.pending.filter enabled := List.mem_filter.mpr ⟨hi, he⟩
  rw [next, hs]
  split
  · exact ⟨_, rfl⟩
  · next hmax =>
    rw [List.argmax_eq_none.mp hmax] at hmem
    exact absurd hmem List.not_mem_nil

theorem next_eq_none (h : ∀ j ∈ c.pending, enabled j = false) : c.next pr enabled = none := by
  have hnone : c.pending.filter enabled = [] := by
    rw [List.filter_eq_nil_iff]
    intro j hj
    rw [h j hj]
    exact Bool.false_ne_true
  rw [next, hnone]
  rfl

end

variable [DecidableEq ι]

/-- A request for an interrupt; one that is pending already stays so. -/
def request (i : ι) (c : Controller ι) : Controller ι :=
  if i ∈ c.pending then c
  else { c with pending := c.pending ++ [i], latched := c.latched ++ [i] }

/-- The processor takes the interrupt. -/
def acknowledge (i : ι) (c : Controller ι) : Controller ι :=
  { c with
    pending := c.pending.erase i
    inService := i :: c.inService
    delivered := c.delivered ++ [i] }

def endOfInterrupt (pr : Priority ι) (c : Controller ι) : Controller ι :=
  match c.inService.argmax pr.urgency with
  | some i => { c with inService := c.inService.erase i }
  | none => c

section

variable {pr : Priority ι} {c : Controller ι} {i : ι}

/-! ### Ends of interrupts -/

@[simp] theorem endOfInterrupt_pending : (c.endOfInterrupt pr).pending = c.pending := by
  rw [endOfInterrupt]
  split <;> rfl

/-- The interrupt that was delivered above all others in service is the one that is dismissed. -/
theorem endOfInterrupt_cons (pr : Priority ι) {s : List ι} (h : c.inService = i :: s)
    (above : ∀ j ∈ s, pr.level j < pr.level i) :
    c.endOfInterrupt pr = { c with inService := s } := by
  have hmax : (i :: s).argmax pr.urgency = some i := by
    rw [List.argmax_cons]
    cases hs : s.argmax pr.urgency with
    | none => rfl
    | some j =>
      have hlt := pr.urgency_lt (above j (List.argmax_mem hs))
      exact if_neg (Nat.lt_asymm hlt)
  rw [endOfInterrupt, h, hmax]
  simp only [List.erase_cons_head]

/-! ### The account -/

/-- Every interrupt that has become pending has been delivered once, or is pending still. -/
structure Balanced (c : Controller ι) : Prop where
  nodup : c.pending.Nodup
  count : ∀ i, c.latched.count i = c.delivered.count i + c.pending.count i

theorem balanced_idle : Balanced (idle : Controller ι) := ⟨List.nodup_nil, fun _ => rfl⟩

theorem Balanced.request (h : Balanced c) (i : ι) : Balanced (c.request i) := by
  rw [Controller.request]
  split
  · exact h
  · next hi =>
    refine ⟨?_, fun j => ?_⟩
    · exact List.nodup_append.mpr ⟨h.nodup, List.nodup_singleton i, by
        rintro j hj k hk rfl
        exact hi (List.mem_singleton.mp hk ▸ hj)⟩
    · simp only [List.count_append, h.count j, Nat.add_assoc]

theorem Balanced.acknowledge (h : Balanced c) (hi : i ∈ c.pending) :
    Balanced (c.acknowledge i) := by
  refine ⟨h.nodup.erase i, fun j => ?_⟩
  have hcount := h.count j
  simp only [Controller.acknowledge, List.count_append]
  by_cases hj : j = i
  · subst hj
    have hpos := List.count_pos_iff.mpr hi
    rw [List.count_erase_self, List.count_singleton_self]
    omega
  · rw [List.count_erase_of_ne hj, List.count_singleton, if_neg (by simpa using Ne.symm hj)]
    exact hcount

theorem Balanced.endOfInterrupt (h : Balanced c) (pr : Priority ι) :
    Balanced (c.endOfInterrupt pr) := by
  rw [Controller.endOfInterrupt]
  split
  · exact ⟨h.nodup, h.count⟩
  · exact h

/-- An interrupt has been delivered as often as it has been latched, or once less while it is
pending. -/
theorem Balanced.latched_eq (h : Balanced c) (i : ι) :
    c.latched.count i = c.delivered.count i + if i ∈ c.pending then 1 else 0 := by
  rw [h.count i]
  congr 1
  split
  · next hi => exact List.count_eq_one_of_mem h.nodup hi
  · next hi => exact List.count_eq_zero_of_not_mem hi

end

end Controller

end BasicX86Kernel.Machine
