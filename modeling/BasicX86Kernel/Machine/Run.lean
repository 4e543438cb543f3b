import Mathlib.Data.List.Induction

/-! Runs of a step function over a list of inputs, invariants of runs, and the last-writer map that
a list of writes leaves behind. -/

namespace BasicX86Kernel.Machine

section Runs

variable {σ ι : Type*} {step : σ → ι → σ} {guard : σ → ι → Prop} {s : σ} {cs ds : List ι}

/-- Each input of the run of `cs` from `s` meets `guard` in the state in which it arrives. -/
def Allowed (step : σ → ι → σ) (guard : σ → ι → Prop) : σ → List ι → Prop
  | _, [] => True
  | s, c :: cs => guard s c ∧ Allowed step guard (step s c) cs

@[simp] theorem Allowed.nil : Allowed step guard s [] := trivial

@[simp] theorem allowed_cons {c : ι} :
    Allowed step guard s (c :: cs) ↔ guard s c ∧ Allowed step guard (step s c) cs := Iff.rfl

instance instDecidableAllowed [∀ s c, Decidable (guard s c)] :
    ∀ s cs, Decidable (Allowed step guard s cs)
  | _, [] => isTrue trivial
  | s, c :: cs =>
    have := instDecidableAllowed (step s c) cs
    inferInstanceAs (Decidable (guard s c ∧ Allowed step guard (step s c) cs))

theorem allowed_append :
    Allowed step guard s (cs ++ ds) ↔
      Allowed step guard s cs ∧ Allowed step guard (cs.foldl step s) ds := by
  induction cs generalizing s with
  | nil => simp
  | cons c cs ih => simp [ih, and_assoc]

theorem allowed_append_singleton {c : ι} :
    Allowed step guard s (cs ++ [c]) ↔ Allowed step guard s cs ∧ guard (cs.foldl step s) c := by
  rw [allowed_append, allowed_cons, and_iff_left Allowed.nil]

/-- An assertion about the inputs so far and the state holds after a run when it holds at the
start and every allowed step extends it. -/
theorem Allowed.history_induction {I : List ι → σ → Prop} (h : Allowed step guard s cs)
    (start : I [] s)
    (next : ∀ pre s c, I pre s → guard s c → I (pre ++ [c]) (step s c)) :
    I cs (cs.foldl step s) := by
  induction cs using List.reverseRecOn with
  | nil => exact start
  | append_singleton cs c ih =>
    obtain ⟨hcs, hc⟩ := allowed_append_singleton.mp h
    rw [List.foldl_append]
    exact next cs _ c (ih hcs) hc

/-- An invariant of the allowed steps holds after every allowed run. -/
theorem Allowed.invariant {I : σ → Prop} (h : Allowed step guard s cs) (start : I s)
    (next : ∀ s c, I s → guard s c → I (step s c)) : I (cs.foldl step s) :=
  h.history_induction (I := fun _ s => I s) start fun _ s c => next s c

/-- A guard that holds in every state of an invariant may be added to the steps. -/
theorem Allowed.mono {guard' : σ → ι → Prop} (h : Allowed step guard s cs)
    (hg : ∀ s c, guard s c → guard' s c) : Allowed step guard' s cs := by
  induction cs generalizing s with
  | nil => trivial
  | cons c cs ih => exact ⟨hg _ _ h.1, ih h.2⟩

/-- `I` holds in every state that the run of `cs` from `s` reaches. -/
def Always (step : σ → ι → σ) (I : σ → Prop) (s : σ) (cs : List ι) : Prop :=
  ∀ pre, pre <+: cs → I (pre.foldl step s)

@[simp] theorem always_nil {I : σ → Prop} : Always step I s [] ↔ I s := by
  simp [Always]

theorem always_cons {I : σ → Prop} {c : ι} :
    Always step I s (c :: cs) ↔ I s ∧ Always step I (step s c) cs := by
  constructor
  · intro h
    refine ⟨h [] List.nil_prefix, fun pre hpre => ?_⟩
    exact h (c :: pre) ((List.prefix_cons_inj c).mpr hpre)
  · rintro ⟨hs, h⟩ pre hpre
    rcases List.prefix_cons_iff.mp hpre with rfl | ⟨front, rfl, hfront⟩
    · exact hs
    · exact h front hfront

/-- Where the allowed steps that keep `I` are those of `keeps`, `I` holds all along a run exactly
when every step of it is one of `keeps`.  The invariant `J` of all allowed steps may be used. -/
theorem Allowed.always_iff {I J : σ → Prop} {keeps : σ → ι → Prop} (h : Allowed step guard s cs)
    (hI : I s) (hJ : J s) (next : ∀ s c, J s → guard s c → J (step s c))
    (keep : ∀ s c, J s → I s → guard s c → (I (step s c) ↔ keeps s c)) :
    Always step I s cs ↔ Allowed step keeps s cs := by
  induction cs generalizing s with
  | nil => simp [hI]
  | cons c cs ih =>
    have hc := keep s c hJ hI h.1
    rw [always_cons, allowed_cons]
    constructor
    · rintro ⟨-, halways⟩
      have hnext : I (step s c) := halways [] List.nil_prefix
      exact ⟨hc.mp hnext, (ih h.2 hnext (next s c hJ h.1)).mp halways⟩
    · rintro ⟨hkeeps, hrun⟩
      exact ⟨hI, (ih h.2 (hc.mpr hkeeps) (next s c hJ h.1)).mpr hrun⟩

/-- `P` holds of each of the inputs together with the inputs before it. -/
def EachStep (P : List ι → ι → Prop) (cs : List ι) : Prop :=
  ∀ pre c post, cs = pre ++ c :: post → P pre c

variable {P : List ι → ι → Prop}

theorem EachStep.nil : EachStep P [] := by
  intro pre c post h
  simp at h

theorem eachStep_append_singleton (cs : List ι) {c : ι} :
    EachStep P (cs ++ [c]) ↔ EachStep P cs ∧ P cs c := by
  constructor
  · refine fun h => ⟨fun pre d post heq => ?_, h cs c [] rfl⟩
    exact h pre d (post ++ [c]) (by rw [heq, List.append_assoc, List.cons_append])
  · rintro ⟨hcs, hc⟩ pre d post heq
    rcases List.eq_nil_or_concat post with rfl | ⟨post, e, rfl⟩
    · obtain ⟨rfl, hlast⟩ := List.append_inj' heq rfl
      obtain rfl := List.singleton_inj.mp hlast
      exact hc
    · rw [List.concat_eq_append, ← List.cons_append, ← List.append_assoc] at heq
      exact hcs pre d post (List.append_inj' heq rfl).1

end Runs

section LastWriter

variable {ι κ α : Type*} (writes : ι → κ → Option α)

/-- What the most recent of `cs` that writes `k` wrote there, and `none` if none did. -/
def lastWriter (cs : List ι) (k : κ) : Option α := cs.reverse.findSome? fun c => writes c k

@[simp] theorem lastWriter_nil (k : κ) : lastWriter writes [] k = none := rfl

theorem lastWriter_append_singleton (cs : List ι) (c : ι) (k : κ) :
    lastWriter writes (cs ++ [c]) k = (writes c k).or (lastWriter writes cs k) := by
  simp only [lastWriter, List.reverse_append, List.reverse_singleton, List.singleton_append,
    List.findSome?_cons]
  cases writes c k <;> rfl

variable {writes}

theorem lastWriter_of_write {cs : List ι} {c : ι} {k : κ} {v : α} (h : writes c k = some v) :
    lastWriter writes (cs ++ [c]) k = some v := by
  rw [lastWriter_append_singleton, h, Option.some_or]

theorem lastWriter_of_none {cs : List ι} {c : ι} {k : κ} (h : writes c k = none) :
    lastWriter writes (cs ++ [c]) k = lastWriter writes cs k := by
  rw [lastWriter_append_singleton, h, Option.none_or]

end LastWriter

end BasicX86Kernel.Machine
