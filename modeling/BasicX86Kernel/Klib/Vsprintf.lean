import BasicX86Kernel.Klib.Stdio

/-! What `vsprintf` leaves in a zero-filled buffer, and which bytes it stores.  The invariant of its
loop is that everything behind the cursor is still zero, which is what the case `%s` looks at. -/

namespace BasicX86Kernel.Klib

open Machine

/-- The buffer of `size` bytes at `dst` holds `out` and zeros, and the cursor is behind `out`. -/
structure Filled (m : Mem) (dst : Word) (size : Nat) (t : Traced) (tmp : Word)
    (out : List Byte) : Prop where
  mem : t.mem = m.withBuffer dst size out
  cursor : tmp = dst + BitVec.ofNat 32 out.length
  le : out.length ≤ size

/-- The address lies in the buffer. -/
def InBuffer (dst : Word) (size : Nat) (a : Word) : Prop := (a - dst).toNat < size

/-- A byte outside the buffer has been stored. -/
def Overrun (dst : Word) (size : Nat) (t : Traced) : Prop := ∃ a ∈ t.stores, ¬InBuffer dst size a

/-- The string arguments are strings outside the buffer. -/
def Arg.Outside (m : Mem) (dst : Word) (size : Nat) : Arg → Prop
  | str p s => StringAt m p s ∧ StringOutside dst size p s
  | int _ => True

/-! ### Every step only adds to the record -/

section Monotone

variable {dst : Word} {size : Nat} {t t' : Traced}

theorem Overrun.mono {P : Word → Prop} (h : Overrun dst size t)
    (ht : Traced.StoresWithin P t t') : Overrun dst size t' := by
  obtain ⟨a, ha, hout⟩ := h
  exact ⟨a, ht.mem ha, hout⟩

theorem copyLoop_grows (fuel : Nat) (t : Traced) (tmp src : Word) :
    Traced.StoresWithin (fun _ => True) t (copyLoop fuel t tmp src).2 := by
  induction fuel generalizing t tmp src with
  | zero => exact Traced.StoresWithin.refl
  | succ fuel ih =>
    have hstore : Traced.StoresWithin (fun _ => True) t (t.write8 tmp (t.byte src)) :=
      Traced.StoresWithin.write8 trivial
    rw [copyLoop]
    split
    · exact hstore.trans (ih _ _ _)
    · exact hstore

theorem convertNumber_grows {conv : Traced → Word → Word → Option Word × Traced}
    {num : Word → List Byte} (hconv : Converts conv num) (t : Traced) (tmp : Word)
    (ap : List Word) :
    Traced.StoresWithin (fun _ => True) t (convertNumber conv t tmp ap).2 := by
  cases ap with
  | nil => exact Traced.StoresWithin.refl
  | cons n ap => exact (hconv.within t n tmp).mono fun _ _ => trivial

theorem convert_grows (t : Traced) (tmp : Word) (c : Byte) (ap : List Word) :
    Traced.StoresWithin (fun _ => True) t (convert t tmp c ap).2 := by
  rw [convert]
  split
  · cases ap with
    | nil => exact Traced.StoresWithin.refl
    | cons src ap => exact copyLoop_grows _ _ _ _
  split
  · exact convertNumber_grows converts_strfromu _ _ _
  split
  · exact convertNumber_grows converts_strfromd _ _ _
  split
  · exact convertNumber_grows converts_strhex _ _ _
  · exact Traced.StoresWithin.refl

theorem vsprintfLoop_grows (fuel : Nat) (t : Traced) (tmp fmt : Word) (ap : List Word) :
    Traced.StoresWithin (fun _ => True) t (vsprintfLoop fuel t tmp fmt ap).2 := by
  induction fuel generalizing t tmp fmt ap with
  | zero => exact Traced.StoresWithin.refl
  | succ fuel ih =>
    rw [vsprintfLoop]
    split
    · exact Traced.StoresWithin.refl
    split
    · have hconvert := convert_grows t tmp (t.byte (fmt + 1)) ap
      split
      · next heq =>
        rw [heq] at hconvert
        exact hconvert.trans (ih _ _ _ _)
      · next heq =>
        rw [heq] at hconvert
        exact hconvert
    · exact Traced.StoresWithin.trans (Traced.StoresWithin.write8 trivial) (ih _ _ _ _)

end Monotone

/-! ### The conversions -/

section Conversions

variable {m : Mem} {dst tmp src : Word} {size : Nat} {t : Traced} {out s : List Byte}

theorem Filled.byte (h : Filled m dst size t tmp out) {x : Word} (hx : size ≤ (x - dst).toNat) :
    t.byte x = m.byte x := by
  rw [Traced.byte, h.mem, Mem.byte_withBuffer_outside hx]

theorem Filled.toNat_cursor (h : Filled m dst size t tmp out) (hsize : size < 2 ^ 32) :
    (tmp - dst).toNat = out.length := by
  rw [h.cursor, Mem.toNat_add_ofNat_sub dst (h.le.trans_lt hsize)]

theorem Filled.write8 (h : Filled m dst size t tmp out) (hsize : size < 2 ^ 32)
    (hlt : out.length < size) (c : Byte) :
    Filled m dst size (t.write8 tmp c) (tmp + 1) (out ++ [c]) where
  mem := by rw [Traced.mem_write8, h.mem, h.cursor, Mem.write8_withBuffer_end hsize.le hlt]
  cursor := by
    rw [h.cursor, List.length_append, List.length_singleton]
    bv_omega
  le := by
    rw [List.length_append, List.length_singleton]
    exact hlt

/-- A store at the end of a full buffer is a store behind it. -/
theorem Filled.overrun_write8 (h : Filled m dst size t tmp out) (hsize : size < 2 ^ 32)
    (hfull : out.length = size) (c : Byte) : Overrun dst size (t.write8 tmp c) := by
  refine ⟨tmp, Traced.mem_stores_write8, ?_⟩
  rw [InBuffer, h.toNat_cursor hsize, hfull]
  exact lt_irrefl size

/-- A string that fits into the buffer is copied with its end. -/
theorem Filled.copyLoop (h : Filled m dst size t tmp out) (hsize : size < 2 ^ 32)
    (hs : StringAt m src s) (hout : StringOutside dst size src s) {fuel : Nat}
    (hfuel : s.length < fuel) (hlt : out.length + s.length < size) :
    ∃ tmp', (copyLoop fuel t tmp src).1 = some tmp' ∧
      Filled m dst size (copyLoop fuel t tmp src).2 tmp' (out ++ s ++ [0]) ∧
      Traced.StoresWithin (InBuffer dst size) t (copyLoop fuel t tmp src).2 := by
  induction s generalizing t tmp src out fuel with
  | nil =>
    obtain ⟨fuel, rfl⟩ := Nat.exists_eq_succ_of_ne_zero (Nat.ne_zero_of_lt hfuel)
    have hsrc : t.byte src = 0 := (h.byte hout).trans hs
    have hstore : InBuffer dst size tmp := by rwa [InBuffer, h.toNat_cursor hsize]
    simp only [Klib.copyLoop, hsrc, ne_eq, not_true_eq_false, if_false]
    refine ⟨tmp + 1, rfl, ?_, Traced.StoresWithin.write8 hstore⟩
    rw [List.append_nil]
    exact h.write8 hsize hlt 0
  | cons c s ih =>
    obtain ⟨fuel, rfl⟩ := Nat.exists_eq_succ_of_ne_zero (Nat.ne_zero_of_lt hfuel)
    rw [List.length_cons] at hfuel hlt
    have hsrc : t.byte src = c := (h.byte hout.1).trans hs.1
    have hstore : InBuffer dst size tmp := by
      rw [InBuffer, h.toNat_cursor hsize]
      omega
    have hnext := h.write8 hsize (by omega) c
    have hlt' : (out ++ [c]).length + s.length < size := by
      rw [List.length_append, List.length_singleton]
      omega
    obtain ⟨tmp', hret, hfill, hin⟩ := ih hnext hs.2.2 hout.2 (show s.length < fuel by omega) hlt'
    simp only [Klib.copyLoop, hsrc, ne_eq, hs.2.1, not_false_eq_true, if_true]
    refine ⟨tmp', hret, ?_, Traced.StoresWithin.trans (Traced.StoresWithin.write8 hstore) hin⟩
    rw [List.append_assoc out, List.singleton_append] at hfill
    exact hfill

/-- A string that does not fit into the buffer is copied over its end. -/
theorem Filled.copyLoop_overrun (h : Filled m dst size t tmp out) (hsize : size < 2 ^ 32)
    (hs : StringAt m src s) (hout : StringOutside dst size src s) {fuel : Nat}
    (hfuel : s.length < fuel) (hle : size ≤ out.length + s.length) :
    Overrun dst size (Klib.copyLoop fuel t tmp src).2 := by
  induction s generalizing t tmp src out fuel with
  | nil =>
    obtain ⟨fuel, rfl⟩ := Nat.exists_eq_succ_of_ne_zero (Nat.ne_zero_of_lt hfuel)
    have hsrc : t.byte src = 0 := (h.byte hout).trans hs
    simp only [Klib.copyLoop, hsrc, ne_eq, not_true_eq_false, if_false]
    exact h.overrun_write8 hsize (le_antisymm h.le hle) 0
  | cons c s ih =>
    obtain ⟨fuel, rfl⟩ := Nat.exists_eq_succ_of_ne_zero (Nat.ne_zero_of_lt hfuel)
    rw [List.length_cons] at hfuel hle
    have hsrc : t.byte src = c := (h.byte hout.1).trans hs.1
    simp only [Klib.copyLoop, hsrc, ne_eq, hs.2.1, not_false_eq_true, if_true]
    rcases Nat.lt_or_ge out.length size with hlt | hge
    · have hle' : size ≤ (out ++ [c]).length + s.length := by
        rw [List.length_append, List.length_singleton]
        omega
      exact ih (h.write8 hsize hlt c) hs.2.2 hout.2 (by omega) hle'
    · exact (h.overrun_write8 hsize (le_antisymm h.le hge) c).mono (copyLoop_grows _ _ _ _)

/-- What the case `%s` looks at behind the end of the string: zero within the buffer, and the
byte behind the buffer at its end. -/
theorem Filled.peek (h : Filled m dst size t tmp out) (hsize : size < 2 ^ 32) :
    t.byte tmp = if out.length < size then 0 else m.byte (dst + BitVec.ofNat 32 size) := by
  split
  · next hlt =>
    rw [Traced.byte, h.mem, h.cursor, Mem.byte_withBuffer hsize.le hlt,
      List.getD_eq_default _ _ le_rfl]
  · next hge =>
    have hfull : out.length = size := le_antisymm h.le (Nat.not_lt.mp hge)
    rw [h.byte (by rw [h.toNat_cursor hsize, hfull]), h.cursor, hfull]

/-- The end of a string may be taken back. -/
theorem Filled.back (h : Filled m dst size t tmp (out ++ [0])) :
    Filled m dst size t (tmp - 1) out where
  mem := h.mem.trans (Mem.withBuffer_append_zeros 1)
  cursor := by
    rw [h.cursor, List.length_append, List.length_singleton]
    bv_omega
  le := by
    have := h.le
    rw [List.length_append] at this
    omega

theorem Filled.convertString (h : Filled m dst size t tmp out) (hsize : size < 2 ^ 32)
    (hs : StringAt m src s) (hout : StringOutside dst size src s) (ap : List Word)
    (hlt : out.length + s.length < size)
    (hpeek : out.length + s.length + 1 = size → m.byte (dst + BitVec.ofNat 32 size) = 0) :
    ∃ tmp', (convertString t tmp (src :: ap)).1 = some (tmp', ap) ∧
      Filled m dst size (Klib.convertString t tmp (src :: ap)).2 tmp' (out ++ s) ∧
      Traced.StoresWithin (InBuffer dst size) t (Klib.convertString t tmp (src :: ap)).2 := by
  have hfuel := length_lt_addressSpace hs
  obtain ⟨tmp', hret, hfill, hin⟩ := h.copyLoop hsize hs hout hfuel hlt
  have hzero : (Klib.copyLoop addressSpace t tmp src).2.byte tmp' = 0 := by
    rw [hfill.peek hsize]
    have hlen : (out ++ s ++ [0]).length = out.length + s.length + 1 := by
      rw [List.length_append, List.length_append, List.length_singleton]
    split
    · rfl
    · next hge => exact hpeek (by omega)
  refine ⟨tmp' - 1, ?_, hfill.back, hin⟩
  simp only [Klib.convertString, hret, Option.map_some, hzero, if_true]

/-- When the string ends with the buffer, the cursor stays behind the buffer if the byte there is
not zero. -/
theorem Filled.convertString_full (h : Filled m dst size t tmp out) (hsize : size < 2 ^ 32)
    (hs : StringAt m src s) (hout : StringOutside dst size src s) (ap : List Word)
    (hfull : out.length + s.length + 1 = size)
    (hpeek : m.byte (dst + BitVec.ofNat 32 size) ≠ 0) :
    ∃ tmp', (Klib.convertString t tmp (src :: ap)).1 = some (tmp', ap) ∧
      Filled m dst size (Klib.convertString t tmp (src :: ap)).2 tmp' (out ++ s ++ [0]) := by
  have hfuel := length_lt_addressSpace hs
  obtain ⟨tmp', hret, hfill, -⟩ := h.copyLoop hsize hs hout hfuel (by omega)
  have hone : (Klib.copyLoop addressSpace t tmp src).2.byte tmp' ≠ 0 := by
    have hlen : (out ++ s ++ [0]).length = out.length + s.length + 1 := by
      rw [List.length_append, List.length_append, List.length_singleton]
    rw [hfill.peek hsize, if_neg (by omega)]
    exact hpeek
  refine ⟨tmp', ?_, hfill⟩
  simp only [Klib.convertString, hret, Option.map_some, if_neg hone]

theorem Filled.convertString_overrun (h : Filled m dst size t tmp out) (hsize : size < 2 ^ 32)
    (hs : StringAt m src s) (hout : StringOutside dst size src s) (ap : List Word)
    (hle : size ≤ out.length + s.length) :
    Overrun dst size (Klib.convertString t tmp (src :: ap)).2 := by
  have hfuel := length_lt_addressSpace hs
  exact h.copyLoop_overrun hsize hs hout hfuel hle

variable {conv : Traced → Word → Word → Option Word × Traced} {num : Word → List Byte}

theorem Filled.convertNumber (h : Filled m dst size t tmp out) (hsize : size + 64 ≤ 2 ^ 32)
    (hconv : Converts conv num) (n : Word) (ap : List Word)
    (hlt : out.length + (num n).length < size) :
    ∃ tmp', (convertNumber conv t tmp (n :: ap)).1 = some (tmp', ap) ∧
      Filled m dst size (Klib.convertNumber conv t tmp (n :: ap)).2 tmp' (out ++ num n) ∧
      Traced.StoresWithin (InBuffer dst size) t
        (Klib.convertNumber conv t tmp (n :: ap)).2 := by
  obtain ⟨hret, hmem⟩ := hconv.result (n := n) (by omega) h.mem hlt
  have hin := hconv.within t n tmp
  rw [← h.cursor] at hret hmem
  refine ⟨tmp + BitVec.ofNat 32 (num n).length, ?_, ⟨hmem, ?_, ?_⟩, hin.mono fun a ha => ?_⟩
  · simp only [Klib.convertNumber, hret, Option.map_some]
  · rw [h.cursor, List.length_append]
    bv_omega
  · rw [List.length_append]
    omega
  · have hcur := h.cursor
    rw [InBuffer]
    bv_omega

/-- The end of a number that does not fit into the buffer is stored behind the buffer. -/
theorem Filled.convertNumber_overrun (h : Filled m dst size t tmp out)
    (hsize : size + 64 ≤ 2 ^ 32) (hconv : Converts conv num) (n : Word) (ap : List Word)
    (hle : size ≤ out.length + (num n).length) :
    Overrun dst size (Klib.convertNumber conv t tmp (n :: ap)).2 := by
  refine ⟨_, hconv.mem_end t n tmp, ?_⟩
  have hlen := hconv.length_le n
  have hout := h.le
  have hcur := h.cursor
  rw [InBuffer]
  bv_omega

end Conversions

/-! ### The loop -/

def Number.conv : Number → Traced → Word → Word → Option Word × Traced
  | unsigned => strfromu
  | signed => strfromd
  | hex => strhex

theorem Number.converts (k : Number) : Converts k.conv k.text := by
  cases k with
  | unsigned => exact converts_strfromu
  | signed => exact converts_strfromd
  | hex => exact converts_strhex

/-- The `switch` does what the directive asks for. -/
theorem convert_eq (t : Traced) (tmp : Word) (c : Byte) (ap : List Word) :
    convert t tmp c ap = match directive c with
      | .string => convertString t tmp ap
      | .number k => convertNumber k.conv t tmp ap
      | _ => (some (tmp, ap), t) := by
  rw [convert, directive]
  split
  · rfl
  split
  · rfl
  split
  · rfl
  split <;> rfl

section Loop

variable {fuel : Nat} {t t' : Traced} {tmp tmp' fmt : Word} {ap ap' : List Word}

theorem vsprintfLoop_end (h : t.byte fmt = 0) :
    vsprintfLoop (fuel + 1) t tmp fmt ap = (some tmp, t) := by
  rw [vsprintfLoop, if_pos h]

theorem vsprintfLoop_literal (h : t.byte fmt ≠ 0)
    (h' : ¬(t.byte fmt = 0x25#8 ∧ t.byte (fmt + 1) ≠ 0)) :
    vsprintfLoop (fuel + 1) t tmp fmt ap =
      vsprintfLoop fuel (t.write8 tmp (t.byte fmt)) (tmp + 1) (fmt + 1) ap := by
  rw [vsprintfLoop, if_neg h, if_neg h']

theorem vsprintfLoop_percent (fuel : Nat) (tmp : Word) (ap : List Word)
    (h : t.byte fmt = 0x25#8) (h' : t.byte (fmt + 1) ≠ 0)
    (hconv : (convert t tmp (t.byte (fmt + 1)) ap).1 = some (tmp', ap')) :
    vsprintfLoop (fuel + 1) t tmp fmt ap =
      vsprintfLoop fuel (convert t tmp (t.byte (fmt + 1)) ap).2 tmp' (fmt + 1 + 1) ap' := by
  have hne : t.byte fmt ≠ 0 := by
    rw [h]
    decide
  rw [vsprintfLoop, if_neg hne, if_pos ⟨h, h'⟩]
  generalize convert t tmp (t.byte (fmt + 1)) ap = r at hconv ⊢
  obtain ⟨_, t'⟩ := r
  obtain rfl := hconv
  rfl

/-- Whatever the conversion returns, what it has stored stays recorded. -/
theorem vsprintfLoop_percent_grows (fuel : Nat) (tmp : Word) (ap : List Word)
    (h : t.byte fmt = 0x25#8) (h' : t.byte (fmt + 1) ≠ 0) :
    Traced.StoresWithin (fun _ => True) (convert t tmp (t.byte (fmt + 1)) ap).2
      (vsprintfLoop (fuel + 1) t tmp fmt ap).2 := by
  have hne : t.byte fmt ≠ 0 := by
    rw [h]
    decide
  rw [vsprintfLoop, if_neg hne, if_pos ⟨h, h'⟩]
  split
  · next heq =>
    rw [heq]
    exact vsprintfLoop_grows _ _ _ _ _
  · next heq =>
    rw [heq]
    exact Traced.StoresWithin.refl

end Loop

/-- From `n` bytes on, the expansion `rest` of the directives overflows the buffer: it leaves no
room for its end, or one of its strings ends at the last byte and the byte behind is not zero. -/
def Overflows (m : Mem) (dst : Word) (size : Nat) (ds : List Directive) (args : List Arg) (n : Nat)
    (rest : List Byte) : Prop :=
  size ≤ n + rest.length ∨
    n < size ∧ StringEnds ds args (size - 1 - n) ∧ m.byte (dst + BitVec.ofNat 32 size) ≠ 0

section Overflows

variable {m : Mem} {dst : Word} {size n : Nat} {ds : List Directive} {args : List Arg}
  {rest : List Byte}

theorem overflows_nil : Overflows m dst size [] args n [] ↔ size ≤ n := by
  simp [Overflows, StringEnds]

theorem overflows_literal {c : Byte} (h : n < size) :
    Overflows m dst size (.literal c :: ds) args n (c :: rest) ↔
      Overflows m dst size ds args (n + 1) rest := by
  have hsub : size - 1 - n - 1 = size - 1 - (n + 1) := by omega
  rw [Overflows, Overflows, StringEnds, List.length_cons, hsub]
  constructor
  · rintro (h' | ⟨-, ⟨hpos, hend⟩, hbyte⟩)
    · exact Or.inl (by omega)
    · exact Or.inr ⟨by omega, hend, hbyte⟩
  · rintro (h' | ⟨hlt, hend, hbyte⟩)
    · exact Or.inl (by omega)
    · exact Or.inr ⟨h, ⟨by omega, hend⟩, hbyte⟩

theorem overflows_number {k : Number} {i : Word} (h : n + (k.text i).length ≤ size) :
    Overflows m dst size (.number k :: ds) (.int i :: args) n (k.text i ++ rest) ↔
      Overflows m dst size ds args (n + (k.text i).length) rest := by
  have hsub : size - 1 - n - (k.text i).length = size - 1 - (n + (k.text i).length) := by omega
  rw [Overflows, Overflows, StringEnds, List.length_append, hsub]
  constructor
  · rintro (h' | ⟨hn, ⟨hle, hend⟩, hbyte⟩)
    · exact Or.inl (by omega)
    · exact Or.inr ⟨by omega, hend, hbyte⟩
  · rintro (h' | ⟨hlt, hend, hbyte⟩)
    · exact Or.inl (by omega)
    · exact Or.inr ⟨by omega, ⟨by omega, hend⟩, hbyte⟩

theorem overflows_string {p : Word} {s : List Byte} (h : n + s.length < size) :
    Overflows m dst size (.string :: ds) (.str p s :: args) n (s ++ rest) ↔
      (n + s.length + 1 = size ∧ m.byte (dst + BitVec.ofNat 32 size) ≠ 0) ∨
        Overflows m dst size ds args (n + s.length) rest := by
  have hsub : size - 1 - n - s.length = size - 1 - (n + s.length) := by omega
  rw [Overflows, Overflows, StringEnds, List.length_append, hsub]
  constructor
  · rintro (h' | ⟨hn, hend | ⟨hle, hend⟩, hbyte⟩)
    · exact Or.inr (Or.inl (by omega))
    · exact Or.inl ⟨by omega, hbyte⟩
    · exact Or.inr (Or.inr ⟨by omega, hend, hbyte⟩)
  · rintro (⟨hlast, hbyte⟩ | h' | ⟨hlt, hend, hbyte⟩)
    · exact Or.inr ⟨by omega, Or.inl (by omega), hbyte⟩
    · exact Or.inl (by omega)
    · exact Or.inr ⟨by omega, Or.inr ⟨by omega, hend⟩, hbyte⟩

/-- An expansion that leaves a byte free behind its end never overflows. -/
theorem not_overflows (hrender : render ds args = some rest) (h : n + rest.length + 1 < size) :
    ¬Overflows m dst size ds args n rest := by
  fun_induction render ds args generalizing n rest with
  | case1 args =>
    obtain rfl := Option.some.inj hrender
    rw [overflows_nil]
    omega
  | case2 c ds args ih =>
    obtain ⟨rest', hrest, rfl⟩ := Option.map_eq_some_iff.mp hrender
    rw [List.length_cons] at h
    rw [overflows_literal (by omega)]
    exact ih hrest (by omega)
  | case3 ds args ih =>
    exact ih hrender h
  | case4 ds p s args ih =>
    obtain ⟨rest', hrest, rfl⟩ := Option.map_eq_some_iff.mp hrender
    rw [List.length_append] at h
    rw [overflows_string (by omega)]
    rintro (⟨hlast, -⟩ | hover)
    · omega
    · exact ih hrest (by omega) hover
  | case5 k ds i args ih =>
    obtain ⟨rest', hrest, rfl⟩ := Option.map_eq_some_iff.mp hrender
    rw [List.length_append] at h
    rw [overflows_number (by omega)]
    exact ih hrest (by omega)
  | case6 => simp at hrender

end Overflows

/-- What the loop has done to the record `t`: without an overflow the buffer holds `out` and all
stores were in it; with one there was a store outside it, or the next one will be. -/
structure Outcome (m : Mem) (dst : Word) (size : Nat) (t : Traced) (full : Prop) (out : List Byte)
    (r : Option Word × Traced) : Prop where
  fits : ¬full → ∃ tmp, r.1 = some tmp ∧ out.length < size ∧ Filled m dst size r.2 tmp out ∧
    Traced.StoresWithin (InBuffer dst size) t r.2
  overruns : full → Overrun dst size r.2 ∨ ∃ tmp, r.1 = some tmp ∧ size ≤ (tmp - dst).toNat

/-- The outcome of the loop over the format `f`, wherever it starts. -/
def LoopOutcome (m : Mem) (dst : Word) (size : Nat) (f : List Byte) : Prop :=
  ∀ (t : Traced) (tmp fmt : Word) (args : List Arg) (out rest : List Byte) (fuel : Nat),
    Filled m dst size t tmp out → StringAt m fmt f → StringOutside dst size fmt f →
    (∀ a ∈ args, a.Outside m dst size) → render (directives f) args = some rest →
    f.length < fuel →
      Outcome m dst size t (Overflows m dst size (directives f) args out.length rest) (out ++ rest)
        (vsprintfLoop fuel t tmp fmt (args.map Arg.word))

section Outcome

variable {m : Mem} {dst : Word} {size : Nat} (hsize : size + 64 ≤ 2 ^ 32)

theorem Outcome.after {t t' : Traced} {full full' : Prop} {out : List Byte}
    {r : Option Word × Traced} (h : Outcome m dst size t' full' out r) (hover : full ↔ full')
    (ht : Traced.StoresWithin (InBuffer dst size) t t') : Outcome m dst size t full out r where
  fits := fun hno => by
    obtain ⟨tmp, hret, hlt, hfill, hin⟩ := h.fits (mt hover.mpr hno)
    exact ⟨tmp, hret, hlt, hfill, ht.trans hin⟩
  overruns := fun hyes => h.overruns (hover.mp hyes)

theorem Outcome.of_overrun {t : Traced} {full : Prop} {out : List Byte}
    {r : Option Word × Traced} (hover : full) (h : Overrun dst size r.2) :
    Outcome m dst size t full out r where
  fits := fun hno => absurd hover hno
  overruns := fun _ => Or.inl h

include hsize

theorem loopOutcome_nil : LoopOutcome m dst size [] := by
  intro t tmp fmt args out rest fuel hfill hf hfout _ hrender hfuel
  obtain ⟨fuel, rfl⟩ := Nat.exists_eq_succ_of_ne_zero (Nat.ne_zero_of_lt hfuel)
  obtain rfl := Option.some.inj hrender
  have hend : t.byte fmt = 0 := (hfill.byte hfout).trans hf
  rw [vsprintfLoop_end hend, directives, List.append_nil]
  constructor
  · intro hno
    rw [overflows_nil] at hno
    exact ⟨tmp, rfl, Nat.not_le.mp hno, hfill, Traced.StoresWithin.refl⟩
  · intro hyes
    rw [overflows_nil] at hyes
    refine Or.inr ⟨tmp, rfl, ?_⟩
    rwa [hfill.toNat_cursor (by omega)]

theorem loopOutcome_literal {c : Byte} {f : List Byte}
    (hc : directives (c :: f) = .literal c :: directives f) (hlit : c = 0x25#8 → f = [])
    (ih : LoopOutcome m dst size f) : LoopOutcome m dst size (c :: f) := by
  intro t tmp fmt args out rest fuel hfill hf hfout hargs hrender hfuel
  obtain ⟨fuel, rfl⟩ := Nat.exists_eq_succ_of_ne_zero (Nat.ne_zero_of_lt hfuel)
  have hbyte : t.byte fmt = c := (hfill.byte hfout.1).trans hf.1
  have hnopercent : ¬(t.byte fmt = 0x25#8 ∧ t.byte (fmt + 1) ≠ 0) := by
    rintro ⟨hpercent, hnext⟩
    obtain rfl := hlit (hbyte ▸ hpercent)
    exact hnext ((hfill.byte hfout.2).trans hf.2.2)
  rw [hc, render] at hrender
  obtain ⟨rest, hrest, rfl⟩ := Option.map_eq_some_iff.mp hrender
  rw [hc, vsprintfLoop_literal (hbyte ▸ hf.2.1) hnopercent, hbyte]
  rcases Nat.lt_or_ge out.length size with hlt | hge
  · have hstore : InBuffer dst size tmp := by rwa [InBuffer, hfill.toNat_cursor (by omega)]
    have hnext := hfill.write8 (by omega) hlt c
    have hrun := ih _ _ _ _ _ _ fuel hnext hf.2.2 hfout.2 hargs hrest (by simpa using hfuel)
    rw [List.append_assoc, List.singleton_append, List.length_append, List.length_singleton]
      at hrun
    exact hrun.after (overflows_literal hlt) (Traced.StoresWithin.write8 hstore)
  · have hfull : out.length = size := le_antisymm hfill.le hge
    exact Outcome.of_overrun (Or.inl (by omega))
      ((hfill.overrun_write8 (by omega) hfull c).mono (vsprintfLoop_grows _ _ _ _ _))

theorem loopOutcome_percent {d : Byte} {f : List Byte} (ih : LoopOutcome m dst size f) :
    LoopOutcome m dst size (0x25#8 :: d :: f) := by
  intro t tmp fmt args out rest fuel hfill hf hfout hargs hrender hfuel
  obtain ⟨fuel, rfl⟩ := Nat.exists_eq_succ_of_ne_zero (Nat.ne_zero_of_lt hfuel)
  have hsize' : size < 2 ^ 32 := by omega
  have hpercent : t.byte fmt = 0x25#8 := (hfill.byte hfout.1).trans hf.1
  have hd : t.byte (fmt + 1) = d := (hfill.byte hfout.2.1).trans hf.2.2.1
  have hd0 : t.byte (fmt + 1) ≠ 0 := hd ▸ hf.2.2.2.1
  have hfuel' : f.length < fuel := by
    rw [List.length_cons, List.length_cons] at hfuel
    omega
  have hdirectives : directives (0x25#8 :: d :: f) = directive d :: directives f := by
    rw [directives, if_pos rfl]
  have hgrows := fun ap => vsprintfLoop_percent_grows fuel tmp ap hpercent hd0
  -- once the conversion has returned, the loop goes on behind it
  have hnext := fun {ap} {tmp' : Word} {ap' : List Word} =>
    @vsprintfLoop_percent t tmp' fmt ap' fuel tmp ap hpercent hd0
  rw [hd] at hgrows hnext
  simp only [convert_eq] at hgrows hnext
  rw [hdirectives] at hrender ⊢
  cases hdir : directive d with
  | literal c => exact absurd hdir (directive_ne_literal d c)
  | ignored =>
    rw [hdir] at hrender hnext
    rw [hnext rfl]
    exact ih _ _ _ _ _ _ _ hfill hf.2.2.2.2 hfout.2.2 hargs hrender hfuel'
  | number k =>
    rw [hdir] at hrender hnext hgrows
    rcases args with _ | ⟨_ | i, args⟩
    · simp [render] at hrender
    · simp [render] at hrender
    rw [render] at hrender
    obtain ⟨rest, hrest, rfl⟩ := Option.map_eq_some_iff.mp hrender
    rcases Nat.lt_or_ge (out.length + (k.text i).length) size with hlt | hge
    · obtain ⟨tmp', hret, hfill', hin⟩ := hfill.convertNumber hsize k.converts i
        (args.map Arg.word) hlt
      have hrun := ih _ _ _ _ _ _ _ hfill' hf.2.2.2.2 hfout.2.2
        (fun a ha => hargs a (List.mem_cons_of_mem _ ha)) hrest hfuel'
      rw [List.append_assoc, List.length_append] at hrun
      rw [List.map_cons, Arg.word, hnext hret]
      exact hrun.after (overflows_number hlt.le) hin
    · refine Outcome.of_overrun (Or.inl ?_) ((hfill.convertNumber_overrun hsize k.converts i
        (args.map Arg.word) hge).mono (hgrows _))
      rw [List.length_append]
      omega
  | string =>
    rw [hdir] at hrender hnext hgrows
    rcases args with _ | ⟨⟨p, s⟩ | i, args⟩
    · simp [render] at hrender
    · rw [render] at hrender
      obtain ⟨rest, hrest, rfl⟩ := Option.map_eq_some_iff.mp hrender
      obtain ⟨hs, hsout⟩ := hargs _ List.mem_cons_self
      have hargs' : ∀ a ∈ args, a.Outside m dst size :=
        fun a ha => hargs a (List.mem_cons_of_mem _ ha)
      rw [List.map_cons, Arg.word]
      rcases Nat.lt_or_ge (out.length + s.length) size with hlt | hge
      · by_cases hfull : out.length + s.length + 1 = size ∧ m.byte (dst + BitVec.ofNat 32 size) ≠ 0
        · -- the cursor stays behind the buffer, so that the next store is there
          obtain ⟨tmp', hret, hfill'⟩ := hfill.convertString_full hsize' hs hsout
            (args.map Arg.word) hfull.1 hfull.2
          have hrun := ih _ _ _ _ _ _ _ hfill' hf.2.2.2.2 hfout.2.2 hargs' hrest hfuel'
          have hover : Overflows m dst size (.string :: directives f) (.str p s :: args) out.length
              (s ++ rest) := (overflows_string hlt).mpr (Or.inl hfull)
          rw [hnext hret]
          refine ⟨fun hno => absurd hover hno, fun _ => hrun.overruns (Or.inl ?_)⟩
          rw [List.length_append, List.length_append, List.length_singleton]
          omega
        · have hpeek : out.length + s.length + 1 = size →
              m.byte (dst + BitVec.ofNat 32 size) = 0 := by
            intro hlast
            by_contra hne
            exact hfull ⟨hlast, hne⟩
          obtain ⟨tmp', hret, hfill', hin⟩ := hfill.convertString hsize' hs hsout
            (args.map Arg.word) hlt hpeek
          have hrun := ih _ _ _ _ _ _ _ hfill' hf.2.2.2.2 hfout.2.2 hargs' hrest hfuel'
          rw [List.append_assoc, List.length_append] at hrun
          rw [hnext hret]
          exact hrun.after ((overflows_string hlt).trans (or_iff_right hfull)) hin
      · refine Outcome.of_overrun (Or.inl ?_) ((hfill.convertString_overrun hsize' hs hsout
          (args.map Arg.word) hge).mono (hgrows _))
        rw [List.length_append]
        omega
    · simp [render] at hrender

theorem loopOutcome (f : List Byte) : LoopOutcome m dst size f := by
  induction f using directives.induct with
  | case1 => exact loopOutcome_nil hsize
  | case2 c => exact loopOutcome_literal hsize (f := []) rfl (fun _ => rfl) (loopOutcome_nil hsize)
  | case3 d f ih => exact loopOutcome_percent hsize ih
  | case4 c d f hc ih =>
    refine loopOutcome_literal hsize ?_ (fun h => absurd h hc) ih
    rw [directives, if_neg hc]

/-- All of `vsprintf`: without an overflow it leaves the expansion and its end in the buffer and
returns its length; and it stores bytes outside the buffer exactly when there is an overflow. -/
theorem vsprintf_outcome {fmt : Word} {f rest : List Byte} {args : List Arg}
    (hf : StringAt m fmt f) (hfout : StringOutside dst size fmt f)
    (hargs : ∀ a ∈ args, a.Outside m dst size) (hexp : expand f args = some rest) :
    let r := vsprintf ⟨m.withBuffer dst size [], []⟩ dst fmt (args.map Arg.word)
    (¬Overflows m dst size (directives f) args 0 rest →
      r.1 = some (BitVec.ofNat 32 rest.length) ∧ r.2.mem = m.withBuffer dst size rest ∧
        ∀ a ∈ r.2.stores, InBuffer dst size a) ∧
      (Overflows m dst size (directives f) args 0 rest → Overrun dst size r.2) := by
  have hfill : Filled m dst size ⟨m.withBuffer dst size [], []⟩ dst [] :=
    ⟨rfl, by simp, Nat.zero_le _⟩
  have hfuel := length_lt_addressSpace hf
  have hrun := loopOutcome hsize f _ _ _ _ _ _ _ hfill hf hfout hargs hexp hfuel
  rw [List.length_nil, List.nil_append] at hrun
  intro r
  have hr : r = vsprintf ⟨m.withBuffer dst size [], []⟩ dst fmt (args.map Arg.word) := rfl
  rw [vsprintf] at hr
  generalize hloop : vsprintfLoop addressSpace _ _ _ _ = l at hrun hr
  obtain ⟨ret, t⟩ := l
  constructor
  · intro hno
    obtain ⟨tmp, rfl, hlt, hfill', hin⟩ := hrun.fits hno
    have hcur := hfill'.toNat_cursor (by omega)
    have hstore : InBuffer dst size tmp := by rwa [InBuffer, hcur]
    refine ⟨?_, ?_, ?_⟩
    · rw [hr, ← hcur, BitVec.ofNat_toNat, BitVec.setWidth_eq]
    · rw [hr]
      exact (hfill'.write8 (by omega) hlt 0).back.mem
    · rw [hr]
      exact (hin.trans (Traced.StoresWithin.write8 hstore)).of_nil rfl
  · intro hyes
    rcases hrun.overruns hyes with hover | ⟨tmp, rfl, hge⟩
    · cases ret with
      | none => exact hr ▸ hover
      | some tmp => exact hr ▸ hover.mono (Traced.StoresWithin.write8 (P := fun _ => True) trivial)
    · rw [hr]
      exact ⟨tmp, Traced.mem_stores_write8, Nat.not_lt.mpr hge⟩

end Outcome

end BasicX86Kernel.Klib
