import BasicX86Kernel.Klib.Vsprintf

/-! What `vsprintf` leaves in a destination that is not zero-filled. The case `%s` looks at the
byte behind the end of its string, which it has not written, and keeps the end in the output when
that byte is not zero. -/

namespace BasicX86Kernel.Klib

open Machine

/-! ### The conversions -/

theorem Number.convertsOver (k : Number) : ConvertsOver k.conv k.text := by
  cases k with
  | unsigned => exact convertsOver_strfrom decimal
  | signed => exact convertsOver_strfromd
  | hex => exact convertsOver_strfrom upperHex

/-- A string is copied with its end over whatever is there. -/
theorem copyLoop_over {src tmp : Word} {s : List Byte} {t : Traced} (hs : StringAt t.mem src s)
    (hout : StringOutside tmp (s.length + 1) src s) {fuel : Nat} (hfuel : s.length < fuel) :
    (copyLoop fuel t tmp src).1 = some (tmp + BitVec.ofNat 32 (s.length + 1)) ∧
      (copyLoop fuel t tmp src).2.mem = t.mem.withBuffer tmp (s.length + 1) s := by
  induction s generalizing t tmp src fuel with
  | nil =>
    obtain ⟨fuel, rfl⟩ := Nat.exists_eq_succ_of_ne_zero (Nat.ne_zero_of_lt hfuel)
    have hsrc : t.byte src = 0 := hs
    simp only [copyLoop, hsrc, ne_eq, not_true_eq_false, if_false]
    refine ⟨rfl, ?_⟩
    rw [Traced.mem_write8, Mem.write8_eq_withBuffer]
    exact Mem.withBuffer_append_zeros (l := []) 1
  | cons c s ih =>
    obtain ⟨fuel, rfl⟩ := Nat.exists_eq_succ_of_ne_zero (Nat.ne_zero_of_lt hfuel)
    have hlt := hs.length_lt
    rw [List.length_cons] at hfuel hlt hout ⊢
    obtain ⟨hc, hc0, hrest⟩ := hs
    obtain ⟨hfar, houtside⟩ := hout
    have hsrc : t.byte src = c := hc
    have hstore : ∀ x : Word, s.length + 1 + 1 ≤ (x - tmp).toNat →
        (t.write8 tmp c).mem.byte x = t.mem.byte x := by
      intro x hx
      exact Mem.byte_write8_ne (by bv_omega)
    have hinner : StringOutside (tmp + 1) (s.length + 1) (src + 1) s :=
      houtside.within (o := 1) (by omega)
    obtain ⟨hret, hmem⟩ := ih (t := t.write8 tmp c) (hrest.congr houtside hstore) hinner
      (show s.length < fuel by omega)
    simp only [copyLoop, hsrc, ne_eq, hc0, not_false_eq_true, if_true]
    refine ⟨?_, ?_⟩
    · rw [hret]
      congr 1
      bv_omega
    · rw [hmem, Traced.mem_write8, Mem.withBuffer_cons _ _ _ (by omega), Nat.add_comm 1]

/-! ### The output -/

/-- What comes of the directives from `n` bytes on, when the byte `i` of the destination has been
`old i`: a string keeps its end when the byte behind that end is not zero. -/
def overwritten (old : Nat → Byte) : Nat → List Directive → List Arg → Option (List Byte)
  | _, [], _ => some []
  | n, .literal c :: ds, args => (overwritten old (n + 1) ds args).map (c :: ·)
  | n, .ignored :: ds, args => overwritten old n ds args
  | n, .string :: ds, .str _ s :: args =>
    let s := if old (n + s.length + 1) = 0 then s else s ++ [0]
    (overwritten old (n + s.length) ds args).map (s ++ ·)
  | n, .number k :: ds, .int i :: args =>
    (overwritten old (n + (k.text i).length) ds args).map (k.text i ++ ·)
  | _, _, _ => none

/-- The output has been written from `dst` on, with at most its end behind it, and the cursor is
behind it. -/
structure Written (m : Mem) (dst : Word) (t : Traced) (tmp : Word) (out : List Byte) : Prop where
  mem : ∃ n, out.length ≤ n ∧ n ≤ out.length + 1 ∧ t.mem = m.withBuffer dst n out
  cursor : tmp = dst + BitVec.ofNat 32 out.length

namespace Written

variable {m : Mem} {dst tmp : Word} {t t' : Traced} {out s : List Byte} {size : Nat}

theorem start (m : Mem) (dst : Word) : Written m dst ⟨m, []⟩ dst [] where
  mem := ⟨0, le_rfl, Nat.zero_le _, (Mem.withBuffer_nil m dst).symm⟩
  cursor := (BitVec.add_zero dst).symm

/-- What is not in the buffer is as it was. -/
theorem byte (h : Written m dst t tmp out) (hlt : out.length < size) {x : Word}
    (hx : size ≤ (x - dst).toNat) : t.mem.byte x = m.byte x := by
  obtain ⟨n, -, hn, hmem⟩ := h.mem
  rw [hmem]
  exact Mem.byte_withBuffer_outside (by omega)

/-- Bytes that are written at the cursor, with or without an end behind them. -/
theorem append (h : Written m dst t tmp out) {k : Nat} (hpos : 1 ≤ k)
    (hle : out.length + k ≤ 2 ^ 32) (hmem' : t'.mem = t.mem.withBuffer tmp k s) :
    t'.mem = m.withBuffer dst (out.length + k) (out ++ s) := by
  obtain ⟨n, hn, hn', hmem⟩ := h.mem
  rw [hmem', hmem, h.cursor]
  exact Mem.withBuffer_withBuffer hn (by omega) hle

theorem next (h : Written m dst t tmp out) {k : Nat} (hk : s.length ≤ k) (hk' : k ≤ s.length + 1)
    (hpos : 1 ≤ k) (hle : out.length + k ≤ 2 ^ 32)
    (hmem' : t'.mem = t.mem.withBuffer tmp k s) :
    Written m dst t' (tmp + BitVec.ofNat 32 s.length) (out ++ s) where
  mem := by
    refine ⟨out.length + k, ?_, ?_, h.append hpos hle hmem'⟩
    · rw [List.length_append]
      omega
    · rw [List.length_append]
      omega
  cursor := by
    rw [h.cursor, List.length_append]
    bv_omega

theorem literal (h : Written m dst t tmp out) (c : Byte) (hle : out.length + 1 ≤ 2 ^ 32) :
    Written m dst (t.write8 tmp c) (tmp + 1) (out ++ [c]) :=
  h.next (s := [c]) (k := 1) le_rfl (Nat.le_succ _) le_rfl hle (Mem.write8_eq_withBuffer _ _ _)

theorem convertNumber (h : Written m dst t tmp out)
    {conv : Traced → Word → Word → Option Word × Traced} {num : Word → List Byte}
    (hconv : ConvertsOver conv num) (i : Word) (ap : List Word)
    (hle : out.length + ((num i).length + 1) ≤ 2 ^ 32) :
    ∃ tmp' t', Klib.convertNumber conv t tmp (i :: ap) = (some (tmp', ap), t') ∧
      Written m dst t' tmp' (out ++ num i) := by
  obtain ⟨hret, hmem⟩ := hconv t i tmp
  refine ⟨tmp + BitVec.ofNat 32 (num i).length, (conv t i tmp).2, ?_, ?_⟩
  · simp only [Klib.convertNumber, hret, Option.map_some]
  · exact h.next (Nat.le_succ _) le_rfl (Nat.succ_pos _) hle hmem

/-- A string, and its end when the byte behind it is not zero. -/
theorem convertString (h : Written m dst t tmp out) {p : Word} (hs : StringAt m p s)
    (hout : StringOutside dst size p s) (hsize : size ≤ 2 ^ 32)
    (hle : out.length + s.length + 2 ≤ size) (ap : List Word) :
    ∃ tmp' t', Klib.convertString t tmp (p :: ap) = (some (tmp', ap), t') ∧
      Written m dst t' tmp' (out ++
        if m.byte (dst + BitVec.ofNat 32 (out.length + s.length + 1)) = 0 then s else s ++ [0]) := by
  have hstring : StringAt t.mem p s := hs.congr hout fun x hx => h.byte (by omega) hx
  have hfar : StringOutside tmp (s.length + 1) p s := by
    rw [h.cursor]
    exact hout.within (by omega)
  have hfuel := length_lt_addressSpace hs
  obtain ⟨hret, hcopy⟩ := copyLoop_over hstring hfar hfuel
  have hmem := h.append (Nat.succ_pos _) (by omega) hcopy
  have hpeek : (copyLoop addressSpace t tmp p).2.byte (tmp + BitVec.ofNat 32 (s.length + 1))
      = m.byte (dst + BitVec.ofNat 32 (out.length + s.length + 1)) := by
    have haddr : tmp + BitVec.ofNat 32 (s.length + 1)
        = dst + BitVec.ofNat 32 (out.length + s.length + 1) := by
      rw [h.cursor]
      bv_omega
    rw [Traced.byte, hmem, haddr]
    refine Mem.byte_withBuffer_outside ?_
    rw [Mem.toNat_add_ofNat_sub dst (by omega)]
    omega
  refine ⟨if m.byte (dst + BitVec.ofNat 32 (out.length + s.length + 1)) = 0
    then tmp + BitVec.ofNat 32 (s.length + 1) - 1 else tmp + BitVec.ofNat 32 (s.length + 1),
    (copyLoop addressSpace t tmp p).2, ?_, ?_⟩
  · simp only [Klib.convertString, hret, Option.map_some, hpeek]
  · split
    · have hback : tmp + BitVec.ofNat 32 (s.length + 1) - 1 = tmp + BitVec.ofNat 32 s.length := by
        bv_omega
      rw [hback]
      exact h.next (Nat.le_succ _) le_rfl (Nat.succ_pos _) (by omega) hcopy
    · refine ⟨⟨out.length + (s.length + 1), ?_, ?_, ?_⟩, ?_⟩
      · simp
      · simp
      · rw [hmem, ← List.append_assoc]
        exact (Mem.withBuffer_append_zeros 1).symm
      · rw [h.cursor]
        simp only [List.length_append, List.length_singleton]
        bv_omega

end Written

/-! ### The loop -/

/-- The bytes of the destination, by their place in it. -/
def oldByte (m : Mem) (dst : Word) (i : Nat) : Byte := m.byte (dst + BitVec.ofNat 32 i)

/-- What the loop over the format `f` writes, wherever it starts. -/
def LoopWrites (m : Mem) (dst : Word) (size : Nat) (f : List Byte) : Prop :=
  ∀ (t : Traced) (tmp fmt : Word) (args : List Arg) (out stored : List Byte) (fuel : Nat),
    Written m dst t tmp out → StringAt m fmt f → StringOutside dst size fmt f →
    (∀ a ∈ args, a.Outside m dst size) →
    overwritten (oldByte m dst) out.length (directives f) args = some stored →
    out.length + stored.length + 2 ≤ size → f.length < fuel →
      ∃ tmp' t', vsprintfLoop fuel t tmp fmt (args.map Arg.word) = (some tmp', t') ∧
        Written m dst t' tmp' (out ++ stored)

section LoopWrites

variable {m : Mem} {dst : Word} {size : Nat}

theorem loopWrites_nil : LoopWrites m dst size [] := by
  intro t tmp fmt args out stored fuel h hf hfout _ hover hroom hfuel
  obtain ⟨fuel, rfl⟩ := Nat.exists_eq_succ_of_ne_zero (Nat.ne_zero_of_lt hfuel)
  obtain rfl := Option.some.inj hover
  have hlt : out.length < size := by omega
  have hend : t.byte fmt = 0 := (h.byte hlt hfout).trans hf
  refine ⟨tmp, t, vsprintfLoop_end hend, ?_⟩
  rw [List.append_nil]
  exact h

variable (hsize : size ≤ 2 ^ 32)

include hsize

theorem loopWrites_literal {c : Byte} {f : List Byte}
    (hc : directives (c :: f) = .literal c :: directives f) (hlit : c = 0x25#8 → f = [])
    (ih : LoopWrites m dst size f) : LoopWrites m dst size (c :: f) := by
  intro t tmp fmt args out stored fuel h hf hfout hargs hover hroom hfuel
  obtain ⟨fuel, rfl⟩ := Nat.exists_eq_succ_of_ne_zero (Nat.ne_zero_of_lt hfuel)
  have hlt : out.length < size := by omega
  have hbyte : t.byte fmt = c := (h.byte hlt hfout.1).trans hf.1
  have hnopercent : ¬(t.byte fmt = 0x25#8 ∧ t.byte (fmt + 1) ≠ 0) := by
    rintro ⟨hpercent, hnext⟩
    obtain rfl := hlit (hbyte ▸ hpercent)
    exact hnext ((h.byte hlt hfout.2).trans hf.2.2)
  rw [hc, overwritten] at hover
  obtain ⟨stored, hrest, rfl⟩ := Option.map_eq_some_iff.mp hover
  rw [List.length_cons] at hroom
  rw [vsprintfLoop_literal (hbyte ▸ hf.2.1) hnopercent, hbyte]
  have hnext := h.literal c (by omega)
  obtain ⟨tmp', t', hret, hwritten⟩ := ih _ _ _ args _ stored fuel hnext hf.2.2 hfout.2 hargs
    (by rw [List.length_append]; exact hrest)
    (by rw [List.length_append, List.length_singleton]; omega) (Nat.lt_of_succ_lt_succ hfuel)
  refine ⟨tmp', t', hret, ?_⟩
  rw [List.append_assoc] at hwritten
  exact hwritten

theorem loopWrites_percent {d : Byte} {f : List Byte} (ih : LoopWrites m dst size f) :
    LoopWrites m dst size (0x25#8 :: d :: f) := by
  intro t tmp fmt args out stored fuel h hf hfout hargs hover hroom hfuel
  obtain ⟨fuel, rfl⟩ := Nat.exists_eq_succ_of_ne_zero (Nat.ne_zero_of_lt hfuel)
  obtain ⟨hpercent, -, hd, hd0, hf⟩ := hf
  obtain ⟨hfar, hfar', hfout⟩ := hfout
  have hlt : out.length < size := by omega
  have hbyte : t.byte fmt = 0x25#8 := (h.byte hlt hfar).trans hpercent
  have hbyte' : t.byte (fmt + 1) = d := (h.byte hlt hfar').trans hd
  have hfuel' : f.length < fuel := by
    rw [List.length_cons, List.length_cons] at hfuel
    omega
  have hdirectives : directives (0x25#8 :: d :: f) = directive d :: directives f := by
    rw [directives, if_pos rfl]
  -- the loop goes on behind what the conversion has written
  have hnext : ∀ {tmp' t' args' s stored'},
      convert t tmp d (args.map Arg.word) = (some (tmp', args'.map Arg.word), t') →
      Written m dst t' tmp' (out ++ s) → (∀ a ∈ args', a.Outside m dst size) →
      overwritten (oldByte m dst) (out.length + s.length) (directives f) args' = some stored' →
      s ++ stored' = stored →
      ∃ tmp' t', vsprintfLoop (fuel + 1) t tmp fmt (args.map Arg.word) = (some tmp', t') ∧
        Written m dst t' tmp' (out ++ stored) := by
    rintro tmp' t' args' s stored' hconv hw hargs' hover' rfl
    rw [List.length_append] at hroom
    have hloop := vsprintfLoop_percent fuel tmp (args.map Arg.word) hbyte
      (hbyte' ▸ hd0) (by rw [hbyte', hconv])
    rw [hbyte', hconv] at hloop
    rw [hloop, ← List.append_assoc]
    exact ih _ _ _ args' _ _ fuel hw hf hfout hargs' (by rw [List.length_append]; exact hover')
      (by rw [List.length_append]; omega) hfuel'
  rw [hdirectives] at hover
  have hconvert := convert_eq t tmp d (args.map Arg.word)
  cases hdir : directive d with
  | literal c => exact absurd hdir (directive_ne_literal d c)
  | ignored =>
    rw [hdir] at hover hconvert
    exact hnext (s := []) hconvert (by rw [List.append_nil]; exact h) hargs hover rfl
  | number k =>
    rw [hdir] at hover hconvert
    rcases args with _ | ⟨_ | i, args⟩
    · simp [overwritten] at hover
    · simp [overwritten] at hover
    rw [overwritten] at hover
    obtain ⟨stored, hrest, rfl⟩ := Option.map_eq_some_iff.mp hover
    rw [List.length_append] at hroom
    obtain ⟨tmp', t', hret, hw⟩ := h.convertNumber k.convertsOver i (args.map Arg.word) (by omega)
    exact hnext (hconvert.trans hret) hw (fun a ha => hargs a (List.mem_cons_of_mem _ ha)) hrest rfl
  | string =>
    rw [hdir] at hover hconvert
    rcases args with _ | ⟨⟨p, s⟩ | i, args⟩
    · simp [overwritten] at hover
    · rw [overwritten] at hover
      obtain ⟨stored, hrest, rfl⟩ := Option.map_eq_some_iff.mp hover
      obtain ⟨hs, hsout⟩ := hargs _ List.mem_cons_self
      have hle : s.length ≤ (if oldByte m dst (out.length + s.length + 1) = 0 then s
          else s ++ [0]).length := by
        split <;> simp
      rw [List.length_append] at hroom
      obtain ⟨tmp', t', hret, hw⟩ := h.convertString hs hsout hsize (by omega) (args.map Arg.word)
      exact hnext (hconvert.trans hret) hw (fun a ha => hargs a (List.mem_cons_of_mem _ ha)) hrest
        rfl
    · simp [overwritten] at hover

theorem loopWrites (f : List Byte) : LoopWrites m dst size f := by
  induction f using directives.induct with
  | case1 => exact loopWrites_nil
  | case2 c => exact loopWrites_literal hsize (f := []) rfl (fun _ => rfl) loopWrites_nil
  | case3 d f ih => exact loopWrites_percent hsize ih
  | case4 c d f hc ih =>
    refine loopWrites_literal hsize ?_ (fun h => absurd h hc) ih
    rw [directives, if_neg hc]

/-- All of `vsprintf`, over whatever the destination has held. -/
theorem vsprintf_over {fmt : Word} {f stored : List Byte} {args : List Arg} (hf : StringAt m fmt f)
    (hfout : StringOutside dst size fmt f) (hargs : ∀ a ∈ args, a.Outside m dst size)
    (hover : overwritten (oldByte m dst) 0 (directives f) args = some stored)
    (hroom : stored.length + 2 ≤ size) :
    (vsprintf ⟨m, []⟩ dst fmt (args.map Arg.word)).1 = some (BitVec.ofNat 32 stored.length) ∧
      (vsprintf ⟨m, []⟩ dst fmt (args.map Arg.word)).2.mem
        = m.withBuffer dst (stored.length + 1) stored := by
  have hfuel := length_lt_addressSpace hf
  obtain ⟨tmp, t, hret, hw⟩ := loopWrites hsize f _ _ _ args [] stored _ (Written.start m dst) hf
    hfout hargs hover (by rw [List.length_nil]; omega) hfuel
  rw [List.nil_append] at hw
  have hzero : (t.write8 tmp 0).mem = t.mem.withBuffer tmp 1 [0] := Mem.write8_eq_withBuffer _ _ _
  have hend := hw.append le_rfl (by omega) hzero
  simp only [vsprintf, hret]
  refine ⟨?_, ?_⟩
  · rw [hw.cursor, add_sub_cancel_left]
  · exact hend.trans (Mem.withBuffer_append_zeros 1)

end LoopWrites

/-! ### What the output depends on -/

section Peeks

variable {old : Nat → Byte} {n i : Nat} {ds : List Directive} {args : List Arg}
  {rest stored : List Byte}

/-- The bytes that the strings look at are zero. -/
def Peeks (old : Nat → Byte) (n : Nat) (ds : List Directive) (args : List Arg) : Prop :=
  ∀ i, StringEnds ds args i → old (n + i + 1) = 0

theorem peeks_literal {c : Byte} (h : Peeks old n (.literal c :: ds) args) :
    Peeks old (n + 1) ds args := by
  intro i hi
  have hbyte := h (i + 1) ⟨Nat.succ_pos i, hi⟩
  rw [show n + (i + 1) + 1 = n + 1 + i + 1 by omega] at hbyte
  exact hbyte

theorem peeks_string {p : Word} {s : List Byte} :
    Peeks old n (.string :: ds) (.str p s :: args)
      ↔ old (n + s.length + 1) = 0 ∧ Peeks old (n + s.length) ds args := by
  constructor
  · refine fun h => ⟨h _ (.inl rfl), fun i hi => ?_⟩
    have hbyte := h (s.length + i) (.inr ⟨by omega, by rwa [Nat.add_sub_cancel_left]⟩)
    rw [← Nat.add_assoc n] at hbyte
    exact hbyte
  · rintro ⟨hlast, h⟩ i (rfl | ⟨hle, hi⟩)
    · exact hlast
    · have hbyte := h _ hi
      rw [show n + s.length + (i - s.length) = n + i by omega] at hbyte
      exact hbyte

theorem peeks_number {k : Number} {w : Word} (h : Peeks old n (.number k :: ds) (.int w :: args)) :
    Peeks old (n + (k.text w).length) ds args := by
  intro i hi
  have hbyte := h ((k.text w).length + i) ⟨by omega, by rwa [Nat.add_sub_cancel_left]⟩
  rw [← Nat.add_assoc n] at hbyte
  exact hbyte

/-- The output is at most the expansion and an end for each string. -/
theorem overwritten_length (h : render ds args = some rest) (old : Nat → Byte) (n : Nat) :
    ∃ stored, overwritten old n ds args = some stored
      ∧ stored.length ≤ rest.length + ds.count .string := by
  fun_induction render ds args generalizing n rest with
  | case1 args => exact ⟨[], rfl, Nat.zero_le _⟩
  | case2 c ds args ih =>
    obtain ⟨rest, hrest, rfl⟩ := Option.map_eq_some_iff.mp h
    obtain ⟨stored, hover, hle⟩ := ih hrest (n + 1)
    refine ⟨c :: stored, by rw [overwritten, hover]; rfl, ?_⟩
    rw [List.count_cons_of_ne (by simp)]
    simp only [List.length_cons]
    omega
  | case3 ds args ih =>
    obtain ⟨stored, hover, hle⟩ := ih h n
    refine ⟨stored, by rw [overwritten, hover], ?_⟩
    rw [List.count_cons_of_ne (by simp)]
    exact hle
  | case4 ds p s args ih =>
    obtain ⟨rest, hrest, rfl⟩ := Option.map_eq_some_iff.mp h
    have hle : (if old (n + s.length + 1) = 0 then s else s ++ [0]).length ≤ s.length + 1 := by
      split <;> simp
    obtain ⟨stored, hover, hle'⟩ :=
      ih hrest (n + (if old (n + s.length + 1) = 0 then s else s ++ [0]).length)
    refine ⟨_ ++ stored, by rw [overwritten, hover]; rfl, ?_⟩
    rw [List.count_cons_self, List.length_append, List.length_append]
    omega
  | case5 k ds w args ih =>
    obtain ⟨rest, hrest, rfl⟩ := Option.map_eq_some_iff.mp h
    obtain ⟨stored, hover, hle⟩ := ih hrest (n + (k.text w).length)
    refine ⟨k.text w ++ stored, by rw [overwritten, hover]; rfl, ?_⟩
    rw [List.count_cons_of_ne (by simp), List.length_append, List.length_append]
    omega
  | case6 => simp at h

/-- Over zeros where its strings look, the output is the expansion. -/
theorem overwritten_of_peeks (h : render ds args = some rest) (hpeeks : Peeks old n ds args) :
    overwritten old n ds args = some rest := by
  fun_induction render ds args generalizing n rest with
  | case1 args => exact h
  | case2 c ds args ih =>
    obtain ⟨rest, hrest, rfl⟩ := Option.map_eq_some_iff.mp h
    rw [overwritten, ih hrest (peeks_literal hpeeks)]
    rfl
  | case3 ds args ih => exact ih h hpeeks
  | case4 ds p s args ih =>
    obtain ⟨rest, hrest, rfl⟩ := Option.map_eq_some_iff.mp h
    obtain ⟨hlast, hpeeks⟩ := peeks_string.mp hpeeks
    rw [overwritten, if_pos hlast, ih hrest hpeeks]
    rfl
  | case5 k ds w args ih =>
    obtain ⟨rest, hrest, rfl⟩ := Option.map_eq_some_iff.mp h
    rw [overwritten, ih hrest (peeks_number hpeeks)]
    rfl
  | case6 => simp at h

/-- An output without a zero comes from zeros where the strings look. -/
theorem peeks_of_overwritten (h : overwritten old n ds args = some stored) (hzero : 0 ∉ stored) :
    Peeks old n ds args := by
  fun_induction overwritten old n ds args generalizing stored with
  | case1 n args =>
    intro i hi
    exact hi.elim
  | case2 n c ds args ih =>
    obtain ⟨stored, hover, rfl⟩ := Option.map_eq_some_iff.mp h
    rintro i ⟨hpos, hi⟩
    have hbyte := ih hover (fun hmem => hzero (List.mem_cons_of_mem _ hmem)) _ hi
    rw [show n + 1 + (i - 1) = n + i by omega] at hbyte
    exact hbyte
  | case3 n ds args ih => exact ih h hzero
  | case4 n ds p s args s' =>
    rename_i ih
    obtain ⟨stored, hover, rfl⟩ := Option.map_eq_some_iff.mp h
    have hlast : old (n + s.length + 1) = 0 := by
      by_contra hne
      refine hzero (List.mem_append_left _ ?_)
      rw [show s' = s ++ [0] from if_neg hne]
      exact List.mem_append_right _ List.mem_cons_self
    rw [show s' = s from if_pos hlast] at hzero ih hover
    exact peeks_string.mpr ⟨hlast, ih hover fun hmem => hzero (List.mem_append_right _ hmem)⟩
  | case5 n k ds w args ih =>
    obtain ⟨stored, hover, rfl⟩ := Option.map_eq_some_iff.mp h
    rintro i ⟨hle, hi⟩
    have hbyte := ih hover (fun hmem => hzero (List.mem_append_right _ hmem)) _ hi
    rw [show n + (k.text w).length + (i - (k.text w).length) = n + i by omega] at hbyte
    exact hbyte
  | case6 => simp at h

/-- A string ends within the expansion. -/
theorem stringEnds_le (h : render ds args = some rest) (hi : StringEnds ds args i) :
    i ≤ rest.length ∧ .string ∈ ds := by
  fun_induction render ds args generalizing i rest with
  | case1 args => exact hi.elim
  | case2 c ds args ih =>
    obtain ⟨rest, hrest, rfl⟩ := Option.map_eq_some_iff.mp h
    obtain ⟨hpos, hi⟩ := hi
    obtain ⟨hle, hmem⟩ := ih hrest hi
    refine ⟨?_, List.mem_cons_of_mem _ hmem⟩
    rw [List.length_cons]
    omega
  | case3 ds args ih =>
    obtain ⟨hle, hmem⟩ := ih h hi
    exact ⟨hle, List.mem_cons_of_mem _ hmem⟩
  | case4 ds p s args ih =>
    obtain ⟨rest, hrest, rfl⟩ := Option.map_eq_some_iff.mp h
    refine ⟨?_, List.mem_cons_self⟩
    rw [List.length_append]
    rcases hi with rfl | ⟨hle, hi⟩
    · omega
    · have := (ih hrest hi).1
      omega
  | case5 k ds w args ih =>
    obtain ⟨rest, hrest, rfl⟩ := Option.map_eq_some_iff.mp h
    obtain ⟨hle, hi⟩ := hi
    obtain ⟨hle', hmem⟩ := ih hrest hi
    refine ⟨?_, List.mem_cons_of_mem _ hmem⟩
    rw [List.length_append]
    omega
  | case6 => simp at h

theorem exists_stringEnds (h : render ds args = some rest) (hmem : .string ∈ ds) :
    ∃ i, StringEnds ds args i := by
  fun_induction render ds args generalizing rest with
  | case1 args => simp at hmem
  | case2 c ds args ih =>
    obtain ⟨rest, hrest, rfl⟩ := Option.map_eq_some_iff.mp h
    obtain ⟨i, hi⟩ := ih hrest (by simpa using hmem)
    exact ⟨i + 1, Nat.succ_pos i, hi⟩
  | case3 ds args ih => exact ih h (by simpa using hmem)
  | case4 ds p s args ih => exact ⟨s.length, .inl rfl⟩
  | case5 k ds w args ih =>
    obtain ⟨rest, hrest, rfl⟩ := Option.map_eq_some_iff.mp h
    obtain ⟨i, hi⟩ := ih hrest (by simpa using hmem)
    exact ⟨(k.text w).length + i, Nat.le_add_right _ _, by rwa [Nat.add_sub_cancel_left]⟩
  | case6 => simp at h

end Peeks

/-! ### Two runs -/

/-- The result is the string: its length is returned, and it is what the destination holds. -/
def Leaves (dst : Word) (r : Option Word × Traced) (s : List Byte) : Prop :=
  r.1 = some (BitVec.ofNat 32 s.length) ∧ StringAt r.2.mem dst s

/-- Both results are the same string. -/
def SameString (dst : Word) (r r' : Option Word × Traced) : Prop :=
  ∃ s, Leaves dst r s ∧ Leaves dst r' s

/-- The call over a destination that has held the bytes of the list. -/
def vsprintfOver (m : Mem) (dst : Word) (size : Nat) (fmt : Word) (args : List Arg)
    (contents : List Byte) : Option Word × Traced :=
  vsprintf ⟨m.withBuffer dst size contents, []⟩ dst fmt (args.map Arg.word)

/-- The format and the arguments are strings outside the destination, and the destination has room
for the expansion, an end for each of its strings, and two bytes more. -/
structure Call (m : Mem) (dst : Word) (size : Nat) (fmt : Word) (f : List Byte) (args : List Arg)
    (rest : List Byte) : Prop where
  format : StringAt m fmt f
  formatOutside : StringOutside dst size fmt f
  argsOutside : ∀ a ∈ args, a.Outside m dst size
  expansion : expand f args = some rest
  room : rest.length + (directives f).count .string + 2 ≤ size
  size_le : size ≤ 2 ^ 32

section TwoRuns

variable {m : Mem} {dst fmt : Word} {size : Nat} {f rest contents : List Byte} {args : List Arg}

theorem Call.withBuffer (h : Call m dst size fmt f args rest) (contents : List Byte) :
    Call (m.withBuffer dst size contents) dst size fmt f args rest where
  format := h.format.congr h.formatOutside fun _ hx => Mem.byte_withBuffer_outside hx
  formatOutside := h.formatOutside
  argsOutside := by
    rintro (⟨p, s⟩ | n) ha
    · obtain ⟨hs, hout⟩ := h.argsOutside _ ha
      exact ⟨hs.congr hout fun _ hx => Mem.byte_withBuffer_outside hx, hout⟩
    · trivial
  expansion := h.expansion
  room := h.room
  size_le := h.size_le

/-- What the strings look at is in the destination. -/
theorem Call.peeks_iff (h : Call m dst size fmt f args rest) :
    Peeks (oldByte (m.withBuffer dst size contents) dst) 0 (directives f) args
      ↔ ∀ i, StringEnds (directives f) args i → contents.getD (i + 1) 0 = 0 := by
  have hroom := h.room
  have hbyte : ∀ i, StringEnds (directives f) args i →
      oldByte (m.withBuffer dst size contents) dst (0 + i + 1) = contents.getD (i + 1) 0 := by
    intro i hi
    obtain ⟨hle, -⟩ := stringEnds_le h.expansion hi
    rw [Nat.zero_add]
    exact Mem.byte_withBuffer h.size_le (by omega)
  constructor
  · exact fun hpeeks i hi => (hbyte i hi).symm.trans (hpeeks i hi)
  · exact fun hpeeks i hi => (hbyte i hi).trans (hpeeks i hi)

/-- Over zeros where the strings look, the result is the expansion. -/
theorem Call.leaves (h : Call m dst size fmt f args rest)
    (hpeeks : ∀ i, StringEnds (directives f) args i → contents.getD (i + 1) 0 = 0) :
    Leaves dst (vsprintfOver m dst size fmt args contents) rest := by
  have hcall := h.withBuffer contents
  have hroom := h.room
  have hsize := h.size_le
  have hover := overwritten_of_peeks h.expansion (h.peeks_iff.mpr hpeeks)
  obtain ⟨hret, hmem⟩ := vsprintf_over hsize hcall.format hcall.formatOutside hcall.argsOutside
    hover (by omega)
  have hzero : ∀ c ∈ rest, c ≠ 0 := by
    refine render_ne_zero (fun c hc => ?_) (fun p s hs => ?_) h.expansion
    · exact h.format.ne_zero c (literal_mem_directives hc)
    · exact (h.argsOutside _ hs).1.ne_zero
  have hstring := Mem.stringAt_withBuffer_start (m.withBuffer dst size contents) dst
    (rest.length + 1) (by omega) hzero (Nat.lt_succ_self _)
  rw [← hmem] at hstring
  exact ⟨hret, hstring⟩

/-- A result that is a string comes from zeros where the strings look. -/
theorem Call.peeks_of_leaves (h : Call m dst size fmt f args rest) {s : List Byte}
    (hleaves : Leaves dst (vsprintfOver m dst size fmt args contents) s) :
    ∀ i, StringEnds (directives f) args i → contents.getD (i + 1) 0 = 0 := by
  have hcall := h.withBuffer contents
  have hroom := h.room
  have hsize := h.size_le
  obtain ⟨stored, hover, hle⟩ := overwritten_length h.expansion
    (oldByte (m.withBuffer dst size contents) dst) 0
  obtain ⟨hret, hmem⟩ := vsprintf_over hsize hcall.format hcall.formatOutside hcall.argsOutside
    hover (by omega)
  obtain ⟨hret', hstring⟩ := hleaves
  have hlength : s.length = stored.length := by
    have hlt := hstring.length_lt
    have heq := Option.some.inj (hret'.symm.trans hret)
    have hnat := congrArg BitVec.toNat heq
    rw [BitVec.toNat_ofNat, BitVec.toNat_ofNat, Nat.mod_eq_of_lt hlt,
      Nat.mod_eq_of_lt (by omega)] at hnat
    exact hnat
  refine h.peeks_iff.mp (peeks_of_overwritten hover fun hmem0 => ?_)
  obtain ⟨i, hi, hzero⟩ := List.getElem_of_mem hmem0
  refine hstring.byte (i := i) (by omega) ?_
  show (vsprintf _ _ _ _).2.mem.byte _ = 0
  rw [hmem, Mem.byte_withBuffer (by omega) (by omega), List.getD_eq_getElem _ _ hi, hzero]

theorem Call.sameString_iff (h : Call m dst size fmt f args rest) (c₁ c₂ : List Byte) :
    SameString dst (vsprintfOver m dst size fmt args c₁) (vsprintfOver m dst size fmt args c₂)
      ↔ ∀ c ∈ [c₁, c₂], ∀ i, StringEnds (directives f) args i → c.getD (i + 1) 0 = 0 := by
  constructor
  · rintro ⟨s, h₁, h₂⟩ c hc
    rcases List.mem_cons.mp hc with rfl | hc
    · exact h.peeks_of_leaves h₁
    · obtain rfl := List.mem_singleton.mp hc
      exact h.peeks_of_leaves h₂
  · intro hpeeks
    exact ⟨rest, h.leaves (hpeeks c₁ (by simp)), h.leaves (hpeeks c₂ (by simp))⟩

end TwoRuns

/-- Over two contents of the destination `vsprintf` leaves the same string exactly when in both of
them the byte behind the end of each string that it inserts is zero; and over any two exactly when
it inserts none. -/
theorem vsprintf_sameString_iff (m : Mem) (dst fmt : Word) (size : Nat) (f rest : List Byte)
    (args : List Arg) (h : Call m dst size fmt f args rest) :
    (∀ c₁ c₂ : List Byte, SameString dst (vsprintfOver m dst size fmt args c₁)
        (vsprintfOver m dst size fmt args c₂)
      ↔ ∀ c ∈ [c₁, c₂], ∀ i, StringEnds (directives f) args i → c.getD (i + 1) 0 = 0) ∧
    ((∀ c₁ c₂ : List Byte, c₁.length = size → c₂.length = size →
        SameString dst (vsprintfOver m dst size fmt args c₁)
          (vsprintfOver m dst size fmt args c₂))
      ↔ .string ∉ directives f) := by
  refine ⟨h.sameString_iff, ?_, ?_⟩
  · intro hall hmem
    obtain ⟨i, hi⟩ := exists_stringEnds h.expansion hmem
    have hlength := List.length_replicate (n := size) (a := (0xFF : Byte))
    have hpeek := (h.sameString_iff _ _).mp (hall _ _ hlength hlength) _ List.mem_cons_self i hi
    have hle := (stringEnds_le h.expansion hi).1
    have hroom := h.room
    rw [List.getD_replicate (0xFF : Byte) (show i + 1 < size by omega)] at hpeek
    exact absurd hpeek (by decide)
  · intro hno c₁ c₂ _ _
    refine (h.sameString_iff c₁ c₂).mpr fun c _ i hi => ?_
    exact absurd (stringEnds_le h.expansion hi).2 hno

/-- The format `%s` at 0x1000, the string `n` at 0x2000, and room for 16 bytes at 0x8000. -/
def nameCallMem : Mem :=
  ((⟨fun _ => 0⟩ : Mem).withBuffer 0x1000#32 2 [0x25#8, 0x73#8]).withBuffer 0x2000#32 1 [0x6E#8]

theorem nameCall : Call nameCallMem 0x8000#32 16 0x1000#32 [0x25#8, 0x73#8]
    [.str 0x2000#32 [0x6E#8]] [0x6E#8] where
  format := by decide
  formatOutside := by decide
  argsOutside := by
    intro a ha
    obtain rfl := List.mem_singleton.mp ha
    exact ⟨by decide, by decide⟩
  expansion := by decide
  room := by decide
  size_le := by decide

/-- Old contents with a zero behind the end of the string, and one without it. -/
theorem vsprintf_sameString_name :
    SameString 0x8000#32
        (vsprintfOver nameCallMem 0x8000#32 16 0x1000#32 [.str 0x2000#32 [0x6E#8]]
          (List.replicate 16 0))
        (vsprintfOver nameCallMem 0x8000#32 16 0x1000#32 [.str 0x2000#32 [0x6E#8]]
          ([0xFF, 0xFF, 0] ++ List.replicate 13 0xFF)) ∧
      ¬SameString 0x8000#32
        (vsprintfOver nameCallMem 0x8000#32 16 0x1000#32 [.str 0x2000#32 [0x6E#8]]
          (List.replicate 16 0))
        (vsprintfOver nameCallMem 0x8000#32 16 0x1000#32 [.str 0x2000#32 [0x6E#8]]
          ([0, 0, 0xFF] ++ List.replicate 13 0)) := by
  obtain ⟨hiff, -⟩ := vsprintf_sameString_iff _ _ _ _ _ _ _ nameCall
  have hends : ∀ i, StringEnds (directives [0x25#8, 0x73#8]) [.str 0x2000#32 [0x6E#8]] i
      ↔ i = 1 := by
    intro i
    show 1 = i ∨ 1 ≤ i ∧ False ↔ i = 1
    rw [and_false, or_false, eq_comm]
  rw [hiff, hiff]
  simp only [hends, forall_eq]
  decide

/-- Over bytes that are not zero, `%s` keeps the end of its string in the output. -/
theorem vsprintf_not_sameString :
    ¬SameString 0x8000#32
      (vsprintfOver nameCallMem 0x8000#32 16 0x1000#32 [.str 0x2000#32 [0x6E#8]]
        (List.replicate 16 0))
      (vsprintfOver nameCallMem 0x8000#32 16 0x1000#32 [.str 0x2000#32 [0x6E#8]]
        (List.replicate 16 0xFF)) := by
  rw [nameCall.sameString_iff]
  intro hpeeks
  have hbyte := hpeeks (List.replicate 16 0xFF) (by simp) 1 (.inl rfl)
  exact absurd hbyte (by decide)

end BasicX86Kernel.Klib
