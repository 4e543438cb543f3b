import BasicX86Kernel.Klib.String

/-! `klib/stdio.c`: `vsprintf`, and the expansion of a format that it computes. -/

namespace BasicX86Kernel.Klib

open Machine

/-! ### The function -/

/-- The loop `while( (*tmp++ = *src++) != '\0' )`; `none` when it takes more steps than there are
addresses. -/
def copyLoop : Nat → Traced → Word → Word → Option Word × Traced
  | 0, t, _, _ => (none, t)
  | fuel + 1, t, tmp, src =>
    let c := t.byte src
    let t := t.write8 tmp c
    if c ≠ 0 then copyLoop fuel t (tmp + 1) (src + 1) else (some (tmp + 1), t)

/-- The case `%s`; `none` when there is no argument left. -/
def convertString (t : Traced) (tmp : Word) : List Word → Option (Word × List Word) × Traced
  | [] => (none, t)
  | src :: ap =>
    let (end', t) := copyLoop addressSpace t tmp src
    (end'.map fun tmp => (if t.byte tmp = 0 then tmp - 1 else tmp, ap), t)

/-- The cases `%u`, `%d` and `%x`; `none` when there is no argument left. -/
def convertNumber (conv : Traced → Word → Word → Option Word × Traced) (t : Traced) (tmp : Word) :
    List Word → Option (Word × List Word) × Traced
  | [] => (none, t)
  | n :: ap =>
    let (len, t) := conv t n tmp
    (len.map fun len => (tmp + len, ap), t)

/-- The `switch` on the byte after `%`. -/
def convert (t : Traced) (tmp : Word) (c : Byte) (ap : List Word) :
    Option (Word × List Word) × Traced :=
  if c = 0x73#8 then convertString t tmp ap
  else if c = 0x75#8 then convertNumber strfromu t tmp ap
  else if c = 0x64#8 then convertNumber strfromd t tmp ap
  else if c = 0x78#8 then convertNumber strhex t tmp ap
  else (some (tmp, ap), t)

/-- The loop over the format. -/
def vsprintfLoop : Nat → Traced → Word → Word → List Word → Option Word × Traced
  | 0, t, _, _, _ => (none, t)
  | fuel + 1, t, tmp, fmt, ap =>
    if t.byte fmt = 0 then (some tmp, t)
    else if t.byte fmt = 0x25#8 ∧ t.byte (fmt + 1) ≠ 0 then
      match convert t tmp (t.byte (fmt + 1)) ap with
      | (some (tmp, ap), t) => vsprintfLoop fuel t tmp (fmt + 1 + 1) ap
      | (none, t) => (none, t)
    else vsprintfLoop fuel (t.write8 tmp (t.byte fmt)) (tmp + 1) (fmt + 1) ap

def vsprintf (t : Traced) (dst fmt : Word) (ap : List Word) : Option Word × Traced :=
  match vsprintfLoop addressSpace t dst fmt ap with
  | (some tmp, t) => (some (tmp - dst), t.write8 tmp 0)
  | (none, t) => (none, t)

/-! ### The expansion of a format -/

/-- An argument: a string, given by its address and its bytes, or an integer. -/
inductive Arg
  | str (p : Word) (s : List Byte)
  | int (n : Word)
  deriving DecidableEq

def Arg.word : Arg → Word
  | str p _ => p
  | int n => n

inductive Number
  | unsigned
  | signed
  | hex
  deriving DecidableEq

/-- What stands for the integer `n`. -/
def Number.text : Number → Word → List Byte
  | unsigned, n => numeral 10 n.toNat
  | signed, n => signedNumeral n.toInt
  | hex, n => numeral 16 n.toNat

/-- What a part of a format asks for. -/
inductive Directive
  | literal (c : Byte)
  | string
  | number (k : Number)
  | ignored
  deriving DecidableEq

def directive (c : Byte) : Directive :=
  if c = 0x73#8 then .string
  else if c = 0x75#8 then .number .unsigned
  else if c = 0x64#8 then .number .signed
  else if c = 0x78#8 then .number .hex
  else .ignored

/-- The parts of a format; a `%` at its end stands for itself. -/
def directives : List Byte → List Directive
  | [] => []
  | [c] => [.literal c]
  | c :: d :: f =>
    if c = 0x25#8 then directive d :: directives f else .literal c :: directives (d :: f)

/-- The expansion of the directives; `none` when the arguments do not match them. -/
def render : List Directive → List Arg → Option (List Byte)
  | [], _ => some []
  | .literal c :: ds, args => (render ds args).map (c :: ·)
  | .ignored :: ds, args => render ds args
  | .string :: ds, .str _ s :: args => (render ds args).map (s ++ ·)
  | .number k :: ds, .int n :: args => (render ds args).map (k.text n ++ ·)
  | _, _ => none

/-- The expansion of the format `f`. -/
def expand (f : List Byte) (args : List Arg) : Option (List Byte) := render (directives f) args

/-- Some string of the expansion ends `n` bytes further on. -/
def StringEnds : List Directive → List Arg → Nat → Prop
  | .literal _ :: ds, args, n => 0 < n ∧ StringEnds ds args (n - 1)
  | .ignored :: ds, args, n => StringEnds ds args n
  | .string :: ds, .str _ s :: args, n =>
    s.length = n ∨ s.length ≤ n ∧ StringEnds ds args (n - s.length)
  | .number k :: ds, .int i :: args, n =>
    (k.text i).length ≤ n ∧ StringEnds ds args (n - (k.text i).length)
  | _, _, _ => False

/-! ### The bytes of an expansion -/

theorem Number.text_ne_zero (k : Number) (n : Word) : ∀ c ∈ k.text n, c ≠ 0 := by
  cases k with
  | unsigned => exact numeral_ne_zero (by decide) (by decide)
  | signed => exact signedNumeral_ne_zero
  | hex => exact numeral_ne_zero (by decide) (by decide)

/-- What follows a `%` is never printed as it is. -/
theorem directive_ne_literal (d c : Byte) : directive d ≠ .literal c := by
  rw [directive]
  repeat' split
  all_goals simp

theorem literal_mem_directives {f : List Byte} {c : Byte} (h : .literal c ∈ directives f) :
    c ∈ f := by
  fun_induction directives f with
  | case1 => simp at h
  | case2 d => simpa using h
  | case3 d f ih =>
    rcases List.mem_cons.mp h with heq | h
    · exact absurd heq.symm (directive_ne_literal d c)
    · exact List.mem_cons_of_mem _ (List.mem_cons_of_mem _ (ih h))
  | case4 d e f hd ih =>
    rcases List.mem_cons.mp h with heq | h
    · obtain rfl := Directive.literal.inj heq
      exact List.mem_cons_self
    · exact List.mem_cons_of_mem _ (ih h)

theorem render_ne_zero {ds : List Directive} {args : List Arg} {out : List Byte}
    (hds : ∀ c, .literal c ∈ ds → c ≠ 0) (hargs : ∀ p s, .str p s ∈ args → ∀ c ∈ s, c ≠ 0)
    (h : render ds args = some out) : ∀ c ∈ out, c ≠ 0 := by
  fun_induction render ds args generalizing out with
  | case1 args =>
    obtain rfl := Option.some.inj h
    simp
  | case2 c ds args ih =>
    obtain ⟨rest, hrest, rfl⟩ := Option.map_eq_some_iff.mp h
    intro d hd
    rcases List.mem_cons.mp hd with rfl | hd
    · exact hds d List.mem_cons_self
    · exact ih (fun c hc => hds c (List.mem_cons_of_mem _ hc)) hargs hrest d hd
  | case3 ds args ih =>
    exact ih (fun c hc => hds c (List.mem_cons_of_mem _ hc)) hargs h
  | case4 ds p s args ih =>
    obtain ⟨rest, hrest, rfl⟩ := Option.map_eq_some_iff.mp h
    intro d hd
    rcases List.mem_append.mp hd with hd | hd
    · exact hargs p s List.mem_cons_self d hd
    · exact ih (fun c hc => hds c (List.mem_cons_of_mem _ hc))
        (fun p s hs => hargs p s (List.mem_cons_of_mem _ hs)) hrest d hd
  | case5 k ds n args ih =>
    obtain ⟨rest, hrest, rfl⟩ := Option.map_eq_some_iff.mp h
    intro d hd
    rcases List.mem_append.mp hd with hd | hd
    · exact k.text_ne_zero n d hd
    · exact ih (fun c hc => hds c (List.mem_cons_of_mem _ hc))
        (fun p s hs => hargs p s (List.mem_cons_of_mem _ hs)) hrest d hd
  | case6 => simp at h

end BasicX86Kernel.Klib
