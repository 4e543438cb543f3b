import BasicX86Kernel.Printk
import BasicX86Kernel.Klib.Numerals

/-! Reading the arguments of `printk` back from the text that it has made of them.  The reader knows
the format, and it takes as much text for an argument as the argument could have been printed with;
so the text behind an argument must not go on in the same way. -/

namespace BasicX86Kernel

open Machine Klib

/-! ### Reading a number -/

namespace Klib.Number

def base : Number → Nat
  | unsigned => 10
  | signed => 10
  | hex => 16

/-- A byte that such a number is written with. -/
def Uses (k : Number) (c : Byte) : Prop := IsDigit k.base c ∨ k = signed ∧ c = 0x2D#8

instance (k : Number) (c : Byte) : Decidable (k.Uses c) := inferInstanceAs (Decidable (_ ∨ _))

def read (k : Number) (cs : List Byte) : Word :=
  if cs.head? = some 0x2D#8 then -BitVec.ofNat 32 (readNumeral k.base cs.tail)
  else BitVec.ofNat 32 (readNumeral k.base cs)

theorem two_le_base (k : Number) : 2 ≤ k.base := by
  cases k <;> decide

theorem base_le (k : Number) : k.base ≤ 16 := by
  cases k <;> decide

/-- A number is written as a numeral, and a negative one with a sign in front of it. -/
theorem text_cases (k : Number) (n : Word) : k.text n = numeral k.base n.toNat ∨
    k = signed ∧ k.text n = 0x2D#8 :: numeral k.base (-n).toNat := by
  cases k with
  | unsigned => exact Or.inl rfl
  | hex => exact Or.inl rfl
  | signed =>
    by_cases h : n.slt 0#32 = true
    · have hneg : n * (-1#32) = -n := mul_neg_one n
      exact Or.inr ⟨rfl, (signedNumeral_neg h).trans (by rw [hneg, base])⟩
    · exact Or.inl (signedNumeral_nonneg h)

theorem uses_text (k : Number) (n : Word) : ∀ c ∈ k.text n, k.Uses c := by
  have hdigits := digits_numeral k.two_le_base k.base_le
  intro c hc
  rcases k.text_cases n with h | ⟨hk, h⟩
  · rw [h] at hc
    exact Or.inl (hdigits _ c hc)
  · rw [h] at hc
    rcases List.mem_cons.mp hc with rfl | hc
    · exact Or.inr ⟨hk, rfl⟩
    · exact Or.inl (hdigits _ c hc)

theorem read_text (k : Number) (n : Word) : k.read (k.text n) = n := by
  have hvalue := readNumeral_numeral k.two_le_base k.base_le
  rcases k.text_cases n with h | ⟨-, h⟩
  · have hhead : (numeral k.base n.toNat).head? ≠ some 0x2D#8 := by
      intro hsign
      have hdigit := digits_numeral k.two_le_base k.base_le n.toNat _ (List.mem_of_mem_head? hsign)
      exact absurd hdigit.1 (by decide)
    rw [h, read, if_neg hhead, hvalue, BitVec.ofNat_toNat, BitVec.setWidth_eq]
  · rw [h, read, if_pos List.head?_cons, List.tail_cons, hvalue, BitVec.ofNat_toNat,
      BitVec.setWidth_eq, neg_neg]

end Klib.Number

/-! ### Reading a text -/

namespace Klib

/-- What is read of an argument. -/
inductive Value
  | str (s : List Byte)
  | int (n : Word)
  deriving DecidableEq

def Arg.value : Arg → Value
  | str _ s => .str s
  | int n => .int n

/-- The literal byte that comes next in a format, with no conversion in front of it. -/
def nextLiteral : List Directive → Option Byte
  | .literal c :: _ => some c
  | .ignored :: ds => nextLiteral ds
  | _ => none

/-- The arguments from which a text may have been made; a string ends before the next literal byte
of the format. -/
def scan : List Directive → List Byte → Option (List Value)
  | [], [] => some []
  | [], _ :: _ => none
  | .literal _ :: _, [] => none
  | .literal c :: ds, d :: out => if c = d then scan ds out else none
  | .ignored :: ds, out => scan ds out
  | .string :: ds, out =>
    (scan ds (out.dropWhile fun c => nextLiteral ds ≠ some c)).map
      (.str (out.takeWhile fun c => nextLiteral ds ≠ some c) :: ·)
  | .number k :: ds, out =>
    (scan ds (out.dropWhile fun c => k.Uses c)).map
      (.int (k.read (out.takeWhile fun c => k.Uses c)) :: ·)

/-- The number of bytes that a string argument has. -/
def Arg.size : Arg → Nat
  | str _ s => s.length
  | int _ => 0

/-- The argument without what does not matter for its place in a format. -/
def Arg.blank : Arg → Arg
  | str _ s => str 0 s
  | int _ => int 0

/-- What is printed next is a literal byte outside `p`, or nothing. -/
def Closes (p : Byte → Prop) : List Directive → Prop
  | [] => True
  | .literal c :: _ => ¬p c
  | .ignored :: ds => Closes p ds
  | _ => False

/-- The arguments match the format, and a literal byte that could not belong to it follows each of
them, or the end. -/
def Delimited : List Directive → List Arg → Prop
  | [], args => args = []
  | .literal _ :: ds, args => Delimited ds args
  | .ignored :: ds, args => Delimited ds args
  | .string :: ds, .str _ s :: args => Closes (· ∈ s) ds ∧ Delimited ds args
  | .number k :: ds, .int _ :: args => Closes k.Uses ds ∧ Delimited ds args
  | _, _ => False

instance decidableCloses (p : Byte → Prop) [DecidablePred p] : ∀ ds, Decidable (Closes p ds)
  | [] => .isTrue trivial
  | .literal c :: _ => inferInstanceAs (Decidable (¬p c))
  | .ignored :: ds => decidableCloses p ds
  | .string :: _ => .isFalse id
  | .number _ :: _ => .isFalse id

instance decidableDelimited : ∀ ds args, Decidable (Delimited ds args)
  | [], args => inferInstanceAs (Decidable (args = []))
  | .literal _ :: ds, args => decidableDelimited ds args
  | .ignored :: ds, args => decidableDelimited ds args
  | .string :: ds, .str _ s :: args =>
    have := decidableDelimited ds args
    inferInstanceAs (Decidable (Closes (· ∈ s) ds ∧ Delimited ds args))
  | .number k :: ds, .int _ :: args =>
    have := decidableDelimited ds args
    inferInstanceAs (Decidable (Closes k.Uses ds ∧ Delimited ds args))
  | .string :: _, [] => .isFalse id
  | .string :: _, .int _ :: _ => .isFalse id
  | .number _ :: _, [] => .isFalse id
  | .number _ :: _, .str _ _ :: _ => .isFalse id

section

variable {p : Byte → Prop} {ds : List Directive} {args : List Arg} {out : List Byte}

theorem Closes.nextLiteral (h : Closes p ds) : ∀ c ∈ nextLiteral ds, ¬p c := by
  fun_induction Closes p ds with
  | case1 => simp [Klib.nextLiteral]
  | case2 c ds =>
    intro d hd
    obtain rfl := Option.some.inj hd
    exact h
  | case3 ds ih => exact ih h
  | case4 => exact h.elim

/-- The text goes on with the literal byte, or ends. -/
theorem Closes.head_render (h : Closes p ds) (hrender : render ds args = some out) :
    out.head? = Klib.nextLiteral ds := by
  fun_induction Closes p ds generalizing out with
  | case1 =>
    obtain rfl := Option.some.inj hrender
    rfl
  | case2 c ds =>
    obtain ⟨rest, -, rfl⟩ := Option.map_eq_some_iff.mp hrender
    rfl
  | case3 ds ih => exact ih h hrender
  | case4 => exact h.elim

/-- A text that is split where a property of its bytes ends. -/
theorem span_append {q : Byte → Bool} {s : List Byte} (rest : List Byte)
    (hs : ∀ c ∈ s, q c = true) (hrest : ∀ c ∈ rest.head?, ¬q c = true) :
    (s ++ rest).takeWhile q = s ∧ (s ++ rest).dropWhile q = rest := by
  rw [List.takeWhile_append_of_pos hs, List.dropWhile_append_of_pos hs]
  cases rest with
  | nil => exact ⟨List.append_nil s, rfl⟩
  | cons c rest =>
    have hc := hrest c rfl
    rw [List.takeWhile_cons_of_neg hc, List.dropWhile_cons_of_neg hc]
    exact ⟨List.append_nil s, rfl⟩

/-- The expansion of a format is read back as the arguments. -/
theorem scan_render (h : Delimited ds args) (hrender : render ds args = some out) :
    scan ds out = some (args.map Arg.value) := by
  fun_induction Delimited ds args generalizing out with
  | case1 args =>
    obtain rfl := Option.some.inj hrender
    rw [h]
    rfl
  | case2 c ds args ih =>
    obtain ⟨rest, hrest, rfl⟩ := Option.map_eq_some_iff.mp hrender
    rw [scan, if_pos rfl]
    exact ih h hrest
  | case3 ds args ih =>
    rw [scan]
    exact ih h hrender
  | case4 ds q s args ih =>
    obtain ⟨rest, hrest, rfl⟩ := Option.map_eq_some_iff.mp hrender
    have hs : ∀ c ∈ s, decide (nextLiteral ds ≠ some c) = true := by
      intro c hc
      rw [decide_eq_true_iff]
      intro hnext
      exact h.1.nextLiteral c hnext hc
    obtain ⟨htake, hdrop⟩ := span_append rest hs fun c hc => by
      rw [h.1.head_render hrest] at hc
      simpa using hc
    rw [scan, htake, hdrop, ih h.2 hrest]
    rfl
  | case5 k ds n args ih =>
    obtain ⟨rest, hrest, rfl⟩ := Option.map_eq_some_iff.mp hrender
    have hs : ∀ c ∈ k.text n, decide (k.Uses c) = true := fun c hc =>
      decide_eq_true (k.uses_text n c hc)
    obtain ⟨htake, hdrop⟩ := span_append rest hs fun c hc => by
      rw [h.1.head_render hrest] at hc
      simpa using h.1.nextLiteral c hc
    rw [scan, htake, hdrop, k.read_text, ih h.2 hrest]
    rfl
  | case6 => exact h.elim

/-- Matching arguments have an expansion, and what follows is expanded behind it. -/
theorem render_append (h : Delimited ds args) (ds' : List Directive) (args' : List Arg) :
    ∃ out, render ds args = some out ∧
      render (ds ++ ds') (args ++ args') = (render ds' args').map (out ++ ·) := by
  fun_induction Delimited ds args with
  | case1 args =>
    subst h
    exact ⟨[], rfl, Option.map_id'.symm⟩
  | case2 c ds args ih =>
    obtain ⟨out, hout, happend⟩ := ih h
    refine ⟨c :: out, ?_, ?_⟩
    · rw [render, hout, Option.map_some]
    · rw [List.cons_append, render, happend, Option.map_map]
      rfl
  | case3 ds args ih => exact ih h
  | case4 ds q s args ih =>
    obtain ⟨out, hout, happend⟩ := ih h.2
    refine ⟨s ++ out, ?_, ?_⟩
    · rw [render, hout, Option.map_some]
    · rw [List.cons_append, List.cons_append, render, happend, Option.map_map]
      simp only [Function.comp_def, List.append_assoc]
  | case5 k ds n args ih =>
    obtain ⟨out, hout, happend⟩ := ih h.2
    refine ⟨k.text n ++ out, ?_, ?_⟩
    · rw [render, hout, Option.map_some]
    · rw [List.cons_append, List.cons_append, render, happend, Option.map_map]
      simp only [Function.comp_def, List.append_assoc]
  | case6 => exact h.elim

theorem closes_append {c : Byte} (ds' : List Directive) (h : Closes p (ds ++ [.literal c])) :
    Closes p (ds ++ .literal c :: ds') := by
  induction ds with
  | nil => exact h
  | cons d ds ih =>
    cases d with
    | literal b => exact h
    | ignored => exact ih h
    | string => exact h
    | number k => exact h

/-- A format that ends with a literal byte may be followed by another one. -/
theorem delimited_append {c : Byte} {ds' : List Directive} {args' : List Arg}
    (h : Delimited (ds ++ [.literal c]) args) (h' : Delimited ds' args') :
    Delimited (ds ++ .literal c :: ds') (args ++ args') := by
  induction ds generalizing args with
  | nil =>
    obtain rfl : args = [] := h
    exact h'
  | cons d ds ih =>
    cases d with
    | literal b => exact ih h
    | ignored => exact ih h
    | string =>
      rcases args with _ | ⟨⟨q, s⟩ | n, args⟩
      · exact h.elim
      · exact ⟨closes_append ds' h.1, ih h.2⟩
      · exact h.elim
    | number k =>
      rcases args with _ | ⟨⟨q, s⟩ | n, args⟩
      · exact h.elim
      · exact h.elim
      · exact ⟨closes_append ds' h.1, ih h.2⟩

/-- The length of a text: a number has at most 33 bytes. -/
theorem length_render_le (hrender : render ds args = some out) :
    out.length ≤ 33 * ds.length + (args.map Arg.size).sum := by
  fun_induction render ds args generalizing out with
  | case1 args =>
    obtain rfl := Option.some.inj hrender
    exact Nat.zero_le _
  | case2 c ds args ih =>
    obtain ⟨rest, hrest, rfl⟩ := Option.map_eq_some_iff.mp hrender
    have := ih hrest
    rw [List.length_cons, List.length_cons]
    omega
  | case3 ds args ih =>
    have := ih hrender
    rw [List.length_cons]
    omega
  | case4 ds q s args ih =>
    obtain ⟨rest, hrest, rfl⟩ := Option.map_eq_some_iff.mp hrender
    have := ih hrest
    rw [List.length_append, List.length_cons, List.map_cons, List.sum_cons, Arg.size]
    omega
  | case5 k ds i args ih =>
    obtain ⟨rest, hrest, rfl⟩ := Option.map_eq_some_iff.mp hrender
    have := ih hrest
    have := k.converts.length_le i
    rw [List.length_append, List.length_cons, List.map_cons, List.sum_cons, Arg.size]
    omega
  | case6 => simp at hrender

/-- The addresses of the strings and the values of the numbers do not matter. -/
theorem delimited_blank (h : Delimited ds (args.map Arg.blank)) : Delimited ds args := by
  induction ds generalizing args with
  | nil => exact List.map_eq_nil_iff.mp h
  | cons d ds ih =>
    cases d with
    | literal c => exact ih h
    | ignored => exact ih h
    | string =>
      rcases args with _ | ⟨⟨q, s⟩ | n, args⟩
      · exact h
      · exact ⟨h.1, ih h.2⟩
      · exact h
    | number k =>
      rcases args with _ | ⟨⟨q, s⟩ | n, args⟩
      · exact h
      · exact h
      · exact ⟨h.1, ih h.2⟩

end

end Klib

/-! ### What `printk` has printed -/

section

variable {m : Mem} {buf fmt : Word} {f out : List Byte} {args : List Arg}

/-- A call of `printk` whose text fits into the buffer prints the text, and changes only the
buffer. -/
theorem Printable.printed (h : Printable m buf fmt f args out) (hlen : out.length ≤ 4094)
    (g : Geometry) (k : Console) :
    let t := (printkFormat m buf fmt (args.map Arg.word)).2
    t.mem = m.withBuffer buf kernelConfigPrintkBuffer.toNat out ∧ StringAt t.mem buf out ∧
      printk g m k buf fmt (args.map Arg.word) = some (out.foldl (consolePutc g) k) := by
  have hsize : kernelConfigPrintkBuffer.toNat = 4096 := rfl
  have hfits : ¬Overflows m buf kernelConfigPrintkBuffer.toNat (directives f) args 0 out :=
    not_overflows h.expansion (by omega)
  obtain ⟨hret, hmem, -⟩ := (vsprintf_outcome (by omega) h.format h.format_outside h.strings
    h.expansion).1 hfits
  rw [← memset_eq_withBuffer] at hret hmem
  intro t
  have ht : t.mem = m.withBuffer buf kernelConfigPrintkBuffer.toNat out := hmem
  have hstring : StringAt t.mem buf out := by
    rw [ht]
    exact Mem.stringAt_withBuffer_start m buf _ (by omega) h.ne_zero (by omega)
  refine ⟨ht, hstring, ?_⟩
  have hcall : printkFormat m buf fmt (args.map Arg.word) =
      (some (BitVec.ofNat 32 out.length), t) := Prod.ext hret rfl
  rw [printk, hcall]
  exact consolePuts_eq g hstring k

/-- What a call of `printk` sends to the console is read back as the arguments of the call. -/
theorem printk_reads_back (g : Geometry) (k : Console) (h : Printable m buf fmt f args out)
    (hlen : out.length ≤ 4094) (hargs : Delimited (directives f) args) :
    ∃ text, StringAt (printkFormat m buf fmt (args.map Arg.word)).2.mem buf text ∧
      printk g m k buf fmt (args.map Arg.word) = some (text.foldl (consolePutc g) k) ∧
      scan (directives f) text = some (args.map Arg.value) := by
  obtain ⟨-, hstring, hprint⟩ := h.printed hlen g k
  exact ⟨out, hstring, hprint, scan_render hargs h.expansion⟩

/-- The call `printk("%s=%d", "n", -5)` is read back. -/
theorem printk_reads_back_signed :
    ∃ text, StringAt (printkFormat (placed [0x25#8, 0x73#8, 0x3D#8, 0x25#8, 0x64#8] [0x6E#8])
        0x8000#32 0x1000#32 [0x2000#32, -5#32]).2.mem 0x8000#32 text ∧
      printk vgaText (placed [0x25#8, 0x73#8, 0x3D#8, 0x25#8, 0x64#8] [0x6E#8])
        ⟨⟨fun _ => 0⟩, 0, 0⟩ 0x8000#32 0x1000#32 [0x2000#32, -5#32] =
          some (text.foldl (consolePutc vgaText) ⟨⟨fun _ => 0⟩, 0, 0⟩) ∧
      scan [.string, .literal 0x3D#8, .number .signed] text =
        some [.str [0x6E#8], .int (-5#32)] :=
  printk_reads_back vgaText ⟨⟨fun _ => 0⟩, 0, 0⟩ printable_signed (by decide)
    (by decide)

/-- Two numbers that are not kept apart cannot be told from the text. -/
example : expand [0x25#8, 0x75#8, 0x25#8, 0x75#8] [.int 1, .int 11] =
    expand [0x25#8, 0x75#8, 0x25#8, 0x75#8] [.int 11, .int 1] := by decide

end

end BasicX86Kernel
