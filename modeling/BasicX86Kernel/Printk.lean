import BasicX86Kernel.Console
import BasicX86Kernel.Klib.Vsprintf

/-! `printk`: a format is expanded into a buffer, and the buffer is sent to the console. -/

namespace BasicX86Kernel

open Machine Klib

def kernelConfigPrintkBuffer : Word := 4096#32

/-- The loop of `console_puts`; `none` when the string has no end. -/
def consolePutsLoop (g : Geometry) (m : Mem) : Nat → Console → Word → Option Console
  | 0, _, _ => none
  | fuel + 1, k, tmp =>
    if m.byte tmp ≠ 0 then consolePutsLoop g m fuel (consolePutc g k (m.byte tmp)) (tmp + 1)
    else some k

def consolePuts (g : Geometry) (m : Mem) (k : Console) (s : Word) : Option Console :=
  consolePutsLoop g m addressSpace k s

/-- `vsprintf` as `printk` calls it, on its local buffer `buf` after that has been cleared. -/
def printkFormat (m : Mem) (buf fmt : Word) (ap : List Word) : Option Word × Traced :=
  vsprintf ⟨memset m buf 0 kernelConfigPrintkBuffer, []⟩ buf fmt ap

def printk (g : Geometry) (m : Mem) (k : Console) (buf fmt : Word) (ap : List Word) :
    Option Console :=
  match printkFormat m buf fmt ap with
  | (none, _) => none
  | (some _, t) => consolePuts g t.mem k buf

theorem memset_eq_withBuffer (m : Mem) (buf n : Word) :
    memset m buf 0 n = m.withBuffer buf n.toNat [] := by
  ext1
  funext x
  rw [byte_memset, Mem.withBuffer]
  rfl

theorem consolePutsLoop_eq (g : Geometry) {m : Mem} {p : Word} {cs : List Byte}
    (h : StringAt m p cs) {fuel : Nat} (hfuel : cs.length < fuel) (k : Console) :
    consolePutsLoop g m fuel k p = some (cs.foldl (consolePutc g) k) := by
  induction cs generalizing p fuel k with
  | nil =>
    obtain ⟨fuel, rfl⟩ := Nat.exists_eq_succ_of_ne_zero (Nat.ne_zero_of_lt hfuel)
    have hend : m.byte p = 0 := h
    rw [consolePutsLoop, if_neg (not_not.mpr hend), List.foldl_nil]
  | cons c cs ih =>
    obtain ⟨fuel, rfl⟩ := Nat.exists_eq_succ_of_ne_zero (Nat.ne_zero_of_lt hfuel)
    rw [List.length_cons] at hfuel
    have hne : m.byte p ≠ 0 := h.1 ▸ h.2.1
    rw [consolePutsLoop, if_pos hne, h.1, ih h.2.2 (by omega), List.foldl_cons]

/-- `console_puts` sends the bytes of a string to `console_putc`. -/
theorem consolePuts_eq (g : Geometry) {m : Mem} {p : Word} {cs : List Byte}
    (h : StringAt m p cs) (k : Console) :
    consolePuts g m k p = some (cs.foldl (consolePutc g) k) :=
  consolePutsLoop_eq g h (length_lt_addressSpace h) k

/-! ### `printk` -/

section

variable {m : Mem} {buf fmt : Word} {f out : List Byte} {args : List Arg}

/-- A format that `printk` may be given, with arguments that match it: strings that lie outside the
buffer, which is a local variable of `printk`. -/
structure Printable (m : Mem) (buf fmt : Word) (f : List Byte) (args : List Arg)
    (out : List Byte) : Prop where
  format : StringAt m fmt f
  format_outside : StringOutside buf kernelConfigPrintkBuffer.toNat fmt f
  strings : ∀ a ∈ args, a.Outside m buf kernelConfigPrintkBuffer.toNat
  expansion : expand f args = some out

theorem Printable.ne_zero (h : Printable m buf fmt f args out) : ∀ c ∈ out, c ≠ 0 :=
  render_ne_zero (fun c hc => h.format.ne_zero c (literal_mem_directives hc))
    (fun _ _ hs => (h.strings _ hs).1.ne_zero) h.expansion

/-- An expansion of at most 4094 bytes is left in the buffer with a zero behind it, its length is
returned, and it is what `printk` sends to the console. -/
theorem printk_expansion (g : Geometry) (k : Console) (h : Printable m buf fmt f args out)
    (hlen : out.length ≤ 4094) :
    let r := printkFormat m buf fmt (args.map Arg.word)
    r.1 = some (BitVec.ofNat 32 out.length) ∧
      StringAt r.2.mem buf out ∧
      (∀ x, kernelConfigPrintkBuffer.toNat ≤ (x - buf).toNat → r.2.mem.byte x = m.byte x) ∧
      printk g m k buf fmt (args.map Arg.word) = some (out.foldl (consolePutc g) k) := by
  have hsize : kernelConfigPrintkBuffer.toNat = 4096 := rfl
  intro r
  have hfits : ¬Overflows m buf kernelConfigPrintkBuffer.toNat (directives f) args 0 out :=
    not_overflows h.expansion (by omega)
  obtain ⟨hret, hmem, -⟩ := (vsprintf_outcome (by omega) h.format h.format_outside h.strings
    h.expansion).1 hfits
  rw [← memset_eq_withBuffer] at hret hmem
  have hstring : StringAt r.2.mem buf out := by
    rw [show r.2.mem = _ from hmem]
    exact Mem.stringAt_withBuffer_start m buf _ (by omega) h.ne_zero (by omega)
  refine ⟨hret, hstring, ?_, ?_⟩
  · intro x hx
    rw [show r.2.mem = _ from hmem]
    exact Mem.byte_withBuffer_outside hx
  · rw [printk, show printkFormat m buf fmt (args.map Arg.word) = (some _, r.2) from
      Prod.ext hret rfl]
    exact consolePuts_eq g hstring k

/-- The stores of `vsprintf` stay in the buffer of `printk` exactly when the expansion has at most
4095 bytes and, if one of its strings ends at byte 4095, the byte behind the buffer is zero. -/
theorem printk_within_buffer_iff (h : Printable m buf fmt f args out) :
    (∀ a ∈ (printkFormat m buf fmt (args.map Arg.word)).2.stores,
        (a - buf).toNat < kernelConfigPrintkBuffer.toNat) ↔
      out.length ≤ 4095 ∧
        (StringEnds (directives f) args 4095 → m.byte (buf + kernelConfigPrintkBuffer) = 0) := by
  have hsize : kernelConfigPrintkBuffer.toNat = 4096 := rfl
  have hiff : ¬Overflows m buf kernelConfigPrintkBuffer.toNat (directives f) args 0 out ↔
      out.length ≤ 4095 ∧
        (StringEnds (directives f) args 4095 → m.byte (buf + kernelConfigPrintkBuffer) = 0) := by
    rw [Overflows, hsize, not_or, not_and, not_and, not_not]
    constructor
    · rintro ⟨hlen, hbyte⟩
      exact ⟨by omega, hbyte (by omega)⟩
    · rintro ⟨hlen, hbyte⟩
      exact ⟨by omega, fun _ => hbyte⟩
  obtain ⟨hfits, hover⟩ := vsprintf_outcome (by omega) h.format h.format_outside h.strings
    h.expansion
  rw [← memset_eq_withBuffer] at hfits hover
  rw [← hiff]
  constructor
  · intro hin hyes
    obtain ⟨a, ha, hout⟩ := hover hyes
    exact hout (hin a ha)
  · exact fun hno => (hfits hno).2.2

end

/-! ### Examples -/

/-- A memory with one string at 0x1000 and another one at 0x2000. -/
def placed (f s : List Byte) : Mem :=
  ((⟨fun _ => 0⟩ : Mem).withBuffer 0x1000#32 0x1000 f).withBuffer 0x2000#32 0x4000 s

theorem printable_placed {f s out : List Byte} {args : List Arg} (hf : ∀ c ∈ f, c ≠ 0)
    (hs : ∀ c ∈ s, c ≠ 0) (hflen : f.length < 0x1000) (hslen : s.length < 0x4000)
    (hargs : ∀ p s', .str p s' ∈ args → p = 0x2000#32 ∧ s' = s) (hexp : expand f args = some out) :
    Printable (placed f s) 0x8000#32 0x1000#32 f args out := by
  have hsize : kernelConfigPrintkBuffer.toNat = 4096 := rfl
  have hformat := Mem.stringAt_withBuffer_start ⟨fun _ => 0⟩ 0x1000#32 0x1000 (by decide) hf hflen
  have hstring := Mem.stringAt_withBuffer_start
    ((⟨fun _ => 0⟩ : Mem).withBuffer 0x1000#32 0x1000 f) 0x2000#32 0x4000 (by decide) hs hslen
  have houtside : StringOutside 0x2000#32 0x4000 0x1000#32 f :=
    stringOutside_of_le (by decide) (by bv_omega)
  refine ⟨?_, stringOutside_of_le (by decide) (by bv_omega), ?_, hexp⟩
  · exact StringAt.congr hformat houtside fun x hx => Mem.byte_withBuffer_outside hx
  · rintro (⟨p, s'⟩ | n) ha
    · obtain ⟨rfl, rfl⟩ := hargs p s' ha
      exact ⟨hstring, stringOutside_of_le (by decide) (by bv_omega)⟩
    · trivial

/-- The call `printk("%s=%d", "n", -5)`. -/
theorem printable_signed :
    Printable (placed [0x25#8, 0x73#8, 0x3D#8, 0x25#8, 0x64#8] [0x6E#8]) 0x8000#32 0x1000#32
      [0x25#8, 0x73#8, 0x3D#8, 0x25#8, 0x64#8] [.str 0x2000#32 [0x6E#8], .int (-5#32)]
      [0x6E#8, 0x3D#8, 0x2D#8, 0x35#8] :=
  printable_placed (by decide) (by decide) (by decide) (by decide) (by simp) (by decide)

theorem printk_expansion_signed :
    printk vgaText (placed [0x25#8, 0x73#8, 0x3D#8, 0x25#8, 0x64#8] [0x6E#8])
        ⟨⟨fun _ => 0⟩, 0, 0⟩ 0x8000#32 0x1000#32 [0x2000#32, -5#32] =
      some ([0x6E#8, 0x3D#8, 0x2D#8, 0x35#8].foldl (consolePutc vgaText) ⟨⟨fun _ => 0⟩, 0, 0⟩) :=
  (printk_expansion vgaText ⟨⟨fun _ => 0⟩, 0, 0⟩ printable_signed (by decide)).2.2.2

/-- The same call stores no byte outside the buffer. -/
theorem printk_within_buffer_signed : [0x6E#8, 0x3D#8, 0x2D#8, 0x35#8].length ≤ 4095 ∧
    ∀ a ∈ (printkFormat (placed [0x25#8, 0x73#8, 0x3D#8, 0x25#8, 0x64#8] [0x6E#8]) 0x8000#32
        0x1000#32 [0x2000#32, -5#32]).2.stores,
      (a - 0x8000#32).toNat < kernelConfigPrintkBuffer.toNat :=
  ⟨by decide, (printk_within_buffer_iff printable_signed).mpr ⟨by decide, fun _ => by decide⟩⟩

/-- The format `"    Args = %s\n"` of `kmain`. -/
def argsFormat : List Byte :=
  [0x20#8, 0x20#8, 0x20#8, 0x20#8, 0x41#8, 0x72#8, 0x67#8, 0x73#8, 0x20#8, 0x3D#8, 0x20#8,
    0x25#8, 0x73#8, 0x0A#8]

theorem expand_argsFormat (p : Word) (s : List Byte) :
    expand argsFormat [.str p s] = some ([0x20#8, 0x20#8, 0x20#8, 0x20#8, 0x41#8, 0x72#8, 0x67#8,
      0x73#8, 0x20#8, 0x3D#8, 0x20#8] ++ (s ++ [0x0A#8])) := rfl

/-- `printk("    Args = %s\n", cmdline)` with a command line of 4096 bytes stores a byte behind the
buffer. -/
theorem printk_overruns_buffer : ¬∀ (m : Mem) (buf fmt : Word) (f out : List Byte)
    (args : List Arg), Printable m buf fmt f args out →
      ∀ a ∈ (printkFormat m buf fmt (args.map Arg.word)).2.stores,
        (a - buf).toNat < kernelConfigPrintkBuffer.toNat := by
  intro hall
  have hsize : kernelConfigPrintkBuffer.toNat = 4096 := rfl
  obtain ⟨s, hs, hlen⟩ : ∃ s : List Byte, (∀ c ∈ s, c ≠ 0) ∧ s.length = 4096 :=
    ⟨List.replicate 4096 0x41#8, fun c hc => List.eq_of_mem_replicate hc ▸ by decide,
      List.length_replicate⟩
  have hprintable := printable_placed (by decide) hs (by decide) (by omega)
    (fun p s' hmem => Arg.str.inj (List.mem_singleton.mp hmem)) (expand_argsFormat 0x2000#32 s)
  have hroom : kernelConfigPrintkBuffer.toNat + 64 ≤ 2 ^ 32 := by omega
  obtain ⟨-, hover⟩ := vsprintf_outcome hroom
    hprintable.format hprintable.format_outside hprintable.strings hprintable.expansion
  rw [← memset_eq_withBuffer] at hover
  obtain ⟨a, ha, hout⟩ := hover (Or.inl (by
    rw [List.length_append, List.length_append, hlen]
    omega))
  exact hout (hall _ _ _ _ _ _ hprintable a ha)

end BasicX86Kernel
