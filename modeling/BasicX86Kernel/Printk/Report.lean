import BasicX86Kernel.IdtStub
import BasicX86Kernel.Printk.Scan

/-! `idt_exception_handler`: what it prints of an exception before it halts, from the interrupt to
the console. -/

namespace BasicX86Kernel

open Machine Klib

/-! ### Calls of `printk` one after the other -/

/-- A call of `printk`, with the place of its local buffer on the stack. -/
structure PrintkCall where
  buf : Word
  fmt : Word
  format : List Byte
  args : List Arg

/-- The calls print one after the other; each leaves its buffer in the memory that the next finds. -/
def printkAll (g : Geometry) (m : Mem) (k : Console) : List PrintkCall → Option (Mem × Console)
  | [] => some (m, k)
  | c :: calls =>
    match printk g m k c.buf c.fmt (c.args.map Arg.word) with
    | none => none
    | some k => printkAll g (printkFormat m c.buf c.fmt (c.args.map Arg.word)).2.mem k calls

section

variable {m m' : Mem} {buf fmt : Word} {f out : List Byte} {args : List Arg}
  {calls : List PrintkCall}

theorem Printable.congr {dst : Word} (h : Printable m buf fmt f args out)
    (hdst : Printable m dst fmt f args out)
    (hm : ∀ x, kernelConfigPrintkBuffer.toNat ≤ (x - dst).toNat → m'.byte x = m.byte x) :
    Printable m' buf fmt f args out where
  format := h.format.congr hdst.format_outside hm
  format_outside := h.format_outside
  strings := fun a ha => by
    cases a with
    | str p s =>
      have hstring := hdst.strings _ ha
      exact ⟨hstring.1.congr hstring.2 hm, (h.strings _ ha).2⟩
    | int n => trivial
  expansion := h.expansion

/-- The format of the call ends with a literal byte, its arguments can be told from its text, and
the text fits into the buffer. -/
structure PrintkCall.Readable (c : PrintkCall) : Prop where
  ends : ∃ ds b, directives c.format = ds ++ [.literal b]
  delimited : Delimited (directives c.format) c.args
  short : ∀ out, expand c.format c.args = some out → out.length ≤ 4094

/-- No buffer of the calls overlaps the strings of a call. -/
def Placed (m : Mem) (calls : List PrintkCall) : Prop :=
  ∀ c ∈ calls, ∀ c' ∈ calls, ∀ out, expand c.format c.args = some out →
    Printable m c'.buf c.fmt c.format c.args out

/-- The formats of the calls, one behind the other. -/
def formats (calls : List PrintkCall) : List Directive := calls.flatMap (directives ·.format)

def values (calls : List PrintkCall) : List Value := calls.flatMap (·.args.map Arg.value)

/-- All calls together print a text from which the arguments of all of them are read back. -/
theorem printkAll_reads_back (g : Geometry) (k : Console)
    (hplaced : Placed m calls) (hread : ∀ c ∈ calls, c.Readable) :
    ∃ m' text, printkAll g m k calls = some (m', text.foldl (consolePutc g) k) ∧
      scan (formats calls) text = some (values calls) := by
  suffices h : ∃ m' text, printkAll g m k calls = some (m', text.foldl (consolePutc g) k) ∧
      Delimited (formats calls) (calls.flatMap (·.args)) ∧
      render (formats calls) (calls.flatMap (·.args)) = some text by
    obtain ⟨m', text, hrun, hdelimited, hrender⟩ := h
    refine ⟨m', text, hrun, ?_⟩
    rw [scan_render hdelimited hrender, values, List.map_flatMap]
  induction calls generalizing m k with
  | nil => exact ⟨m, [], rfl, rfl, rfl⟩
  | cons c calls ih =>
    have hc := hread c List.mem_cons_self
    obtain ⟨out, hout, happend⟩ := render_append hc.delimited (formats calls)
      (calls.flatMap (·.args))
    have hprintable := hplaced c List.mem_cons_self c List.mem_cons_self out hout
    obtain ⟨hmem, -, hprint⟩ := hprintable.printed (hc.short out hout) g k
    -- the call changes its buffer only, where no string of the others lies
    have hnext : Placed (printkFormat m c.buf c.fmt (c.args.map Arg.word)).2.mem calls := by
      intro d hd d' hd' text htext
      refine (hplaced d (List.mem_cons_of_mem _ hd) d' (List.mem_cons_of_mem _ hd') text
        htext).congr (hplaced d (List.mem_cons_of_mem _ hd) c List.mem_cons_self text htext) ?_
      intro x hx
      rw [hmem]
      exact Mem.byte_withBuffer_outside hx
    obtain ⟨m', text, hrun, hdelimited, hrender⟩ := ih (out.foldl (consolePutc g) k) hnext
      fun d hd => hread d (List.mem_cons_of_mem _ hd)
    refine ⟨m', out ++ text, ?_, ?_, ?_⟩
    · rw [printkAll, hprint, List.foldl_append]
      exact hrun
    · obtain ⟨ds, b, hends⟩ := hc.ends
      have hfirst := hc.delimited
      rw [hends] at hfirst
      rw [formats, List.flatMap_cons, List.flatMap_cons, hends, List.append_assoc,
        List.singleton_append]
      exact delimited_append hfirst hdelimited
    · rw [formats, List.flatMap_cons, List.flatMap_cons]
      exact happend.trans (congrArg _ hrender)

end

/-! ### `idt_exception_handler` -/

/-- The bytes of a string literal. -/
def bytes (s : String) : List Byte := s.toByteArray.data.toList.map UInt8.toBitVec

/-- Where the linker puts the string literals, and the stack the buffer of the call with a format. -/
structure ReportImage where
  literal : String → Word
  buffer : String → Word

namespace ReportImage

variable (I : ReportImage)

def call (fmt : String) (args : List Arg) : PrintkCall where
  buf := I.buffer fmt
  fmt := I.literal fmt
  format := bytes fmt
  args := args

def text (s : String) : Arg := .str (I.literal s) (bytes s)

end ReportImage

def vinfo : List String := [
  "#DE|Divide Error|DIV and IDIV instructions.",
  "#DB|Debug Exception|Hardware breakpoints and single-step execution.",
  "#NMI|Interrupt|Nonmaskable external interrupt.",
  "#BP|Breakpoint|INT 3 instruction.",
  "#OF|Overflow|INTO instruction.",
  "#BR|BOUND Range Exceeded|BOUND instruction.",
  "#UD|Invalid Opcode (Undefined Opcode)|UD2 instruction or reserved opcode.(1)",
  "#NM|Device Not Available (No MathCoprocessor)|Floating-point or WAIT/FWAIT instruction.",
  "#DF|Double Fault|Any instruction that can generate anexception, an NMI, or an INTR.",
  "#MP|Coprocessor Segment Overrun (reserved)|Floating-point instruction.(2)",
  "#TS|Invalid TSS|Task switch or TSS access.",
  "#NP|Segment Not Present|Loading segment registers or accessing system segments.",
  "#SS|Stack-Segment Fault|Stack operations and SS register loads.",
  "#GP|General Protection|Any memory reference and other protection checks.",
  "#PF|Page Fault|Any memory reference.",
  "#??|Intel reserved, do not use.|Intel reserved, do not use.",
  "#MF|x87 FPU Floating-Point Error (Math Fault)|x87 FPU floating-point or WAIT/FWAIT instruction.",
  "#AC|Alignment Check|Any data reference in memory.(3)",
  "#MC|Machine Check|Error codes (if any) and source are model dependent.(4)",
  "#XM|SIMD Floating-Point Exception|SSE/SSE2/SSE3 floating-point instructions(5)",
  "#VE|Virtualization Exception|EPT violations(6)",
  "#??|Intel reserved, do not use.|Intel reserved, do not use.",
  "#??|Intel reserved, do not use.|Intel reserved, do not use.",
  "#??|Intel reserved, do not use.|Intel reserved, do not use.",
  "#??|Intel reserved, do not use.|Intel reserved, do not use.",
  "#??|Intel reserved, do not use.|Intel reserved, do not use.",
  "#??|Intel reserved, do not use.|Intel reserved, do not use.",
  "#??|Intel reserved, do not use.|Intel reserved, do not use.",
  "#??|Intel reserved, do not use.|Intel reserved, do not use.",
  "#??|Intel reserved, do not use.|Intel reserved, do not use.",
  "#??|Intel reserved, do not use.|Intel reserved, do not use.",
  "#??|Intel reserved, do not use.|Intel reserved, do not use."]

def registersFormat : String :=
  "REGISTERS:\n edi 0x%x, esi 0x%x, ebp 0x%x, esp 0x%x,\n ebx 0x%x, edx 0x%x, ecx 0x%x, eax 0x%x\n"

/-- The calls of `printk` in `idt_exception_handler`. -/
def exceptionCalls (I : ReportImage) (a : HandlerArgs) : List PrintkCall :=
  if 31#32 < a.vector then
    [I.call "\n" [],
      I.call "Kernel Panic! Error Unknown Exception!\n" [],
      I.call "Expception Vector: %u\n" [.int a.vector]]
  else
    [I.call "KERNEL PANIC: %s\n" [I.text (vinfo.getD a.vector.toNat "")],
      I.call "VECTOR: 0x%x\n" [.int a.vector],
      I.call registersFormat [.int a.edi, .int a.esi, .int a.ebp, .int a.esp,
        .int a.ebx, .int a.edx, .int a.ecx, .int a.eax],
      I.call "ERROR: 0x%x\n" [.int a.error],
      I.call "CPU FRAME: eip 0x%x, cs 0x%x, eflags 0x%x\n" [.int a.eip, .int a.cs, .int a.eflags],
      I.call "\n" []]

/-- `idt_exception_handler` up to the loop in which it halts. -/
def idtExceptionHandler (g : Geometry) (I : ReportImage) (m : Mem) (k : Console)
    (a : HandlerArgs) : Option (Mem × Console) :=
  printkAll g m k (exceptionCalls I a)

/-- The formats for a vector of the table, in the order of the calls. -/
def reportFormats : List String :=
  ["KERNEL PANIC: %s\n", "VECTOR: 0x%x\n", registersFormat, "ERROR: 0x%x\n",
    "CPU FRAME: eip 0x%x, cs 0x%x, eflags 0x%x\n", "\n"]

def exceptionFormats : List String :=
  reportFormats ++ ["\n", "Kernel Panic! Error Unknown Exception!\n", "Expception Vector: %u\n"]

def exceptionLiterals : List String := exceptionFormats ++ vinfo

/-- The literals are in memory, apart from the buffers. -/
def ReportImage.Loaded (I : ReportImage) (m : Mem) : Prop :=
  ∀ s ∈ exceptionLiterals, ∀ fmt ∈ exceptionFormats,
    StringAt m (I.literal s) (bytes s) ∧
      StringOutside (I.buffer fmt) kernelConfigPrintkBuffer.toNat (I.literal s) (bytes s)

section

variable {I : ReportImage} {m : Mem} {a : HandlerArgs}

/-- A call of the report has one of the formats, and texts of the table for strings. -/
theorem exceptionCalls_cases (I : ReportImage) (a : HandlerArgs) :
    ∀ c ∈ exceptionCalls I a, ∃ fmt ∈ exceptionFormats, ∃ args, c = I.call fmt args ∧
      ∀ x ∈ args, (∃ n, x = .int n) ∨ ∃ s ∈ vinfo, x = I.text s := by
  have hvinfo : ¬31#32 < a.vector → vinfo.getD a.vector.toNat "" ∈ vinfo := by
    intro h
    have hlt : a.vector.toNat < vinfo.length := by
      have hlen : vinfo.length = 32 := rfl
      bv_omega
    rw [List.getD_eq_getElem _ _ hlt]
    exact List.getElem_mem hlt
  have hint : ∀ ns : List Word, ∀ x ∈ ns.map Arg.int, (∃ n, x = .int n) ∨ ∃ s ∈ vinfo,
      x = I.text s := by
    intro ns x hx
    obtain ⟨n, -, rfl⟩ := List.mem_map.mp hx
    exact Or.inl ⟨n, rfl⟩
  rw [exceptionCalls]
  split
  · simp only [List.forall_mem_cons]
    refine ⟨⟨_, ?_, _, rfl, hint []⟩, ⟨_, ?_, _, rfl, hint []⟩, ⟨_, ?_, _, rfl, hint [a.vector]⟩,
      nofun⟩
    all_goals decide
  · next h =>
    simp only [List.forall_mem_cons]
    refine ⟨⟨_, ?_, _, rfl, fun x hx => Or.inr ⟨_, hvinfo h, List.mem_singleton.mp hx⟩⟩,
      ⟨_, ?_, _, rfl, hint [a.vector]⟩,
      ⟨_, ?_, _, rfl, hint [a.edi, a.esi, a.ebp, a.esp, a.ebx, a.edx, a.ecx, a.eax]⟩,
      ⟨_, ?_, _, rfl, hint [a.error]⟩, ⟨_, ?_, _, rfl, hint [a.eip, a.cs, a.eflags]⟩,
      ⟨_, ?_, _, rfl, hint []⟩, nofun⟩
    all_goals decide

theorem ReportImage.Loaded.placed (h : I.Loaded m) (a : HandlerArgs) :
    Placed m (exceptionCalls I a) := by
  intro c hc c' hc' out hout
  obtain ⟨fmt, hfmt, args, rfl, hargs⟩ := exceptionCalls_cases I a c hc
  obtain ⟨fmt', hfmt', args', rfl, -⟩ := exceptionCalls_cases I a c' hc'
  obtain ⟨hformat, hapart⟩ := h fmt (List.mem_append_left _ hfmt) fmt' hfmt'
  refine ⟨hformat, hapart, fun x hx => ?_, hout⟩
  rcases hargs x hx with ⟨n, rfl⟩ | ⟨s, hs, rfl⟩
  · trivial
  · exact h s (List.mem_append_right _ hs) fmt' hfmt'

theorem exceptionLiterals_short : ∀ s ∈ exceptionLiterals,
    (bytes s).length ≤ 100 ∧ 0#8 ∉ bytes s := by decide +kernel

theorem exceptionFormats_short : ∀ fmt ∈ exceptionFormats,
    (directives (bytes fmt)).getLast? = some (.literal 0x0A#8) ∧
      33 * (directives (bytes fmt)).length ≤ 3900 := by decide +kernel

theorem vinfo_delimited : ∀ s ∈ vinfo,
    Delimited (directives (bytes "KERNEL PANIC: %s\n")) [.str 0 (bytes s)] := by decide +kernel

theorem ReportImage.readable_call {fmt : String} {args : List Arg} (hfmt : fmt ∈ exceptionFormats)
    (hdelimited : Delimited (directives (bytes fmt)) (args.map Arg.blank))
    (hargs : (args.map Arg.size).sum ≤ 100) : (I.call fmt args).Readable where
  ends := by
    obtain ⟨ds, hds⟩ := List.getLast?_eq_some_iff.mp (exceptionFormats_short fmt hfmt).1
    exact ⟨ds, _, hds⟩
  delimited := delimited_blank hdelimited
  short := fun out hout => by
    have hlen : out.length ≤ 33 * (directives (bytes fmt)).length + (args.map Arg.size).sum :=
      length_render_le hout
    have hformat := (exceptionFormats_short fmt hfmt).2
    omega

theorem readable_exceptionCalls (I : ReportImage) (a : HandlerArgs) :
    ∀ c ∈ exceptionCalls I a, c.Readable := by
  -- a call whose arguments are numbers, for one choice of them
  have hcall : ∀ (fmt : String) (ns : List Word) (n : Nat), ns.length = n →
      fmt ∈ exceptionFormats → Delimited (directives (bytes fmt)) (List.replicate n (.int 0)) →
        (I.call fmt (ns.map Arg.int)).Readable := by
    intro fmt ns n hn hfmt hdelimited
    have hblank : (ns.map Arg.int).map Arg.blank = List.replicate n (.int 0) := by
      rw [List.map_map, ← hn]
      exact List.map_const'
    have hsize : ((ns.map Arg.int).map Arg.size).sum = 0 := by
      rw [List.map_map]
      exact List.sum_eq_zero fun x hx => by
        obtain ⟨n, -, rfl⟩ := List.mem_map.mp hx
        rfl
    exact ReportImage.readable_call hfmt (hblank ▸ hdelimited) (by omega)
  rw [exceptionCalls]
  split
  · simp only [List.forall_mem_cons]
    refine ⟨hcall _ [] 0 rfl ?_ ?_, hcall _ [] 0 rfl ?_ ?_, hcall _ [a.vector] 1 rfl ?_ ?_,
      nofun⟩
    all_goals decide +kernel
  · next h =>
    have hlt : a.vector.toNat < vinfo.length := by
      have hlen : vinfo.length = 32 := rfl
      bv_omega
    have hmem : vinfo.getD a.vector.toNat "" ∈ vinfo := by
      rw [List.getD_eq_getElem _ _ hlt]
      exact List.getElem_mem hlt
    have hlen := (exceptionLiterals_short _ (List.mem_append_right _ hmem)).1
    simp only [List.forall_mem_cons]
    have htext : (I.call "KERNEL PANIC: %s\n" [I.text (vinfo.getD a.vector.toNat "")]).Readable := by
      refine ReportImage.readable_call (by decide +kernel) ?_ ?_
      · rw [List.map_singleton, ReportImage.text, Arg.blank]
        exact vinfo_delimited _ hmem
      · rw [List.map_singleton, ReportImage.text, Arg.size, List.sum_singleton]
        exact hlen
    refine ⟨htext, hcall _ [a.vector] 1 rfl ?_ ?_,
      hcall _ [a.edi, a.esi, a.ebp, a.esp, a.ebx, a.edx, a.ecx, a.eax] 8 rfl ?_ ?_,
      hcall _ [a.error] 1 rfl ?_ ?_, hcall _ [a.eip, a.cs, a.eflags] 3 rfl ?_ ?_,
      hcall _ [] 0 rfl ?_ ?_, nofun⟩
    all_goals decide +kernel

theorem idtExceptionHandler_reads_back (g : Geometry) (k : Console) (h : I.Loaded m)
    (hvector : ¬31#32 < a.vector) :
    ∃ m' text, idtExceptionHandler g I m k a = some (m', text.foldl (consolePutc g) k) ∧
      scan (reportFormats.flatMap fun fmt => directives (bytes fmt)) text =
        some (.str (bytes (vinfo.getD a.vector.toNat "")) :: [a.vector, a.edi, a.esi, a.ebp, a.esp,
          a.ebx, a.edx, a.ecx, a.eax, a.error, a.eip, a.cs, a.eflags].map Value.int) := by
  obtain ⟨m', text, hrun, hscan⟩ := printkAll_reads_back g k (h.placed a)
    (readable_exceptionCalls I a)
  refine ⟨m', text, hrun, ?_⟩
  rw [exceptionCalls, if_neg hvector] at hscan
  exact hscan

end

/-! ### From the interrupt to the console -/

section

variable {l : IdtLayout} {v : Nat} {error : Word} {s : Cpu}

/-- The machine in which an exception is reported: its callback is the one that `idt_init` has
stored, and the frame of the interrupt does not overlap this word and the literals. -/
structure Reported (l : IdtLayout) (I : ReportImage) (v : Nat) (s : Cpu) : Prop where
  installed : Installed v
  exception : v < 32
  callback : s.mem.read32 (l.callbackAddr v) = l.idtExceptionHandler
  entry : l.idtExceptionHandler ≠ 0
  apart : 52 ≤ (l.callbackAddr v - (s.reg .esp - 52)).toNat
  apart_end : (l.callbackAddr v - (s.reg .esp - 52)).toNat + 4 ≤ 2 ^ 32
  loaded : I.Loaded s.mem
  literals : ∀ t ∈ exceptionLiterals,
    StringOutside (s.reg .esp - 56) 56 (I.literal t) (bytes t)

/-- An exception enters the handler, which prints a text from which the vector, the registers, the
error code and the frame of the interrupted program are read back. -/
theorem exception_reported {I : ReportImage} (h : Reported l I v s) (error ret : Word)
    (g : Geometry) (k : Console) :
    let c := stubLoad l v (deliver l v error s)
    c.zf = false ∧ c.reg .eax = l.idtExceptionHandler ∧
      ∃ m' text, idtExceptionHandler g I (c.push 0 ret).mem k (handlerArgs (c.push 0 ret)) =
          some (m', text.foldl (consolePutc g) k) ∧
        scan (reportFormats.flatMap fun fmt => directives (bytes fmt)) text =
          some (.str (bytes (vinfo.getD v "")) :: [BitVec.ofNat 32 v, s.reg .edi, s.reg .esi,
            s.reg .ebp, s.reg .esp - 16, s.reg .ebx, s.reg .edx, s.reg .ecx, s.reg .eax,
            if ErrorCode v then error else 0, s.eip, s.cs, s.eflags].map Value.int) := by
  have hstart : s.Stacked 0 [] := trivial
  obtain ⟨hstack, -, heax, hzf⟩ := stubLoad_spec error hstart (by decide) h.apart h.apart_end
  have hargs := handlerArgs_of_stacked hstack (by decide) ret
  have hpushed := pushed_handler l v error s ret
  intro c
  refine ⟨?_, heax.trans h.callback, ?_⟩
  · rw [hzf, h.callback]
    exact beq_eq_false_iff_ne.mpr h.entry
  -- the pushed words do not lie over the literals
  have hloaded : I.Loaded (c.push 0 ret).mem := by
    intro t ht fmt hfmt
    obtain ⟨hstring, hapart⟩ := h.loaded t ht fmt hfmt
    refine ⟨hstring.congr (h.literals t ht) fun x hx => hpushed.byte x ?_, hapart⟩
    rw [hpushed.esp, add_zero]
    exact hx
  have hv := h.exception
  have hvector : (BitVec.ofNat 32 v).toNat = v := by
    rw [BitVec.toNat_ofNat]
    omega
  obtain ⟨m', text, hrun, hscan⟩ := idtExceptionHandler_reads_back g k hloaded
    (a := handlerArgs (c.push 0 ret)) (by rw [hargs]; bv_omega)
  refine ⟨m', text, hrun, ?_⟩
  rw [hargs] at hscan
  rw [hscan, hvector]

/-! ### A general protection fault -/

/-- The literals one after the other, 128 bytes each. -/
def packedImage : ReportImage where
  literal := fun s => 0xC0200000#32 + BitVec.ofNat 32 (128 * exceptionLiterals.idxOf s)
  buffer := fun _ => 0xC0300000#32

/-- A machine with the literals and with the callback of vector 13. -/
def faulting : Cpu where
  reg := fun r => if r = .esp then 0xC0105000#32 else 0x11111111#32
  eip := 0xC0101000#32
  cs := 0x8#32
  eflags := 0x202#32
  cr0 := 0x80000011#32
  cr3 := 0
  cr4 := 0x10#32
  mem := (⟨fun x => (bytes (exceptionLiterals.getD ((x - 0xC0200000#32).toNat / 128) "")).getD
    ((x - 0xC0200000#32).toNat % 128) 0⟩ : Mem).write32 (smallLayout.callbackAddr 13) 0xC0100100#32

theorem stringAt_of_getD {m : Mem} {p : Word} {cs : List Byte} (hcs : 0#8 ∉ cs)
    (h : ∀ i ≤ cs.length, m.byte (p + BitVec.ofNat 32 i) = cs.getD i 0) : StringAt m p cs := by
  induction cs generalizing p with
  | nil =>
    show m.byte p = 0
    simpa using h 0 le_rfl
  | cons c cs ih =>
    rw [List.mem_cons, not_or] at hcs
    refine ⟨by simpa using h 0 (Nat.zero_le _), Ne.symm hcs.1, ih hcs.2 fun i hi => ?_⟩
    rw [add_one_add_ofNat]
    exact h (i + 1) (Nat.succ_le_succ hi)

theorem packedImage_string {t : String} (ht : t ∈ exceptionLiterals) :
    StringAt faulting.mem (packedImage.literal t) (bytes t) := by
  obtain ⟨hlen, hzero⟩ := exceptionLiterals_short t ht
  have hcount : exceptionLiterals.length = 41 := rfl
  have hidx := List.idxOf_lt_length_of_mem ht
  have hbyte : ∀ i < 128, faulting.mem.byte (packedImage.literal t + BitVec.ofNat 32 i) =
      (bytes t).getD i 0 := by
    intro i hi
    have hfar : 4 ≤ (packedImage.literal t + BitVec.ofNat 32 i -
        smallLayout.callbackAddr 13).toNat := by
      have hbase : smallLayout.callbackAddr 13 = 0xC0111034#32 := rfl
      rw [hbase, packedImage]
      bv_omega
    have hdist : (packedImage.literal t + BitVec.ofNat 32 i - 0xC0200000#32).toNat =
        128 * exceptionLiterals.idxOf t + i := by
      rw [packedImage]
      bv_omega
    have hdiv : (128 * exceptionLiterals.idxOf t + i) / 128 = exceptionLiterals.idxOf t := by omega
    have hmod : (128 * exceptionLiterals.idxOf t + i) % 128 = i := by omega
    rw [faulting, Mem.byte_write32_ne hfar]
    show (bytes (exceptionLiterals.getD (BitVec.toNat _ / 128) "")).getD (BitVec.toNat _ % 128) 0 = _
    rw [hdist, hdiv, hmod, List.getD_eq_getElem _ _ hidx, List.getElem_idxOf]
  exact stringAt_of_getD hzero fun i hi => hbyte i (by omega)

theorem faulting_reported : Reported smallLayout packedImage 13 faulting where
  installed := by decide
  exception := by decide
  callback := Mem.read32_write32_same _ _ _
  entry := by decide
  apart := by decide
  apart_end := by decide
  loaded := fun t ht fmt _ => by
    have hlen := (exceptionLiterals_short t ht).1
    have hcount : exceptionLiterals.length = 41 := rfl
    have hidx := List.idxOf_lt_length_of_mem ht
    have hsize : kernelConfigPrintkBuffer.toNat = 4096 := rfl
    refine ⟨packedImage_string ht, stringOutside_of_le ?_ ?_⟩
    all_goals
      simp only [packedImage]
      bv_omega
  literals := fun t ht => by
    have hlen := (exceptionLiterals_short t ht).1
    have hcount : exceptionLiterals.length = 41 := rfl
    have hidx := List.idxOf_lt_length_of_mem ht
    have hesp : faulting.reg .esp = 0xC0105000#32 := rfl
    refine stringOutside_of_le ?_ ?_
    all_goals
      rw [hesp]
      simp only [packedImage]
      bv_omega

/-- The report of a general protection fault with the error code 0x9999. -/
theorem exception_reported_protection :
    let s := (stubLoad smallLayout 13 (deliver smallLayout 13 0x9999#32 faulting)).push 0
      0xC0100010#32
    ∃ m' text, idtExceptionHandler vgaText packedImage s.mem ⟨⟨fun _ => 0⟩, 0, 0⟩ (handlerArgs s) =
        some (m', text.foldl (consolePutc vgaText) ⟨⟨fun _ => 0⟩, 0, 0⟩) ∧
      scan (reportFormats.flatMap fun fmt => directives (bytes fmt)) text =
        some (.str (bytes (vinfo.getD 13 "")) :: [13#32, 0x11111111#32, 0x11111111#32,
          0x11111111#32, 0xC0104FF0#32, 0x11111111#32, 0x11111111#32, 0x11111111#32,
          0x11111111#32, 0x9999#32, 0xC0101000#32, 0x8#32, 0x202#32].map Value.int) := by
  obtain ⟨-, -, m', text, hrun, hscan⟩ := exception_reported faulting_reported 0x9999#32
    0xC0100010#32 vgaText ⟨⟨fun _ => 0⟩, 0, 0⟩
  exact ⟨m', text, hrun, hscan⟩

end

end BasicX86Kernel
