import BasicX86Kernel.Idt
import BasicX86Kernel.Machine.Cpu

/-! `ksrc/idt.s`: the stubs that the gates lead to, between the interrupt and the C handlers. -/

namespace BasicX86Kernel

open Machine

/-- The vectors for which the processor pushes an error code. -/
def ErrorCode (v : Nat) : Prop := v = 8 ∨ 10 ≤ v ∧ v ≤ 14 ∨ v = 17

instance (v : Nat) : Decidable (ErrorCode v) := inferInstanceAs (Decidable (_ ∨ _))

/-- The vectors for which `idt_init` installs a gate. -/
def Installed (v : Nat) : Prop := v < idtEntries ∧ ¬Reserved v

instance (v : Nat) : Decidable (Installed v) := inferInstanceAs (Decidable (_ ∧ _))

/-- The flags that the processor clears on its way through a gate: TF, NT, RF and VM, and IF for an
interrupt gate. -/
def gateMask (v : Nat) : Word := if v < 32 then 0x34100#32 else 0x34300#32

/-- The interrupt: the processor pushes flags and return address, and an error code for some
vectors, and enters the stub. -/
def deliver (l : IdtLayout) (v : Nat) (error : Word) (s : Cpu) : Cpu :=
  let stub := s.mem.read32 (l.handlerAddr v)
  let s := s.push 0 s.eflags
  let s := s.push 0 s.cs
  let s := s.push 0 s.eip
  let s := if ErrorCode v then s.push 0 error else s
  { s with eip := stub, cs := 0x8#32, eflags := s.eflags &&& ~~~gateMask v }

/-- `create_handler num` up to the push of the vector. -/
def stubFrame (num : Nat) (s : Cpu) : Cpu :=
  -- the macro's own list of the vectors with an error code
  let s := if num = 8 ∨ num ≥ 10 ∧ num ≤ 14 ∨ num = 17 then s else s.push 0 0
  let s := s.pusha 0
  s.push 0 (BitVec.ofNat 32 num)

/-- `create_handler num` up to the test of the callback. -/
def stubLoad (l : IdtLayout) (num : Nat) (s : Cpu) : Cpu :=
  let s := stubFrame num s
  let s := s.set .eax (s.mem.read32 (l.callbackAddr num))
  s.cmp 0 .eax

/-- `create_handler num`; `code a` is the function at address `a`, and `ret` is the address behind
the call. -/
def createHandler (l : IdtLayout) (code : Word → Cpu → Cpu) (ret : Word) (num : Nat)
    (s : Cpu) : Cpu :=
  let s := stubLoad l num s
  let s := if s.zf then s else s.call 0 ret (code (s.reg .eax))
  let s := s.add .esp 4
  let s := s.popa 0
  let s := s.add .esp 4
  s.iret 0

/-- The parameters of a handler, as it finds them on the stack when it is entered. -/
structure HandlerArgs where
  vector : Word
  edi : Word
  esi : Word
  ebp : Word
  esp : Word
  ebx : Word
  edx : Word
  ecx : Word
  eax : Word
  error : Word
  eip : Word
  cs : Word
  eflags : Word
  deriving DecidableEq

def handlerArgs (s : Cpu) : HandlerArgs :=
  let arg (i : Nat) := s.mem.read32 (s.reg .esp + 4 * BitVec.ofNat 32 (i + 1))
  { vector := arg 0
    edi := arg 1
    esi := arg 2
    ebp := arg 3
    esp := arg 4
    ebx := arg 5
    edx := arg 6
    ecx := arg 7
    eax := arg 8
    error := arg 9
    eip := arg 10
    cs := arg 11
    eflags := arg 12 }

/-! ### The frame on the stack -/

section

variable {l : IdtLayout} {v : Nat} {s : Cpu} {error : Word} {ws : List Word}

/-- What the interrupt and the stub push, the last word first. -/
def interruptFrame (v : Nat) (error : Word) (s : Cpu) : List Word :=
  [BitVec.ofNat 32 v, s.reg .edi, s.reg .esi, s.reg .ebp, s.reg .esp - 16, s.reg .ebx, s.reg .edx,
    s.reg .ecx, s.reg .eax, if ErrorCode v then error else 0, s.eip, s.cs, s.eflags]

/-- The four words that the interrupt and the first conditional of the stub push. -/
theorem errorWords (hstack : s.Stacked 0 ws) (hlen : 4 * (ws.length + 16) ≤ 2 ^ 32) (w : Word) :
    let t := ((((s.push 0 s.eflags).push 0 s.cs).push 0 s.eip).push 0 w)
    t.Stacked 0 (w :: s.eip :: s.cs :: s.eflags :: ws) ∧ t.reg .esp = s.reg .esp - 16 ∧
      (∀ r ≠ .esp, t.reg r = s.reg r) ∧
      ∀ b, 16 ≤ (b - (s.reg .esp - 16)).toNat → (b - (s.reg .esp - 16)).toNat + 4 ≤ 2 ^ 32 →
        t.mem.read32 b = s.mem.read32 b := by
  intro t
  have hlen' : ∀ us : List Word, us.length ≤ ws.length + 3 → 4 * (us.length + 1) ≤ 2 ^ 32 := by
    intro us hus
    omega
  refine ⟨?_, ?_, ?_, ?_⟩
  · refine Cpu.Stacked.push (Cpu.Stacked.push (Cpu.Stacked.push (Cpu.Stacked.push hstack ?_ _) ?_ _)
      ?_ _) ?_ _
    all_goals exact hlen' _ (by simp)
  · simp only [t, Cpu.esp_push]
    bv_omega
  · intro r hr
    simp only [t, Cpu.reg_push_ne hr]
  · intro b hb hb'
    simp only [t]
    iterate 3
      rw [Cpu.read32_push (by simp only [Cpu.esp_push]; bv_omega)
        (by simp only [Cpu.esp_push]; bv_omega)]
    rw [Cpu.read32_push (by bv_omega) (by bv_omega)]

/-- The state of the stub behind its first conditional: both shapes of the hardware frame have the
same length there. -/
theorem errorFrame (l : IdtLayout) (v : Nat) (error : Word) (hstack : s.Stacked 0 ws)
    (hlen : 4 * (ws.length + 16) ≤ 2 ^ 32) :
    ∃ t : Cpu, stubFrame v (deliver l v error s) = (t.pusha 0).push 0 (BitVec.ofNat 32 v) ∧
      t.Stacked 0 ((if ErrorCode v then error else 0) :: s.eip :: s.cs :: s.eflags :: ws) ∧
      t.reg .esp = s.reg .esp - 16 ∧ (∀ r ≠ .esp, t.reg r = s.reg r) ∧
      ∀ b, 16 ≤ (b - (s.reg .esp - 16)).toNat → (b - (s.reg .esp - 16)).toNat + 4 ≤ 2 ^ 32 →
        t.mem.read32 b = s.mem.read32 b := by
  by_cases herror : ErrorCode v
  · have hmacro : v = 8 ∨ v ≥ 10 ∧ v ≤ 14 ∨ v = 17 := herror
    obtain ⟨hstacked, hesp, hreg, hread⟩ := errorWords hstack hlen error
    refine ⟨deliver l v error s, ?_, ?_, ?_, ?_, ?_⟩
    · rw [stubFrame, if_pos hmacro]
    all_goals rw [deliver, if_pos herror]
    · rw [if_pos herror]
      exact hstacked.congr rfl rfl
    · exact hesp
    · exact hreg
    · exact hread
  · have hmacro : ¬(v = 8 ∨ v ≥ 10 ∧ v ≤ 14 ∨ v = 17) := herror
    obtain ⟨hstacked, hesp, hreg, hread⟩ := errorWords hstack hlen 0
    refine ⟨(deliver l v error s).push 0 0, ?_, ?_, ?_, ?_, ?_⟩
    · rw [stubFrame, if_neg hmacro]
    all_goals rw [deliver, if_neg herror]
    · rw [if_neg herror]
      exact hstacked.congr rfl rfl
    · exact hesp
    · exact hreg
    · exact hread

/-- The stack and the registers when the stub tests the callback. -/
theorem stubLoad_spec (error : Word) (hstack : s.Stacked 0 ws) (hlen : 4 * (ws.length + 16) ≤ 2 ^ 32)
    (happart : 52 ≤ (l.callbackAddr v - (s.reg .esp - 52)).toNat)
    (happart' : (l.callbackAddr v - (s.reg .esp - 52)).toNat + 4 ≤ 2 ^ 32) :
    let c := stubLoad l v (deliver l v error s)
    c.Stacked 0 (interruptFrame v error s ++ ws) ∧ c.reg .esp = s.reg .esp - 52 ∧
      c.reg .eax = s.mem.read32 (l.callbackAddr v) ∧
      c.zf = (s.mem.read32 (l.callbackAddr v) == 0) := by
  intro c
  obtain ⟨t, hframe, hstacked, hesp, hreg, hread⟩ := errorFrame l v error hstack hlen
  have hlen₁ : 4 * (((if ErrorCode v then error else 0) :: s.eip :: s.cs :: s.eflags ::
      ws).length + 8) ≤ 2 ^ 32 := by
    simp only [List.length_cons]
    omega
  obtain ⟨hpusha, hespa, hrega⟩ := hstacked.pusha hlen₁
  have hload : c = ((stubFrame v (deliver l v error s)).set .eax
      ((stubFrame v (deliver l v error s)).mem.read32 (l.callbackAddr v))).cmp 0 .eax := rfl
  have hpush := hpusha.push (by simp only [List.length_cons]; omega) (BitVec.ofNat 32 v)
  have hesp₁ : ((t.pusha 0).push 0 (BitVec.ofNat 32 v)).reg .esp = s.reg .esp - 52 := by
    rw [Cpu.esp_push, hespa, hesp]
    bv_omega
  have hread₁ : ((t.pusha 0).push 0 (BitVec.ofNat 32 v)).mem.read32 (l.callbackAddr v) =
      s.mem.read32 (l.callbackAddr v) := by
    rw [Cpu.read32_push (by rw [hespa, hesp]; bv_omega) (by rw [hespa, hesp]; bv_omega),
      Cpu.read32_pusha (by rw [hesp]; bv_omega) (by rw [hesp]; bv_omega),
      hread _ (by bv_omega) (by bv_omega)]
  rw [hframe] at hload
  generalize (t.pusha 0).push 0 (BitVec.ofNat 32 v) = u at hload hpush hesp₁ hread₁
  have hc : c.reg = (u.set .eax (u.mem.read32 (l.callbackAddr v))).reg := by rw [hload]; rfl
  have hm : c.mem = u.mem := by rw [hload]; rfl
  have heax : c.reg .eax = s.mem.read32 (l.callbackAddr v) := by
    rw [hc, Cpu.reg_set_same, hread₁]
  have hespc : c.reg .esp = u.reg .esp := by
    rw [hc]
    exact Cpu.reg_set_ne nofun
  refine ⟨?_, hespc.trans hesp₁, heax, ?_⟩
  · refine Cpu.Stacked.congr ?_ hespc hm
    rw [interruptFrame, ← hreg .edi nofun, ← hreg .esi nofun, ← hreg .ebp nofun, ← hesp,
      ← hreg .ebx nofun, ← hreg .edx nofun, ← hreg .ecx nofun, ← hreg .eax nofun]
    exact hpush
  · rw [← heax, hload, Cpu.zf_cmp_zero]
    rfl

/-- What the interrupt pushes. -/
theorem pushed_deliver (l : IdtLayout) (v : Nat) (error : Word) (s : Cpu) :
    Cpu.Pushed 0 s (deliver l v error s) (if ErrorCode v then 4 else 3) := by
  have hthree : Cpu.Pushed 0 s (((s.push 0 s.eflags).push 0 s.cs).push 0 s.eip) 3 :=
    ((Cpu.Pushed.refl.push (by decide) _).push (by decide) _).push (by decide) _
  rw [deliver]
  by_cases herror : ErrorCode v
  · rw [if_pos herror, if_pos herror]
    exact (hthree.push (by decide) error).congr rfl rfl
  · rw [if_neg herror, if_neg herror]
    exact hthree.congr rfl rfl

/-- What the interrupt and the stub push before the test of the callback. -/
theorem pushed_stubLoad (l : IdtLayout) (v : Nat) (error : Word) (s : Cpu) :
    Cpu.Pushed 0 s (stubLoad l v (deliver l v error s)) 13 := by
  have hdeliver := pushed_deliver l v error s
  have hframe : Cpu.Pushed 0 s (stubFrame v (deliver l v error s)) 13 := by
    rw [stubFrame]
    by_cases herror : ErrorCode v
    · have hmacro : v = 8 ∨ v ≥ 10 ∧ v ≤ 14 ∨ v = 17 := herror
      rw [if_pos herror] at hdeliver
      rw [if_pos hmacro]
      exact (hdeliver.pusha (by decide)).push (by decide) _
    · have hmacro : ¬(v = 8 ∨ v ≥ 10 ∧ v ≤ 14 ∨ v = 17) := herror
      rw [if_neg herror] at hdeliver
      rw [if_neg hmacro]
      exact ((hdeliver.push (by decide) 0).pusha (by decide)).push (by decide) _
  have hload : (stubLoad l v (deliver l v error s)).reg .esp =
      ((stubFrame v (deliver l v error s)).set .eax
        ((stubFrame v (deliver l v error s)).mem.read32 (l.callbackAddr v))).reg .esp := rfl
  exact hframe.congr (hload.trans (Cpu.reg_set_ne (by decide))) rfl

/-- What the interrupt, the stub and the call of the handler push. -/
theorem pushed_handler (l : IdtLayout) (v : Nat) (error : Word) (s : Cpu) (ret : Word) :
    Cpu.Pushed 0 s ((stubLoad l v (deliver l v error s)).push 0 ret) 14 :=
  (pushed_stubLoad l v error s).push (by decide) ret

/-- From the callback on, the stub takes the frame off the stack again. -/
theorem stubReturn_spec {c : Cpu} (hstack : c.Stacked 0 (interruptFrame v error s ++ ws))
    (hesp : c.reg .esp = s.reg .esp - 52) :
    let f := (((c.add .esp 4).popa 0).add .esp 4).iret 0
    f.reg = s.reg ∧ f.eip = s.eip ∧ f.cs = s.cs ∧ f.eflags = s.eflags ∧ f.Stacked 0 ws := by
  intro f
  obtain ⟨h₁, he₁, hr₁⟩ := Cpu.Stacked.add_esp hstack
  obtain ⟨h₂, -, he₂, hedi, hesi, hebp, hebx, hedx, hecx, heax⟩ := Cpu.Stacked.popa h₁
  obtain ⟨h₃, he₃, hr₃⟩ := Cpu.Stacked.add_esp h₂
  obtain ⟨h₄, -, he₄, hr₄, heip, hcs, heflags⟩ := Cpu.Stacked.iret h₃
  refine ⟨?_, heip, hcs, heflags, h₄⟩
  have hkeep : ∀ r ≠ .esp, f.reg r = ((c.add .esp 4).popa 0).reg r := fun r hr =>
    (hr₄ r hr).trans (hr₃ r hr)
  funext r
  cases r with
  | eax => exact (hkeep .eax nofun).trans heax
  | ecx => exact (hkeep .ecx nofun).trans hecx
  | edx => exact (hkeep .edx nofun).trans hedx
  | ebx => exact (hkeep .ebx nofun).trans hebx
  | esp =>
    show f.reg .esp = _
    rw [he₄, he₃, he₂, he₁, hesp]
    bv_omega
  | ebp => exact (hkeep .ebp nofun).trans hebp
  | esi => exact (hkeep .esi nofun).trans hesi
  | edi => exact (hkeep .edi nofun).trans hedi

/-- The parameters of the handler, from the frame on the stack. -/
theorem handlerArgs_of_stacked {c : Cpu} (hstack : c.Stacked 0 (interruptFrame v error s ++ ws))
    (hlen : 4 * (ws.length + 16) ≤ 2 ^ 32) (ret : Word) :
    handlerArgs (c.push 0 ret) =
      { vector := BitVec.ofNat 32 v
        edi := s.reg .edi, esi := s.reg .esi, ebp := s.reg .ebp, esp := s.reg .esp - 16
        ebx := s.reg .ebx, edx := s.reg .edx, ecx := s.reg .ecx, eax := s.reg .eax
        error := if ErrorCode v then error else 0
        eip := s.eip, cs := s.cs, eflags := s.eflags } := by
  have hlen' : 4 * ((interruptFrame v error s ++ ws).length + 1) ≤ 2 ^ 32 := by
    rw [List.length_append, show (interruptFrame v error s).length = 13 from rfl]
    omega
  have hwords := hstack.push hlen' ret
  rw [Cpu.Stacked, add_zero] at hwords
  have harg : ∀ (i : Nat) (w : Word), (interruptFrame v error s)[i]? = some w →
      (c.push 0 ret).mem.read32 ((c.push 0 ret).reg .esp + 4 * BitVec.ofNat 32 (i + 1)) = w := by
    intro i w hi
    refine hwords.get ?_
    rw [List.getElem?_cons_succ]
    exact List.getElem?_append_left (List.getElem?_eq_some_iff.mp hi).1 ▸ hi
  simp only [handlerArgs, HandlerArgs.mk.injEq]
  exact ⟨harg 0 _ rfl, harg 1 _ rfl, harg 2 _ rfl, harg 3 _ rfl, harg 4 _ rfl, harg 5 _ rfl,
    harg 6 _ rfl, harg 7 _ rfl, harg 8 _ rfl, harg 9 _ rfl, harg 10 _ rfl, harg 11 _ rfl,
    harg 12 _ rfl⟩

/-- An interrupt with a callback that the stub may call: the callback is null, or a compiled function
that leaves its arguments and the words `ws` of the interrupted stack; and the frame does not
overlap the word of the callback. -/
structure Served (l : IdtLayout) (code : Word → Cpu → Cpu) (ret : Word) (v : Nat) (error : Word)
    (s : Cpu) (ws : List Word) : Prop where
  installed : Installed v
  words : Cpu.WordsAt s.mem (s.reg .esp) ws
  room : 4 * (ws.length + 16) ≤ 2 ^ 32
  apart : 52 ≤ (l.callbackAddr v - (s.reg .esp - 52)).toNat
  apart_end : (l.callbackAddr v - (s.reg .esp - 52)).toNat + 4 ≤ 2 ^ 32
  callback : s.mem.read32 (l.callbackAddr v) ≠ 0 →
    let c := (stubLoad l v (deliver l v error s)).push 0 ret
    Cpu.Cdecl 0 (13 + ws.length) c (code (s.mem.read32 (l.callbackAddr v)) c)

/-- An interrupt, its stub and the return from it restore all registers, the flags and the return
address, and leave the interrupted stack; and a handler that is called finds the vector, the
registers, the error code and the frame of the processor in its parameters, with the `esp` that
`pusha` has pushed: the interrupted one less the four words above the registers. -/
theorem stub_transparent {l : IdtLayout} {code : Word → Cpu → Cpu} {ret : Word} {v : Nat}
    {error : Word} {s : Cpu} {ws : List Word} (h : Served l code ret v error s ws) :
    let f := createHandler l code ret v (deliver l v error s)
    f.reg = s.reg ∧ f.eip = s.eip ∧ f.cs = s.cs ∧ f.eflags = s.eflags ∧
      Cpu.WordsAt f.mem (s.reg .esp) ws ∧
      (s.mem.read32 (l.callbackAddr v) ≠ 0 →
        handlerArgs ((stubLoad l v (deliver l v error s)).push 0 ret) =
          { vector := BitVec.ofNat 32 v
            edi := s.reg .edi, esi := s.reg .esi, ebp := s.reg .ebp, esp := s.reg .esp - 16
            ebx := s.reg .ebx, edx := s.reg .edx, ecx := s.reg .ecx, eax := s.reg .eax
            error := if ErrorCode v then error else 0
            eip := s.eip, cs := s.cs, eflags := s.eflags }) := by
  have hstart : s.Stacked 0 ws := by
    rw [Cpu.Stacked, add_zero]
    exact h.words
  obtain ⟨hstack, hesp, heax, hzf⟩ := stubLoad_spec error hstart h.room h.apart
    h.apart_end
  have hcallback := h.callback
  intro f
  have hargs := handlerArgs_of_stacked hstack h.room ret
  have hf : f = ((((if (stubLoad l v (deliver l v error s)).zf then
      stubLoad l v (deliver l v error s)
    else (stubLoad l v (deliver l v error s)).call 0 ret
      (code ((stubLoad l v (deliver l v error s)).reg .eax))).add .esp 4).popa 0).add .esp 4).iret
        0 := rfl
  generalize stubLoad l v (deliver l v error s) = c at *
  have hreturn : ∃ c' : Cpu, f = (((c'.add .esp 4).popa 0).add .esp 4).iret 0 ∧
      c'.Stacked 0 (interruptFrame v error s ++ ws) ∧ c'.reg .esp = s.reg .esp - 52 := by
    by_cases hnull : s.mem.read32 (l.callbackAddr v) = 0
    · rw [hzf, hnull, beq_self_eq_true, if_pos rfl] at hf
      exact ⟨c, hf, hstack, hesp⟩
    · have hne : (s.mem.read32 (l.callbackAddr v) == 0) = false := beq_eq_false_iff_ne.mpr hnull
      rw [hzf, hne, heax, if_neg Bool.false_ne_true, Cpu.call] at hf
      have hlen : (interruptFrame v error s ++ ws).length = 13 + ws.length := by
        rw [List.length_append]
        rfl
      have hroom := h.room
      obtain ⟨hstack', hesp'⟩ := (hcallback hnull).stacked hstack hlen.le (by omega)
      exact ⟨_, hf, hstack', hesp'.trans hesp⟩
  obtain ⟨c', hc', hstack', hesp'⟩ := hreturn
  obtain ⟨hreg, heip, hcs, heflags, hws⟩ := stubReturn_spec hstack' hesp'
  rw [← hc'] at hreg heip hcs heflags hws
  refine ⟨hreg, heip, hcs, heflags, ?_, fun _ => hargs⟩
  rw [Cpu.Stacked, hreg, add_zero] at hws
  exact hws

end

/-! ### An interrupt of the timer -/

/-- A machine with a handler for vector 32. -/
def interrupted : Cpu where
  reg := fun r => if r = .esp then 0xC0105000#32 else 0x11111111#32
  eip := 0xC0101000#32
  cs := 0x8#32
  eflags := 0x202#32
  cr0 := 0x80000011#32
  cr3 := 0
  cr4 := 0x10#32
  mem := (⟨fun _ => 0⟩ : Mem).write32 (smallLayout.callbackAddr 32) 0xC0100300#32

theorem interrupted_served :
    Served smallLayout (fun _ s => s.ret 0) 0xC0100010#32 32 0 interrupted [0, 0] where
  installed := by decide
  words := by
    have hfar : ∀ a : Word, a.toNat + 4 ≤ 2 ^ 32 →
        (smallLayout.callbackAddr 32).toNat + 4 ≤ a.toNat ∨
          a.toNat + 4 ≤ (smallLayout.callbackAddr 32).toNat → interrupted.mem.read32 a = 0 := by
      intro a ha hdisjoint
      exact (Mem.read32_write32_disjoint (by decide) ha hdisjoint).trans
        (Mem.read32_of_zero fun _ _ => rfl)
    exact ⟨hfar _ (by decide) (by decide), hfar _ (by decide) (by decide), trivial⟩
  room := by decide
  apart := by decide
  apart_end := by decide
  callback := fun _ => Cpu.Cdecl.ret 0 _ _

theorem stub_transparent_timer :
    (createHandler smallLayout (fun _ s => s.ret 0) 0xC0100010#32 32
      (deliver smallLayout 32 0 interrupted)).reg = interrupted.reg :=
  (stub_transparent interrupted_served).1

/-- The handler does not find the interrupted `esp` in the registers. -/
theorem stub_esp_differs : ¬∀ (l : IdtLayout) (code : Word → Cpu → Cpu) (ret : Word) (v : Nat)
    (error : Word) (s : Cpu) (ws : List Word), Served l code ret v error s ws →
      s.mem.read32 (l.callbackAddr v) ≠ 0 →
        handlerArgs ((stubLoad l v (deliver l v error s)).push 0 ret) =
          { vector := BitVec.ofNat 32 v
            edi := s.reg .edi, esi := s.reg .esi, ebp := s.reg .ebp, esp := s.reg .esp
            ebx := s.reg .ebx, edx := s.reg .edx, ecx := s.reg .ecx, eax := s.reg .eax
            error := if ErrorCode v then error else 0
            eip := s.eip, cs := s.cs, eflags := s.eflags } := by
  intro h
  have hserved := interrupted_served
  have hstart : interrupted.Stacked 0 [0, 0] := by
    rw [Cpu.Stacked, add_zero]
    exact hserved.words
  have hcallback : interrupted.mem.read32 (smallLayout.callbackAddr 32) ≠ 0 := by
    rw [show interrupted.mem.read32 (smallLayout.callbackAddr 32) = 0xC0100300#32 from
      Mem.read32_write32_same _ _ _]
    decide
  obtain ⟨hstack, -⟩ := stubLoad_spec 0 hstart hserved.room hserved.apart
    hserved.apart_end
  have hargs := handlerArgs_of_stacked hstack hserved.room 0xC0100010#32
  have hclaim := h _ _ _ _ _ _ _ hserved hcallback
  exact absurd (congrArg HandlerArgs.esp (hargs.symm.trans hclaim)) (by decide)

end BasicX86Kernel
