import BasicX86Kernel.Idt.Processor

/-! An interrupt from the processor's way through the tables to its return, with the stub and the
handler in between. -/

namespace BasicX86Kernel

open Machine Gdt Selector

/-! ### The way back -/

section

variable {k : KernelLayout} {stub : Nat → Word} {c : Core}

/-- Where the kernel returns to itself, the checks of the processor come out well. -/
theorem Equipped.iret_eq (h : Equipped k stub c) (hroom : (c.cpu.reg .esp).toNat + 12 ≤ 2 ^ 32)
    (hnt : c.cpu.eflags.getLsbD 14 = false) (hcs : c.cpu.drop.top 0 = 0x08#32)
    (hvm : (c.cpu.drop.drop.top 0).getLsbD 17 = false) :
    c.iret = .ok { c with cpu := c.cpu.iret 0 } := by
  have hpops : c.popsWithin 3 = true := popsWithin_flat h.stack hroom
  have hwithin : kernelCode.within (c.cpu.top 0) 1 = true := kernelCode_flat.within (by omega)
  have hcpu : c.cpu.iret 0 = { c.cpu.drop.drop.drop with
      eip := c.cpu.top 0, cs := c.cpu.drop.top 0, eflags := c.cpu.drop.drop.top 0 } := rfl
  rw [Core.iret, stackBase_flat h.stack, hnt, hpops, hcpu, hcs,
    show (0x08#32).setWidth 16 = 0x08#16 from rfl, h.returnCode]
  dsimp only
  rw [hvm, hwithin, Core.touch_eq h.accessed, h.code]
  rfl

end

/-- `create_handler num` up to its `iretl`. -/
def stubBody (l : IdtLayout) (code : Word → Cpu → Cpu) (ret : Word) (num : Nat) (s : Cpu) : Cpu :=
  let s := stubLoad l num s
  let s := if s.zf then s else s.call 0 ret (code (s.reg .eax))
  let s := s.add .esp 4
  let s := s.popa 0
  s.add .esp 4

theorem stubBody_eq (l : IdtLayout) (code : Word → Cpu → Cpu) (ret : Word) (num : Nat) (s : Cpu) :
    stubBody l code ret num s = (((if (stubLoad l num s).zf then stubLoad l num s
      else (stubLoad l num s).call 0 ret (code ((stubLoad l num s).reg .eax))).add .esp 4).popa
        0).add .esp 4 := rfl

theorem createHandler_eq (l : IdtLayout) (code : Word → Cpu → Cpu) (ret : Word) (num : Nat)
    (s : Cpu) : createHandler l code ret num s = (stubBody l code ret num s).iret 0 := rfl

/-- What a handler leaves alone besides what the calling convention asks for: CS, the flag NT, and
the tables. -/
structure LeavesTables (k : KernelLayout) (s s' : Cpu) : Prop where
  cs : s'.cs = s.cs
  nt : s'.eflags.getLsbD 14 = s.eflags.getLsbD 14
  byte : ∀ x, k.Fixed x → s'.mem.byte x = s.mem.byte x

/-- A handler that does nothing but return. -/
theorem LeavesTables.ret {k : KernelLayout} (s : Cpu) : LeavesTables k s (s.ret 0) :=
  ⟨rfl, rfl, fun _ _ => rfl⟩

section

variable {k : KernelLayout} {code : Word → Cpu → Cpu} {ret : Word} {v : Nat} {error : Word}
  {s : Cpu} {ws : List Word}

theorem stubLoad_eq (l : IdtLayout) (v : Nat) (s : Cpu) : stubLoad l v s =
    ((stubFrame v s).set .eax ((stubFrame v s).mem.read32 (l.callbackAddr v))).cmp 0 .eax := rfl

theorem cs_stubLoad (l : IdtLayout) (v : Nat) (error : Word) (s : Cpu) :
    (stubLoad l v (deliver l v error s)).cs = 0x08#32 := by
  have hdeliver : (deliver l v error s).cs = 0x08#32 := rfl
  rw [stubLoad_eq, Cpu.cs_cmp, Cpu.cs_set, ← hdeliver, stubFrame]
  split <;> rfl

theorem eflags_deliver (l : IdtLayout) (v : Nat) (error : Word) (s : Cpu) :
    (deliver l v error s).eflags = s.eflags &&& ~~~gateMask v := by
  rw [deliver]
  split <;> rfl

theorem nt_stubLoad (l : IdtLayout) (v : Nat) (error : Word) (s : Cpu) :
    (stubLoad l v (deliver l v error s)).eflags.getLsbD 14 = false := by
  have hframe : (stubFrame v (deliver l v error s)).eflags = s.eflags &&& ~~~gateMask v := by
    rw [← eflags_deliver l v error, stubFrame]
    split <;> rfl
  have hmask : (gateMask v).getLsbD 14 = true := by
    rw [gateMask]
    split <;> decide
  rw [stubLoad_eq, Cpu.nt_cmp, Cpu.eflags_set, hframe, BitVec.getLsbD_and, BitVec.getLsbD_not,
    hmask]
  simp

/-- The stub with its frame on the stack again, when it is about to take it off. -/
theorem stubCall_spec (h : Served k.idt code ret v error s ws)
    (hapart : ∀ x, k.Fixed x → 56 ≤ (x - (s.reg .esp - 56)).toNat)
    (hquiet : s.mem.read32 (k.idt.callbackAddr v) ≠ 0 →
      let c := (stubLoad k.idt v (deliver k.idt v error s)).push 0 ret
      LeavesTables k c (code (s.mem.read32 (k.idt.callbackAddr v)) c)) :
    ∃ c : Cpu, stubBody k.idt code ret v (deliver k.idt v error s) =
        ((c.add .esp 4).popa 0).add .esp 4 ∧
      c.Stacked 0 (interruptFrame v error s ++ ws) ∧ c.reg .esp = s.reg .esp - 52 ∧
      c.cs = 0x08#32 ∧ c.eflags.getLsbD 14 = false ∧
      ∀ x, k.Fixed x → c.mem.byte x = s.mem.byte x := by
  have hstart : s.Stacked 0 ws := by
    rw [Cpu.Stacked, add_zero]
    exact h.words
  obtain ⟨hstack, hesp, heax, hzf⟩ := stubLoad_spec error hstart h.room h.apart h.apart_end
  have hcs := cs_stubLoad k.idt v error s
  have hnt := nt_stubLoad k.idt v error s
  have hpushed := pushed_stubLoad k.idt v error s
  have hpushed' := pushed_handler k.idt v error s ret
  have hcallback := h.callback
  have hroom := h.room
  rw [stubBody_eq]
  generalize stubLoad k.idt v (deliver k.idt v error s) = c at *
  by_cases hnull : s.mem.read32 (k.idt.callbackAddr v) = 0
  · rw [hzf, hnull, beq_self_eq_true, if_pos rfl]
    refine ⟨c, rfl, hstack, hesp, hcs, hnt, fun x hx => hpushed.byte x ?_⟩
    have hx := hapart x hx
    rw [hpushed.esp, add_zero]
    show 52 ≤ (x - (s.reg .esp - 52)).toNat
    bv_omega
  · have hne : (s.mem.read32 (k.idt.callbackAddr v) == 0) = false := beq_eq_false_iff_ne.mpr hnull
    have hlen : (interruptFrame v error s ++ ws).length = 13 + ws.length := by
      rw [List.length_append]
      rfl
    obtain ⟨hstack', hesp'⟩ := (hcallback hnull).stacked hstack hlen.le (by omega)
    have hq := hquiet hnull
    rw [hzf, hne, heax, if_neg Bool.false_ne_true, Cpu.call]
    refine ⟨_, rfl, hstack', hesp'.trans hesp, hq.cs.trans hcs, hq.nt.trans hnt, fun x hx => ?_⟩
    rw [hq.byte x hx]
    refine hpushed'.byte x ?_
    rw [hpushed'.esp, add_zero]
    exact hapart x hx

/-- The state of the stub before its `iretl`, and the one behind it. -/
theorem stubBody_spec (h : Served k.idt code ret v error s ws)
    (hapart : ∀ x, k.Fixed x → 56 ≤ (x - (s.reg .esp - 56)).toNat)
    (hquiet : s.mem.read32 (k.idt.callbackAddr v) ≠ 0 →
      let c := (stubLoad k.idt v (deliver k.idt v error s)).push 0 ret
      LeavesTables k c (code (s.mem.read32 (k.idt.callbackAddr v)) c)) :
    let f := stubBody k.idt code ret v (deliver k.idt v error s)
    f.Stacked 0 (s.eip :: s.cs :: s.eflags :: ws) ∧ f.reg .esp = s.reg .esp - 12 ∧
      f.cs = 0x08#32 ∧ f.eflags.getLsbD 14 = false ∧
      (∀ x, k.Fixed x → f.mem.byte x = s.mem.byte x) ∧
      (f.iret 0).reg = s.reg ∧ (f.iret 0).eip = s.eip ∧ (f.iret 0).cs = s.cs ∧
      (f.iret 0).eflags = s.eflags ∧ Cpu.WordsAt (f.iret 0).mem (s.reg .esp) ws := by
  obtain ⟨c, hbody, hstack, hesp, hcs, hnt, hbyte⟩ := stubCall_spec h hapart hquiet
  obtain ⟨h₁, he₁, -⟩ := Cpu.Stacked.add_esp hstack
  obtain ⟨h₂, hm₂, he₂, -⟩ := Cpu.Stacked.popa h₁
  obtain ⟨h₃, he₃, -⟩ := Cpu.Stacked.add_esp h₂
  obtain ⟨hreg, heip, hcs', heflags, hws⟩ := stubReturn_spec hstack hesp
  rw [Cpu.Stacked, hreg, add_zero] at hws
  rw [hbody]
  refine ⟨h₃, ?_, ?_, ?_, fun x hx => ?_, hreg, heip, hcs', heflags, hws⟩
  · rw [he₃, he₂, he₁, hesp]
    bv_omega
  · rw [Cpu.cs_add, Cpu.cs_popa, Cpu.cs_add, hcs]
  · rw [Cpu.nt_add, Cpu.eflags_popa, Cpu.nt_add, hnt]
  · rw [Cpu.mem_add, hm₂, Cpu.mem_add, hbyte x hx]

end

/-! ### Interrupts of a running kernel -/

/-- The kernel has come from the boot loader to `u`. -/
def Booted (k : KernelLayout) (off label : Word) (c u : Core) : Prop :=
  ∃ t, gdtInit k.gdt off label c = .ok t ∧ Relation.ReflTransGen (KernelStep k) (idtLoad k t) u

/-- An interrupt that the stub may serve, on a stack that is apart from the tables, with a handler
that leaves them alone. -/
structure Handled (k : KernelLayout) (code : Word → Cpu → Cpu) (ret : Word) (vector : BitVec 8)
    (error : Option Word) (u : Core) (ws : List Word) : Prop where
  stack : StackRoom k 14 u
  served : Served k.idt code ret vector.toNat (error.getD 0) u.cpu ws
  errorCode : error.isSome = decide (ErrorCode vector.toNat)
  vm : u.cpu.eflags.getLsbD 17 = false
  quiet : u.cpu.mem.read32 (k.idt.callbackAddr vector.toNat) ≠ 0 →
    let s := (stubLoad k.idt vector.toNat
      (deliver k.idt vector.toNat (error.getD 0) u.cpu)).push 0 ret
    LeavesTables k s (code (u.cpu.mem.read32 (k.idt.callbackAddr vector.toNat)) s)

section

variable {k : KernelLayout} {off label : Word} {c u : Core} {code : Word → Cpu → Cpu} {ret : Word}
  {vector : BitVec 8} {error : Option Word} {ws : List Word}

theorem StackRoom.mono (h : StackRoom k 14 u) : StackRoom k 4 u where
  room := by
    have hroom := h.room
    omega
  apart := fun x hx => by
    have hapart : 56 ≤ (x - (u.cpu.reg .esp - 56)).toNat := h.apart x hx
    show 16 ≤ (x - (u.cpu.reg .esp - 16)).toNat
    bv_omega

theorem Booted.equipped (hc : SetUp k off c) (hu : Booted k off label c u) :
    ∃ stub, Equipped k stub u := by
  obtain ⟨t, hrun, hsteps⟩ := hu
  obtain ⟨t', hrun', hflat, -⟩ := gdtInit_spec k.gdt label hc.cpl hc.toFlushStack
  obtain rfl := Except.ok.inj (hrun.symm.trans hrun')
  exact ⟨_, (equipped_idtLoad hflat).run hsteps⟩

theorem Booted.step {w : Core} (hu : Booted k off label c u) (hstep : KernelStep k u w) :
    Booted k off label c w := by
  obtain ⟨t, hrun, hsteps⟩ := hu
  exact ⟨t, hrun, hsteps.tail hstep⟩

/-- An interrupt of a running kernel goes through the tables to its stub, and the return from the
stub leads back to where the kernel was interrupted, with its registers, its flags, its segments and
its stack; and the kernel runs on. -/
theorem interrupt_returns (hc : SetUp k off c) (hu : Booted k off label c u)
    (h : Handled k code ret vector error u ws) (software : Bool) :
    ∃ t w, u.accept vector software error = .ok t ∧
      Core.iret { t with cpu := stubBody k.idt code ret vector.toNat t.cpu } = .ok w ∧
      w.cpu.reg = u.cpu.reg ∧ w.cpu.eip = u.cpu.eip ∧ w.cpu.cs = u.cpu.cs ∧
      w.cpu.eflags = u.cpu.eflags ∧ w.code = u.code ∧ w.data = u.data ∧
      Cpu.WordsAt w.cpu.mem (u.cpu.reg .esp) ws ∧ Booted k off label c w := by
  obtain ⟨stub, hequipped⟩ := hu.equipped hc
  have hinstalled := h.served.installed
  have haccept : u.accept vector software error = .ok (served k vector software error u) :=
    hequipped.accept h.stack.mono.room h.errorCode
  have hfour := KernelStep.interrupt vector software error _ h.stack.mono h.errorCode haccept
  have ht : served k vector software error u =
      { u with cpu := deliver k.idt vector.toNat (error.getD 0) u.cpu } := by
    rw [served, servedVector, servedError, if_pos hinstalled, if_pos hinstalled]
  rw [ht] at haccept hfour
  obtain ⟨hstack, hesp, hcs, hnt, hbyte, hreg, heip, hcs', heflags, hws⟩ :=
    stubBody_spec h.served h.stack.apart h.quiet
  generalize hf : stubBody k.idt code ret vector.toNat
    (deliver k.idt vector.toNat (error.getD 0) u.cpu) = f at *
  have hcode : KernelStep k { u with cpu := deliver k.idt vector.toNat (error.getD 0) u.cpu }
      { u with cpu := f } := by
    refine KernelStep.code f hcs fun x hx => ?_
    rw [hbyte x hx, byte_deliver (h.stack.mono.apart x hx)]
  have hbooted := (hu.step hfour).step hcode
  obtain ⟨stub', hequipped'⟩ := hbooted.equipped hc
  have hroom := h.stack.room
  have hselector : f.drop.top 0 = 0x08#32 := hstack.drop.top.trans hequipped.cs
  have hiret := hequipped'.iret_eq (by rw [hesp]; bv_omega) hnt hselector
    ((congrArg (·.getLsbD 17) hstack.drop.drop.top).trans h.vm)
  have hti : ti ((f.drop.top ({ u with cpu := f } : Core).stackBase).setWidth 16) = false := by
    rw [stackBase_flat hequipped'.stack, hselector]
    rfl
  refine ⟨_, { u with cpu := f.iret 0 }, haccept, ?_, hreg, heip, hcs', heflags, rfl, rfl, hws,
    hbooted.step (KernelStep.iret _ hti hiret)⟩
  rw [hf]
  exact hiret

end

/-- The keyboard, with a handler that returns at once, interrupts the stub of the timer. -/
theorem interrupt_returns_nested :
    ∃ t, gdtInit smallGdt 0 0xC0100800#32 loaderCore = .ok t ∧
      let r := setHandler linkedLayout 33 0xC0101000#32 (idtLoad linkedLayout t)
      let u := served linkedLayout 32 false none r
      r.accept 32 false none = .ok u ∧
        ∃ f w : Core, u.accept 33 false none = .ok f ∧
          Core.iret { f with
            cpu := stubBody smallLayout (fun _ s => s.ret 0) 0xC0100010#32 (33#8).toNat f.cpu } =
              .ok w ∧
          w.cpu.reg = u.cpu.reg ∧ w.cpu.eip = u.cpu.eip ∧ w.cpu.eflags = u.cpu.eflags := by
  obtain ⟨t, hrun, hflat, -, hreg, heflags, -⟩ := gdtInit_spec smallGdt 0xC0100800#32
    (c := loaderCore) (by decide) loaderCore_flushStack
  refine ⟨t, hrun, ?_⟩
  intro r u
  have hset : KernelStep linkedLayout (idtLoad linkedLayout t) r :=
    idtSetInterruptHandler_step _ (by decide) _
  have hequipped := (equipped_idtLoad (k := linkedLayout) hflat).step hset
  obtain ⟨hroom, hstub⟩ := timer_stack hreg
  have hesp : u.cpu.reg .esp = 0xC0104FF4#32 := hstub
  have htimer : r.accept 32 false none = .ok u := hequipped.accept hroom.room (by decide)
  have hbooted : Booted linkedLayout 0 0xC0100800#32 loaderCore u :=
    ⟨t, hrun, (Relation.ReflTransGen.single hset).tail
      (.interrupt 32 false none u hroom (by decide) htimer)⟩
  refine ⟨htimer, ?_⟩
  have hvm : u.cpu.eflags.getLsbD 17 = false := by
    have hflags : r.cpu.eflags = 0x2#32 := heflags
    have hserved : u.cpu.eflags = r.cpu.eflags &&& ~~~gateMask (servedVector (32#8).toNat) :=
      eflags_deliver ..
    rw [hserved, hflags]
    decide
  generalize u = u at hesp hvm hbooted ⊢
  have hserved : Served smallLayout (fun _ s => s.ret 0) 0xC0100010#32 (33#8).toNat 0 u.cpu [] := by
    refine ⟨by decide, trivial, by decide, ?_, ?_, fun _ => Cpu.Cdecl.ret 0 _ _⟩
    all_goals
      rw [hesp]
      decide
  have hstack : StackRoom linkedLayout 14 u :=
    stackRoom_linked (by decide) (by rw [hesp]; decide) (by rw [hesp]; decide)
  have hhandled : Handled linkedLayout (fun _ s => s.ret 0) 0xC0100010#32 33 none u [] :=
    ⟨hstack, hserved, by decide, hvm, fun _ => LeavesTables.ret _⟩
  obtain ⟨f, w, haccept, hiret, hreg', heip, -, heflags', -⟩ :=
    interrupt_returns loaderCore_setUp hbooted hhandled false
  exact ⟨f, w, haccept, hiret, hreg', heip, heflags'⟩

end BasicX86Kernel
