import BasicX86Kernel.Machine.Controller
import BasicX86Kernel.Machine.Port
import Mathlib.Data.List.Induction
import Mathlib.Tactic.FinCases

/-! The pair of interrupt controllers (drivers/8259A.c), of which the slave asks for interrupts
through line 2 of the master: the words that the kernel sends, what the chips make of them, and the
interrupts that they ask the processor for. -/

namespace BasicX86Kernel.Pic

open Machine

/-! ### The functions -/

def picMc : Port := 0x0020
def picMd : Port := 0x0021
def picSc : Port := 0x00A0
def picSd : Port := 0x00A1

def picIcw1Ic4 : Byte := (1#8 <<< 0) ||| (1#8 <<< 4)
def picIcw2Vec (index : Byte) : Byte := index
def picIcw3Master (ir : Nat) : Byte := 1#8 <<< ir
def picIcw3Slave (sid : Byte) : Byte := sid &&& 0x07
def picIcw4Pm : Byte := 1#8 <<< 0

def picMaskAll : Driver Unit := do
  outb picMd 0xFF
  outb picSd 0xFF

def picUnmaskAll : Driver Unit := do
  outb picMd 0x00
  outb picSd 0x00

/-- `pic_init`; its message goes to memory, not to a port. -/
def picInit : Driver Unit := do
  outb picMc picIcw1Ic4
  outb picMd (picIcw2Vec 32)
  outb picMd (picIcw3Master 2)
  outb picMd picIcw4Pm
  outb picSc picIcw1Ic4
  outb picSd (picIcw2Vec 40)
  outb picSd (picIcw3Slave 2)
  outb picSd picIcw4Pm
  picUnmaskAll

def picEio (vector : Byte) : Driver Unit := do
  if vector ≥ 40 then outb picSc 0x20
  outb picMc 0x20

/-! ### A chip -/

/-- An initialisation word that a chip expects. -/
inductive Icw where
  | icw2 | icw3 | icw4
  deriving DecidableEq

/-- The initialisation words that are still to come and those that have come, the mask register, and
the requests of the eight lines. -/
structure Chip where
  expected : List Icw
  icw2 : Byte
  icw3 : Byte
  icw4 : Byte
  imr : Byte
  lines : Controller (Fin 8)

/-- Line 0 is the most urgent, and each line holds back itself and those behind it. -/
def linePriority : Priority (Fin 8) where
  urgency := fun i => 7 - i
  level := fun i => 7 - i
  urgency_lt := id

namespace Chip

variable (c : Chip)

/-- A write to the command port. Of the commands after the initialisation, the one that the kernel
sends is the end of interrupt that names no line. -/
def command (v : Byte) : Chip :=
  if v.getLsbD 4 then
    { c with
      expected := .icw2 :: ((if v.getLsbD 1 then [] else [.icw3]) ++
        if v.getLsbD 0 then [.icw4] else [])
      icw4 := if v.getLsbD 0 then c.icw4 else 0
      imr := 0
      lines := { c.lines with pending := [] } }
  else if v = 0x20 then { c with lines := c.lines.endOfInterrupt linePriority }
  else c

/-- A write to the data port: the initialisation word that is expected, or the mask register. -/
def data (v : Byte) : Chip :=
  match c.expected with
  | [] => { c with imr := v }
  | .icw2 :: expected => { c with expected, icw2 := v }
  | .icw3 :: expected => { c with expected, icw3 := v }
  | .icw4 :: expected => { c with expected, icw4 := v }

def enabled (i : Fin 8) : Bool := !c.imr.getLsbD i

def next : Option (Fin 8) := c.lines.next linePriority c.enabled

def request (i : Fin 8) : Chip := { c with lines := c.lines.request i }

/-- The processor takes the interrupt of a line; in the mode without ends of interrupts it is not
in service any longer than that. -/
def acknowledge (i : Fin 8) : Chip :=
  let lines := c.lines.acknowledge i
  { c with lines := if c.icw4.getLsbD 1 then lines.endOfInterrupt linePriority else lines }

def vector (i : Fin 8) : Byte := (c.icw2 &&& 0xF8) ||| BitVec.ofNat 8 i

end Chip

/-! ### The pair -/

structure Pair where
  master : Chip
  slave : Chip

namespace Pair

variable (p : Pair)

/-- What a transfer does to the chips. -/
def transfer (p : Pair) : Transfer → Pair
  | .outb port v =>
    if port = picMc then { p with master := p.master.command v }
    else if port = picMd then { p with master := p.master.data v }
    else if port = picSc then { p with slave := p.slave.command v }
    else if port = picSd then { p with slave := p.slave.data v }
    else p
  | .inb _ _ => p

/-- The pair after a program. -/
def run (dev : Device) (log : List Transfer) (d : Driver Unit) : Pair :=
  (d.trace dev log).foldl transfer p

/-- A device raises one of the sixteen lines; line 2 of the master is the slave's. -/
def edge (irq : Fin 16) : Pair :=
  if irq = 2 then p
  else if h : irq.val < 8 then { p with master := p.master.request ⟨irq, h⟩ }
  else { p with slave := p.slave.request ⟨irq - 8, by omega⟩ }

/-- The master, with the request of the slave on line 2. -/
def cascaded : Chip := if p.slave.next.isSome then p.master.request 2 else p.master

/-- The vector that the processor gets when it asks for it, and the pair afterwards; `none` when the
pair asks for no interrupt, or for one of a slave that is not the one the master expects. -/
def acknowledge : Option (Byte × Pair) :=
  match p.cascaded.next with
  | none => none
  | some i =>
    if i = 2 then
      if p.master.icw3 = 1#8 <<< 2 ∧ p.slave.icw3 &&& 0x07 = 2 then
        p.slave.next.map fun k =>
          (p.slave.vector k, ⟨p.cascaded.acknowledge 2, p.slave.acknowledge k⟩)
      else none
    else some (p.master.vector i, { p with master := p.master.acknowledge i })

end Pair

/-! ### Initialisation -/

/-- A chip after the four initialisation words and a mask without bits; what is in service stays
so. -/
def Chip.initialised (icw2 icw3 : Byte) (c : Chip) : Chip where
  expected := []
  icw2 := icw2
  icw3 := icw3
  icw4 := 0x01
  imr := 0x00
  lines := { c.lines with pending := [] }

section

variable (dev : Device) (log : List Transfer)

theorem run_picInit (p : Pair) :
    p.run dev log picInit = ⟨p.master.initialised 32 0x04, p.slave.initialised 40 0x02⟩ := rfl

/-- An end of interrupt for a vector of the slave goes to both chips. -/
theorem run_picEio (p : Pair) (v : Byte) :
    p.run dev log (picEio v) = if v ≥ 40 then ⟨p.master.command 0x20, p.slave.command 0x20⟩
      else { p with master := p.master.command 0x20 } := by
  rw [picEio]
  split <;> rfl

/-! ### Masked chips -/

/-- Something that happens to the pair: a device raises a line, the processor asks for the vector of
an interrupt, or a handler ends one. -/
inductive Event where
  | edge (irq : Fin 16)
  | acknowledge
  | eio (vector : Byte)

def step (p : Pair) : Event → Pair
  | .edge irq => p.edge irq
  | .acknowledge => p.acknowledge.elim p Prod.snd
  | .eio vector => p.run dev log (picEio vector)

@[simp] theorem Chip.imr_command_eoi (c : Chip) : (c.command 0x20).imr = c.imr := rfl

theorem Pair.imr_edge (p : Pair) (irq : Fin 16) : (p.edge irq).master.imr = p.master.imr := by
  rw [edge]
  split
  · rfl
  · split <;> rfl

theorem Pair.cascaded_imr (p : Pair) : p.cascaded.imr = p.master.imr := by
  rw [cascaded]
  split <;> rfl

theorem Pair.acknowledge_masked {p : Pair} (h : p.master.imr = 0xFF) : p.acknowledge = none := by
  have hnone : p.cascaded.next = none := by
    refine Controller.next_eq_none fun j _ => ?_
    rw [Chip.enabled, p.cascaded_imr, h]
    fin_cases j <;> rfl
  rw [acknowledge, hnone]

theorem imr_step (p : Pair) (h : p.master.imr = 0xFF) (e : Event) :
    (step dev log p e).master.imr = 0xFF := by
  cases e with
  | edge irq => exact (p.imr_edge irq).trans h
  | acknowledge =>
    rw [step, Pair.acknowledge_masked h]
    exact h
  | eio v =>
    rw [step, run_picEio]
    split <;> exact h

/-- Whatever state the chips are in at first, after `pic_init` and `pic_mask_all` they never ask for
an interrupt again: whichever lines rise, and whatever ends of interrupts are sent. -/
theorem pic_silent (p : Pair) (es : List Event) :
    (es.foldl (step dev log) (p.run dev log (do picInit; picMaskAll))).acknowledge = none := by
  apply Pair.acknowledge_masked
  induction es using List.reverseRecOn with
  | nil => rfl
  | append_singleton es e ih =>
    rw [List.foldl_append]
    exact imr_step dev log _ ih e

/-! ### Nested handlers -/

/-- Lines rise, all lines are masked or unmasked, and the processor takes interrupts, whose handlers
may be interrupted themselves before they send the end of their own interrupt, and afterwards. -/
inductive Nested : Pair → Pair → Prop where
  | refl (p : Pair) : Nested p p
  | edge {p q : Pair} (irq : Fin 16) (h : Nested (p.edge irq) q) : Nested p q
  | mask {p q : Pair} (h : Nested (p.run dev log picMaskAll) q) : Nested p q
  | unmask {p q : Pair} (h : Nested (p.run dev log picUnmaskAll) q) : Nested p q
  | interrupt {p p' q r : Pair} {v : Byte} (hv : p.acknowledge = some (v, p'))
      (inner : Nested p' q) (rest : Nested (q.run dev log (picEio v)) r) : Nested p r

/-- The states on the way, in which handlers that have begun may still be running. -/
inductive Inside : Pair → Pair → Prop where
  | here (p : Pair) : Inside p p
  | edge {p q : Pair} (irq : Fin 16) (h : Inside (p.edge irq) q) : Inside p q
  | mask {p q : Pair} (h : Inside (p.run dev log picMaskAll) q) : Inside p q
  | unmask {p q : Pair} (h : Inside (p.run dev log picUnmaskAll) q) : Inside p q
  | handler {p p' q : Pair} {v : Byte} (hv : p.acknowledge = some (v, p'))
      (running : Inside p' q) : Inside p q
  | interrupt {p p' q r : Pair} {v : Byte} (hv : p.acknowledge = some (v, p'))
      (inner : Nested dev log p' q) (rest : Inside (q.run dev log (picEio v)) r) : Inside p r

/-- The chips are as `pic_init` sets them up. -/
structure Configured (p : Pair) : Prop where
  expected : p.master.expected = [] ∧ p.slave.expected = []
  base : p.master.icw2 = 32 ∧ p.slave.icw2 = 40
  cascade : p.master.icw3 = 0x04 ∧ p.slave.icw3 = 0x02
  mode : p.master.icw4 = 0x01 ∧ p.slave.icw4 = 0x01

theorem configured_picInit (p : Pair) : Configured (p.run dev log picInit) := by
  rw [run_picInit]
  exact ⟨⟨rfl, rfl⟩, ⟨rfl, rfl⟩, ⟨rfl, rfl⟩, ⟨rfl, rfl⟩⟩

/-- The lines in service of both chips. -/
def Pair.inService (p : Pair) : List (Fin 8) × List (Fin 8) :=
  (p.master.lines.inService, p.slave.lines.inService)

theorem vector_master {c : Chip} (h : c.icw2 = 32) (i : Fin 8) :
    (c.vector i).toNat = 32 + i := by
  rw [Chip.vector, h]
  fin_cases i <;> rfl

theorem vector_slave {c : Chip} (h : c.icw2 = 40) (i : Fin 8) :
    (c.vector i).toNat = 40 + i := by
  rw [Chip.vector, h]
  fin_cases i <;> rfl

theorem Configured.edge {p : Pair} (h : Configured p) (irq : Fin 16) :
    Configured (p.edge irq) ∧ (p.edge irq).inService = p.inService := by
  have hrequest : ∀ (c : Chip) (i : Fin 8), (c.request i).lines.inService = c.lines.inService := by
    intro c i
    rw [Chip.request, Controller.request]
    split <;> rfl
  rw [Pair.edge]
  split
  · exact ⟨h, rfl⟩
  · split
    · exact ⟨⟨h.expected, h.base, h.cascade, h.mode⟩, by rw [Pair.inService, hrequest]; rfl⟩
    · exact ⟨⟨h.expected, h.base, h.cascade, h.mode⟩, by rw [Pair.inService, hrequest]; rfl⟩

/-- With no initialisation word expected, a byte for the data port is a mask. -/
theorem Configured.masks {p : Pair} (h : Configured p) {d : Driver Unit}
    (hd : d = picMaskAll ∨ d = picUnmaskAll) :
    Configured (p.run dev log d) ∧ (p.run dev log d).inService = p.inService := by
  have hdata : ∀ (c : Chip) (v : Byte), c.expected = [] → c.data v = { c with imr := v } := by
    intro c v hc
    rw [Chip.data, hc]
  have hrun : ∃ v, p.run dev log d = ⟨p.master.data v, p.slave.data v⟩ := by
    rcases hd with rfl | rfl
    · exact ⟨0xFF, rfl⟩
    · exact ⟨0x00, rfl⟩
  obtain ⟨v, hrun⟩ := hrun
  rw [hrun, hdata _ _ h.expected.1, hdata _ _ h.expected.2]
  exact ⟨⟨h.expected, h.base, h.cascade, h.mode⟩, rfl⟩

/-- An interrupt of a configured pair, on its way to the processor: one line of the master, or line
2 of the master and one of the slave, each above all that are in service in its chip. -/
inductive Taken (p : Pair) : Byte → Pair → Prop where
  | master (i : Fin 8) (above : ∀ j ∈ p.master.lines.inService, 7 - j.val < 7 - i.val) :
      Taken p (p.master.vector i) { p with master := p.master.acknowledge i }
  | slave (k : Fin 8) (above : ∀ j ∈ p.master.lines.inService, 7 - j.val < 7 - 2)
      (above' : ∀ j ∈ p.slave.lines.inService, 7 - j.val < 7 - k.val) :
      Taken p (p.slave.vector k) ⟨p.cascaded.acknowledge 2, p.slave.acknowledge k⟩

theorem taken_of_acknowledge {p p' : Pair} {v : Byte} (h : p.acknowledge = some (v, p')) :
    Taken p v p' := by
  have hservice : p.cascaded.lines.inService = p.master.lines.inService := by
    rw [Pair.cascaded]
    split
    · rw [Chip.request, Controller.request]
      split <;> rfl
    · rfl
  rw [Pair.acknowledge] at h
  split at h
  · cases h
  · next i hi =>
    obtain ⟨-, -, above⟩ := Controller.next_eq_some hi
    rw [hservice] at above
    split at h
    · next htwo =>
      subst htwo
      split at h
      · obtain ⟨k, hk, heq⟩ := Option.map_eq_some_iff.mp h
        obtain ⟨-, -, above'⟩ := Controller.next_eq_some hk
        obtain ⟨rfl, rfl⟩ := Prod.mk.inj heq
        exact .slave k above above'
      · cases h
    · obtain ⟨rfl, rfl⟩ := Prod.mk.inj (Option.some.inj h)
      exact .master i above

theorem Chip.inService_acknowledge {c : Chip} (h : c.icw4 = 0x01) (i : Fin 8) :
    (c.acknowledge i).lines.inService = i :: c.lines.inService := by
  rw [Chip.acknowledge, h]
  rfl

/-- An end of interrupt dismisses the line that is above all others in service. -/
theorem Chip.inService_eoi {c : Chip} {i : Fin 8} {s : List (Fin 8)}
    (h : c.lines.inService = i :: s) (above : ∀ j ∈ s, 7 - j.val < 7 - i.val) :
    (c.command 0x20).lines.inService = s := by
  have hdismissed := Controller.endOfInterrupt_cons linePriority h above
  exact congrArg Controller.inService hdismissed

/-- The end of its interrupt undoes what an interrupt has put in service, in both chips. -/
theorem Taken.dismissed {p p' : Pair} {v : Byte} (h : Taken p v p') (hp : Configured p) :
    Configured p' ∧ ∀ q : Pair, Configured q → q.inService = p'.inService →
      Configured (q.run dev log (picEio v)) ∧
        (q.run dev log (picEio v)).inService = p.inService := by
  obtain ⟨expected, base, cascade, mode⟩ := hp
  cases h with
  | master i above =>
    refine ⟨⟨expected, base, cascade, mode⟩, fun q hq hservice => ?_⟩
    have hv : ¬p.master.vector i ≥ 40 := by
      have hnat := vector_master base.1 i
      have hi := i.isLt
      rw [ge_iff_le, BitVec.le_def, hnat]
      exact Nat.not_le.mpr (by change 32 + i.val < 40; omega)
    rw [run_picEio, if_neg hv]
    refine ⟨⟨hq.expected, hq.base, hq.cascade, hq.mode⟩, ?_⟩
    obtain ⟨hmaster, hslave⟩ := Prod.mk.inj hservice
    rw [Chip.inService_acknowledge mode.1] at hmaster
    exact Prod.ext (Chip.inService_eoi hmaster above) hslave
  | slave k above above' =>
    have hcascaded : p.cascaded.icw4 = 0x01 ∧ p.cascaded.expected = [] ∧ p.cascaded.icw2 = 32 ∧
        p.cascaded.icw3 = 0x04 ∧ p.cascaded.lines.inService = p.master.lines.inService := by
      rw [Pair.cascaded]
      split
      · refine ⟨mode.1, expected.1, base.1, cascade.1, ?_⟩
        rw [Chip.request, Controller.request]
        split <;> rfl
      · exact ⟨mode.1, expected.1, base.1, cascade.1, rfl⟩
    obtain ⟨hmode, hexpected, hbase, hcascade, hlines⟩ := hcascaded
    refine ⟨⟨⟨hexpected, expected.2⟩, ⟨hbase, base.2⟩, ⟨hcascade, cascade.2⟩, ⟨hmode, mode.2⟩⟩,
      fun q hq hservice => ?_⟩
    have hv : p.slave.vector k ≥ 40 := by
      rw [ge_iff_le, BitVec.le_def, vector_slave base.2 k]
      exact Nat.le_add_right 40 k
    rw [run_picEio, if_pos hv]
    refine ⟨⟨hq.expected, hq.base, hq.cascade, hq.mode⟩, ?_⟩
    obtain ⟨hmaster, hslave⟩ := Prod.mk.inj hservice
    rw [Chip.inService_acknowledge hmode, hlines] at hmaster
    rw [Chip.inService_acknowledge mode.2] at hslave
    exact Prod.ext (Chip.inService_eoi hmaster above) (Chip.inService_eoi hslave above')

theorem Nested.inService {p q : Pair} (h : Nested dev log p q) (hp : Configured p) :
    Configured q ∧ q.inService = p.inService := by
  induction h with
  | refl p => exact ⟨hp, rfl⟩
  | edge irq _ ih =>
    obtain ⟨hedge, hsame⟩ := hp.edge irq
    obtain ⟨hq, hservice⟩ := ih hedge
    exact ⟨hq, hservice.trans hsame⟩
  | mask _ ih =>
    obtain ⟨hmask, hsame⟩ := hp.masks dev log (.inl rfl)
    obtain ⟨hq, hservice⟩ := ih hmask
    exact ⟨hq, hservice.trans hsame⟩
  | unmask _ ih =>
    obtain ⟨hmask, hsame⟩ := hp.masks dev log (.inr rfl)
    obtain ⟨hq, hservice⟩ := ih hmask
    exact ⟨hq, hservice.trans hsame⟩
  | interrupt hv _ _ ihinner ihrest =>
    obtain ⟨htaken, hdismissed⟩ := (taken_of_acknowledge hv).dismissed dev log hp
    obtain ⟨hinner, hservice⟩ := ihinner htaken
    obtain ⟨hend, hsame⟩ := hdismissed _ hinner hservice
    obtain ⟨hq, hrest⟩ := ihrest hend
    exact ⟨hq, hrest.trans hsame⟩

/-- The chips stay as they are set up, in the handlers too. -/
theorem Inside.configured {p q : Pair} (h : Inside dev log p q) (hp : Configured p) :
    Configured q := by
  induction h with
  | here p => exact hp
  | edge irq _ ih => exact ih (hp.edge irq).1
  | mask _ ih => exact ih (hp.masks dev log (.inl rfl)).1
  | unmask _ ih => exact ih (hp.masks dev log (.inr rfl)).1
  | handler hv _ ih => exact ih ((taken_of_acknowledge hv).dismissed dev log hp).1
  | interrupt hv inner _ ih =>
    obtain ⟨htaken, hdismissed⟩ := (taken_of_acknowledge hv).dismissed dev log hp
    obtain ⟨hinner, hservice⟩ := inner.inService dev log htaken
    exact ih (hdismissed _ hinner hservice).1

theorem Configured.vector {p p' : Pair} {v : Byte} (h : Configured p)
    (hv : p.acknowledge = some (v, p')) : 32 ≤ v.toNat ∧ v.toNat < 48 := by
  cases taken_of_acknowledge hv with
  | master i above =>
    rw [vector_master h.base.1]
    omega
  | slave k above above' =>
    rw [vector_slave h.base.2]
    omega

/-- From `pic_init` on, `pic_eio` at the end of each handler keeps the chips in step with the
handlers, however these nest: when as many have ended as have begun, the same lines are in service
as at first; and whenever the pair is asked for a vector, in a handler or not, it sends one from 32
to 47. -/
theorem picEio_balances (p : Pair) :
    (∀ q, Nested dev log (p.run dev log picInit) q → q.inService = p.inService) ∧
      ∀ q, Inside dev log (p.run dev log picInit) q →
        ∀ v q', q.acknowledge = some (v, q') → 32 ≤ v.toNat ∧ v.toNat < 48 := by
  have hinit := configured_picInit dev log p
  constructor
  · intro q hq
    exact (hq.inService dev log hinit).2
  · intro q hq v q' hv
    exact (hq.configured dev log hinit).vector hv

end

/-- A chip that has not been initialised. -/
def reset : Chip where
  expected := []
  icw2 := 0x08
  icw3 := 0x00
  icw4 := 0x00
  imr := 0xFF
  lines := Controller.idle

/-- The handler of line 12, of the slave, is interrupted by line 1 of the master. -/
theorem picEio_balances_mouse :
    (∃ q, Nested (fun _ _ => 0) [] ((⟨reset, reset⟩ : Pair).run (fun _ _ => 0) [] picInit) q ∧
      q.inService = ([], [])) ∧
    ∃ q, Inside (fun _ _ => 0) [] ((⟨reset, reset⟩ : Pair).run (fun _ _ => 0) [] picInit) q ∧
      q.inService = ([2], [4]) ∧
      ∃ v q', q.acknowledge = some (v, q') ∧ 32 ≤ v.toNat ∧ v.toNat < 48 := by
  obtain ⟨hservice, hvector⟩ := picEio_balances (fun _ _ => 0) [] ⟨reset, reset⟩
  have hmouse : Nested (fun _ _ => 0) []
      ((⟨reset, reset⟩ : Pair).run (fun _ _ => 0) [] picInit) _ :=
    .edge 12 (.interrupt (v := 44) rfl (.edge 1 (.interrupt (v := 33) rfl (.refl _) (.refl _)))
      (.refl _))
  have hinside : Inside (fun _ _ => 0) []
      ((⟨reset, reset⟩ : Pair).run (fun _ _ => 0) [] picInit) _ :=
    .edge 12 (.handler (v := 44) rfl (.edge 1 (.here _)))
  exact ⟨⟨_, hmouse, hservice _ hmouse⟩, _, hinside, rfl, 33, _, rfl, hvector _ hinside 33 _ rfl⟩

end BasicX86Kernel.Pic
