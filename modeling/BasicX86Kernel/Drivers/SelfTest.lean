import BasicX86Kernel.Drivers.I8042

/-! What `i8042_init` takes for a passed test. `i8042_read` returns zero without a read of the data
port when the last of its polls is the first that succeeds, and reads the data port unasked when
none does. -/

namespace BasicX86Kernel.I8042

open Machine

/-! ### Answers -/

/-- Some status among the reads shows a byte to read, and the data byte read next is `value`. -/
def Answered (rs : List (Port × Byte)) (value : Byte) : Prop :=
  ∃ before s between after,
    rs = before ++ (controlPort, s) :: (between ++ (dataPort, value) :: after)
      ∧ readable s = true ∧ ∀ r ∈ between, r.1 ≠ dataPort

/-- One of the first 499 statuses shows a byte to read. -/
def Timely (dev : Device) (log : List Transfer) : Prop :=
  ∃ s ∈ answers dev controlPort log 499, readable s = true

/-- The device lets 499 polls pass, and then either shows a byte at the last poll, for which the
driver returns zero unread, or shows none and has `value` on its data port. -/
def Mistaken (dev : Device) (log : List Transfer) (value : Byte) : Prop :=
  (∀ s ∈ answers dev controlPort log 499, ¬readable s) ∧
    if readable (dev (afterReads dev controlPort log 499) controlPort) then value = 0x00
    else dev (afterReads dev controlPort log 500) dataPort = value

/-- The reads of one `i8042_read`. -/
def heard (dev : Device) (log : List Transfer) : List (Port × Byte) :=
  reads (i8042Read.trace dev log)

section

variable (dev : Device) (log : List Transfer)

/-- The statuses `i8042_read` polls. -/
def polls : List (Port × Byte) :=
  (upTo readable (answers dev controlPort log 500)).map (controlPort, ·)

theorem polls_port {r : Port × Byte} (h : r ∈ polls dev log) : r.1 = controlPort := by
  obtain ⟨s, -, rfl⟩ := List.mem_map.mp h
  rfl

theorem i8042Read_trace_eq : i8042Read.trace dev log = inputs (polls dev log)
    ++ (if (pollStatus readable 500).result dev log = 0 then pure 0x00 else inb dataPort : Driver Byte
      ).trace dev (log ++ inputs (polls dev log)) := by
  rw [i8042Read, Driver.trace_bind, pollStatus_trace]
  rfl

theorem i8042Read_late (h : (pollStatus readable 500).result dev log = 0) :
    heard dev log = polls dev log ∧ i8042Read.result dev log = 0x00 := by
  refine ⟨?_, ?_⟩
  · rw [heard, i8042Read_trace_eq, if_pos h, Driver.trace_pure, List.append_nil, reads_inputs]
  · rw [i8042Read, Driver.result_bind, if_pos h, Driver.result_pure]

theorem i8042Read_reads (h : (pollStatus readable 500).result dev log ≠ 0) :
    heard dev log = polls dev log ++ [(dataPort, i8042Read.result dev log)]
      ∧ i8042Read.result dev log = dev (log ++ inputs (polls dev log)) dataPort := by
  have hresult : i8042Read.result dev log = dev (log ++ inputs (polls dev log)) dataPort := by
    rw [i8042Read, Driver.result_bind, if_neg h, Driver.result_inb, pollStatus_trace]
    rfl
  refine ⟨?_, hresult⟩
  have hreads := reads_inputs (polls dev log ++ [(dataPort, i8042Read.result dev log)])
  rw [heard, i8042Read_trace_eq, if_neg h, Driver.trace_inb, ← hresult]
  simpa using hreads

theorem i8042Read_trace : i8042Read.trace dev log = inputs (heard dev log) := by
  by_cases h : (pollStatus readable 500).result dev log = 0
  · rw [(i8042Read_late dev log h).1, i8042Read_trace_eq, if_pos h, Driver.trace_pure,
      List.append_nil]
  · obtain ⟨hheard, hresult⟩ := i8042Read_reads dev log h
    rw [hheard, i8042Read_trace_eq, if_neg h, hresult, Driver.trace_inb]
    simp

theorem not_timely : ¬Timely dev log ↔ ∀ s ∈ answers dev controlPort log 499, ¬readable s := by
  simp [Timely]

theorem mistaken_iff (value : Byte) : Mistaken dev log value
    ↔ ¬Timely dev log ∧ i8042Read.result dev log = value := by
  rw [Mistaken, not_timely]
  refine and_congr_right fun hnone => ?_
  have hzero := pollStatus_eq_zero_iff dev log readable
  by_cases hlast : readable (dev (afterReads dev controlPort log 499) controlPort)
  · rw [if_pos hlast, (i8042Read_late dev log (hzero.mpr ⟨hnone, hlast⟩)).2]
    exact eq_comm
  · have hsilent : ∀ s ∈ answers dev controlPort log 500, ¬readable s := by
      intro s hs
      rw [answers_succ dev controlPort log 499] at hs
      rcases List.mem_append.mp hs with hs | hs
      · exact hnone s hs
      · rwa [List.mem_singleton.mp hs]
    have hne : (pollStatus readable 500).result dev log ≠ 0 := fun h => hlast (hzero.mp h).2
    rw [if_neg hlast, (i8042Read_reads dev log hne).2, polls, upTo_of_none hsilent]
    rfl

/-- Only a timely answer is one, and then it is what `i8042_read` returns. -/
theorem answered_heard_iff (value : Byte) : Answered (heard dev log) value
    ↔ Timely dev log ∧ i8042Read.result dev log = value := by
  have hzero := pollStatus_eq_zero_iff dev log readable
  constructor
  · rintro ⟨before, s, between, after, hrs, hs, -⟩
    have hdata : (dataPort, value) ∈ heard dev log := by simp [hrs]
    have hstatus : (controlPort, s) ∈ heard dev log := by simp [hrs]
    by_cases h : (pollStatus readable 500).result dev log = 0
    · rw [(i8042Read_late dev log h).1] at hdata
      exact absurd (polls_port dev log hdata).symm controlPort_ne_dataPort
    · rw [(i8042Read_reads dev log h).1] at hdata hstatus
      have hvalue : value = i8042Read.result dev log := by
        rcases List.mem_append.mp hdata with hd | hd
        · exact absurd (polls_port dev log hd).symm controlPort_ne_dataPort
        · simpa using hd
      refine ⟨?_, hvalue.symm⟩
      by_contra hlate
      rw [not_timely] at hlate
      have hmem : s ∈ answers dev controlPort log 500 := by
        rcases List.mem_append.mp hstatus with hd | hd
        · obtain ⟨s', hs', he⟩ := List.mem_map.mp hd
          cases he
          exact upTo_subset hs'
        · exact absurd (congrArg Prod.fst (List.mem_singleton.mp hd)) controlPort_ne_dataPort
      rw [answers_succ dev controlPort log 499] at hmem
      rcases List.mem_append.mp hmem with hm | hm
      · exact hlate s hm hs
      · rw [List.mem_singleton.mp hm] at hs
        exact h (hzero.mpr ⟨hlate, hs⟩)
  · rintro ⟨htimely, rfl⟩
    have hne : (pollStatus readable 500).result dev log ≠ 0 := by
      intro h
      exact (not_timely dev log).mpr (hzero.mp h).1 htimely
    obtain ⟨s, hs, hr⟩ := htimely
    have hmem : s ∈ answers dev controlPort log 500 := by
      rw [answers_succ dev controlPort log 499]
      exact List.mem_append_left _ hs
    obtain ⟨before, s', hup, hs'⟩ := upTo_of_exists ⟨s, hmem, hr⟩
    refine ⟨before.map (controlPort, ·), s', [], [], ?_, hs', by simp⟩
    rw [(i8042Read_reads dev log hne).1, polls, hup]
    simp

end

/-! ### Tests -/

/-- The command has been sent and answered with `value`. -/
def Replied (t : List Transfer) (command value : Byte) : Prop :=
  ∃ rs, Exchanged t controlPort command rs ∧ Answered rs value

/-- The self test has not been sent, or it has been answered with 0x55. -/
def PastSelfTest (before : List Transfer) (_ : Port) (_ : Byte) : Prop :=
  (∃ rs, Exchanged before controlPort controllerSelfTest rs) →
    Replied before controllerSelfTest 0x55

/-- What the controller must have answered before a byte is written. -/
structure Earned (before : List Transfer) (p : Port) (c : Byte) : Prop where
  selfTest : PastSelfTest before p c
  keyboard : Before controlPort enableKeyboardInterface
    (Replied · keyboardInterfaceTest 0x00) before p c
  mouse : Before controlPort enableMouseInterface (Replied · mouseInterfaceTest 0x00) before p c

/-- Where the byte written is a test command, what the device does next is not mistaken for the
byte that means success. -/
structure NotMistaken (dev : Device) (log before : List Transfer) (p : Port) (c : Byte) :
    Prop where
  selfTest : Before controlPort controllerSelfTest
    (fun t => ¬Mistaken dev (log ++ (t ++ [.outb controlPort controllerSelfTest])) 0x55) before p c
  keyboard : Before controlPort keyboardInterfaceTest
    (fun t => ¬Mistaken dev (log ++ (t ++ [.outb controlPort keyboardInterfaceTest])) 0x00) before
      p c
  mouse : Before controlPort mouseInterfaceTest
    (fun t => ¬Mistaken dev (log ++ (t ++ [.outb controlPort mouseInterfaceTest])) 0x00) before p c

/-- The commands that test or enable. -/
def testing : List Byte :=
  [controllerSelfTest, keyboardInterfaceTest, mouseInterfaceTest, enableKeyboardInterface,
    enableMouseInterface]

/-- A byte that neither tests nor enables an interface. -/
def Plain (_ : List Transfer) (p : Port) (c : Byte) : Prop := p = controlPort → c ∉ testing

theorem plain_notMem {t : List Transfer} (h : Writes Plain t) {c : Byte} (hc : c ∈ testing) :
    .outb controlPort c ∉ t := by
  intro hmem
  obtain ⟨before, after, rfl⟩ := List.append_of_mem hmem
  exact h before controlPort c after rfl rfl hc

theorem writes_earned (t : List Transfer) : Writes Earned t ↔ Writes PastSelfTest t
    ∧ Writes (Before controlPort enableKeyboardInterface
        (Replied · keyboardInterfaceTest 0x00)) t
    ∧ Writes (Before controlPort enableMouseInterface (Replied · mouseInterfaceTest 0x00)) t :=
  ⟨fun h => ⟨fun b p c a e => (h b p c a e).selfTest, fun b p c a e => (h b p c a e).keyboard,
    fun b p c a e => (h b p c a e).mouse⟩,
    fun h b p c a e => ⟨h.1 b p c a e, h.2.1 b p c a e, h.2.2 b p c a e⟩⟩

theorem writes_notMistaken (dev : Device) (log t : List Transfer) :
    Writes (NotMistaken dev log) t ↔ Writes (Before controlPort controllerSelfTest
        (fun t => ¬Mistaken dev (log ++ (t ++ [.outb controlPort controllerSelfTest])) 0x55)) t
    ∧ Writes (Before controlPort keyboardInterfaceTest
        (fun t => ¬Mistaken dev (log ++ (t ++ [.outb controlPort keyboardInterfaceTest])) 0x00)) t
    ∧ Writes (Before controlPort mouseInterfaceTest
        (fun t => ¬Mistaken dev (log ++ (t ++ [.outb controlPort mouseInterfaceTest])) 0x00)) t :=
  ⟨fun h => ⟨fun b p c a e => (h b p c a e).selfTest, fun b p c a e => (h b p c a e).keyboard,
    fun b p c a e => (h b p c a e).mouse⟩,
    fun h b p c a e => ⟨h.1 b p c a e, h.2.1 b p c a e, h.2.2 b p c a e⟩⟩

/-- A command written once is answered by what is read before the next write. -/
theorem replied_once {t t' : List Transfer} {c v : Byte} (rs : List (Port × Byte))
    (ht : .outb controlPort c ∉ t) (ht' : .outb controlPort c ∉ t') (hreads : reads t' = []) :
    Replied (t ++ .outb controlPort c :: (inputs rs ++ t')) c v ↔ Answered rs v := by
  have hmem : .outb controlPort c ∉ inputs rs ++ t' := by simp [ht']
  simp [Replied, exchanged_once ht hmem, reads_append hreads]

/-- Behind the self test, whatever is written asks for its answer. -/
theorem pastSelfTest_iff {t t' : List Transfer} (rs : List (Port × Byte))
    (ht : .outb controlPort controllerSelfTest ∉ t)
    (ht' : .outb controlPort controllerSelfTest ∉ t') (hreads : reads t' = []) :
    Writes PastSelfTest (t ++ .outb controlPort controllerSelfTest :: (inputs rs ++ t'))
      ↔ t' = [] ∨ Answered rs 0x55 := by
  rw [writes_append, writes_outb, writes_append]
  have hquiet : ∀ s, .outb controlPort controllerSelfTest ∉ s → ∀ p c, PastSelfTest s p c :=
    fun s hs p c ⟨rs, h⟩ => absurd h.mem hs
  constructor
  · rintro ⟨-, -, -, h⟩
    cases t' with
    | nil => exact .inl rfl
    | cons x t' =>
      cases x with
      | inb p v => simp [reads] at hreads
      | outb p v =>
        have hx := ((writes_outb ..).mp h).1
        have hrep := replied_once (v := 0x55) rs ht List.not_mem_nil rfl
        refine .inr (hrep.mp (hx ⟨rs, ?_⟩))
        rw [List.append_nil, exchanged_once ht (outb_notMem_inputs rs), reads_inputs]
  · intro h
    refine ⟨?_, ?_, writes_inputs rs, ?_⟩
    · rintro before p v after rfl
      exact hquiet before (fun hm => ht (by simp [hm])) p v
    · exact hquiet _ (by simpa using ht) _ _
    · rcases h with rfl | h
      · exact writes_nil
      · rintro before p v after rfl -
        refine (replied_once rs ht (fun hm => ht' (by simp [hm])) ?_).mpr h
        cases before with
        | nil => rfl
        | cons x before =>
          cases x with
          | inb p v => simp [reads] at hreads
          | outb p v => rfl

/-- The transfers behind the self test, by what the interface tests read and which interfaces are
enabled. -/
def behind (dual keyboard mouse : Bool) (rs rs' : List (Port × Byte)) (t : List Transfer) :
    List Transfer :=
  .outb controlPort keyboardInterfaceTest :: (inputs rs
    ++ ((if dual then .outb controlPort mouseInterfaceTest :: inputs rs' else [])
    ++ .outb controlPort writeCommandByte :: (t
    ++ ((if keyboard then [.outb controlPort enableKeyboardInterface] else [])
    ++ (if dual && mouse then [.outb controlPort enableMouseInterface] else [])))))

section

variable (dual keyboard mouse : Bool) (rs rs' : List (Port × Byte)) {t s : List Transfer}

/-- A command that none of the parts writes. -/
theorem notMem_behind {c : Byte} (hk : c ≠ keyboardInterfaceTest)
    (hm : dual = true → c ≠ mouseInterfaceTest) (hw : c ≠ writeCommandByte)
    (ht : .outb controlPort c ∉ t) (hke : keyboard = true → c ≠ enableKeyboardInterface)
    (hme : dual = true → mouse = true → c ≠ enableMouseInterface) :
    .outb controlPort c ∉ behind dual keyboard mouse rs rs' t := by
  simp only [behind, List.mem_cons, List.mem_append, List.mem_ite_nil_right, Transfer.outb.injEq,
    true_and, Bool.and_eq_true, List.not_mem_nil, or_false, not_or, not_and, outb_notMem_inputs,
    not_false_eq_true]
  exact ⟨hk, hm, hw, ht, hke, fun h => hme h.1 h.2⟩

theorem behind_selfTest_notMem (h : .outb controlPort controllerSelfTest ∉ t) :
    .outb controlPort controllerSelfTest ∉ behind dual keyboard mouse rs rs' t := by
  apply notMem_behind dual keyboard mouse rs rs' (by decide) _ (by decide) h
  · exact fun _ => by decide
  · exact fun _ _ => by decide
  · exact fun _ => by decide

variable (hs : ∀ c ∈ testing, c ≠ controllerSelfTest → .outb controlPort c ∉ s)
  (ht : ∀ c ∈ testing, .outb controlPort c ∉ t)

include hs ht

theorem behind_keyboard_earned :
    Writes (Before controlPort enableKeyboardInterface (Replied · keyboardInterfaceTest 0x00))
        (s ++ behind dual keyboard mouse rs rs' t)
      ↔ (keyboard = true → Answered rs 0x00) := by
  have hsk := hs enableKeyboardInterface (by decide) (by decide)
  have htk := ht enableKeyboardInterface (by decide)
  have hst := hs keyboardInterfaceTest (by decide) (by decide)
  have htt := ht keyboardInterfaceTest (by decide)
  cases keyboard with
  | false =>
    refine iff_of_true (before_of_notMem (List.not_mem_append hsk ?_)) (by simp)
    apply notMem_behind dual false mouse rs rs' (by decide) _ (by decide) htk nofun
    · exact fun _ _ => by decide
    · exact fun _ => by decide
  | true =>
    have hsplit : s ++ behind dual true mouse rs rs' t
        = (s ++ .outb controlPort keyboardInterfaceTest :: (inputs rs
          ++ ((if dual then .outb controlPort mouseInterfaceTest :: inputs rs' else [])
          ++ .outb controlPort writeCommandByte :: t)))
        ++ .outb controlPort enableKeyboardInterface
          :: (if dual && mouse then [.outb controlPort enableMouseInterface] else []) := by
      simp [behind]
    rw [hsplit, before_once, replied_once rs hst]
    · simp
    · cases dual <;> simp [htt] <;> decide
    · cases dual <;> rfl
    · cases dual <;> simp [hsk, htk] <;> decide
    · cases dual <;> cases mouse <;> simp
      decide

theorem behind_mouse_earned :
    Writes (Before controlPort enableMouseInterface (Replied · mouseInterfaceTest 0x00))
        (s ++ behind dual keyboard mouse rs rs' t)
      ↔ (dual = true → mouse = true → Answered rs' 0x00) := by
  have hsm := hs enableMouseInterface (by decide) (by decide)
  have htm := ht enableMouseInterface (by decide)
  have hst := hs mouseInterfaceTest (by decide) (by decide)
  have htt := ht mouseInterfaceTest (by decide)
  by_cases hdm : dual = true ∧ mouse = true
  · obtain ⟨rfl, rfl⟩ := hdm
    have hsplit : s ++ behind true keyboard true rs rs' t
        = ((s ++ .outb controlPort keyboardInterfaceTest :: inputs rs)
          ++ .outb controlPort mouseInterfaceTest :: (inputs rs'
          ++ .outb controlPort writeCommandByte :: (t
          ++ (if keyboard then [.outb controlPort enableKeyboardInterface] else []))))
        ++ .outb controlPort enableMouseInterface :: [] := by
      simp [behind]
    rw [hsplit, before_once, replied_once rs']
    · simp
    · simp [hst]
      decide
    · cases keyboard <;> simp [htt] <;> decide
    · rfl
    · cases keyboard <;> simp [hsm, htm] <;> decide
    · exact List.not_mem_nil
  · refine iff_of_true (before_of_notMem (List.not_mem_append hsm ?_)) fun hd hm =>
      absurd ⟨hd, hm⟩ hdm
    apply notMem_behind dual keyboard mouse rs rs' (by decide) _ (by decide) htm
    · exact fun _ => by decide
    · exact fun hd hm => absurd ⟨hd, hm⟩ hdm
    · exact fun _ => by decide

theorem behind_keyboard_tested (Q : List Transfer → Prop) :
    Writes (Before controlPort keyboardInterfaceTest Q) (s ++ behind dual keyboard mouse rs rs' t)
      ↔ Q s := by
  have hst := hs keyboardInterfaceTest (by decide) (by decide)
  have htt := ht keyboardInterfaceTest (by decide)
  rw [behind, before_once hst]
  cases dual <;> cases keyboard <;> cases mouse <;> simp [htt] <;> decide

theorem behind_mouse_tested (Q : List Transfer → Prop) :
    Writes (Before controlPort mouseInterfaceTest Q) (s ++ behind dual keyboard mouse rs rs' t)
      ↔ (dual = true → Q (s ++ .outb controlPort keyboardInterfaceTest :: inputs rs)) := by
  have hst := hs mouseInterfaceTest (by decide) (by decide)
  have htt := ht mouseInterfaceTest (by decide)
  cases dual with
  | false =>
    refine iff_of_true (before_of_notMem (List.not_mem_append hst ?_)) (by simp)
    apply notMem_behind false keyboard mouse rs rs' (by decide) nofun (by decide) htt
    · exact fun _ => by decide
    · exact nofun
  | true =>
    have hsplit : s ++ behind true keyboard mouse rs rs' t
        = (s ++ .outb controlPort keyboardInterfaceTest :: inputs rs)
        ++ .outb controlPort mouseInterfaceTest :: (inputs rs'
          ++ .outb controlPort writeCommandByte :: (t
          ++ ((if keyboard then [.outb controlPort enableKeyboardInterface] else [])
          ++ (if mouse then [.outb controlPort enableMouseInterface] else [])))) := by
      simp [behind]
    rw [hsplit, before_once]
    · simp
    · simp [hst]
      decide
    · cases keyboard <;> cases mouse <;> simp [htt] <;> decide

end

section

variable (dev : Device) (log : List Transfer)

theorem commandGet_trace (c : Byte) : (i8042CommandGet c).trace dev log
    = .outb controlPort c :: inputs (heard dev (log ++ [.outb controlPort c])) := by
  rw [i8042CommandGet, i8042Command, Driver.trace_bind, Driver.trace_outb, i8042Read_trace]
  rfl

theorem commandGet_result (c : Byte) : (i8042CommandGet c).result dev log
    = i8042Read.result dev (log ++ [.outb controlPort c]) := by
  rw [i8042CommandGet, i8042Command, Driver.result_bind, Driver.trace_outb]

theorem plain_dataPort (before : List Transfer) (v : Byte) : Plain before dataPort v :=
  fun h => absurd h.symm controlPort_ne_dataPort

theorem i8042Write_plain (v : Byte) : Writes Plain ((i8042Write v).trace dev log) := by
  rw [i8042Write_trace, writes_append]
  refine ⟨writes_inputs _, ?_⟩
  split
  · exact writes_nil
  · simp [plain_dataPort]

theorem setField_getLsbD (b : Byte) (i j : Nat) (v : Bool) (hi : i < 8) :
    (setField b i v).getLsbD j = if j = i then v else b.getLsbD j := by
  have hone : (1#8 <<< i).getLsbD j = decide (j = i) := by
    simp only [BitVec.getLsbD_shiftLeft, BitVec.getLsbD_one]
    by_cases hj : j = i
    · simp [hj, hi]
    · simp [hj]; omega
  unfold setField
  cases v with
  | true =>
    rw [if_pos rfl, BitVec.getLsbD_or, hone]
    by_cases hj : j = i <;> simp [hj]
  | false =>
    rw [if_neg (by simp), BitVec.getLsbD_and, BitVec.getLsbD_not, hone]
    by_cases hj : j = i
    · simp [hj]
    · by_cases h8 : j < 8
      · simp [hj, h8]
      · simp [hj, h8, BitVec.getLsbD_of_ge b j (by omega)]

/-- A bit that is set under a condition. -/
theorem setIf_getLsbD (c : Bool) (b : Byte) (i j : Nat) (hi : i < 8) :
    (if c then setField b i true else b).getLsbD j
      = if j = i then c || b.getLsbD j else b.getLsbD j := by
  cases c with
  | false => simp
  | true => simpa using setField_getLsbD b i j true hi

/-- The command byte as it is kept while the interfaces are tested. -/
def cleared (cb : Byte) : Byte := withMouseInterrupt (withKeyboardInterrupt cb false) false

theorem cleared_getLsbD (cb : Byte) (i : Nat) : (cleared cb).getLsbD i
    = if i = 0 ∨ i = 1 then false else cb.getLsbD i := by
  unfold cleared withMouseInterrupt withKeyboardInterrupt
  rw [setField_getLsbD _ 1 i _ (by decide), setField_getLsbD _ 0 i _ (by decide)]
  by_cases h : i = 1 <;> simp [h]

/-- The command byte that is issued, by the interfaces that have passed. -/
def configure (cb : Byte) (keyboard mouse : Bool) : Byte :=
  let cb := if keyboard then withKeyboardInterrupt cb true else cb
  let cb := if mouse then withMouseInterrupt cb true else cb
  withSystemFlag (withKeyboardTranslation cb true) true

theorem configure_getLsbD (cb : Byte) (keyboard mouse : Bool) (i : Nat) :
    (configure cb keyboard mouse).getLsbD i = if i = 2 ∨ i = 6 then true
      else if i = 0 then keyboard || cb.getLsbD i else if i = 1 then mouse || cb.getLsbD i
      else cb.getLsbD i := by
  unfold configure withSystemFlag withKeyboardTranslation withMouseInterrupt withKeyboardInterrupt
  rw [setField_getLsbD _ 2 i _ (by decide), setField_getLsbD _ 6 i _ (by decide),
    setIf_getLsbD _ _ 1 i (by decide), setIf_getLsbD _ _ 0 i (by decide)]
  by_cases h0 : i = 0
  · simp [h0]
  · by_cases h1 : i = 1 <;> simp [h0, h1, ite_or]

theorem commandIf_trace (enabled : Bool) (c : Byte) : (commandIf enabled c).trace dev log
    = if enabled then [.outb controlPort c] else [] := by
  cases enabled <;> rfl

/-- The log when the test of the keyboard interface has been read. -/
def afterKeyboard : List Transfer :=
  log ++ .outb controlPort keyboardInterfaceTest
    :: inputs (heard dev (log ++ [.outb controlPort keyboardInterfaceTest]))

/-- What the two interface tests return. -/
def keyboardReply : Byte := i8042Read.result dev (log ++ [.outb controlPort keyboardInterfaceTest])

def mouseReply : Byte :=
  i8042Read.result dev (afterKeyboard dev log ++ [.outb controlPort mouseInterfaceTest])

theorem mouseTested_trace (log' : List Transfer) (dual : Bool) : (mouseTested dual).trace dev log'
    = if dual then .outb controlPort mouseInterfaceTest
        :: inputs (heard dev (log' ++ [.outb controlPort mouseInterfaceTest])) else [] := by
  cases dual with
  | false => rfl
  | true => simp [mouseTested, commandGet_trace]

theorem mouseTested_result (log' : List Transfer) (dual : Bool) :
    (mouseTested dual).result dev log' = true
      ↔ dual = true ∧ i8042Read.result dev (log' ++ [.outb controlPort mouseInterfaceTest]) = 0x00 := by
  cases dual with
  | false => simp [mouseTested]
  | true => simp [mouseTested, commandGet_result]

theorem mouseTested_afterKeyboard (dual : Bool) :
    (mouseTested dual).result dev (afterKeyboard dev log) = (dual && mouseReply dev log = 0x00) := by
  rw [Bool.eq_iff_iff, mouseTested_result, mouseReply, Bool.and_eq_true, decide_eq_true_eq]

/-- The transfers of the interface tests. -/
def interfaceTests (dual : Bool) : List Transfer :=
  .outb controlPort keyboardInterfaceTest
    :: (inputs (heard dev (log ++ [.outb controlPort keyboardInterfaceTest]))
    ++ (mouseTested dual).trace dev (afterKeyboard dev log))

/-- The commands that enable the interfaces. -/
def enables (cb : Byte) : List Transfer :=
  (if keyboardInterrupt cb then [.outb controlPort enableKeyboardInterface] else [])
    ++ if mouseInterrupt cb then [.outb controlPort enableMouseInterface] else []

/-- The transfers from the command byte on. -/
def issue (cb : Byte) : List Transfer :=
  .outb controlPort writeCommandByte
    :: ((i8042Write cb).trace dev (log ++ [.outb controlPort writeCommandByte]) ++ enables cb)

/-- Behind the self test the interfaces are tested, and then the command byte is issued. -/
theorem i8042Interfaces_trace (cb : Byte) (dual : Bool) : (i8042Interfaces cb dual).trace dev log
    = interfaceTests dev log dual ++ issue dev (log ++ interfaceTests dev log dual)
      (configure cb (keyboardReply dev log = 0x00) (dual && mouseReply dev log = 0x00)) := by
  rw [i8042Interfaces]
  simp only [Driver.trace_bind, commandGet_trace, commandGet_result, commandIf_trace,
    i8042CommandSet, i8042Command, Driver.trace_outb]
  rw [show log ++ .outb controlPort keyboardInterfaceTest
    :: inputs (heard dev (log ++ [.outb controlPort keyboardInterfaceTest]))
      = afterKeyboard dev log from rfl, mouseTested_afterKeyboard, ← keyboardReply]
  simp only [interfaceTests, issue, enables, configure, afterKeyboard, List.append_assoc,
    List.cons_append, List.nil_append, decide_eq_true_eq]

/-- The transfers behind the self test. -/
theorem interfaces_trace {cb : Byte} (hk : keyboardInterrupt cb = false)
    (hm : mouseInterrupt cb = false) (dual : Bool) :
    ∃ t, Writes Plain t ∧ (i8042Interfaces cb dual).trace dev log
      = behind dual (keyboardReply dev log = 0x00) (mouseReply dev log = 0x00)
        (heard dev (log ++ [.outb controlPort keyboardInterfaceTest]))
        (heard dev (afterKeyboard dev log ++ [.outb controlPort mouseInterfaceTest])) t := by
  rw [i8042Interfaces_trace]
  generalize hcb : configure cb _ _ = cb'
  have hkeyboard : keyboardInterrupt cb' = decide (keyboardReply dev log = 0x00) := by
    rw [← hcb, keyboardInterrupt, configure_getLsbD, if_neg (by decide), if_pos rfl,
      ← keyboardInterrupt, hk, Bool.or_false]
  have hmouse : mouseInterrupt cb' = (dual && mouseReply dev log = 0x00) := by
    rw [← hcb, mouseInterrupt, configure_getLsbD, if_neg (by decide), if_neg (by decide),
      if_pos rfl, ← mouseInterrupt, hm, Bool.or_false]
  refine ⟨_, i8042Write_plain dev
    (log ++ interfaceTests dev log dual ++ [.outb controlPort writeCommandByte]) cb', ?_⟩
  rw [issue, enables, hkeyboard, hmouse, interfaceTests, mouseTested_trace, behind,
    List.cons_append, List.append_assoc]

/-- `i8042_init` up to the command byte that it reads. -/
def commandByteRead : Driver Byte := do
  i8042Command disableKeyboardInterface
  i8042Command disableMouseInterface
  let _ ← i8042Read
  i8042CommandGet readCommandByte

theorem i8042Init_eq : i8042Init = (do
    let cb ← commandByteRead
    let test ← i8042CommandGet controllerSelfTest
    if test = 0x55 then i8042Interfaces (cleared cb) (mousePortClock (cleared cb))) := by
  simp only [i8042Init, commandByteRead, Driver.bind_assoc]
  rfl

theorem commandByteRead_plain : Writes Plain (commandByteRead.trace dev log) := by
  have hplain : ∀ before, Plain before controlPort disableKeyboardInterface
      ∧ Plain before controlPort disableMouseInterface
      ∧ Plain before controlPort readCommandByte := fun before =>
    ⟨fun _ => by decide, fun _ => by decide, fun _ => by decide⟩
  rw [commandByteRead]
  simp only [Driver.trace_bind, commandGet_trace, i8042Command, Driver.trace_outb, i8042Read_trace]
  simp [writes_append, hplain]

/-- The transfers of the initialisation: those before the self test, the self test, and what
follows it when it returns 0x55. -/
theorem i8042Init_trace : ∃ before cb, keyboardInterrupt cb = false ∧ mouseInterrupt cb = false
    ∧ Writes Plain before
    ∧ i8042Init.trace dev log = before ++ .outb controlPort controllerSelfTest
      :: (inputs (heard dev (log ++ (before ++ [.outb controlPort controllerSelfTest])))
      ++ if i8042Read.result dev (log ++ (before ++ [.outb controlPort controllerSelfTest])) = 0x55
        then (i8042Interfaces cb (mousePortClock cb)).trace dev (log ++ (before
          ++ .outb controlPort controllerSelfTest
            :: inputs (heard dev (log ++ (before ++ [.outb controlPort controllerSelfTest])))))
        else []) := by
  refine ⟨commandByteRead.trace dev log, cleared (commandByteRead.result dev log),
    cleared_getLsbD _ 0, cleared_getLsbD _ 1, commandByteRead_plain dev log, ?_⟩
  rw [i8042Init_eq]
  simp only [Driver.trace_bind, commandGet_trace, commandGet_result, List.append_assoc,
    List.cons_append]
  split <;> rfl

end

/-- The controller's silence is never taken for success just when, at each test, the device does
not do what `i8042_read` mistakes for it. -/
theorem tests_earned_iff (dev : Device) (log : List Transfer) :
    Writes Earned (i8042Init.trace dev log)
      ↔ Writes (NotMistaken dev log) (i8042Init.trace dev log) := by
  obtain ⟨before, cb, hk, hm, hplain, htrace⟩ := i8042Init_trace dev log
  have hbefore : ∀ c ∈ testing, .outb controlPort c ∉ before := fun c => plain_notMem hplain
  have hself := hbefore controllerSelfTest (by decide)
  generalize hasked : log ++ (before ++ [.outb controlPort controllerSelfTest]) = asked at htrace
  have htested : ∀ c ∈ testing, c ≠ controllerSelfTest →
      .outb controlPort c ∉ before ++ .outb controlPort controllerSelfTest
        :: inputs (heard dev asked) := by
    intro c hc hne
    simp [hbefore c hc, hne]
  rw [htrace, writes_earned, writes_notMistaken]
  by_cases h55 : i8042Read.result dev asked = 0x55
  · rw [if_pos h55]
    obtain ⟨t, ht, hbehind⟩ := interfaces_trace dev (log ++ (before
      ++ .outb controlPort controllerSelfTest :: inputs (heard dev asked))) hk hm
      (mousePortClock cb)
    have hplain' : ∀ c ∈ testing, .outb controlPort c ∉ t := fun c => plain_notMem ht
    rw [hbehind]
    generalize hs : before ++ .outb controlPort controllerSelfTest :: inputs (heard dev asked) = s
      at htested ⊢
    have hnot := behind_selfTest_notMem (mousePortClock cb)
      (keyboardReply dev (log ++ s) = 0x00) (mouseReply dev (log ++ s) = 0x00)
      (heard dev (log ++ s ++ [.outb controlPort keyboardInterfaceTest]))
      (heard dev (afterKeyboard dev (log ++ s) ++ [.outb controlPort mouseInterfaceTest]))
      (hplain' controllerSelfTest (by decide))
    have hjoin : ∀ r, before ++ .outb controlPort controllerSelfTest
        :: (inputs (heard dev asked) ++ r) = s ++ r := by
      intro r
      simp [← hs]
    have hafter := fun h => (List.mem_append.mp h).elim (outb_notMem_inputs (heard dev asked)) hnot
    rw [pastSelfTest_iff (heard dev asked) hself hnot rfl, before_once hself hafter, hjoin,
      behind_keyboard_earned _ _ _ _ _ htested hplain',
      behind_mouse_earned _ _ _ _ _ htested hplain',
      behind_keyboard_tested _ _ _ _ _ htested hplain',
      behind_mouse_tested _ _ _ _ _ htested hplain', hasked]
    have hkeyboard : log ++ (s ++ [.outb controlPort keyboardInterfaceTest])
        = log ++ s ++ [.outb controlPort keyboardInterfaceTest] := (List.append_assoc ..).symm
    have hmouse : log ++ (s ++ .outb controlPort keyboardInterfaceTest
        :: inputs (heard dev (log ++ s ++ [.outb controlPort keyboardInterfaceTest]))
          ++ [.outb controlPort mouseInterfaceTest])
        = afterKeyboard dev (log ++ s) ++ [.outb controlPort mouseInterfaceTest] := by
      simp [afterKeyboard]
    have hbehind' : ∀ d k m rs rs' t, behind d k m rs rs' t ≠ [] := fun _ _ _ _ _ _ => nofun
    simp only [answered_heard_iff, mistaken_iff, h55, hkeyboard, hmouse, hbehind', false_or,
      and_true, not_not, decide_eq_true_eq]
    rw [← keyboardReply, ← mouseReply]
    tauto
  · -- the driver gives up, and the self test is the only one sent
    rw [if_neg h55, List.append_nil]
    have hnone : ∀ c ∈ testing, c ≠ controllerSelfTest → ∀ Q, Writes (Before controlPort c Q)
        (before ++ .outb controlPort controllerSelfTest :: inputs (heard dev asked)) :=
      fun c hc hne Q => before_of_notMem (htested c hc hne)
    have hpast := (pastSelfTest_iff (heard dev asked) hself List.not_mem_nil rfl).mpr (.inl rfl)
    rw [List.append_nil] at hpast
    refine iff_of_true ⟨hpast, hnone _ (by decide) (by decide) _, hnone _ (by decide) (by decide) _⟩
      ⟨?_, hnone _ (by decide) (by decide) _, hnone _ (by decide) (by decide) _⟩
    rw [before_once hself (outb_notMem_inputs _), hasked, mistaken_iff]
    exact fun h => h55 h.2

/-- A controller that never shows a byte and holds 0x55 on its data port passes the self test. -/
theorem silent_controller_passes : ¬Writes Earned
    (i8042Init.trace (fun _ p => if p = dataPort then 0x55 else 0x00) []) := by
  generalize hdev : (fun (_ : List Transfer) p => if p = dataPort then (0x55 : Byte) else 0x00) = dev
  have hstatus : ∀ l, dev l controlPort = 0x00 := by
    intro l
    rw [← hdev]
    exact if_neg controlPort_ne_dataPort
  have hsilent : ∀ n l, ∀ s ∈ answers dev controlPort l n, ¬readable s := by
    intro n l
    rw [← replies_inb]
    refine forall_replies dev _ l (fun t => ?_) n
    rw [Driver.result_inb, hstatus]
    decide
  have hmistaken : ∀ l, Mistaken dev l 0x55 := by
    intro l
    refine ⟨hsilent 499 l, ?_⟩
    rw [hstatus, if_neg (by decide), ← hdev]
    exact if_pos rfl
  obtain ⟨before, cb, hk, hm, hplain, htrace⟩ := i8042Init_trace dev []
  have hself := plain_notMem hplain (show controllerSelfTest ∈ testing by decide)
  generalize [] ++ (before ++ [.outb controlPort controllerSelfTest]) = asked at htrace
  obtain ⟨htimely, h55⟩ := (mistaken_iff dev asked 0x55).mp (hmistaken asked)
  rw [htrace, if_pos h55]
  obtain ⟨t, ht, hbehind⟩ := interfaces_trace dev ([] ++ (before
    ++ .outb controlPort controllerSelfTest :: inputs (heard dev asked))) hk hm (mousePortClock cb)
  rw [hbehind, writes_earned]
  rintro ⟨hpast, -⟩
  have hnot := fun d k m rs rs' => behind_selfTest_notMem d k m rs rs'
    (plain_notMem ht (show controllerSelfTest ∈ testing by decide))
  rcases (pastSelfTest_iff (heard dev asked) hself (hnot _ _ _ _ _) rfl).mp hpast with h | h
  · cases h
  · exact htimely ((answered_heard_iff dev asked 0x55).mp h).1

end BasicX86Kernel.I8042
