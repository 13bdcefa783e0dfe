import BasicComputer.Simulator

/-!
# Instruction cycles

An instruction takes several micro-steps. `Machine.finish` repeats the micro-step up to the end of
the instruction the machine is in; it is what a simulator does to its machine when it finishes an
instruction, whatever sink watches.

Two ways of reasoning about it are prepared here. What every micro-step keeps, `finish` keeps. And
where the timing state is known, a micro-step is the effect of that state and nothing else, since
service happens between instructions only.

Most of the machine is left alone by most of what it does. An equation that says what can change is
stated once for service and once for each kind of operation, and with it every component that it
does not mention is seen to stay what it is. Frames of timing states are the same for what they have
in common. Proofs that are about one component need not open the definitions of the others' changes.
-/

namespace BasicComputer

namespace Machine

/-! ## Service -/

/-- All that service can change: the accumulator and the input register, the flags of the two byte
registers, and the queues. -/
theorem service_eq (m : Machine) : ∃ ac inpr fgi fgo input output,
    m.service = { m with
      registers.ac := ac, registers.inpr := inpr, flags.fgi := fgi, flags.fgo := fgo,
      input := input, output := output } := by
  unfold service serviceInput serviceOutput
  repeat' split
  all_goals exact ⟨_, _, _, _, _, _, rfl⟩

theorem serviceOutput_eq (m : Machine) : ∃ fgo output,
    m.serviceOutput = { m with flags.fgo := fgo, output := output } := by
  rw [serviceOutput]
  split
  · exact ⟨m.flags.fgo, m.output, rfl⟩
  · exact ⟨_, _, rfl⟩

@[simp] theorem service_s (m : Machine) : m.service.flags.s = m.flags.s := by
  obtain ⟨_, _, _, _, _, _, h⟩ := m.service_eq
  rw [h]

theorem service_of_sc_ne {m : Machine} (h : m.registers.sc ≠ 0) : m.service = m := if_neg h

/-! ## One micro-step -/

/-- The micro-step of a running machine in the timing state `t`. -/
theorem step_eq {m : Machine} {t : TimingState} (hs : m.flags.s) (ht : m.timingState = some t) :
    m.step = (m.service.execute t).tally t := by
  have hsc : TimingState.ofCount? m.service.registers.sc = some t := by
    rw [service_sc]
    exact ht
  simp only [step, hs, if_true, hsc]

/-- Past the first timing state, a micro-step is the effect of its timing state: there is no
service. -/
theorem step_of_sc {m : Machine} {t : TimingState} (ht : t ≠ .t0) (hs : m.flags.s)
    (h : m.registers.sc = BitVec.ofNat _ t.index) :
    m.registers.sc ≠ 0 ∧ m.step = (m.execute t).tally t := by
  have h0 : m.registers.sc ≠ 0 := by
    rw [h]
    revert ht
    cases t <;> decide
  have hstate : m.timingState = some t := by
    rw [timingState, h]
    cases t <;> rfl
  refine ⟨h0, ?_⟩
  rw [step_eq hs hstate, service_of_sc_ne h0]

/-! ## What an operation can change -/

theorem skipIf_eq (m : Machine) (condition : Bool) :
    ∃ pc, m.skipIf condition = { m with registers.pc := pc } := by
  unfold skipIf
  split
  · exact ⟨_, rfl⟩
  · exact ⟨m.registers.pc, rfl⟩

theorem executeRegister_eq (m : Machine) (op : RegisterOp) : ∃ ac pc e s,
    m.executeRegister op = { m with
      registers.ac := ac, registers.pc := pc, flags.e := e, flags.s := s } := by
  cases op with
  | spa | sna | sza | sze =>
    obtain ⟨pc, h⟩ := m.skipIf_eq _
    exact ⟨_, pc, _, _, h⟩
  | cla | cle | cma | cme | cir | cil | inc | hlt => exact ⟨_, _, _, _, rfl⟩

theorem executeIo_eq (m : Machine) (op : IoOp) : ∃ ac pc outr ien fgi fgo,
    m.executeIo op = { m with
      registers.ac := ac, registers.pc := pc, registers.outr := outr, flags.ien := ien,
      flags.fgi := fgi, flags.fgo := fgo } := by
  cases op with
  | ski | sko =>
    obtain ⟨pc, h⟩ := m.skipIf_eq _
    exact ⟨_, pc, _, _, _, _, h⟩
  | inp | out | ion | iof => exact ⟨_, _, _, _, _, _, rfl⟩

/-! ## What no micro-step touches -/

/-- The parts of a machine that no instruction can reach: the temporary register, the table of what
was loaded where, and the program. -/
def fixture (m : Machine) : Word × Vector (Option Instruction) memorySize × Option Program :=
  (m.registers.tr, m.memory.sources, m.program)

theorem fixture_service (m : Machine) : m.service.fixture = m.fixture := by
  obtain ⟨_, _, _, _, _, _, h⟩ := m.service_eq
  rw [h]
  rfl

/-- What a timing state leaves alone on the way from `m` to `m'`. The queues and the counters are
left to service and to the tally. -/
structure Frame (t : TimingState) (m m' : Machine) : Prop where
  fixture : m'.fixture = m.fixture
  input : m'.input = m.input
  output : m'.output = m.output
  cycles : m'.cycles = m.cycles
  instructions : m'.instructions = m.instructions
  /-- Only T1 loads the instruction register. -/
  ir : t ≠ .t1 → m'.registers.ir = m.registers.ir
  /-- Only what ends its instruction halts the machine. -/
  s : m'.flags.s = m.flags.s ∨ m'.registers.sc = 0

theorem execute_frame (m : Machine) (t : TimingState) : Frame t m (m.execute t) := by
  cases t with
  | t0 | t2 => exact ⟨rfl, rfl, rfl, rfl, rfl, fun _ ↦ rfl, .inl rfl⟩
  | t1 => exact ⟨rfl, rfl, rfl, rfl, rfl, fun h ↦ absurd rfl h, .inl rfl⟩
  | t3 =>
    rw [execute, executeT3]
    cases decode m.registers.ir with
    | memory _ _ indirect =>
      cases indirect <;> exact ⟨rfl, rfl, rfl, rfl, rfl, fun _ ↦ rfl, .inl rfl⟩
    | register op =>
      obtain ⟨_, _, _, _, h⟩ := m.executeRegister_eq op
      dsimp only
      rw [h]
      exact ⟨rfl, rfl, rfl, rfl, rfl, fun _ ↦ rfl, .inr rfl⟩
    | io op =>
      obtain ⟨_, _, _, _, _, _, h⟩ := m.executeIo_eq op
      dsimp only
      rw [h]
      exact ⟨rfl, rfl, rfl, rfl, rfl, fun _ ↦ rfl, .inr rfl⟩
    | unknown _ => exact ⟨rfl, rfl, rfl, rfl, rfl, fun _ ↦ rfl, .inr rfl⟩
  | t4 | t5 =>
    simp only [execute, executeT4, executeT5]
    cases memoryOp? m.registers with
    | none => exact ⟨rfl, rfl, rfl, rfl, rfl, fun _ ↦ rfl, .inr rfl⟩
    | some op => cases op <;> exact ⟨rfl, rfl, rfl, rfl, rfl, fun _ ↦ rfl, .inl rfl⟩
  | t6 =>
    rw [execute, executeT6]
    obtain ⟨_, h⟩ := skipIf_eq { m with memory := m.memory.write m.registers.ar m.registers.dr }
      (m.registers.dr == 0)
    rw [h]
    exact ⟨rfl, rfl, rfl, rfl, rfl, fun _ ↦ rfl, .inr rfl⟩

theorem fixture_step (m : Machine) : m.step.fixture = m.fixture := by
  unfold step
  split
  · dsimp only
    split
    · exact fixture_service m
    · exact (m.service.execute_frame _).fixture.trans (fixture_service m)
  · rfl

/-! ## Whole instructions -/

/-- Micro-steps up to the end of the current instruction. -/
def finish (m : Machine) : Machine :=
  if m.flags.s ∧ m.registers.sc ≠ 0 then m.step.finish else m
termination_by m.remaining
decreasing_by
  rename_i h
  exact remaining_step_lt h.1 h.2

theorem finish_of_sc_eq {m : Machine} (h : m.registers.sc = 0) : m.finish = m := by
  rw [finish, if_neg fun hm ↦ hm.2 h]

theorem finish_of_running {m : Machine} (hs : m.flags.s) (h0 : m.registers.sc ≠ 0) :
    m.finish = m.step.finish := by
  rw [finish, if_pos ⟨hs, h0⟩]

/-- A property that every micro-step keeps still holds when the instruction is finished. -/
theorem finish_of_step {P : Machine → Prop} (hP : ∀ m, P m → P m.step) {m : Machine} (h : P m) :
    P m.finish := by
  induction m using finish.induct with
  | case1 m hm ih =>
    rw [finish_of_running hm.1 hm.2]
    exact ih (hP m h)
  | case2 m hm =>
    rw [finish, if_neg hm]
    exact h

theorem fixture_finish (m : Machine) : m.finish.fixture = m.fixture :=
  finish_of_step (P := fun m' ↦ m'.fixture = m.fixture) (fun m' h ↦ (fixture_step m').trans h) rfl

end Machine

namespace Simulator

variable {σ : Type} [Sink σ]

@[simp] theorem machine_advance (s : Simulator σ) : s.advance.machine = s.machine.step := rfl

/-- What a simulator does to its machine does not depend on who watches. -/
@[simp] theorem machine_finishInstruction (s : Simulator σ) :
    s.finishInstruction.machine = s.machine.finish := by
  induction s using finishInstruction.induct with
  | case1 s hs ih =>
    rw [finishInstruction, if_pos hs, ih, machine_advance, ← Machine.finish_of_running hs.1 hs.2]
  | case2 s hs => rw [finishInstruction, if_neg hs, Machine.finish, if_neg hs]

/-- An instruction begun at the first timing state, on a loaded machine. -/
theorem macroStep_of_sc_eq {s : Simulator σ} (hl : s.machine.isLoaded)
    (h0 : s.machine.registers.sc = 0) :
    s.macroStep = (.ok (), s.advance.finishInstruction) := by
  simp only [macroStep, ifLoaded, hl, h0, if_true]

end Simulator

end BasicComputer
