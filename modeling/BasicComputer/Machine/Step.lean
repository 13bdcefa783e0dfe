import BasicComputer.Machine
import BasicComputer.Operation

/-!
# Micro-steps

A running machine executes one timing state per micro-step:

* T0 puts the program counter into the address register;
* T1 fetches the instruction and advances the program counter;
* T2 takes the instruction's address field;
* T3 resolves indirection for a memory operation, and executes any other instruction completely;
* T4, T5 and T6 carry out a memory operation, as far as it needs them.

Before T0 the two byte registers are serviced: a byte put out is delivered, and a byte asked for is
taken in if one waits.

A sequence counter that selects no state, or a state that the instruction register has no business
with, starts the next instruction instead. Neither arises by running a program; it takes a hand that
changes a register.

## One equation for each state

Every timing state has a function of its own, and a micro-step is the service, the function of the
state, and the counting. Nothing is shared between states but the machine, so what holds of a step
is shown state by state.

## Why loops end

A run up to a limit of cycles, and a run up to the end of an instruction, are loops of micro-steps.
The second ends because the sequence counter only grows within an instruction. The first would end
because every step counts a cycle, if it were not for steps that only clear a counter that selects
no state. No two of them come in a row, and this is what its measure says.
-/

namespace BasicComputer.Machine

/-! ## Input and output service -/

/-- Deliver the byte in the output register if it is pending. -/
def serviceOutput (m : Machine) : Machine :=
  if m.flags.fgo then m
  else { m with output := m.output.push m.registers.outr, flags.fgo := true }

/-- Take in the next byte if one is asked for and one waits. -/
def serviceInput (m : Machine) : Machine :=
  match m.flags.fgi, m.input with
  | false, b :: rest =>
    { m with
      registers.inpr := b
      registers.ac := withLowByte m.registers.ac b
      flags.fgi := true
      input := rest }
  | _, _ => m

/-- Both services. They happen between instructions only. -/
def service (m : Machine) : Machine :=
  if m.registers.sc = 0 then m.serviceOutput.serviceInput else m

/-! ## Operations without a memory reference -/

def skipIf (condition : Bool) (m : Machine) : Machine :=
  if condition then { m with registers.pc := m.registers.pc + 1 } else m

/-- The effect of a register operation. -/
def executeRegister (m : Machine) : RegisterOp → Machine
  | .cla => { m with registers.ac := 0 }
  | .cle => { m with flags.e := false }
  | .cma => { m with registers.ac := ~~~m.registers.ac }
  | .cme => { m with flags.e := !m.flags.e }
  | .cir =>
    { m with
      registers.ac := m.registers.ac >>> 1 ||| (BitVec.ofBool m.flags.e).setWidth 16 <<< 15
      flags.e := m.registers.ac.getLsbD 0 }
  | .cil =>
    { m with
      registers.ac := m.registers.ac <<< 1 ||| (BitVec.ofBool m.flags.e).setWidth 16
      flags.e := m.registers.ac.msb }
  | .inc => { m with registers.ac := m.registers.ac + 1 }
  | .spa => m.skipIf !m.registers.ac.msb
  | .sna => m.skipIf m.registers.ac.msb
  | .sza => m.skipIf (m.registers.ac == 0)
  | .sze => m.skipIf !m.flags.e
  | .hlt => { m with flags.s := false }

/-- The effect of an input-output operation. -/
def executeIo (m : Machine) : IoOp → Machine
  | .inp =>
    { m with registers.ac := withLowByte m.registers.ac m.registers.inpr, flags.fgi := false }
  | .out => { m with registers.outr := lowByte m.registers.ac, flags.fgo := false }
  | .ski => m.skipIf m.flags.fgi
  | .sko => m.skipIf m.flags.fgo
  | .ion => { m with flags.ien := true }
  | .iof => { m with flags.ien := false }

/-! ## The timing states -/

def goto (m : Machine) (sc : SequenceCount) : Machine := { m with registers.sc := sc }

/-- The memory operation in the instruction register. -/
def memoryOp? (r : Registers) : Option MemoryOp :=
  MemoryOp.ofOpcode? (Fields.ofWord r.ir).opcode

/-- T3: resolve indirection, or execute. -/
def executeT3 (m : Machine) : Machine :=
  match decode m.registers.ir with
  | .memory _ _ true =>
    { m with registers.ar := lowAddress (m.memory.read m.registers.ar), registers.sc := 4 }
  | .memory _ _ false => m.goto 4
  | .register op => (m.executeRegister op).goto 0
  | .io op => (m.executeIo op).goto 0
  | .unknown _ => m.goto 0

/-- T4: the first part of a memory operation. -/
def executeT4 (m : Machine) : Machine :=
  match memoryOp? m.registers with
  | none => m.goto 0
  | some op =>
    match op with
    | .and | .add | .lda | .isz =>
      { m with registers.dr := m.memory.read m.registers.ar, registers.sc := 5 }
    | .sta => { m with memory := m.memory.write m.registers.ar m.registers.ac, registers.sc := 0 }
    | .bun => { m with registers.pc := m.registers.ar, registers.sc := 0 }
    | .bsa =>
      { m with
        memory := m.memory.write m.registers.ar (m.registers.pc.setWidth 16)
        registers.ar := m.registers.ar + 1
        registers.sc := 5 }

/-- T5: the second part of a memory operation. -/
def executeT5 (m : Machine) : Machine :=
  match memoryOp? m.registers with
  | none => m.goto 0
  | some op =>
    match op with
    | .and => { m with registers.ac := m.registers.ac &&& m.registers.dr, registers.sc := 0 }
    | .add =>
      { m with
        registers.ac := m.registers.ac + m.registers.dr
        flags.e := m.registers.ac.uaddOverflow m.registers.dr
        registers.sc := 0 }
    | .lda => { m with registers.ac := m.registers.dr, registers.sc := 0 }
    | .bsa => { m with registers.pc := m.registers.ar, registers.sc := 0 }
    | .isz => { m with registers.dr := m.registers.dr + 1, registers.sc := 6 }
    | .sta | .bun => m.goto 0

/-- T6: write an incremented word back, and pass over the next instruction if it became zero. -/
def executeT6 (m : Machine) : Machine :=
  (skipIf (m.registers.dr == 0)
    { m with memory := m.memory.write m.registers.ar m.registers.dr }).goto 0

def execute (m : Machine) : TimingState → Machine
  | .t0 => { m with registers.ar := m.registers.pc, registers.sc := 1 }
  | .t1 =>
    { m with
      registers.ir := m.memory.read m.registers.ar
      registers.pc := m.registers.pc + 1
      registers.sc := 2 }
  | .t2 => { m with registers.ar := (Fields.ofWord m.registers.ir).address, registers.sc := 3 }
  | .t3 => m.executeT3
  | .t4 => m.executeT4
  | .t5 => m.executeT5
  | .t6 => m.executeT6

/-- Count a timing state, and an instruction if this was its last one. -/
def tally (m : Machine) (t : TimingState) : Machine :=
  { m with
    cycles := m.cycles + 1
    instructions := if t ≠ .t0 ∧ m.registers.sc = 0 then m.instructions + 1 else m.instructions }

/-- One micro-step. A halted machine stays as it is; a sequence counter that selects no state is
cleared, which counts as no cycle. -/
def step (m : Machine) : Machine :=
  if m.flags.s then
    let m := m.service
    match TimingState.ofCount? m.registers.sc with
    | none => m.goto 0
    | some t => (m.execute t).tally t
  else m

/-! ## What a micro-step does to the sequence and cycle counters -/

theorem service_sc (m : Machine) : m.service.registers.sc = m.registers.sc := by
  unfold service serviceInput serviceOutput
  repeat' split
  all_goals rfl

theorem service_cycles (m : Machine) : m.service.cycles = m.cycles := by
  unfold service serviceInput serviceOutput
  repeat' split
  all_goals rfl

theorem cycles_skipIf (condition : Bool) (m : Machine) :
    (m.skipIf condition).cycles = m.cycles := by
  cases condition with
  | false => rfl
  | true => rfl

theorem cycles_executeRegister (m : Machine) (op : RegisterOp) :
    (m.executeRegister op).cycles = m.cycles := by
  cases op with
  | spa | sna | sza | sze => exact cycles_skipIf _ m
  | cla | cle | cma | cme | cir | cil | inc | hlt => rfl

theorem cycles_executeIo (m : Machine) (op : IoOp) : (m.executeIo op).cycles = m.cycles := by
  cases op with
  | ski | sko => exact cycles_skipIf _ m
  | inp | out | ion | iof => rfl

theorem cycles_executeT3 (m : Machine) : m.executeT3.cycles = m.cycles := by
  rw [executeT3]
  cases decode m.registers.ir with
  | memory op address indirect => cases indirect <;> rfl
  | register op => exact cycles_executeRegister m op
  | io op => exact cycles_executeIo m op
  | unknown w => rfl

theorem cycles_executeT4 (m : Machine) : m.executeT4.cycles = m.cycles := by
  rw [executeT4]
  cases memoryOp? m.registers with
  | none => rfl
  | some op => cases op <;> rfl

theorem cycles_executeT5 (m : Machine) : m.executeT5.cycles = m.cycles := by
  rw [executeT5]
  cases memoryOp? m.registers with
  | none => rfl
  | some op => cases op <;> rfl

theorem execute_cycles (m : Machine) (t : TimingState) : (m.execute t).cycles = m.cycles := by
  cases t with
  | t0 | t1 | t2 => rfl
  | t3 => exact cycles_executeT3 m
  | t4 => exact cycles_executeT4 m
  | t5 => exact cycles_executeT5 m
  | t6 => exact cycles_skipIf _ _

theorem execute_sc (m : Machine) (t : TimingState) :
    (m.execute t).registers.sc = 0 ∨ (m.execute t).registers.sc.toNat = t.index + 1 := by
  cases t <;> simp only [execute, executeT3, executeT4, executeT5, executeT6, goto, skipIf]
  case t0 | t1 | t2 => exact .inr rfl
  case t3 => split <;> first | exact .inl rfl | exact .inr rfl
  case t4 | t5 =>
    split
    · exact .inl rfl
    · split <;> first | exact .inl rfl | exact .inr rfl
  case t6 => exact .inl trivial

/-- How far the machine is from the end of its instruction, at most. -/
def remaining (m : Machine) : Nat :=
  if m.registers.sc = 0 then 0 else 16 - m.registers.sc.toNat

theorem remaining_step_lt {m : Machine} (hs : m.flags.s) (h : m.registers.sc ≠ 0) :
    m.step.remaining < m.remaining := by
  have hm := m.registers.sc.isLt
  have hr : m.remaining = 16 - m.registers.sc.toNat := if_neg h
  rw [hr]
  simp only [step, hs, if_true]
  split
  · simp [remaining, goto]
    omega
  · next t ht =>
    have hi := TimingState.ofCount?_eq_some ht
    rw [service_sc] at hi
    have ht : ((m.service.execute t).tally t).remaining = (m.service.execute t).remaining := rfl
    rw [ht, remaining]
    rcases execute_sc m.service t with h0 | h1
    · rw [if_pos h0]
      omega
    · split <;> omega

/-- A micro-step counts as a cycle, unless it clears a sequence counter that selects no state. -/
theorem cycles_step {m : Machine} (hs : m.flags.s) :
    m.step.cycles = m.cycles + 1 ∨
      m.step.cycles = m.cycles ∧ 7 ≤ m.registers.sc.toNat ∧ m.step.registers.sc = 0 := by
  simp only [step, hs, if_true]
  split
  · next ht =>
    have hi := TimingState.ofCount?_eq_none ht
    rw [service_sc] at hi
    exact .inr ⟨service_cycles m, hi, rfl⟩
  · exact .inl (by simp [tally, execute_cycles, service_cycles])

/-- Every micro-step of a running machine gets closer to a limit on the cycle counter: the one that
does not count leaves a sequence counter with which the next one does. -/
theorem distance_step_lt {m : Machine} {limit : Nat} (hs : m.flags.s) (h : m.cycles < limit) :
    2 * (limit - m.step.cycles) + (if 7 ≤ m.step.registers.sc.toNat then 1 else 0) <
      2 * (limit - m.cycles) + if 7 ≤ m.registers.sc.toNat then 1 else 0 := by
  rcases cycles_step hs with h1 | ⟨h1, h2, h3⟩
  · rw [h1]
    split <;> split <;> omega
  · rw [h1, h3, if_pos h2]
    simp

end BasicComputer.Machine
