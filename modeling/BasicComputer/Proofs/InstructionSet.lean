import BasicComputer.Proofs.Coding
import BasicComputer.Proofs.Cycle
import Mathlib.Logic.Function.Basic

/-!
# The instruction set

What a programmer knows of the computer: a processor that carries out one instruction at a time,
described without timing states. It has the registers and flags that instructions name, memory as a
function from addresses to words, and two byte queues. There is no address, data or instruction
register, and no sequence counter; instructions are told apart by their bits alone.

The main statement is that the machine, stepped from the beginning of one instruction to the
beginning of the next, does exactly what the processor does. It is put together from three parts:
service, the three timing states of a fetch, and the states that execute what was fetched.

## Two descriptions

The processor uses nothing of how the machine decodes, executes or serves. Its instructions are told
apart by numbers and not by a table of operations, a carry is a comparison of natural numbers, and
rotation is on seventeen bits. Where the two descriptions could have been the same, they are written
differently, so that a slip in one of them is not a slip in both.

## From the end

What is left of an instruction from some timing state on is shown before the states in front of it.
Each state then needs one step and the statement for the next. The states that no instruction
reaches do not occur, since every statement says where it starts.
-/

namespace BasicComputer

/-- The computer as its programmer sees it. -/
@[ext]
structure Processor where
  /-- The accumulator. -/
  ac : Word
  /-- The carry flag. -/
  e : Bool
  /-- The program counter. -/
  pc : Address
  /-- The input register. -/
  inpr : Byte
  /-- The output register. -/
  outr : Byte
  /-- Whether the processor runs. -/
  s : Bool
  /-- Whether interrupts are enabled. -/
  ien : Bool
  /-- Whether the input register holds a byte not yet read. -/
  fgi : Bool
  /-- Whether the output register is free for a byte. -/
  fgo : Bool
  memory : Address → Word
  /-- Bytes not yet consumed. -/
  input : List Byte
  /-- Bytes written, in order. -/
  output : List Byte

namespace Processor

/-! ## The effect of an instruction -/

/-- Replace a word of memory. -/
def store (p : Processor) (a : Address) (w : Word) : Processor :=
  { p with memory := Function.update p.memory a w }

/-- Pass over the next instruction. -/
def skipIf (condition : Bool) (p : Processor) : Processor :=
  if condition then { p with pc := p.pc + 1 } else p

/-- The carry flag and the accumulator as one number of seventeen bits. -/
def circle (e : Bool) (ac : Word) : BitVec 17 := (BitVec.ofBool e ++ ac : BitVec (1 + 16))

/-- Take the carry flag and the accumulator from seventeen bits. -/
def setCircle (p : Processor) (x : BitVec 17) : Processor :=
  { p with e := x.msb, ac := x.setWidth 16 }

/-- A word with its low byte replaced. -/
def mergeByte (w : Word) (b : Byte) : Word := (w.extractLsb' 8 8 ++ b : BitVec (8 + 8))

/-- What a memory reference with a given opcode does to the address `ea`. -/
def refer (p : Processor) (opcode : Nat) (ea : Address) : Processor :=
  let m := p.memory ea
  match opcode with
  | 0 => { p with ac := p.ac &&& m }
  | 1 => { p with ac := p.ac + m, e := decide (65536 ≤ p.ac.toNat + m.toNat) }
  | 2 => { p with ac := m }
  | 3 => p.store ea p.ac
  | 4 => { p with pc := ea }
  | 5 => { p.store ea (p.pc.setWidth 16) with pc := ea + 1 }
  | 6 => (p.store ea (m + 1)).skipIf (m + 1 == 0)
  | _ => p

/-- What a word that refers to no memory does. -/
def operate (p : Processor) (code : Nat) : Processor :=
  match code with
  | 0x7800 => { p with ac := 0 }
  | 0x7400 => { p with e := false }
  | 0x7200 => { p with ac := 65535 - p.ac }
  | 0x7100 => { p with e := !p.e }
  | 0x7080 => p.setCircle ((circle p.e p.ac).rotateRight 1)
  | 0x7040 => p.setCircle ((circle p.e p.ac).rotateLeft 1)
  | 0x7020 => { p with ac := p.ac + 1 }
  | 0x7010 => p.skipIf (decide (p.ac.toNat < 32768))
  | 0x7008 => p.skipIf (decide (32768 ≤ p.ac.toNat))
  | 0x7004 => p.skipIf (p.ac == 0)
  | 0x7002 => p.skipIf !p.e
  | 0x7001 => { p with s := false }
  | 0xF800 => { p with ac := mergeByte p.ac p.inpr, fgi := false }
  | 0xF400 => { p with outr := p.ac.setWidth 8, fgo := false }
  | 0xF200 => p.skipIf p.fgi
  | 0xF100 => p.skipIf p.fgo
  | 0xF080 => { p with ien := true }
  | 0xF040 => { p with ien := false }
  | _ => p

/-- The address that a word refers to. Its high bit asks for the address to be looked up. -/
def effectiveAddress (p : Processor) (w : Word) : Address :=
  if w.toNat < 32768 then w.setWidth 12 else (p.memory (w.setWidth 12)).setWidth 12

/-- What a word does as an instruction. -/
def perform (p : Processor) (w : Word) : Processor :=
  if w.toNat / 4096 % 8 < 7 then p.refer (w.toNat / 4096 % 8) (p.effectiveAddress w)
  else p.operate w.toNat

/-! ## One instruction -/

def serviceOutput (p : Processor) : Processor :=
  if p.fgo then p else { p with output := p.output ++ [p.outr], fgo := true }

def serviceInput (p : Processor) : Processor :=
  match p.fgi, p.input with
  | false, b :: rest => { p with inpr := b, ac := mergeByte p.ac b, fgi := true, input := rest }
  | _, _ => p

/-- One instruction: service, then the word at the program counter. -/
def step (p : Processor) : Processor :=
  let p := p.serviceOutput.serviceInput
  { p with pc := p.pc + 1 }.perform (p.memory p.pc)

end Processor

/-- What a programmer sees of a machine. -/
def Machine.processor (m : Machine) : Processor where
  ac := m.registers.ac
  e := m.flags.e
  pc := m.registers.pc
  inpr := m.registers.inpr
  outr := m.registers.outr
  s := m.flags.s
  ien := m.flags.ien
  fgi := m.flags.fgi
  fgo := m.flags.fgo
  memory := m.memory.read
  input := m.input
  output := m.output.toList

/-! ## Arithmetic of words -/

theorem not_msb_eq_decide (w : Word) : (!w.msb) = decide (w.toNat < 32768) := by
  rw [BitVec.msb_eq_decide, ← decide_not]
  simp

theorem complement_eq_sub (w : Word) : ~~~w = 65535 - w :=
  (BitVec.allOnes_sub_eq_not w).symm

theorem Fields.toNat_opcode (w : Word) : (Fields.ofWord w).opcode.toNat = w.toNat / 4096 % 8 := by
  rw [Fields.ofWord, BitVec.extractLsb'_toNat, Nat.shiftRight_eq_div_pow]

theorem Fields.indirect_eq_decide (w : Word) :
    (Fields.ofWord w).indirect = decide (32768 ≤ w.toNat) := by
  rw [Fields.ofWord, BitVec.msb_eq_decide]

namespace Processor

theorem withLowByte_eq_mergeByte (w : Word) (b : Byte) : withLowByte w b = mergeByte w b := by
  apply BitVec.eq_of_getLsbD_eq
  intro i hi
  simp only [withLowByte, mergeByte, BitVec.getLsbD_or, BitVec.getLsbD_shiftLeft,
    BitVec.getLsbD_ushiftRight, BitVec.getLsbD_append, BitVec.getLsbD_extractLsb',
    BitVec.getLsbD_setWidth]
  by_cases h : i < 8
  · simp [h, hi]
  · have h8 : 8 + (i - 8) = i := by omega
    have hlt : i - 8 < 8 := by omega
    simp [h, hi, h8, hlt, BitVec.getLsbD_of_ge b i (by omega)]

theorem getLsbD_circle (e : Bool) (ac : Word) (i : Nat) :
    (circle e ac).getLsbD i = if i < 16 then ac.getLsbD i else decide (i = 16) && e := by
  rw [circle, BitVec.getLsbD_append]
  by_cases h : i < 16
  · rw [if_pos h, if_pos h]
  · rw [if_neg h, if_neg h, BitVec.getLsbD_ofBool]
    congr 2
    exact propext (by omega)

/-- A step to the right moves the lowest bit into the carry flag. -/
theorem setCircle_rotateRight (p : Processor) :
    p.setCircle ((circle p.e p.ac).rotateRight 1) =
      { p with
        ac := p.ac >>> 1 ||| (BitVec.ofBool p.e).setWidth 16 <<< 15
        e := p.ac.getLsbD 0 } := by
  have he : ((circle p.e p.ac).rotateRight 1).msb = p.ac.getLsbD 0 := by
    rw [BitVec.msb_eq_getLsbD_last, BitVec.getLsbD_rotateRight, getLsbD_circle, getLsbD_circle]
    simp
  have hac : ((circle p.e p.ac).rotateRight 1).setWidth 16 =
      p.ac >>> 1 ||| (BitVec.ofBool p.e).setWidth 16 <<< 15 := by
    apply BitVec.eq_of_getLsbD_eq
    intro i hi
    rw [BitVec.getLsbD_setWidth, BitVec.getLsbD_rotateRight, getLsbD_circle, getLsbD_circle]
    by_cases h : i < 15
    · have h1 : 1 + i < 16 := by omega
      simp [h, hi, h1]
    · obtain rfl : i = 15 := by omega
      simp
  rw [setCircle, he, hac]

/-- A step to the left moves the highest bit into the carry flag. -/
theorem setCircle_rotateLeft (p : Processor) :
    p.setCircle ((circle p.e p.ac).rotateLeft 1) =
      { p with
        ac := p.ac <<< 1 ||| (BitVec.ofBool p.e).setWidth 16
        e := p.ac.msb } := by
  have he : ((circle p.e p.ac).rotateLeft 1).msb = p.ac.msb := by
    rw [BitVec.msb_eq_getLsbD_last, BitVec.getLsbD_rotateLeft, getLsbD_circle, getLsbD_circle,
      BitVec.msb_eq_getLsbD_last]
    simp
  have hac : ((circle p.e p.ac).rotateLeft 1).setWidth 16 =
      p.ac <<< 1 ||| (BitVec.ofBool p.e).setWidth 16 := by
    apply BitVec.eq_of_getLsbD_eq
    intro i hi
    rw [BitVec.getLsbD_setWidth, BitVec.getLsbD_rotateLeft, getLsbD_circle, getLsbD_circle]
    by_cases h : i = 0
    · subst h
      simp
    · have h1 : i - 1 < 16 := by omega
      have h2 : i < 17 := by omega
      simp [h, hi, h1, h2]
  rw [setCircle, he, hac]

end Processor

/-! ## Decoding -/

theorem MemoryOp.eq_of_ofOpcode?_eq_none {c : BitVec 3} (h : ofOpcode? c = none) : c = 7 := by
  revert c
  decide

namespace Processor

/-- A word outside the table of register and byte operations changes nothing. -/
theorem operate_of_ofCode?_eq_none (p : Processor) {w : Word} (hr : RegisterOp.ofCode? w = none)
    (hi : IoOp.ofCode? w = none) : p.operate w.toNat = p := by
  have hw : w = BitVec.ofNat 16 w.toNat := by simp
  unfold operate
  -- every code told apart here is the code of an operation in one of the two tables
  split
  case h_19 => rfl
  all_goals
    rename_i h
    rw [h] at hw
    subst hw
    first | exact absurd hr (by decide) | exact absurd hi (by decide)

theorem perform_of_some (p : Processor) {w : Word} {op : MemoryOp}
    (h : MemoryOp.ofOpcode? (Fields.ofWord w).opcode = some op) :
    p.perform w = p.refer op.opcode.toNat (p.effectiveAddress w) := by
  have hlt : op.opcode.toNat < 7 := by cases op <;> decide
  rw [perform, ← Fields.toNat_opcode, ← MemoryOp.opcode_of_ofOpcode? h, if_pos hlt]

theorem perform_of_none (p : Processor) {w : Word}
    (h : MemoryOp.ofOpcode? (Fields.ofWord w).opcode = none) :
    p.perform w = p.operate w.toNat := by
  rw [perform, ← Fields.toNat_opcode, MemoryOp.eq_of_ofOpcode?_eq_none h]
  rfl

end Processor

namespace Machine

/-! ## Service -/

theorem processor_serviceOutput (m : Machine) :
    m.serviceOutput.processor = m.processor.serviceOutput := by
  unfold serviceOutput Processor.serviceOutput
  by_cases h : m.flags.fgo
  · simp [h, processor]
  · simp [h, processor]

theorem processor_serviceInput (m : Machine) :
    m.serviceInput.processor = m.processor.serviceInput := by
  unfold serviceInput Processor.serviceInput
  cases hf : m.flags.fgi <;> cases hi : m.input <;>
    simp [hf, hi, processor, Processor.withLowByte_eq_mergeByte]

theorem processor_service {m : Machine} (h : m.registers.sc = 0) :
    m.service.processor = m.processor.serviceOutput.serviceInput := by
  rw [service, if_pos h, processor_serviceInput, processor_serviceOutput]

/-! ## Register and byte operations -/

theorem processor_skipIf (m : Machine) (condition : Bool) :
    (m.skipIf condition).processor = m.processor.skipIf condition := by
  unfold skipIf Processor.skipIf
  split <;> rfl

theorem processor_executeRegister (m : Machine) (op : RegisterOp) :
    (m.executeRegister op).processor = m.processor.operate op.code.toNat := by
  cases op with
  | cla | cle | cme | inc | hlt => rfl
  | cma =>
    have h : m.processor.operate RegisterOp.cma.code.toNat
        = { m.processor with ac := 65535 - m.processor.ac } := rfl
    rw [h, ← complement_eq_sub]
    rfl
  | cir => exact (Processor.setCircle_rotateRight m.processor).symm
  | cil => exact (Processor.setCircle_rotateLeft m.processor).symm
  | spa =>
    refine (processor_skipIf m _).trans ?_
    rw [not_msb_eq_decide]
    rfl
  | sna =>
    refine (processor_skipIf m _).trans ?_
    rw [BitVec.msb_eq_decide]
    rfl
  | sza | sze => exact processor_skipIf m _

theorem processor_executeIo (m : Machine) (op : IoOp) :
    (m.executeIo op).processor = m.processor.operate op.code.toNat := by
  cases op with
  | inp =>
    simp only [executeIo, Processor.withLowByte_eq_mergeByte]
    rfl
  | out | ion | iof => rfl
  | ski | sko => exact processor_skipIf m _

/-! ## Execution -/

variable {m : Machine}

/-- Finishing the current instruction leaves the programmer with `p`. -/
def Completes (m : Machine) (p : Processor) : Prop :=
  m.finish.registers.sc = 0 ∧ m.finish.processor = p

theorem completes_of_sc_eq {p : Processor} (h : m.registers.sc = 0) (hp : m.processor = p) :
    m.Completes p := by
  rw [Completes, finish_of_sc_eq h]
  exact ⟨h, hp⟩

/-- Past the first timing state, it remains to complete what the timing state leaves. -/
theorem completes_of_execute {t : TimingState} {p : Processor} (ht : t ≠ .t0) (hs : m.flags.s)
    (h : m.registers.sc = BitVec.ofNat _ t.index) (hp : ((m.execute t).tally t).Completes p) :
    m.Completes p := by
  obtain ⟨h0, hstep⟩ := step_of_sc ht hs h
  rw [Completes, finish_of_running hs h0, hstep]
  exact hp

theorem processor_write (m : Machine) (a : Address) (w : Word) :
    { m with memory := m.memory.write a w }.processor = m.processor.store a w := by
  have h : (m.memory.write a w).read = Function.update m.memory.read a w := by
    funext b
    by_cases hb : b = a
    · rw [hb, Memory.read_write_self, Function.update_self]
    · rw [Memory.read_write_of_ne _ (Ne.symm hb), Function.update_of_ne hb]
  simp only [processor, Processor.store, h]

/-- What is left of a memory operation at T5, for given address and data registers. -/
def conclude (p : Processor) (ar : Address) (dr : Word) : MemoryOp → Processor
  | .and => { p with ac := p.ac &&& dr }
  | .add => { p with ac := p.ac + dr, e := p.ac.uaddOverflow dr }
  | .lda => { p with ac := dr }
  | .bsa => { p with pc := ar }
  | .isz => (p.store ar (dr + 1)).skipIf (dr + 1 == 0)
  | .sta | .bun => p

theorem completes_t6 (hs : m.flags.s) (h : m.registers.sc = 6) :
    m.Completes ((m.processor.store m.registers.ar m.registers.dr).skipIf
      (m.registers.dr == 0)) := by
  refine completes_of_execute (t := .t6) (by decide) hs h ?_
  refine completes_of_sc_eq rfl ?_
  rw [← processor_write, ← processor_skipIf]
  rfl

theorem completes_t5 {op : MemoryOp} (hs : m.flags.s) (h : m.registers.sc = 5)
    (hop : memoryOp? m.registers = some op) :
    m.Completes (conclude m.processor m.registers.ar m.registers.dr op) := by
  refine completes_of_execute (t := .t5) (by decide) hs h ?_
  rw [execute, executeT5, hop]
  cases op with
  | isz =>
    let m6 : Machine := { m with registers.dr := m.registers.dr + 1, registers.sc := 6 }
    exact completes_t6 (m := m6.tally .t5) hs rfl
  | and | add | lda | sta | bun | bsa => exact completes_of_sc_eq rfl rfl

/-- From T4 on, a memory operation does to the address in the address register what it is said to
do to an address. -/
theorem completes_t4 {op : MemoryOp} (hs : m.flags.s) (h : m.registers.sc = 4)
    (hop : memoryOp? m.registers = some op) :
    m.Completes (m.processor.refer op.opcode.toNat m.registers.ar) := by
  refine completes_of_execute (t := .t4) (by decide) hs h ?_
  rw [execute, executeT4, hop]
  cases op with
  | sta => exact completes_of_sc_eq rfl (processor_write m _ _)
  | bun => exact completes_of_sc_eq rfl rfl
  | bsa =>
    -- the return address is stored already; T5 only moves on to the word behind it
    let m5 : Machine := { m with
      memory := m.memory.write m.registers.ar (m.registers.pc.setWidth 16)
      registers.ar := m.registers.ar + 1, registers.sc := 5 }
    have h5 := completes_t5 (m := m5.tally .t4) hs rfl hop
    have hp : (m5.tally .t4).processor
        = m.processor.store m.registers.ar (m.registers.pc.setWidth 16) := processor_write m _ _
    rw [hp] at h5
    exact h5
  | and | add | lda | isz =>
    let m5 : Machine :=
      { m with registers.dr := m.memory.read m.registers.ar, registers.sc := 5 }
    exact completes_t5 (m := m5.tally .t4) hs rfl hop

/-- From T3 on, the word in the instruction register is performed. -/
theorem completes_t3 (hs : m.flags.s) (h : m.registers.sc = 3)
    (har : m.registers.ar = lowAddress m.registers.ir) :
    m.Completes (m.processor.perform m.registers.ir) := by
  refine completes_of_execute (t := .t3) (by decide) hs h ?_
  rw [execute, executeT3, decode]
  cases hop : MemoryOp.ofOpcode? (Fields.ofWord m.registers.ir).opcode with
  | some op =>
    rw [Processor.perform_of_some _ hop, Processor.effectiveAddress]
    by_cases hi : m.registers.ir.toNat < 32768
    · have hm : (Fields.ofWord m.registers.ir).indirect = false := by
        rw [Fields.indirect_eq_decide, decide_eq_false (by omega)]
      rw [if_pos hi, hm]
      let m4 : Machine := m.goto 4
      have h4 := completes_t4 (m := m4.tally .t3) hs rfl hop
      rw [show (m4.tally .t3).registers.ar = lowAddress m.registers.ir from har] at h4
      exact h4
    · have hm : (Fields.ofWord m.registers.ir).indirect = true := by
        rw [Fields.indirect_eq_decide, decide_eq_true (by omega)]
      rw [if_neg hi, hm, har]
      let m4 : Machine := { m with
        registers.ar := lowAddress (m.memory.read (lowAddress m.registers.ir))
        registers.sc := 4 }
      exact completes_t4 (m := m4.tally .t3) hs rfl hop
  | none =>
    rw [Processor.perform_of_none _ hop]
    cases hr : RegisterOp.ofCode? m.registers.ir with
    | some op =>
      rw [← RegisterOp.code_of_ofCode? hr]
      exact completes_of_sc_eq rfl (processor_executeRegister m op)
    | none =>
      cases hi : IoOp.ofCode? m.registers.ir with
      | some op =>
        rw [← IoOp.code_of_ofCode? hi]
        exact completes_of_sc_eq rfl (processor_executeIo m op)
      | none =>
        rw [Processor.operate_of_ofCode?_eq_none _ hr hi]
        exact completes_of_sc_eq rfl rfl

/-- From the first timing state on, the machine does what the processor does in one step. -/
theorem completes_step (hs : m.flags.s) (h : m.registers.sc = 0) :
    m.step.Completes m.processor.step := by
  let m1 := (m.service.execute .t0).tally .t0
  let m2 := (m1.execute .t1).tally .t1
  let m3 := (m2.execute .t2).tally .t2
  have h1 : m.step = m1 := step_eq hs (by rw [timingState, h]; rfl)
  have hs1 : m1.flags.s := (service_s m).trans hs
  have hsc1 : m1.registers.sc = 1 := rfl
  have hsc2 : m2.registers.sc = 2 := rfl
  rw [h1]
  refine completes_of_execute (t := .t1) (by decide) hs1 hsc1 ?_
  refine completes_of_execute (m := m2) (t := .t2) (by decide) hs1 hsc2 ?_
  -- fetching changes nothing a programmer sees but the program counter
  have hp : m3.processor = { m.service.processor with pc := m.service.processor.pc + 1 } := rfl
  have hw : m3.registers.ir = m.service.processor.memory m.service.processor.pc := rfl
  have h3 := completes_t3 (m := m3) hs1 rfl rfl
  rw [hp, hw, processor_service h] at h3
  exact h3

end Machine

/-! ## The refinement -/

namespace Simulator

variable {σ : Type} [Sink σ]

/-- **Instruction-level refinement.** Stepped from the beginning of an instruction, a running
machine ends at the beginning of the next one, and its programmer sees exactly what one step of the
processor does; what no instruction can reach stays as it was. -/
theorem macroStep_refines_step (s : Simulator σ) (hl : s.machine.isLoaded)
    (hs : s.machine.flags.s) (h0 : s.machine.registers.sc = 0) :
    s.macroStep.1 = .ok () ∧
    s.macroStep.2.machine.registers.sc = 0 ∧
    s.macroStep.2.machine.processor = s.machine.processor.step ∧
    s.macroStep.2.machine.fixture = s.machine.fixture := by
  rw [macroStep_of_sc_eq hl h0, machine_finishInstruction, machine_advance]
  obtain ⟨hsc, hp⟩ := Machine.completes_step hs h0
  exact ⟨rfl, hsc, hp, (Machine.fixture_finish _).trans (Machine.fixture_step _)⟩

/-- About to increment a word found by way of another one, from its greatest value, with a byte to
deliver and a byte to take in. -/
def wrappingIsz : Simulator Channel where
  machine := { Machine.initial with
    memory := ((Memory.empty.write 0 0xE003).write 3 0x0005).write 5 0xFFFF
    flags := { Flags.start with fgi := false, fgo := false }
    input := [0x41]
    program := some ⟨[⟨0, 0xE003, "ISZ P I", 1⟩], [⟨3, 0x0005⟩, ⟨5, 0xFFFF⟩]⟩ }
  sink := .empty

theorem macroStep_wrappingIsz :
    wrappingIsz.machine.isLoaded ∧ wrappingIsz.machine.flags.s ∧
    wrappingIsz.machine.registers.sc = 0 ∧
    wrappingIsz.macroStep.1 = .ok () ∧
    wrappingIsz.macroStep.2.machine.registers.sc = 0 ∧
    wrappingIsz.macroStep.2.machine.processor = wrappingIsz.machine.processor.step ∧
    wrappingIsz.macroStep.2.machine.fixture = wrappingIsz.machine.fixture :=
  ⟨rfl, rfl, rfl, macroStep_refines_step wrappingIsz rfl rfl rfl⟩

end Simulator

end BasicComputer
