import BasicComputer.Proofs.Counters
import BasicComputer.Proofs.InstructionSet
import BasicComputer.Proofs.Termination

/-!
# Timed runs

How long a program runs can be told from its instructions: each takes as many micro-steps as its
operation has timing states, and nothing else takes any. So a run of the processor from one
instruction to a later one has a length, the sum of these, and the machine gets along it with
exactly so many micro-steps.

That makes it possible to time a program without a look at timing states. One says what its
instructions do to the processor, one after the other, and a loop is timed by induction on its
rounds.

## From instructions to micro-steps

A run of the processor is a relation with a length, and runs are put together by transitivity. It
says nothing of the machine. That the machine follows is shown once for one instruction and then for
runs, so a program is timed without ever being stepped.

Of each instruction two things are needed: what it does, and that it takes as many micro-steps as
its operation has timing states. The second holds for all operations at once, by the account of the
sequence counter that coherent registers give.
-/

namespace BasicComputer

namespace Processor

/-! ## One instruction, by its operation -/

/-- The operation that the word at the program counter stands for. -/
def upcoming (p : Processor) : Operation := decode (p.memory p.pc)

/-- The processor when both byte registers have been serviced. -/
def serviced (p : Processor) : Processor := p.serviceOutput.serviceInput

theorem memory_serviced (p : Processor) : p.serviced.memory = p.memory := by
  unfold serviced serviceInput serviceOutput
  repeat' split
  all_goals rfl

theorem pc_serviced (p : Processor) : p.serviced.pc = p.pc := by
  unfold serviced serviceInput serviceOutput
  repeat' split
  all_goals rfl

/-- The processor with the word at the program counter behind it. -/
def fetch (p : Processor) : Processor := { p.serviced with pc := p.serviced.pc + 1 }

section Fetch

variable {p : Processor}

/-- While no byte is asked for, a fetch changes nothing but the program counter and what has been
put out. -/
theorem fetch_of_fgi (hi : p.fgi) :
    p.fetch = { p with pc := p.pc + 1, fgo := true, output := p.serviceOutput.output } := by
  simp only [fetch, serviced, serviceInput, serviceOutput]
  by_cases ho : p.fgo
  · simp [hi, ho]
  · simp [hi, ho]

/-- A byte that is asked for comes with the fetch. -/
theorem fetch_of_asked (hi : p.fgi = false) (ho : p.fgo) {b : Byte} {rest : List Byte}
    (hinput : p.input = b :: rest) :
    p.fetch = { p with
      inpr := b
      ac := mergeByte p.ac b
      fgi := true
      input := rest
      pc := p.pc + 1 } := by
  simp only [fetch, serviced, serviceOutput, serviceInput, hi, ho, hinput, if_true]

end Fetch

theorem step_eq_perform (p : Processor) : p.step = p.fetch.perform (p.memory p.pc) := by
  rw [← memory_serviced, ← pc_serviced]
  rfl

theorem step_of_memory {p : Processor} {op : MemoryOp} {a : Word}
    (h : p.upcoming = .memory op a false) :
    p.step = p.fetch.refer op.opcode.toNat (lowAddress a) := by
  have hfields : Fields.ofWord (p.memory p.pc) = ⟨op.opcode, lowAddress a, false⟩ := by
    rw [← encode_decode (p.memory p.pc), ← Fields.ofWord_encode_memory, ← h]
    rfl
  have hdirect : ¬32768 ≤ (p.memory p.pc).toNat := by
    rw [← decide_eq_false_iff_not, ← Fields.indirect_eq_decide, hfields]
  have haddress : (p.memory p.pc).setWidth 12 = lowAddress a := congrArg Fields.address hfields
  have hop : MemoryOp.ofOpcode? (Fields.ofWord (p.memory p.pc)).opcode = some op := by
    rw [hfields, MemoryOp.ofOpcode?_opcode]
  rw [step_eq_perform, perform_of_some _ hop, effectiveAddress, if_pos (Nat.lt_of_not_le hdirect),
    haddress]

theorem step_of_register {p : Processor} {op : RegisterOp} (h : p.upcoming = .register op) :
    p.step = p.fetch.operate op.code.toNat := by
  have hword : p.memory p.pc = op.code := by
    rw [← encode_decode (p.memory p.pc), ← upcoming, h]
    rfl
  rw [step_eq_perform, hword]
  refine perform_of_none _ ?_
  cases op <;> rfl

theorem step_of_io {p : Processor} {op : IoOp} (h : p.upcoming = .io op) :
    p.step = p.fetch.operate op.code.toNat := by
  have hword : p.memory p.pc = op.code := by
    rw [← encode_decode (p.memory p.pc), ← upcoming, h]
    rfl
  rw [step_eq_perform, hword]
  refine perform_of_none _ ?_
  cases op <;> rfl

/-! ## Runs -/

/-- The processor runs from `p` to `q` by instructions that take `n` micro-steps together. -/
inductive Runs : Nat → Processor → Processor → Prop
  | refl (p : Processor) : Runs 0 p p
  | step {n : Nat} {p q : Processor} (hs : p.s) (h : Runs n p.step q) :
    Runs (p.upcoming.duration + n) p q

theorem Runs.trans {a b : Nat} {p q r : Processor} (h : Runs a p q) (h' : Runs b q r) :
    Runs (a + b) p r := by
  induction h with
  | refl p =>
    rw [Nat.zero_add]
    exact h'
  | step hs _ ih =>
    rw [Nat.add_assoc]
    exact .step hs (ih h')

section Instruction

variable {p q : Processor} (hs : p.s)

include hs

/-- One instruction whose operation is known. -/
theorem Runs.of_step {op : Operation} (hop : p.upcoming = op) (h : p.step = q) :
    Runs op.duration p q := by
  subst hop h
  exact .step hs (.refl _)

theorem Runs.of_memory (op : MemoryOp) (a : Address)
    (hw : p.memory p.pc = encode (.memory op (a.setWidth 16) false))
    (h : p.fetch.refer op.opcode.toNat a = q) : Runs op.duration p q := by
  have hop : p.upcoming = .memory op (a.setWidth 16) false := by
    rw [upcoming, hw, decode_encode_memory, lowAddress_setWidth]
  have hstep := step_of_memory hop
  rw [lowAddress_setWidth] at hstep
  exact .of_step hs hop (hstep.trans h)

theorem Runs.of_register (op : RegisterOp) (hw : p.memory p.pc = encode (.register op))
    (h : p.fetch.operate op.code.toNat = q) : Runs 4 p q := by
  have hop : p.upcoming = .register op := by
    rw [upcoming, hw, decode_encode_register]
  exact .of_step hs hop ((step_of_register hop).trans h)

theorem Runs.of_io (op : IoOp) (hw : p.memory p.pc = encode (.io op))
    (h : p.fetch.operate op.code.toNat = q) : Runs 4 p q := by
  have hop : p.upcoming = .io op := by
    rw [upcoming, hw, decode_encode_io]
  exact .of_step hs hop ((step_of_io hop).trans h)

end Instruction

/-! ## Loops -/

/-- A counter that is not at its end counts up by one as a number, too. -/
theorem toNat_succ_of_lt {counter : Word} (h : counter.toNat < 65535) :
    (counter + 1).toNat = counter.toNat + 1 ∧ counter + 1 ≠ 0 := by
  have hsucc : (counter + 1).toNat = counter.toNat + 1 := by
    rw [BitVec.toNat_add]
    exact Nat.mod_eq_of_lt (Nat.succ_lt_succ h)
  refine ⟨hsucc, fun hzero ↦ ?_⟩
  rw [hzero] at hsucc
  cases hsucc

/-- The rule for loops that count up to zero. If every round but the last takes `a` micro-steps and
keeps up an invariant of counter and processor, and the last round takes `b`, then all rounds are
made: as many as there are from the counter to zero, where zero itself counts as 65536. -/
theorem Runs.of_rounds {a b : Nat} {invariant : Word → Processor → Prop} {ends : Processor → Prop}
    (hround : ∀ counter p, counter.toNat < 65535 → invariant counter p →
      ∃ q, Runs a p q ∧ invariant (counter + 1) q)
    (hlast : ∀ p, invariant 65535 p → ∃ q, Runs b p q ∧ ends q)
    {counter : Word} {p : Processor} (h : invariant counter p) :
    ∃ q, Runs (a * (65535 - counter.toNat) + b) p q ∧ ends q := by
  induction hrounds : 65535 - counter.toNat generalizing counter p with
  | zero =>
    obtain rfl : counter = 65535 := by
      apply BitVec.eq_of_toNat_eq
      have hlt := counter.isLt
      show counter.toNat = 65535
      omega
    rw [Nat.mul_zero, Nat.zero_add]
    exact hlast p h
  | succ n ih =>
    have hlt : counter.toNat < 65535 := by omega
    obtain ⟨q, hfirst, hq⟩ := hround counter p hlt h
    have hsucc := (toNat_succ_of_lt hlt).1
    obtain ⟨r, hothers, hr⟩ := ih hq (by omega)
    refine ⟨r, ?_, hr⟩
    rw [Nat.mul_succ, Nat.add_comm (a * n) a, Nat.add_assoc]
    exact hfirst.trans hothers

end Processor

namespace Machine

variable {m : Machine} {n : Nat}

theorem stepsToFinish_eq_iff : m.stepsToFinish = n ↔ LoopsFor InInstruction n m :=
  ⟨fun h ↦ h ▸ loopsFor_stepsToFinish m, fun h ↦ (loopsFor_stepsToFinish m).unique h⟩

theorem finish_eq_iterate (m : Machine) : m.finish = step^[m.stepsToFinish] m := by
  have h := congrArg Simulator.machine (Simulator.finishInstruction_eq ⟨m, EventLog.empty⟩)
  rwa [Simulator.machine_finishInstruction, Simulator.machine_iterate_advance] at h

/-! ## The length of an instruction -/

theorem goes_on_step (hs : m.flags.s) (h : m.registers.Coherent)
    (hmore : m.registers.sc.toNat + 1 < (decode m.registers.ir).duration) :
    m.step.flags.s ∧ m.step.registers.sc.toNat = m.registers.sc.toNat + 1 := by
  have hcounts := (counts_step hs h).2
  rw [if_neg hmore.ne] at hcounts
  have hsc := (Prod.mk.inj hcounts).1
  refine ⟨?_, hsc⟩
  by_contra hhalts
  have h0 := sc_step_of_halts hs (isHalted_iff.mpr (Bool.not_eq_true _ ▸ hhalts))
  rw [h0] at hsc
  cases hsc

/-- Once its word is fetched, an instruction goes on for the timing states that are left. -/
theorem loopsFor_of_fetched (hs : m.flags.s) (h : m.registers.Coherent)
    (h2 : 2 ≤ m.registers.sc.toNat)
    (hlt : m.registers.sc.toNat < (decode m.registers.ir).duration) :
    LoopsFor InInstruction ((decode m.registers.ir).duration - m.registers.sc.toNat) m := by
  induction hn : (decode m.registers.ir).duration - m.registers.sc.toNat generalizing m with
  | zero => omega
  | succ n ih =>
    have h0 : m.registers.sc ≠ 0 := by
      intro h0
      rw [h0] at h2
      exact absurd h2 (by decide)
    refine loopsFor_succ_iff.mpr ⟨⟨hs, h0⟩, ?_⟩
    by_cases hlast : m.registers.sc.toNat + 1 = (decode m.registers.ir).duration
    · have hcounts := (counts_step hs h).2
      rw [if_pos hlast] at hcounts
      have hend : m.step.registers.sc = 0 := BitVec.eq_of_toNat_eq (Prod.mk.inj hcounts).1
      obtain rfl : n = 0 := by omega
      exact loopsFor_zero_iff.mpr fun hm ↦ hm.2 hend
    · obtain ⟨hs', hsc⟩ := goes_on_step hs h (by omega)
      have hir : m.step.registers.ir = m.registers.ir := by
        obtain ⟨t, ht, -⟩ := exists_timingState h
        refine ir_step hs ht ?_
        rintro rfl
        rw [TimingState.ofCount?_eq_some ht] at h2
        exact absurd h2 (by decide)
      refine ih hs' (coherent_step h) ?_ ?_ ?_
      · omega
      · rw [hir]
        omega
      · rw [hir]
        omega

theorem fetches_upcoming (hs : m.flags.s) (h0 : m.registers.sc = 0) :
    m.step.flags.s ∧ m.step.registers.sc = 1 ∧
    m.step.step.flags.s ∧ m.step.step.registers.sc = 2 ∧
    decode m.step.step.registers.ir = m.processor.upcoming := by
  have h : m.registers.Coherent := Registers.coherent_of_sc_le (by rw [h0]; decide)
  have hlong (w : Word) : 4 ≤ (decode w).duration := (decode w).four_le_duration
  obtain ⟨hs1, hsc1⟩ := goes_on_step hs h (by rw [h0]; exact lt_of_lt_of_le (by decide) (hlong _))
  rw [h0] at hsc1
  obtain ⟨hs2, hsc2⟩ := goes_on_step hs1 (coherent_step h)
    (by rw [hsc1]; exact lt_of_lt_of_le (by decide) (hlong _))
  rw [hsc1] at hsc2
  have h1 : m.step.registers.sc = 1 := BitVec.eq_of_toNat_eq hsc1
  refine ⟨hs1, h1, hs2, BitVec.eq_of_toNat_eq hsc2, ?_⟩
  have hstep : m.step = (m.service.execute .t0).tally .t0 :=
    step_eq hs (by rw [timingState, h0]; rfl)
  have hfetch : m.step.step = (m.step.execute .t1).tally .t1 :=
    (step_of_sc (t := .t1) (by decide) hs1 h1).2
  have hword : m.step.step.registers.ir = m.service.processor.memory m.service.processor.pc := by
    rw [hfetch, hstep]
    rfl
  rw [hword, processor_service h0, ← Processor.serviced, Processor.memory_serviced,
    Processor.pc_serviced]
  rfl

/-- An instruction takes as many micro-steps as its operation has timing states: the first in any
case, and the others as long as the machine is in the instruction. -/
theorem loopsFor_upcoming (hs : m.flags.s) (h0 : m.registers.sc = 0) :
    LoopsFor InInstruction (m.processor.upcoming.duration - 1) m.step := by
  obtain ⟨hs1, hsc1, hs2, hsc2, hop⟩ := fetches_upcoming hs h0
  have hlong := m.processor.upcoming.four_le_duration
  have hrest := loopsFor_of_fetched hs2 (coherent_step_of_running hs1)
    (by rw [hsc2]; decide) (by rw [hop, hsc2]; exact lt_of_lt_of_le (by decide) hlong)
  rw [hop, hsc2] at hrest
  have hsplit : m.processor.upcoming.duration - 1 = m.processor.upcoming.duration - 2 + 1 := by
    omega
  rw [hsplit]
  exact loopsFor_succ_iff.mpr ⟨⟨hs1, by rw [hsc1]; decide⟩, hrest⟩

/-- The machine runs up to the last micro-step of an instruction, and then its programmer sees what
one step of the processor does. -/
theorem iterate_step_upcoming (hs : m.flags.s) (h0 : m.registers.sc = 0) :
    (∀ k < m.processor.upcoming.duration, (step^[k] m).flags.s) ∧
    (step^[m.processor.upcoming.duration] m).registers.sc = 0 ∧
    (step^[m.processor.upcoming.duration] m).processor = m.processor.step := by
  have hloop := loopsFor_upcoming hs h0
  have hlong := m.processor.upcoming.four_le_duration
  have hfinish : step^[m.processor.upcoming.duration] m = m.step.finish := by
    rw [finish_eq_iterate, stepsToFinish_eq_iff.mpr hloop, ← Function.iterate_succ_apply]
    congr 1
    omega
  refine ⟨?_, hfinish ▸ completes_step hs h0⟩
  rintro (_ | k) hk
  · exact hs
  · exact (hloop.before k (by omega)).1

/-! ## The length of a run -/

/-- The machine gets along a run of the processor with as many micro-steps as the run is long, and
it does not halt on the way. -/
theorem iterate_step_of_runs {q : Processor} (h0 : m.registers.sc = 0)
    (h : m.processor.Runs n q) :
    (∀ k < n, (step^[k] m).flags.s) ∧ (step^[n] m).registers.sc = 0 ∧
    (step^[n] m).processor = q := by
  generalize hp : m.processor = p at h
  induction h generalizing m with
  | refl p => exact ⟨fun k hk ↦ absurd hk k.not_lt_zero, h0, hp⟩
  | @step n p q hs _ ih =>
    subst hp
    obtain ⟨hbefore, hsc, hnext⟩ := iterate_step_upcoming hs h0
    obtain ⟨hrest, hend⟩ := ih hsc hnext
    rw [Nat.add_comm, Function.iterate_add_apply]
    refine ⟨?_, hend⟩
    intro k hk
    by_cases hfirst : k < m.processor.upcoming.duration
    · exact hbefore k hfirst
    · obtain ⟨j, rfl⟩ := Nat.exists_eq_add_of_le' (Nat.le_of_not_lt hfirst)
      rw [Function.iterate_add_apply]
      exact hrest j (by omega)

/-- A machine with a program that has not taken a micro-step. -/
structure Ready (m : Machine) (p : Processor) : Prop where
  isLoaded : m.isLoaded
  sc : m.registers.sc = 0
  cycles : m.cycles = 0
  processor : m.processor = p

theorem Ready.setInput {p : Processor} (h : m.Ready p) (bytes : List Byte) :
    (m.setInput bytes).Ready { p with input := bytes } where
  isLoaded := h.isLoaded
  sc := h.sc
  cycles := h.cycles
  processor := congrArg (fun p : Processor ↦ { p with input := bytes }) h.processor

/-- A run to a processor that has stopped takes the machine to where it halts. -/
theorem loopsFor_of_runs {q : Processor} (h0 : m.registers.sc = 0) (h : m.processor.Runs n q)
    (hq : q.s = false) : LoopsFor (·.flags.s) n m := by
  obtain ⟨hbefore, -, hend⟩ := iterate_step_of_runs h0 h
  refine ⟨hbefore, ?_⟩
  rw [show (step^[n] m).flags.s = q.s from congrArg Processor.s hend, hq]
  exact Bool.noConfusion

/-- With coherent registers, every micro-step up to the halt is a cycle. -/
theorem cycles_of_loopsFor (h : m.registers.Coherent) (hn : LoopsFor (·.flags.s) n m) {k : Nat}
    (hk : k ≤ n) : (step^[k] m).cycles = m.cycles + k := by
  induction k with
  | zero => rfl
  | succ k ih =>
    rw [Function.iterate_succ_apply',
      (counts_step (hn.before k hk) (coherent_iterate_step h k)).1, ih (Nat.le_of_succ_le hk),
      Nat.add_assoc]

end Machine

namespace Simulator

variable {σ : Type} [Sink σ] {s : Simulator σ} {n : Nat}

theorem run_of_loopsFor (hl : s.machine.isLoaded) (h : s.machine.registers.Coherent)
    (hn : Machine.LoopsFor (·.flags.s) n s.machine)
    (hmax : s.machine.cycles + n ≤ Machine.maxCycles) :
    s.run = some (.ok n, advance^[n] s) := by
  have hlimit : Machine.LoopsFor (Machine.BelowLimit Machine.maxCycles) n s.machine := by
    refine ⟨?_, fun hend ↦ hn.ends hend.1⟩
    intro k hk
    refine ⟨hn.before k hk, ?_⟩
    rw [Machine.cycles_of_loopsFor h hn hk.le]
    omega
  have hruns : s.runTo Machine.maxCycles = advance^[n] s := by
    rw [runTo_eq, (Machine.loopsFor_stepsToLimit _ s.machine).unique hlimit]
  rw [run_eq_some_iff hl, machine_iterate_advance]
  refine ⟨hruns, ?_, ?_⟩
  · rw [Machine.isHalted_iff, ← Bool.not_eq_true]
    exact hn.ends
  · rw [Machine.cycles_of_loopsFor h hn le_rfl, Nat.add_sub_cancel_left]

/-- A machine that is ready runs as its processor does, to the halt. -/
theorem run_of_runs {p q : Processor} (h : s.machine.Ready p) (hr : p.Runs n q) (hq : q.s = false)
    (hmax : n ≤ Machine.maxCycles) :
    Machine.LoopsFor (·.flags.s) n s.machine ∧ s.run = some (.ok n, advance^[n] s) ∧
      (advance^[n] s).machine.isHalted ∧ (advance^[n] s).machine.processor = q := by
  rw [← h.processor] at hr
  have hloops := Machine.loopsFor_of_runs h.sc hr hq
  have hcoherent : s.machine.registers.Coherent :=
    Registers.coherent_of_sc_le (by rw [h.sc]; decide)
  have hrun := run_of_loopsFor h.isLoaded hcoherent hloops (by rwa [h.cycles, Nat.zero_add])
  have hend := (Machine.iterate_step_of_runs h.sc hr).2.2
  rw [← machine_iterate_advance] at hend
  refine ⟨hloops, hrun, ?_, hend⟩
  rw [Machine.isHalted_iff, ← hq, ← hend]
  rfl

end Simulator

end BasicComputer
