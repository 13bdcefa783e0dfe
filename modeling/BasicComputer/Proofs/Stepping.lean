import BasicComputer.Proofs.Cycle
import Mathlib.Data.List.Iterate
import Mathlib.Logic.Function.Iterate

/-!
# Many micro-steps

Finishing an instruction and running up to a limit are loops around the same micro-step. They stop
for different reasons, but each amounts to a number of micro-steps that the machine alone
determines: who watches has no part in it.

A run up to a limit can be cut at any earlier limit. What has to be looked at is the micro-step that
clears a sequence counter without counting as a cycle: it does not halt the machine, so a run that
halts always ends with a micro-step that counts.

The loops of the simulator end when the machine says so, and not after a number of rounds that is
known before. Still the number is a function of the machine. Once a loop is an iteration, two
simulators with one machine make equally many rounds, and a loop can be cut where one likes.

What is reported is a list, to which each micro-step adds at the end. So the report of an iteration
is a concatenation, of what each of its micro-steps adds.
-/

namespace BasicComputer

namespace Machine

variable {m : Machine}

/-! ## Halted machines -/

theorem isHalted_iff : m.isHalted ↔ m.flags.s = false := by
  rw [isHalted, Bool.not_eq_true']

theorem not_isHalted_iff : ¬m.isHalted ↔ m.flags.s := by
  rw [isHalted_iff, Bool.not_eq_false]

theorem step_of_halted (h : m.isHalted) : m.step = m := by
  rw [step, if_neg (Bool.not_eq_true _ ▸ isHalted_iff.mp h)]

/-- What a micro-step reports. -/
def report (m : Machine) : List Entry := trace m.registers m.flags m.step

theorem report_of_halted (h : m.isHalted) : m.report = [] := by
  rw [report, trace, if_neg (Bool.not_eq_true _ ▸ isHalted_iff.mp h)]

/-! ## Micro-steps that count as no cycle -/

/-- A sequence counter that selects no timing state is cleared, and that is all. -/
theorem step_of_timingState_eq_none (hs : m.flags.s) (h : m.timingState = none) :
    m.step = m.service.goto 0 := by
  have hsc : TimingState.ofCount? m.service.registers.sc = none := by
    rw [service_sc]
    exact h
  simp only [step, hs, if_true, hsc]

/-- The micro-step that halts a machine counts as a cycle. -/
theorem cycles_step_of_halts (hs : m.flags.s) (h : m.step.isHalted) :
    m.step.cycles = m.cycles + 1 := by
  rcases cycles_step hs with h1 | ⟨-, h7, -⟩
  · exact h1
  · have hnone : m.timingState = none := List.getElem?_eq_none_iff.mpr h7
    rw [step_of_timingState_eq_none hs hnone, isHalted_iff] at h
    exact absurd ((service_s m).symm.trans h) (by rw [hs]; exact Bool.noConfusion)

/-! ## The length of a loop -/

/-- The number of micro-steps up to the end of the current instruction. -/
def stepsToFinish (m : Machine) : Nat :=
  if m.flags.s ∧ m.registers.sc ≠ 0 then m.step.stepsToFinish + 1 else 0
termination_by m.remaining
decreasing_by
  rename_i h
  exact remaining_step_lt h.1 h.2

/-- The number of micro-steps until the cycle counter reaches `limit` or the machine halts. -/
def stepsToLimit (limit : Nat) (m : Machine) : Nat :=
  if m.flags.s ∧ m.cycles < limit then m.step.stepsToLimit limit + 1 else 0
termination_by 2 * (limit - m.cycles) + if 7 ≤ m.registers.sc.toNat then 1 else 0
decreasing_by
  rename_i h
  exact distance_step_lt h.1 h.2

end Machine

theorem Sink.recordAll_append {σ : Type} [Sink σ] (sink : σ) (first second : List Entry) :
    Sink.recordAll sink (first ++ second) = Sink.recordAll (Sink.recordAll sink first) second :=
  List.foldl_append

namespace Simulator

variable {σ : Type} [Sink σ] {s : Simulator σ}

/-! ## Loops as iterations -/

theorem sink_advance (s : Simulator σ) :
    s.advance.sink = Sink.recordAll s.sink s.machine.report := rfl

theorem advance_of_halted (h : s.machine.isHalted) : s.advance = s := by
  have hsink := sink_advance s
  rw [Machine.report_of_halted h] at hsink
  have hmachine : s.advance.machine = s.machine := Machine.step_of_halted h
  calc s.advance = ⟨s.advance.machine, s.advance.sink⟩ := rfl
    _ = ⟨s.machine, s.sink⟩ := by rw [hmachine, hsink]; rfl

theorem machine_iterate_advance (s : Simulator σ) (n : Nat) :
    (advance^[n] s).machine = Machine.step^[n] s.machine :=
  (Function.Semiconj.iterate_right (f := machine) machine_advance n) s

theorem sink_iterate_advance (s : Simulator σ) (n : Nat) :
    (advance^[n] s).sink =
      Sink.recordAll s.sink ((List.iterate Machine.step s.machine n).flatMap Machine.report) := by
  induction n generalizing s with
  | zero => rfl
  | succ n ih =>
    rw [Function.iterate_succ_apply, ih, sink_advance, machine_advance, List.iterate,
      List.flatMap_cons, Sink.recordAll_append]

theorem finishInstruction_eq (s : Simulator σ) :
    s.finishInstruction = advance^[s.machine.stepsToFinish] s := by
  induction s using finishInstruction.induct with
  | case1 s hs ih =>
    have hsteps : s.machine.stepsToFinish = s.advance.machine.stepsToFinish + 1 := by
      rw [Machine.stepsToFinish, if_pos hs, machine_advance]
    rw [finishInstruction, if_pos hs, ih, hsteps, Function.iterate_succ_apply]
  | case2 s hs =>
    rw [finishInstruction, if_neg hs, Machine.stepsToFinish, if_neg hs, Function.iterate_zero_apply]

theorem runTo_eq (limit : Nat) (s : Simulator σ) :
    s.runTo limit = advance^[s.machine.stepsToLimit limit] s := by
  induction s using @runTo.induct σ _ limit with
  | case1 s hs ih =>
    have hsteps : s.machine.stepsToLimit limit = s.advance.machine.stepsToLimit limit + 1 := by
      rw [Machine.stepsToLimit, if_pos hs, machine_advance]
    rw [runTo, if_pos hs, ih, hsteps, Function.iterate_succ_apply]
  | case2 s hs =>
    rw [runTo, if_neg hs, Machine.stepsToLimit, if_neg hs, Function.iterate_zero_apply]

/-! ## Cutting a run -/

theorem runTo_of_running {limit : Nat} (hs : s.machine.flags.s) (h : s.machine.cycles < limit) :
    s.runTo limit = s.advance.runTo limit := by
  rw [runTo, if_pos ⟨hs, h⟩]

theorem runTo_of_halted (limit : Nat) (h : s.machine.isHalted) : s.runTo limit = s := by
  rw [runTo, if_neg]
  rintro ⟨hs, -⟩
  exact Machine.not_isHalted_iff.mpr hs h

/-- A run can be cut at any earlier limit. -/
theorem runTo_runTo {a b : Nat} (hab : a ≤ b) (s : Simulator σ) :
    (s.runTo a).runTo b = s.runTo b := by
  induction s using @runTo.induct σ _ a with
  | case1 s hs ih =>
    rw [runTo_of_running hs.1 hs.2, ih, ← runTo_of_running hs.1 (hs.2.trans_le hab)]
  | case2 s hs =>
    have hstop : s.runTo a = s := by rw [runTo, if_neg hs]
    rw [hstop]

theorem cycles_le_runTo (limit : Nat) (s : Simulator σ) :
    s.machine.cycles ≤ (s.runTo limit).machine.cycles := by
  induction s using @runTo.induct σ _ limit with
  | case1 s hs ih =>
    rw [runTo_of_running hs.1 hs.2]
    refine le_trans ?_ ih
    rw [machine_advance]
    rcases Machine.cycles_step hs.1 with h | ⟨h, -, -⟩ <;> omega
  | case2 s hs => rw [runTo, if_neg hs]

/-- A run that does not halt ends exactly at its limit. -/
theorem cycles_runTo_of_running {limit : Nat} (h : s.machine.cycles ≤ limit)
    (hs : ¬(s.runTo limit).machine.isHalted) : (s.runTo limit).machine.cycles = limit := by
  induction s using @runTo.induct σ _ limit with
  | case1 s hcond ih =>
    rw [runTo_of_running hcond.1 hcond.2] at hs ⊢
    refine ih ?_ hs
    rw [machine_advance]
    rcases Machine.cycles_step hcond.1 with hc | ⟨hc, -, -⟩ <;> omega
  | case2 s hcond =>
    rw [runTo, if_neg hcond] at hs ⊢
    have hlt : ¬s.machine.cycles < limit := fun hlt ↦
      hcond ⟨Machine.not_isHalted_iff.mp hs, hlt⟩
    omega

/-- A run that halts a running machine counts at least one cycle. -/
theorem cycles_lt_runTo_of_halts {limit : Nat} (hs : s.machine.flags.s)
    (h : (s.runTo limit).machine.isHalted) :
    s.machine.cycles < (s.runTo limit).machine.cycles := by
  induction s using @runTo.induct σ _ limit with
  | case1 s hcond ih =>
    rw [runTo_of_running hcond.1 hcond.2] at h ⊢
    by_cases hh : s.advance.machine.isHalted
    · rw [runTo_of_halted limit hh, machine_advance, Machine.cycles_step_of_halts hs hh]
      exact Nat.lt_succ_self _
    · refine lt_of_le_of_lt ?_ (ih (Machine.not_isHalted_iff.mp hh) h)
      rw [machine_advance]
      rcases Machine.cycles_step hs with hc | ⟨hc, -, -⟩ <;> omega
  | case2 s hcond =>
    rw [runTo, if_neg hcond] at h
    exact absurd h (Machine.not_isHalted_iff.mpr hs)

/-- A run that halts ends in the same way under every limit that it does not exceed. -/
theorem runTo_eq_of_halts {a b : Nat} (h : (s.runTo a).machine.isHalted)
    (hb : (s.runTo a).machine.cycles ≤ b) : s.runTo b = s.runTo a := by
  induction s using @runTo.induct σ _ a with
  | case1 s hcond ih =>
    have hlt : s.machine.cycles < b := (cycles_lt_runTo_of_halts hcond.1 h).trans_le hb
    rw [runTo_of_running hcond.1 hcond.2] at h hb ⊢
    rw [runTo_of_running hcond.1 hlt]
    exact ih h hb
  | case2 s hcond =>
    have hstop : s.runTo a = s := by rw [runTo, if_neg hcond]
    rw [hstop] at h ⊢
    exact runTo_of_halted b h

end Simulator

end BasicComputer
