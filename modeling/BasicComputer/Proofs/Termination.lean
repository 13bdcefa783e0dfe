import BasicComputer.Proofs.Coherence
import BasicComputer.Proofs.Trajectory

/-!
# Termination

To finish an instruction and to run under a limit are loops around the micro-step. A loop goes on
under a condition, and how many rounds that makes is bounded by a rank, a number that every round
makes smaller.

Programs alone would make this easy: the sequence counter moves on or goes back to zero, and every
micro-step is a cycle. Changes by hand spoil both. They can leave the sequence counter anywhere,
with whatever word in the instruction register, and the micro-step that clears a counter without a
timing state is no cycle. But it takes no more than one micro-step to make up for any of this: after
it the registers are coherent, the sequence counter is at most six, and each further micro-step
counts. So the ranks are those for programs, with one micro-step added where the sequence counter
selects no timing state.

## Loops that need not end

The definitions of the loops end because they are definitions. That the loops they stand for end is
a statement about conditions and rounds, so it is made about these: after some number of rounds the
condition fails, and it has not failed before. It would be false of a loop that goes on forever, for
which there is no such number.
-/

namespace BasicComputer

namespace Machine

variable {m : Machine} {goesOn : Machine → Prop} {n limit : Nat}

/-! ## Loops -/

/-- From `m`, a loop around the micro-step that goes on under a condition ends after `n` rounds. -/
structure LoopsFor (goesOn : Machine → Prop) (n : Nat) (m : Machine) : Prop where
  before : ∀ k < n, goesOn (step^[k] m)
  ends : ¬goesOn (step^[n] m)

theorem loopsFor_zero_iff : LoopsFor goesOn 0 m ↔ ¬goesOn m :=
  ⟨fun h ↦ h.ends, fun h ↦ ⟨fun k hk ↦ absurd hk k.not_lt_zero, h⟩⟩

theorem loopsFor_succ_iff : LoopsFor goesOn (n + 1) m ↔ goesOn m ∧ LoopsFor goesOn n m.step := by
  constructor
  · rintro ⟨hbefore, hends⟩
    exact ⟨hbefore 0 n.succ_pos, fun k hk ↦ hbefore (k + 1) (Nat.succ_lt_succ hk), hends⟩
  · rintro ⟨hfirst, hbefore, hends⟩
    refine ⟨?_, hends⟩
    rintro (_ | k) hk
    · exact hfirst
    · exact hbefore k (Nat.lt_of_succ_lt_succ hk)

/-- A number that a round takes down by one, and that is zero where there is none, is the number of
rounds. -/
theorem loopsFor_of_next {rounds : Machine → Nat}
    (next : ∀ m, goesOn m → rounds m = rounds m.step + 1) (last : ∀ m, ¬goesOn m → rounds m = 0)
    (m : Machine) : LoopsFor goesOn (rounds m) m := by
  induction hn : rounds m generalizing m with
  | zero =>
    rw [loopsFor_zero_iff]
    intro hm
    rw [next m hm] at hn
    cases hn
  | succ n ih =>
    have hm : goesOn m := by
      by_contra hm
      rw [last m hm] at hn
      cases hn
    rw [next m hm] at hn
    exact loopsFor_succ_iff.mpr ⟨hm, ih m.step (Nat.succ.inj hn)⟩

theorem LoopsFor.unique {k : Nat} (hn : LoopsFor goesOn n m) (hk : LoopsFor goesOn k m) :
    n = k := by
  rcases lt_trichotomy n k with hlt | rfl | hlt
  · exact absurd (hk.before n hlt) hn.ends
  · rfl
  · exact absurd (hn.before k hlt) hk.ends

/-- There are no more rounds than a rank says. -/
theorem LoopsFor.le_rank {rank : Machine → Nat} (hrank : ∀ m, goesOn m → rank m.step < rank m)
    (h : LoopsFor goesOn n m) : n ≤ rank m := by
  induction n generalizing m with
  | zero => exact Nat.zero_le _
  | succ n ih =>
    obtain ⟨hm, hnext⟩ := loopsFor_succ_iff.mp h
    exact (ih hnext).trans_lt (hrank m hm)

/-! ## Instructions -/

/-- The machine runs and is not yet at the end of its instruction. -/
def InInstruction (m : Machine) : Prop := m.flags.s ∧ m.registers.sc ≠ 0

theorem loopsFor_stepsToFinish (m : Machine) : LoopsFor InInstruction m.stepsToFinish m := by
  refine loopsFor_of_next ?_ ?_ m
  · intro m hm
    rw [stepsToFinish]
    exact if_pos hm
  · intro m hm
    rw [stepsToFinish]
    exact if_neg hm

theorem sc_step (hs : m.flags.s) :
    m.step.registers.sc = 0 ∨ m.step.registers.sc.toNat = m.registers.sc.toNat + 1 := by
  cases ht : m.timingState with
  | none =>
    rw [step_of_timingState_eq_none hs ht]
    exact .inl rfl
  | some t =>
    have hsc : m.registers.sc.toNat = t.index := TimingState.ofCount?_eq_some ht
    rw [step_eq hs ht, hsc]
    exact execute_sc m.service t

/-- A bound on the micro-steps up to the end of an instruction. -/
def finishRank (m : Machine) : Nat :=
  if m.registers.sc = 0 then 0 else max 1 (7 - m.registers.sc.toNat)

theorem finishRank_le_six (m : Machine) : m.finishRank ≤ 6 := by
  rw [finishRank]
  split
  · exact Nat.zero_le 6
  · next hsc =>
    have hpos : m.registers.sc.toNat ≠ 0 := fun h ↦ hsc (BitVec.eq_of_toNat_eq h)
    omega

theorem finishRank_step_lt (h : m.InInstruction) : m.step.finishRank < m.finishRank := by
  obtain ⟨hs, hsc⟩ := h
  rw [finishRank, finishRank, if_neg hsc]
  rcases sc_step hs with h0 | hnext
  · rw [if_pos h0]
    omega
  · have hle : m.step.registers.sc.toNat ≤ 6 := (coherent_step_of_running hs).sc_le
    split <;> omega

/-- Only the end of an instruction halts the machine. -/
theorem sc_step_of_halts (hs : m.flags.s) (h : m.step.isHalted) : m.step.registers.sc = 0 := by
  cases ht : m.timingState with
  | none =>
    rw [step_of_timingState_eq_none hs ht]
    rfl
  | some t =>
    rw [step_eq hs ht] at h ⊢
    rcases (m.service.execute_frame t).s with hkept | h0
    · have hrunning : (m.service.execute t).flags.s := by
        rw [hkept, service_s]
        exact hs
      exact absurd h (not_isHalted_iff.mpr hrunning)
    · exact h0

/-- A running machine that takes a micro-step, and then more as long as it is in an instruction, is
at the end of one. -/
theorem LoopsFor.sc_eq_zero (hs : m.flags.s) (h : LoopsFor InInstruction n m.step) :
    (step^[n + 1] m).registers.sc = 0 := by
  have hlast : (step^[n] m).flags.s := by
    cases n with
    | zero => exact hs
    | succ k => exact (h.before k k.lt_succ_self).1
  have hends := h.ends
  rw [← Function.iterate_succ_apply, Function.iterate_succ_apply'] at hends
  rw [Function.iterate_succ_apply']
  by_contra h0
  -- had the loop ended because the machine halted, this would have ended the instruction as well
  exact hends ⟨not_isHalted_iff.mp fun hhalted ↦ h0 (sc_step_of_halts hlast hhalted), h0⟩

/-! ## Runs under a limit -/

def BelowLimit (limit : Nat) (m : Machine) : Prop := m.flags.s ∧ m.cycles < limit

theorem loopsFor_stepsToLimit (limit : Nat) (m : Machine) :
    LoopsFor (BelowLimit limit) (m.stepsToLimit limit) m := by
  refine loopsFor_of_next ?_ ?_ m
  · intro m hm
    rw [stepsToLimit]
    exact if_pos hm
  · intro m hm
    rw [stepsToLimit]
    exact if_neg hm

/-- A bound on the micro-steps up to a limit: the cycles that are left, and the micro-step that
clears a sequence counter without a timing state. -/
def limitRank (limit : Nat) (m : Machine) : Nat :=
  (limit - m.cycles) + if 7 ≤ m.registers.sc.toNat then 1 else 0

theorem limitRank_step_lt (h : m.BelowLimit limit) :
    m.step.limitRank limit < m.limitRank limit := by
  obtain ⟨hs, hlt⟩ := h
  have hle : m.step.registers.sc.toNat ≤ 6 := (coherent_step_of_running hs).sc_le
  rw [limitRank, limitRank, if_neg (by omega)]
  rcases cycles_step hs with hcycle | ⟨hcycles, h7, -⟩
  · rw [hcycle]
    omega
  · rw [hcycles, if_pos h7]
    omega

/-- The cycle counter never passes the limit. -/
theorem LoopsFor.cycles_le (h : LoopsFor (BelowLimit limit) n m) (hm : m.cycles ≤ limit) {k : Nat}
    (hk : k ≤ n) : (step^[k] m).cycles ≤ limit := by
  cases k with
  | zero => exact hm
  | succ k =>
    obtain ⟨hs, hlt⟩ := h.before k hk
    rw [Function.iterate_succ_apply']
    rcases cycles_step hs with hcycle | ⟨hcycles, -, -⟩ <;> omega

end Machine

namespace Simulator

variable {σ : Type} [Sink σ] {s : Simulator σ}

/-- An instruction of a running machine is a micro-step, and then more as long as the machine is in
an instruction. -/
theorem macroStep_of_running (hl : s.machine.isLoaded) (hs : s.machine.flags.s) :
    s.macroStep = (.ok (), advance^[s.machine.step.stepsToFinish + 1] s) := by
  have hrest : s.advance.finishInstruction = advance^[s.machine.step.stepsToFinish + 1] s := by
    rw [finishInstruction_eq, machine_advance, ← Function.iterate_succ_apply]
  have hfinish : s.macroStep = (.ok (), if s.machine.registers.sc = 0 then
      s.advance.finishInstruction else s.finishInstruction) := by
    simp only [macroStep, ifLoaded, hl, if_true]
  by_cases h0 : s.machine.registers.sc = 0
  · rw [hfinish, if_pos h0, hrest]
  · rw [hfinish, if_neg h0, finishInstruction, if_pos ⟨hs, h0⟩, hrest]

/-- **Termination.** Whatever its registers hold, a loaded machine gets to the end of an instruction
with at most seven micro-steps, and if it was running, the sequence counter is zero then. A run
under a limit ends as well, and at most one of its micro-steps is no cycle. It counts no more than
`max` cycles, less only if the machine has halted, and the cycle counter never gets past where these
would take it. -/
theorem stepping_terminates (hl : s.machine.isLoaded) :
    (s.machine.isHalted → s.macroStep = (.ok (), s)) ∧
    (s.machine.flags.s → ∃ n, n + 1 ≤ 7 ∧ Machine.LoopsFor Machine.InInstruction n s.machine.step ∧
      s.macroStep = (.ok (), advance^[n + 1] s) ∧
      (advance^[n + 1] s).machine.registers.sc = 0) ∧
    ∀ max, ∃ n count, n ≤ max + 1 ∧
      Machine.LoopsFor (Machine.BelowLimit (s.machine.cycles + max)) n s.machine ∧
      (∀ k ≤ n, (Machine.step^[k] s.machine).cycles ≤ s.machine.cycles + max) ∧
      s.runLimited max = (.ok count, advance^[n] s) ∧
      (advance^[n] s).machine.cycles = s.machine.cycles + count ∧ count ≤ max ∧
      (count < max → (advance^[n] s).machine.isHalted) := by
  refine ⟨macroStep_of_halted hl, ?_, ?_⟩
  · intro hs
    have hloop := Machine.loopsFor_stepsToFinish s.machine.step
    have hrank := hloop.le_rank fun _ ↦ Machine.finishRank_step_lt
    refine ⟨_, Nat.succ_le_succ (hrank.trans (Machine.finishRank_le_six _)), hloop,
      macroStep_of_running hl hs, ?_⟩
    rw [machine_iterate_advance]
    exact hloop.sc_eq_zero hs
  · intro max
    have hstart : s.machine.cycles ≤ s.machine.cycles + max := Nat.le_add_right _ _
    have hloop := Machine.loopsFor_stepsToLimit (s.machine.cycles + max) s.machine
    have hrank : s.machine.limitRank (s.machine.cycles + max) ≤ max + 1 := by
      rw [Machine.limitRank]
      split <;> omega
    have hgrows : s.machine.cycles ≤ (s.runTo (s.machine.cycles + max)).machine.cycles :=
      cycles_le_runTo _ s
    have hend : (s.runTo (s.machine.cycles + max)).machine.cycles ≤ s.machine.cycles + max := by
      rw [runTo_eq, machine_iterate_advance]
      exact hloop.cycles_le hstart le_rfl
    refine ⟨_, _, (hloop.le_rank fun _ ↦ Machine.limitRank_step_lt).trans hrank, hloop,
      fun k ↦ hloop.cycles_le hstart, (runLimited_eq hl max).trans (by rw [← runTo_eq]), ?_⟩
    rw [← runTo_eq]
    refine ⟨(Nat.add_sub_cancel' hgrows).symm, Nat.sub_le_iff_le_add'.mpr hend, ?_⟩
    intro hless
    by_contra hrunning
    have hcycles := cycles_runTo_of_running hstart hrunning
    omega

/-- It is to increment a word and to halt, but by hand the halt has been put into the instruction
register, and the sequence counter has been set. -/
def adrift (sc : Nat) : Machine :=
  let program : Program := ⟨[⟨0, 0x6002, "ISZ C", 1⟩, ⟨1, 0x7001, "HLT", 2⟩], [⟨2, 5⟩]⟩
  (((Machine.boot program).toOption.getD .initial).setRegister .ir 0x7001).setRegister .sc sc

/-- At T5 there is no memory operation to go on with. At the count of nine, where there is no timing
state, seven cycles are those of the increment. -/
theorem stepping_terminates_adrift :
    (adrift 5).isLoaded ∧ (adrift 5).flags.s ∧ (adrift 5).timingState = some .t5 ∧
    Machine.memoryOp? (adrift 5).registers = none ∧
    (∃ s', macroStep ⟨adrift 5, EventLog.empty⟩ = (.ok (), s') ∧ s'.machine.registers.sc = 0) ∧
    (adrift 9).isLoaded ∧ (adrift 9).timingState = none ∧
    ∃ n ≤ 8, runLimited ⟨adrift 9, EventLog.empty⟩ 7 =
      (.ok 7, advance^[n] ⟨adrift 9, EventLog.empty⟩) := by
  have hl5 : (adrift 5).isLoaded := by decide +kernel
  have hl9 : (adrift 9).isLoaded := by decide +kernel
  have hs : (adrift 5).flags.s := by decide +kernel
  obtain ⟨-, hmacro, -⟩ := stepping_terminates (s := ⟨adrift 5, EventLog.empty⟩) hl5
  obtain ⟨_, -, -, hfinish, hsc⟩ := hmacro hs
  obtain ⟨-, -, hruns⟩ := stepping_terminates (s := ⟨adrift 9, EventLog.empty⟩) hl9
  obtain ⟨n, count, hn, -, -, hrun, -, hcount, hhalts⟩ := hruns 7
  have hrunning : ¬(runLimited ⟨adrift 9, EventLog.empty⟩ 7).2.machine.isHalted := by
    decide +kernel
  have hall : count = 7 := by
    by_contra hne
    rw [hrun] at hrunning
    exact hrunning (hhalts (by omega))
  rw [hall] at hrun
  exact ⟨hl5, hs, by decide +kernel, by decide +kernel, ⟨_, hfinish, hsc⟩, hl9, by decide +kernel,
    n, hn, hrun⟩

end Simulator

end BasicComputer
