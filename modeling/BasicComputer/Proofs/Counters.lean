import BasicComputer.Proofs.Coherence
import Mathlib.Algebra.GroupWithZero.Nat
import Mathlib.Algebra.Order.BigOperators.Group.List

/-!
# What the counters count

The machine has no signal that an instruction is complete. It infers this from the sequence counter,
which is back at zero after the last timing state, and counts the instruction then. Here completion
is told by the instruction itself: each kind of operation has a number of timing states, and the
micro-step that carries out the last of them completes the operation.

The invariant is an account of the words that have been fetched. All of them have been completed, in
order, but for the one in the instruction register while it is carried out. The instructions counted
are the completed ones, and the cycles are the timing states of these together with those that the
current instruction has behind it, which are as many as the sequence counter says. That the
registers are coherent keeps the account right: a sequence counter that went astray would be
cleared, and what it had counted would be lost.

How long an operation takes is given by a table, from the operation and nothing else. That it is
what the machine takes is shown one micro-step at a time: coherent registers and the table tell at
which timing state the sequence counter goes back. No instruction is followed from its beginning to
its end, so it does not matter how stepping is cut, or where a session stops.
-/

namespace BasicComputer

/-- The number of timing states that a memory operation takes. -/
def MemoryOp.duration : MemoryOp → Nat
  | sta | bun => 5
  | and | add | lda | bsa => 6
  | isz => 7

/-- The number of timing states that an operation takes. -/
def Operation.duration : Operation → Nat
  | memory op _ _ => op.duration
  | register _ | io _ | unknown _ => 4

theorem Operation.four_le_duration (op : Operation) : 4 ≤ op.duration := by
  cases op with
  | memory op _ _ => cases op <;> exact Nat.le_of_ble_eq_true rfl
  | register _ | io _ | unknown _ => exact Nat.le_refl 4

theorem Operation.duration_le_seven (op : Operation) : op.duration ≤ 7 := by
  cases op with
  | memory op _ _ => cases op <;> exact Nat.le_of_ble_eq_true rfl
  | register _ | io _ | unknown _ => exact Nat.le_of_ble_eq_true rfl

def totalDuration (ws : List Word) : Nat := (ws.map fun w ↦ (decode w).duration).sum

theorem totalDuration_append (ws vs : List Word) :
    totalDuration (ws ++ vs) = totalDuration ws + totalDuration vs := by
  rw [totalDuration, List.map_append, List.sum_append]
  rfl

theorem totalDuration_singleton (w : Word) : totalDuration [w] = (decode w).duration :=
  List.sum_singleton

theorem four_mul_le_totalDuration (ws : List Word) : 4 * ws.length ≤ totalDuration ws := by
  have h := List.card_nsmul_le_sum (ws.map fun w ↦ (decode w).duration) 4 <| by
    rw [List.forall_mem_map]
    intro w _
    exact (decode w).four_le_duration
  rwa [List.length_map, Nat.nsmul_eq_mul, Nat.mul_comm] at h

theorem totalDuration_le (ws : List Word) : totalDuration ws ≤ 7 * ws.length := by
  have h := List.sum_le_card_nsmul (ws.map fun w ↦ (decode w).duration) 7 <| by
    rw [List.forall_mem_map]
    intro w _
    exact (decode w).duration_le_seven
  rwa [List.length_map, Nat.nsmul_eq_mul, Nat.mul_comm] at h

namespace Machine

variable {m : Machine}

/-! ## Fetched, in progress, completed -/

/-- The word that the next micro-step fetches. -/
def fetched (m : Machine) : List Word :=
  if m.flags.s ∧ m.timingState = some .t1 then [m.memory.read m.registers.ar] else []

/-- The word fetched last, as long as it is carried out. -/
def inProgress (m : Machine) : List Word :=
  if 2 ≤ m.registers.sc.toNat then [m.registers.ir] else []

/-- The word that the next micro-step completes: the one in the instruction register, if the
micro-step carries out the last of its timing states. -/
def completed (m : Machine) : List Word :=
  if m.flags.s ∧ m.registers.sc.toNat + 1 = (decode m.registers.ir).duration then
    [m.registers.ir]
  else []

/-! ## What a micro-step counts -/

theorem coherent_service (h : m.registers.Coherent) : m.service.registers.Coherent := by
  obtain ⟨_, _, _, _, _, _, hm⟩ := m.service_eq
  rw [hm]
  exact ⟨h.sc_le, h.memory⟩

theorem ir_service (m : Machine) : m.service.registers.ir = m.registers.ir := by
  obtain ⟨_, _, _, _, _, _, h⟩ := m.service_eq
  rw [h]

/-- With coherent registers, the sequence counter goes back to zero with the last timing state of an
operation, and on by one with any other. -/
theorem sc_execute (h : m.registers.Coherent) {t : TimingState} (ht : m.timingState = some t) :
    (m.execute t).registers.sc =
      if t.index + 1 = (decode m.registers.ir).duration then 0 else .ofNat 4 (t.index + 1) := by
  obtain ⟨t', ht', hop⟩ := exists_timingState h
  obtain rfl : t = t' := Option.some.inj (ht.symm.trans ht')
  cases t with
  | t0 | t1 | t2 =>
    have hlong := (decode m.registers.ir).four_le_duration
    rw [if_neg (by simp only [TimingState.index]; omega)]
    rfl
  | t3 =>
    rw [execute, executeT3]
    cases decode m.registers.ir with
    | memory op _ indirect => cases op <;> cases indirect <;> rfl
    | register _ | io _ | unknown _ => rfl
  | t4 =>
    obtain ⟨op, hsome, -⟩ := hop (.inl rfl)
    obtain ⟨_, _, hdecode⟩ := memoryOp?_eq_some_iff.mp hsome
    rw [execute, executeT4, hsome, hdecode]
    cases op <;> rfl
  | t5 =>
    obtain ⟨op, hsome, hlate, -⟩ := hop (.inr (.inl rfl))
    obtain ⟨_, _, hdecode⟩ := memoryOp?_eq_some_iff.mp hsome
    obtain ⟨hsta, hbun⟩ := hlate rfl
    rw [execute, executeT5, hsome, hdecode]
    cases op with
    | sta => exact absurd rfl hsta
    | bun => exact absurd rfl hbun
    | and | add | lda | bsa | isz => rfl
  | t6 =>
    obtain ⟨_, _, hdecode⟩ := memoryOp?_eq_some_iff.mp (memoryOp?_of_t6 h ht)
    rw [hdecode]
    rfl

/-- A micro-step of a running machine is a cycle. With the last one of an operation the sequence
counter goes back to zero and an instruction is counted; any other moves the counter on by one. -/
theorem counts_step (hs : m.flags.s) (h : m.registers.Coherent) :
    m.step.cycles = m.cycles + 1 ∧
    (m.step.registers.sc.toNat, m.step.instructions) =
      if m.registers.sc.toNat + 1 = (decode m.registers.ir).duration then (0, m.instructions + 1)
      else (m.registers.sc.toNat + 1, m.instructions) := by
  obtain ⟨t, ht, -⟩ := exists_timingState h
  have hsc : m.registers.sc.toNat = t.index := TimingState.ofCount?_eq_some ht
  have hframe := m.service.execute_frame t
  obtain ⟨hcycles, hinstructions⟩ : m.service.cycles = m.cycles ∧
      m.service.instructions = m.instructions := by
    obtain ⟨_, _, _, _, _, _, h⟩ := m.service_eq
    rw [h]
    exact ⟨rfl, rfl⟩
  have hnext : (m.service.execute t).registers.sc =
      if t.index + 1 = (decode m.registers.ir).duration then 0 else .ofNat 4 (t.index + 1) := by
    rw [← ir_service]
    exact sc_execute (coherent_service h) ((congrArg TimingState.ofCount? m.service_sc).trans ht)
  rw [step_eq hs ht, tally, hframe.cycles, hframe.instructions, hcycles, hinstructions, hsc]
  refine ⟨rfl, ?_⟩
  by_cases hlast : t.index + 1 = (decode m.registers.ir).duration
  · have hlong := (decode m.registers.ir).four_le_duration
    have ht0 : t ≠ .t0 := by
      rintro rfl
      simp only [TimingState.index] at hlast
      omega
    rw [if_pos hlast] at hnext ⊢
    rw [if_pos ⟨ht0, hnext⟩, hnext]
    rfl
  · have hlt : t.index + 1 < 8 := by cases t <;> decide
    have htoNat : (m.service.execute t).registers.sc.toNat = t.index + 1 := by
      rw [hnext, if_neg hlast, BitVec.toNat_ofNat, Nat.mod_eq_of_lt (by omega)]
    have hne : (m.service.execute t).registers.sc ≠ 0 := by
      intro h0
      rw [h0] at htoNat
      cases htoNat
    rw [if_neg hlast, if_neg fun hcount ↦ hne hcount.2, htoNat]

/-! ## The account -/

theorem ir_step {t : TimingState} (hs : m.flags.s) (ht : m.timingState = some t) (h1 : t ≠ .t1) :
    m.step.registers.ir = m.registers.ir := by
  rw [step_eq hs ht]
  exact ((m.service.execute_frame t).ir h1).trans (ir_service m)

theorem fetched_step (h : m.registers.Coherent) :
    m.completed ++ m.step.inProgress = m.inProgress ++ m.fetched := by
  by_cases hs : m.flags.s
  case neg =>
    have hstep : m.step = m := if_neg hs
    rw [hstep, completed, fetched, if_neg fun h ↦ hs h.1, if_neg fun h ↦ hs h.1,
      List.append_nil, List.nil_append]
  obtain ⟨t, ht, -⟩ := exists_timingState h
  have hsc : m.registers.sc.toNat = t.index := TimingState.ofCount?_eq_some ht
  have hlong := (decode m.registers.ir).four_le_duration
  obtain ⟨-, hcounts⟩ := counts_step hs h
  by_cases h1 : t = .t1
  · subst h1
    have h0 : m.registers.sc ≠ 0 := fun h0 ↦ by cases (congrArg BitVec.toNat h0).symm.trans hsc
    have hrest : ¬m.registers.sc.toNat + 1 = (decode m.registers.ir).duration := by
      simp only [hsc, TimingState.index]
      omega
    have hir : m.step.registers.ir = m.memory.read m.registers.ar := by
      rw [step_eq hs ht, service_of_sc_ne h0]
      rfl
    have hcompleted : m.completed = [] := if_neg fun h ↦ hrest h.2
    have hfetched : m.fetched = [m.memory.read m.registers.ar] := if_pos ⟨hs, ht⟩
    have hbefore : m.inProgress = [] := if_neg (by rw [hsc]; decide)
    have hafter : m.step.inProgress = [m.memory.read m.registers.ar] := by
      rw [if_neg hrest, hsc] at hcounts
      rw [inProgress, (Prod.mk.inj hcounts).1, hir]
      rfl
    rw [hcompleted, hafter, hbefore, hfetched]
  · have hfetched : m.fetched = [] := if_neg fun h ↦ h1 (Option.some.inj (ht.symm.trans h.2))
    have hir := ir_step hs ht h1
    rw [hfetched, List.append_nil]
    by_cases hlast : m.registers.sc.toNat + 1 = (decode m.registers.ir).duration
    · have hcompleted : m.completed = [m.registers.ir] := if_pos ⟨hs, hlast⟩
      have hbefore : m.inProgress = [m.registers.ir] := if_pos (by omega)
      have hafter : m.step.inProgress = [] := by
        rw [if_pos hlast] at hcounts
        rw [inProgress, (Prod.mk.inj hcounts).1]
        rfl
      rw [hcompleted, hafter, hbefore, List.append_nil]
    · have hcompleted : m.completed = [] := if_neg fun h ↦ hlast h.2
      -- only T1 puts a word in progress
      have hiff : 2 ≤ m.registers.sc.toNat + 1 ↔ 2 ≤ m.registers.sc.toNat := by
        rw [hsc]
        revert h1
        cases t <;> decide
      have hafter : m.step.inProgress = m.inProgress := by
        rw [if_neg hlast] at hcounts
        simp only [inProgress, (Prod.mk.inj hcounts).1, hir, hiff]
      rw [hcompleted, hafter, List.nil_append]

/-- What a micro-step completes is counted, and with it the timing states that are behind it. -/
theorem counters_step (h : m.registers.Coherent) :
    m.step.instructions = m.instructions + m.completed.length ∧
    m.step.cycles + m.registers.sc.toNat =
      m.cycles + totalDuration m.completed + m.step.registers.sc.toNat := by
  by_cases hs : m.flags.s
  case neg =>
    have hstep : m.step = m := if_neg hs
    have hcompleted : m.completed = [] := if_neg fun h ↦ hs h.1
    rw [hstep, hcompleted]
    exact ⟨rfl, rfl⟩
  obtain ⟨hcycles, hcounts⟩ := counts_step hs h
  by_cases hlast : m.registers.sc.toNat + 1 = (decode m.registers.ir).duration
  · have hcompleted : m.completed = [m.registers.ir] := if_pos ⟨hs, hlast⟩
    rw [if_pos hlast] at hcounts
    obtain ⟨hsc, hinstructions⟩ := Prod.mk.inj hcounts
    rw [hcompleted, hcycles, hsc, hinstructions, totalDuration_singleton, ← hlast]
    exact ⟨rfl, by omega⟩
  · have hcompleted : m.completed = [] := if_neg fun h ↦ hlast h.2
    rw [if_neg hlast] at hcounts
    obtain ⟨hsc, hinstructions⟩ := Prod.mk.inj hcounts
    rw [hcompleted, hcycles, hsc, hinstructions]
    exact ⟨rfl, Nat.add_right_comm _ _ _⟩

/-- The words that the machines before `m` have fetched and completed are what its counters
count. -/
structure CycleAccount (past : List Machine) (m : Machine) : Prop where
  coherent : m.registers.Coherent
  fetched : past.flatMap fetched = past.flatMap completed ++ m.inProgress
  instructions : m.instructions = (past.flatMap completed).length
  cycles : m.cycles = totalDuration (past.flatMap completed) + m.registers.sc.toNat

theorem cycleAccount_step {past : List Machine} (h : CycleAccount past m) :
    CycleAccount (past ++ [m]) m.step := by
  obtain ⟨hinstructions, hcycles⟩ := counters_step h.coherent
  refine ⟨coherent_step h.coherent, ?_, ?_, ?_⟩
  · rw [List.flatMap_append, List.flatMap_append, List.flatMap_singleton, List.flatMap_singleton,
      h.fetched, List.append_assoc, List.append_assoc, fetched_step h.coherent]
  · rw [hinstructions, h.instructions, List.flatMap_append, List.flatMap_singleton,
      List.length_append]
  · have hbefore := h.cycles
    rw [List.flatMap_append, List.flatMap_singleton, totalDuration_append]
    omega

theorem cycleAccount_of_isInput {r : Request} (hr : r.isInput) {past : List Machine}
    (h : CycleAccount past m) : CycleAccount past (m.after r) := by
  cases r with
  | setInput _ | pushInput _ | clearInput => exact ⟨h.coherent, h.fetched, h.instructions, h.cycles⟩
  | _ => cases hr

end Machine

namespace Simulator

variable {σ : Type} [Sink σ] {s₀ s₁ s : Simulator σ} {p : Program} {rs : List Request}

/-- **Counters.** After a successful load, however stepping is cut into requests and whatever bytes
are queued in between, the words fetched have been completed in this order, but for the one that is
carried out. The instructions counted are the words completed, and the cycles are the timing states
that these take and, on top of them, as many as the sequence counter says. -/
theorem counters_accounted (hload : s₀.load p = (.ok (), s₁))
    (hrs : ∀ r ∈ rs, r.isStep ∨ r.isInput) (hs : s₁.serveAll rs = some s) :
    (s₁.history rs).flatMap Machine.fetched =
      (s₁.history rs).flatMap Machine.completed ++ s.machine.inProgress ∧
    s.machine.instructions = ((s₁.history rs).flatMap Machine.completed).length ∧
    s.machine.cycles =
      totalDuration ((s₁.history rs).flatMap Machine.completed) + s.machine.registers.sc.toNat ∧
    4 * s.machine.instructions ≤ s.machine.cycles ∧
    s.machine.cycles ≤ 7 * s.machine.instructions + 6 := by
  have hstart : Machine.CycleAccount [] s₁.machine := by
    obtain ⟨memory, pc, h⟩ := machine_of_load hload
    rw [h]
    exact ⟨Registers.coherent_of_sc_le (Nat.zero_le 3), rfl, rfl, rfl⟩
  have h : Machine.CycleAccount (s₁.history rs) s.machine := by
    refine session_induction (P := fun _ ↦ Machine.CycleAccount) hs hstart ?_
    intro _ r past m hr hm
    rcases hrs r hr with hstep | hinput
    · exact Machine.keeps_of_isStep (fun _ _ ↦ Machine.cycleAccount_step) hstep hm
    · rw [Machine.course_of_not_isStep (Request.isStep_of_isInput hinput), List.append_nil]
      exact Machine.cycleAccount_of_isInput hinput hm
  have hlow := four_mul_le_totalDuration ((s₁.history rs).flatMap Machine.completed)
  have hhigh := totalDuration_le ((s₁.history rs).flatMap Machine.completed)
  have hsc := h.coherent.sc_le
  rw [← h.instructions] at hlow hhigh
  refine ⟨h.fetched, h.instructions, h.cycles, ?_, ?_⟩
  · rw [h.cycles]
    exact hlow.trans (Nat.le_add_right _ _)
  · rw [h.cycles]
    exact Nat.add_le_add hhigh hsc

/-- A store, a call, an increment, a jump, a word that is no operation, and a halt. -/
def variedProgram : Program :=
  ⟨[⟨0, 0x3008, "STA S", 1⟩, ⟨1, 0x5004, "BSA F", 2⟩, ⟨5, 0x6009, "ISZ C", 3⟩,
      ⟨6, 0x400A, "BUN G", 4⟩, ⟨11, 0x7001, "HLT", 5⟩],
    [⟨4, 0⟩, ⟨8, 0⟩, ⟨9, 0⟩, ⟨10, 0x7003⟩]⟩

/-- Stepping stops in the middle of the call, right behind it, and in the middle of the halt. -/
def slicedRequests : List Request :=
  [.runLimited 8, .pushInput 0x41, .macroStep, .microStep, .setInput [], .runLimited 17]

theorem counters_accounted_sliced :
    ∃ s₁ s : Simulator EventLog, (withSink EventLog.empty).load variedProgram = (.ok (), s₁) ∧
      (∀ r ∈ slicedRequests, r.isStep ∨ r.isInput) ∧ s₁.serveAll slicedRequests = some s ∧
      (s₁.history slicedRequests).flatMap Machine.fetched =
        [0x3008, 0x5004, 0x6009, 0x400A, 0x7003, 0x7001] ∧
      (s₁.history slicedRequests).flatMap Machine.completed =
        [0x3008, 0x5004, 0x6009, 0x400A, 0x7003] ∧
      s.machine.registers.sc = 2 ∧ s.machine.instructions = 5 ∧
      s.machine.cycles = 5 + 6 + 7 + 5 + 4 + 2 := by
  obtain ⟨s₁, hload⟩ : ∃ s₁, (withSink EventLog.empty).load variedProgram = (.ok (), s₁) :=
    ⟨_, rfl⟩
  have hrs : ∀ r ∈ slicedRequests, r.isStep ∨ r.isInput := by decide
  have hend : (s₁.serveAll slicedRequests).map
      (fun s ↦ (s.machine.registers.sc, s.machine.inProgress)) = some (2, [0x7001]) := by
    cases hload
    decide +kernel
  have hcompleted : (s₁.history slicedRequests).flatMap Machine.completed =
      [0x3008, 0x5004, 0x6009, 0x400A, 0x7003] := by
    cases hload
    decide +kernel
  obtain ⟨s, hs, hpair⟩ := Option.map_eq_some_iff.mp hend
  obtain ⟨hsc, hrest⟩ := Prod.mk.inj hpair
  obtain ⟨hfetched, hinstructions, hcycles, -⟩ := counters_accounted hload hrs hs
  rw [hcompleted] at hfetched hinstructions hcycles
  rw [hrest] at hfetched
  rw [hsc] at hcycles
  exact ⟨s₁, s, hload, hrs, hs, hfetched, hcompleted, hsc, hinstructions, hcycles⟩

end Simulator

end BasicComputer
