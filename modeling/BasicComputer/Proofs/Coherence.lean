import BasicComputer.Proofs.Session

/-!
# The sequence counter and the instruction register

The timing state is chosen by the sequence counter alone, and every timing state decodes the
instruction register anew. That the two fit together is an invariant: the counter always selects a
timing state, a state that carries out a memory operation is entered only with such an operation in
the instruction register, and only with one that has something to do there.

Every micro-step of a running machine establishes the invariant, whatever there was before. So only
a hand that changes one of the two registers breaks it, and while none does, the micro-steps that
make up for a broken one are never taken.

## From any state in one step

An invariant is usually kept, and has to hold at the start. This one is restored by any micro-step
of a running machine, from whatever registers. So it may be broken by hand between two steps and
holds again after the next, and the proof for a micro-step has no assumption on the machine before.

## Branches that are not taken

The machine has a way to go on where its registers do not fit together. That these branches are
never taken in a session that spares them is the use of the invariant: each is described by the
registers that lead to it, and coherent registers are none of those.
-/

namespace BasicComputer

/-! ## Coherent registers -/

/-- The sequence counter and the instruction register fit together. -/
structure Registers.Coherent (r : Registers) : Prop where
  /-- The counter selects a timing state. -/
  sc_le : r.sc.toNat ≤ 6
  /-- From T4 on there is a memory operation, at T5 none of the two that end before it, and at T6
  the one that reaches it. -/
  memory : 4 ≤ r.sc.toNat → ∃ op address indirect,
    decode r.ir = .memory op address indirect ∧
      (r.sc = 5 → op ≠ .sta ∧ op ≠ .bun) ∧ (r.sc = 6 → op = .isz)

namespace Machine

theorem memoryOp?_eq_some_iff {r : Registers} {op : MemoryOp} :
    memoryOp? r = some op ↔ ∃ address indirect, decode r.ir = .memory op address indirect := by
  rw [memoryOp?, decode]
  constructor
  · intro h
    rw [h]
    exact ⟨_, _, rfl⟩
  · rintro ⟨address, indirect, h⟩
    split at h
    · next hop =>
      cases h
      exact hop
    · split at h
      · cases h
      · split at h <;> cases h

end Machine

namespace Registers

variable {r : Registers}

theorem coherent_of_sc_le (h : r.sc.toNat ≤ 3) : r.Coherent where
  sc_le := by omega
  memory h4 := by omega

theorem coherent_of_memoryOp? {op : MemoryOp} (hop : Machine.memoryOp? r = some op)
    (hsc : r.sc = 4 ∨ r.sc = 5 ∧ op ≠ .sta ∧ op ≠ .bun ∨ r.sc = 6 ∧ op = .isz) : r.Coherent where
  sc_le := by
    rcases hsc with h | ⟨h, -⟩ | ⟨h, -⟩ <;>
    · rw [h]
      decide
  memory _ := by
    obtain ⟨address, indirect, h⟩ := Machine.memoryOp?_eq_some_iff.mp hop
    refine ⟨op, address, indirect, h, ?_, ?_⟩
    · intro h5
      rcases hsc with h | ⟨-, h⟩ | ⟨h, -⟩
      · exact absurd (h.symm.trans h5) (by decide)
      · exact h
      · exact absurd (h.symm.trans h5) (by decide)
    · intro h6
      rcases hsc with h | ⟨h, -⟩ | ⟨-, h⟩
      · exact absurd (h.symm.trans h6) (by decide)
      · exact absurd (h.symm.trans h6) (by decide)
      · exact h

end Registers

namespace Machine

variable {m : Machine}

/-! ## Every micro-step makes the registers coherent -/

theorem coherent_goto_zero (m : Machine) : (m.goto 0).registers.Coherent :=
  Registers.coherent_of_sc_le (Nat.zero_le 3)

theorem coherent_executeT3 (m : Machine) : m.executeT3.registers.Coherent := by
  rw [executeT3]
  split
  case h_1 h | h_2 h =>
    exact Registers.coherent_of_memoryOp? (memoryOp?_eq_some_iff.mpr ⟨_, _, h⟩) (.inl rfl)
  all_goals exact coherent_goto_zero _

theorem coherent_executeT4 (m : Machine) : m.executeT4.registers.Coherent := by
  rw [executeT4]
  cases hop : memoryOp? m.registers with
  | none => exact coherent_goto_zero m
  | some op =>
    cases op with
    | and | add | lda | isz | bsa =>
      exact Registers.coherent_of_memoryOp? hop (.inr (.inl ⟨rfl, by decide, by decide⟩))
    | sta | bun => exact Registers.coherent_of_sc_le (Nat.zero_le 3)

theorem coherent_executeT5 (m : Machine) : m.executeT5.registers.Coherent := by
  rw [executeT5]
  cases hop : memoryOp? m.registers with
  | none => exact coherent_goto_zero m
  | some op =>
    cases op with
    | isz => exact Registers.coherent_of_memoryOp? hop (.inr (.inr ⟨rfl, rfl⟩))
    | and | add | lda | bsa | sta | bun => exact Registers.coherent_of_sc_le (Nat.zero_le 3)

theorem coherent_execute (m : Machine) (t : TimingState) : (m.execute t).registers.Coherent := by
  cases t with
  | t0 | t1 | t2 => exact Registers.coherent_of_sc_le (Nat.le_of_ble_eq_true rfl)
  | t3 => exact coherent_executeT3 m
  | t4 => exact coherent_executeT4 m
  | t5 => exact coherent_executeT5 m
  | t6 => exact coherent_goto_zero _

theorem coherent_step_of_running (hs : m.flags.s) : m.step.registers.Coherent := by
  simp only [step, hs, if_true]
  split
  · exact coherent_goto_zero _
  · exact coherent_execute _ _

theorem coherent_step (h : m.registers.Coherent) : m.step.registers.Coherent := by
  by_cases hs : m.flags.s
  · exact coherent_step_of_running hs
  · rw [step, if_neg hs]
    exact h

theorem coherent_iterate_step (h : m.registers.Coherent) (n : Nat) :
    (step^[n] m).registers.Coherent := by
  induction n with
  | zero => exact h
  | succ n ih =>
    rw [Function.iterate_succ_apply']
    exact coherent_step ih

theorem coherent_of_mem_course (h : m.registers.Coherent) {r : Request} {m' : Machine}
    (hm' : m' ∈ m.course r) : m'.registers.Coherent := by
  obtain ⟨n, -, rfl⟩ := List.mem_iterate.mp hm'
  exact coherent_iterate_step h n

end Machine

/-! ## Sessions -/

/-- Requests that leave the sequence counter and the instruction register to the machine. -/
def Request.sparesTiming : Request → Bool
  | setRegister .sc _ | setRegister .ir _ => false
  | _ => true

namespace Machine

variable {m : Machine}

theorem coherent_after {r : Request} (hr : r.sparesTiming) (h : m.registers.Coherent) :
    (m.after r).registers.Coherent := by
  cases r with
  | microStep | macroStep | run | runLimited _ => exact coherent_iterate_step h _
  | setInput _ | pushInput _ | clearInput | setFlag _ _ => exact h
  | reset => exact Registers.coherent_of_sc_le (Nat.zero_le 3)
  | load p =>
    rw [after]
    cases hboot : boot p with
    | error fault => exact h
    | ok machine =>
      obtain ⟨memory, pc, rfl⟩ := boot_eq hboot
      exact Registers.coherent_of_sc_le (Nat.zero_le 3)
  | setRegister name n =>
    cases name with
    | sc | ir => cases hr
    | ac | dr | tr | ar | pc | inpr | outr => exact ⟨h.sc_le, h.memory⟩

/-! ## What coherent registers rule out -/

/-- The next micro-step makes up for registers that do not fit together: there is no timing state,
or a timing state of memory operations without one, or T5 of an operation that ends before it. -/
def Recovers (m : Machine) : Prop :=
  m.flags.s ∧ (m.timingState = none ∨
    (m.timingState = some .t4 ∨ m.timingState = some .t5) ∧ memoryOp? m.registers = none ∨
    m.timingState = some .t5 ∧
      (memoryOp? m.registers = some .sta ∨ memoryOp? m.registers = some .bun))

theorem exists_timingState (h : m.registers.Coherent) :
    ∃ t, m.timingState = some t ∧
      (t = .t4 ∨ t = .t5 ∨ t = .t6 → ∃ op, memoryOp? m.registers = some op ∧
        (t = .t5 → op ≠ .sta ∧ op ≠ .bun) ∧ (t = .t6 → op = .isz)) := by
  obtain ⟨hle, hmemory⟩ := h
  cases ht : m.timingState with
  | none =>
    have h7 := TimingState.ofCount?_eq_none ht
    omega
  | some t =>
    have hsc : m.registers.sc.toNat = t.index := TimingState.ofCount?_eq_some ht
    refine ⟨t, rfl, ?_⟩
    intro hlate
    have h4 : 4 ≤ m.registers.sc.toNat := by
      rw [hsc]
      rcases hlate with rfl | rfl | rfl <;> decide
    obtain ⟨op, address, indirect, hop, h5, h6⟩ := hmemory h4
    refine ⟨op, memoryOp?_eq_some_iff.mpr ⟨address, indirect, hop⟩, ?_, ?_⟩
    · rintro rfl
      exact h5 (BitVec.eq_of_toNat_eq hsc)
    · rintro rfl
      exact h6 (BitVec.eq_of_toNat_eq hsc)

theorem not_recovers (h : m.registers.Coherent) : ¬m.Recovers := by
  obtain ⟨t, ht, hop⟩ := exists_timingState h
  rw [Recovers, ht]
  rintro ⟨-, hnone | ⟨hlate, hnone⟩ | ⟨h5, hearly⟩⟩
  · cases hnone
  · have hlate : t = .t4 ∨ t = .t5 ∨ t = .t6 := by
      rcases hlate with h | h <;> cases h
      · exact .inl rfl
      · exact .inr (.inl rfl)
    obtain ⟨op, hsome, -⟩ := hop hlate
    rw [hnone] at hsome
    cases hsome
  · cases h5
    obtain ⟨op, hsome, hne, -⟩ := hop (.inr (.inl rfl))
    obtain ⟨hsta, hbun⟩ := hne rfl
    rw [hsome] at hearly
    rcases hearly with h | h
    · exact hsta (Option.some.inj h)
    · exact hbun (Option.some.inj h)

theorem memoryOp?_of_t6 (h : m.registers.Coherent) (ht : m.timingState = some .t6) :
    memoryOp? m.registers = some .isz := by
  obtain ⟨t, ht', hop⟩ := exists_timingState h
  rw [ht] at ht'
  cases ht'
  obtain ⟨op, hsome, -, hisz⟩ := hop (.inr (.inr rfl))
  rw [hsome, hisz rfl]

/-! ## Warnings -/

section Trace

variable {before : Registers} {flags : Flags} {after : Machine} {e : Entry}

theorem level_of_mem_traceService (he : e ∈ traceService before flags after) :
    e.level = .info := by
  rw [traceService] at he
  split at he
  · rcases List.mem_append.mp he with houtput | hinput
    · split at houtput
      · exact absurd houtput List.not_mem_nil
      · rw [List.mem_singleton.mp houtput]
        rfl
    · split at hinput
      · rw [List.mem_singleton.mp hinput]
        rfl
      · exact absurd hinput List.not_mem_nil
  · exact absurd he List.not_mem_nil

/-- At T3 a warning says that the word in the instruction register is no operation. -/
theorem level_traceT3 :
    (traceT3 before flags after).level = .info ∨ ∃ w, decode before.ir = .unknown w ∧
      traceT3 before flags after =
        .warning .executeRegister s!"Unknown instruction {Numeral.hex 4 w.toNat}, ignored" := by
  rw [traceT3]
  cases decode before.ir with
  | memory op address indirect =>
    left
    cases indirect <;> rfl
  | register op | io op => exact .inl rfl
  | unknown w => exact .inr ⟨w, rfl, rfl⟩

theorem level_of_mem_traceState {t : TimingState} (h3 : t ≠ .t3) (h4 : t ≠ .t4) (h5 : t ≠ .t5)
    (he : e ∈ traceState before flags after t) : e.level = .info := by
  revert e
  cases t with
  | t3 => exact absurd rfl h3
  | t4 => exact absurd rfl h4
  | t5 => exact absurd rfl h5
  | t0 | t1 | t2 | t6 => simp [traceState, traceT6, Entry.info]

theorem level_traceT4 {op : MemoryOp} (hop : memoryOp? before = some op) (after : Registers) :
    (traceT4 before after).level = .info := by
  rw [traceT4, hop]
  rfl

theorem level_traceT5 {op : MemoryOp} (hop : memoryOp? before = some op) (hsta : op ≠ .sta)
    (hbun : op ≠ .bun) : (traceT5 before after).level = .info := by
  rw [traceT5, hop]
  cases op with
  | sta => exact absurd rfl hsta
  | bun => exact absurd rfl hbun
  | and | add | lda | bsa | isz => rfl

end Trace

/-- With coherent registers, the only warning a micro-step reports is the one on an unknown word. -/
theorem warning_of_mem_report (h : m.registers.Coherent) {e : Entry} (he : e ∈ m.report)
    (hw : e.level = .warning) :
    m.timingState = some .t3 ∧ ∃ w, decode m.registers.ir = .unknown w ∧
      e = .warning .executeRegister s!"Unknown instruction {Numeral.hex 4 w.toNat}, ignored" := by
  have hinfo : ¬e.level = .info := by
    rw [hw]
    decide
  obtain ⟨t, ht, hop⟩ := exists_timingState h
  have hstate : TimingState.ofCount? m.registers.sc = some t := ht
  rw [report, trace] at he
  split at he
  case isFalse => exact absurd he List.not_mem_nil
  rw [hstate, List.mem_append] at he
  rcases he with he | he
  · exact absurd (level_of_mem_traceService he) hinfo
  cases t with
  | t0 | t1 | t2 | t6 =>
    exact absurd (level_of_mem_traceState (by decide) (by decide) (by decide) he) hinfo
  | t3 =>
    cases List.mem_singleton.mp he
    rcases level_traceT3 with hlevel | hunknown
    · exact absurd hlevel hinfo
    · exact ⟨ht, hunknown⟩
  | t4 =>
    obtain ⟨op, hsome, -⟩ := hop (.inl rfl)
    cases List.mem_singleton.mp he
    exact absurd (level_traceT4 hsome _) hinfo
  | t5 =>
    obtain ⟨op, hsome, hne, -⟩ := hop (.inr (.inl rfl))
    obtain ⟨hsta, hbun⟩ := hne rfl
    cases List.mem_singleton.mp he
    exact absurd (level_traceT5 hsome hsta hbun) hinfo

/-- So it is for whole requests to step; that there is no program is an error, not a warning. -/
theorem warning_of_mem_reports (h : m.registers.Coherent) {r : Request} {e : Entry}
    (he : e ∈ m.reports r) (hw : e.level = .warning) :
    ∃ m' ∈ m.course r, m'.timingState = some .t3 ∧ ∃ w, decode m'.registers.ir = .unknown w ∧
      e = .warning .executeRegister s!"Unknown instruction {Numeral.hex 4 w.toNat}, ignored" := by
  rw [reports] at he
  split at he
  · obtain ⟨m', hm', he⟩ := List.mem_flatMap.mp he
    exact ⟨m', hm', warning_of_mem_report (coherent_of_mem_course h hm') he hw⟩
  · cases List.mem_singleton.mp he
    cases hw

end Machine

namespace Simulator

variable {σ : Type} [Sink σ]

/-- A session that spares the sequence counter and the instruction register keeps them coherent. -/
theorem coherent_of_serveAll {s s' : Simulator σ} {rs : List Request}
    (hrs : ∀ r ∈ rs, r.sparesTiming) (hs : s.serveAll rs = some s')
    (h : s.machine.registers.Coherent) : s'.machine.registers.Coherent := by
  refine session_induction (P := fun _ _ m ↦ m.registers.Coherent) hs h ?_
  intro _ r _ m hr hm
  exact Machine.coherent_after (hrs r hr) hm

/-- **Timing states.** Whatever is asked of a simulator after a successful load, but for changes to
the sequence counter and the instruction register by hand, these two fit together: the counter
selects a timing state, and T4, T5 and T6 are entered only with a memory operation that has
something to do there. So no micro-step of a further request to step makes up for anything, T6 only
ever writes for ISZ, and the only warning such a request reports is that a word is no operation. -/
theorem session_coherent {s₀ s₁ s : Simulator σ} {p : Program} (hload : s₀.load p = (.ok (), s₁))
    {rs : List Request} (hrs : ∀ r ∈ rs, r.sparesTiming) (hs : s₁.serveAll rs = some s) :
    s.machine.registers.Coherent ∧
    ∀ r, r.isStep →
      (∀ m ∈ s.machine.course r, ¬m.Recovers ∧
        (m.timingState = some .t6 → Machine.memoryOp? m.registers = some .isz)) ∧
      (∀ s', s.serve r = some s' → s'.sink = Sink.recordAll s.sink (s.machine.reports r)) ∧
      ∀ e ∈ s.machine.reports r, e.level = .warning →
        ∃ m ∈ s.machine.course r, m.timingState = some .t3 ∧
          ∃ w, decode m.registers.ir = .unknown w ∧
            e = .warning .executeRegister
              s!"Unknown instruction {Numeral.hex 4 w.toNat}, ignored" := by
  have hstart : s₁.machine.registers.Coherent := by
    obtain ⟨memory, pc, h⟩ := machine_of_load hload
    rw [h]
    exact Registers.coherent_of_sc_le (Nat.zero_le 3)
  have h : s.machine.registers.Coherent := coherent_of_serveAll hrs hs hstart
  refine ⟨h, ?_⟩
  intro r hr
  refine ⟨?_, ?_, ?_⟩
  · intro m hm
    have hcoherent := Machine.coherent_of_mem_course h hm
    exact ⟨Machine.not_recovers hcoherent, Machine.memoryOp?_of_t6 hcoherent⟩
  · intro s' hs'
    exact sink_of_serve hr hs'
  · intro e he hw
    exact Machine.warning_of_mem_reports h he hw

/-- ISZ of a counter, a word that is no operation, and a halt. -/
def countingProgram : Program :=
  ⟨[⟨0, 0x6003, "ISZ C", 1⟩, ⟨2, 0x7001, "HLT", 3⟩], [⟨1, 0x7003⟩, ⟨3, 0x0007⟩]⟩

/-- Two micro-steps, changes by hand, a program that is refused, and three more micro-steps. -/
def countingRequests : List Request :=
  [.runLimited 2, .setRegister .ac 0xFFFF, .setFlag .fgi false, .pushInput 0x41, .load ⟨[], []⟩,
    .runLimited 3]

/-- They end in the middle of ISZ. The run from there passes by T6 and by the word that is no
operation. -/
theorem session_coherent_counting :
    ∃ s₁ s : Simulator EventLog, (withSink EventLog.empty).load countingProgram = (.ok (), s₁) ∧
      (∀ r ∈ countingRequests, r.sparesTiming) ∧ s₁.serveAll countingRequests = some s ∧
      s.machine.registers.sc = 5 ∧ s.machine.registers.Coherent ∧
      (s.machine.course .run).length = 10 ∧
      ∀ m ∈ s.machine.course .run, ¬m.Recovers ∧
        (m.timingState = some .t6 → Machine.memoryOp? m.registers = some .isz) := by
  obtain ⟨s₁, hload⟩ : ∃ s₁, (withSink EventLog.empty).load countingProgram = (.ok (), s₁) :=
    ⟨_, rfl⟩
  have hrs : ∀ r ∈ countingRequests, r.sparesTiming := by decide
  have hend : (s₁.serveAll countingRequests).map
      (fun s ↦ (s.machine.registers.sc, (s.machine.course .run).length)) = some (5, 10) := by
    cases hload
    decide +kernel
  obtain ⟨s, hs, hpair⟩ := Option.map_eq_some_iff.mp hend
  obtain ⟨hsc, hlength⟩ := Prod.mk.inj hpair
  obtain ⟨hcoherent, hsteps⟩ := session_coherent hload hrs hs
  exact ⟨s₁, s, hload, hrs, hs, hsc, hcoherent, hlength, (hsteps .run rfl).1⟩

end Simulator

end BasicComputer
