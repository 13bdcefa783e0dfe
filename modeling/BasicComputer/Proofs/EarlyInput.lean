import BasicComputer.Proofs.ByteStreams
import BasicComputer.Proofs.Termination

/-!
# Input ahead of time

A machine looks at the bytes that wait in one place only: between two instructions, if a byte is
asked for. There it takes the first one, so bytes further behind make no difference, and the length
of the queue makes none but for whether it is empty. A micro-step that looks for a byte and finds
none is *starved*. Every other does the same, and reports the same, with more bytes at the end of
the queue, which are then still there.

A run that is never starved can therefore have its bytes early. Which bytes come when, as long as
they come in this order and in time, is not seen in what the run does.

## Exactly when it matters

It would be enough to assume that the queue is never empty when it is looked at. The condition here
is the weakest one: a micro-step is the same with more bytes behind if it is not starved, and is not
the same if it is. So nothing is lost by stating everything in terms of it.

Bytes are appended on the outside, to the queue of the machine at hand. That this commutes with a
micro-step is a matter of service alone, since no timing state looks at the queue.
-/

namespace BasicComputer

namespace Machine

variable {m : Machine} {n : Nat} {q : List Byte}

/-- Let more bytes wait behind those that do. -/
def appendInput (m : Machine) (q : List Byte) : Machine := m.setInput (m.input ++ q)

/-- The next micro-step looks for a byte, and none waits. -/
def Starved (m : Machine) : Prop :=
  m.flags.s ∧ m.registers.sc = 0 ∧ m.flags.fgi = false ∧ m.input = []

instance (m : Machine) : Decidable m.Starved := inferInstanceAs (Decidable (_ ∧ _ ∧ _ ∧ _))

theorem appendInput_nil (m : Machine) : m.appendInput [] = m := by
  rw [appendInput, List.append_nil]
  rfl

theorem appendInput_append (m : Machine) (p q : List Byte) :
    m.appendInput (p ++ q) = (m.appendInput p).appendInput q :=
  congrArg m.setInput (List.append_assoc _ _ _).symm

/-! ## One micro-step -/

theorem skipIf_setInput (m : Machine) (bytes : List Byte) (condition : Bool) :
    (m.setInput bytes).skipIf condition = (m.skipIf condition).setInput bytes := by
  cases condition <;> rfl

theorem executeRegister_setInput (m : Machine) (bytes : List Byte) (op : RegisterOp) :
    (m.setInput bytes).executeRegister op = (m.executeRegister op).setInput bytes := by
  cases op with
  | spa | sna | sza | sze => exact skipIf_setInput m bytes _
  | cla | cle | cma | cme | cir | cil | inc | hlt => rfl

theorem executeIo_setInput (m : Machine) (bytes : List Byte) (op : IoOp) :
    (m.setInput bytes).executeIo op = (m.executeIo op).setInput bytes := by
  cases op with
  | ski | sko => exact skipIf_setInput m bytes _
  | inp | out | ion | iof => rfl

theorem execute_setInput (m : Machine) (bytes : List Byte) (t : TimingState) :
    (m.setInput bytes).execute t = (m.execute t).setInput bytes := by
  have hregisters : (m.setInput bytes).registers = m.registers := rfl
  cases t with
  | t0 | t1 | t2 => rfl
  | t3 =>
    rw [execute, execute, executeT3, executeT3, hregisters]
    cases decode m.registers.ir with
    | memory _ _ indirect => cases indirect <;> rfl
    | register op => exact congrArg (·.goto 0) (executeRegister_setInput m bytes op)
    | io op => exact congrArg (·.goto 0) (executeIo_setInput m bytes op)
    | unknown _ => rfl
  | t4 | t5 =>
    simp only [execute, executeT4, executeT5, hregisters]
    cases memoryOp? m.registers with
    | none => rfl
    | some op => cases op <;> rfl
  | t6 =>
    exact congrArg (·.goto 0)
      (skipIf_setInput { m with memory := m.memory.write m.registers.ar m.registers.dr } bytes _)

theorem execute_appendInput (m : Machine) (q : List Byte) (t : TimingState) :
    (m.appendInput q).execute t = (m.execute t).appendInput q := by
  rw [appendInput, execute_setInput, appendInput, (m.execute_frame t).input]

theorem serviceOutput_appendInput (m : Machine) (q : List Byte) :
    (m.appendInput q).serviceOutput = m.serviceOutput.appendInput q := by
  by_cases hfgo : m.flags.fgo
  · have hfgo' : (m.appendInput q).flags.fgo := hfgo
    rw [serviceOutput, serviceOutput, if_pos hfgo, if_pos hfgo']
  · have hfgo' : ¬(m.appendInput q).flags.fgo := hfgo
    rw [serviceOutput, serviceOutput, if_neg hfgo, if_neg hfgo']
    rfl

theorem serviceInput_appendInput (h : ¬(m.flags.fgi = false ∧ m.input = [])) (q : List Byte) :
    (m.appendInput q).serviceInput = m.serviceInput.appendInput q := by
  by_cases hask : m.flags.fgi = false
  · obtain ⟨b, rest, hwait⟩ := List.exists_cons_of_ne_nil fun hwait ↦ h ⟨hask, hwait⟩
    have hask' : (m.appendInput q).flags.fgi = false := hask
    have hwait' : (m.appendInput q).input = b :: (rest ++ q) := congrArg (· ++ q) hwait
    rw [serviceInput, serviceInput, hask, hask', hwait, hwait']
    rfl
  · have hask' : ¬(m.appendInput q).flags.fgi = false := hask
    rw [serviceInput_of_idle fun h ↦ absurd h hask, serviceInput_of_idle fun h ↦ absurd h hask']

theorem service_appendInput (hs : m.flags.s) (h : ¬m.Starved) (q : List Byte) :
    (m.appendInput q).service = m.service.appendInput q := by
  by_cases h0 : m.registers.sc = 0
  · have hfed : ¬(m.serviceOutput.flags.fgi = false ∧ m.serviceOutput.input = []) := by
      obtain ⟨_, _, houtput⟩ := m.serviceOutput_eq
      rw [houtput]
      exact fun hstarved ↦ h ⟨hs, h0, hstarved⟩
    have h0' : (m.appendInput q).registers.sc = 0 := h0
    rw [service, service, if_pos h0, if_pos h0', serviceOutput_appendInput,
      serviceInput_appendInput hfed]
  · have h0' : (m.appendInput q).registers.sc ≠ 0 := h0
    rw [service_of_sc_ne h0, service_of_sc_ne h0']

theorem step_appendInput (h : ¬m.Starved) (q : List Byte) :
    (m.appendInput q).step = m.step.appendInput q := by
  by_cases hs : m.flags.s
  case neg =>
    have hstep : m.step = m := if_neg hs
    have hstep' : (m.appendInput q).step = m.appendInput q := if_neg hs
    rw [hstep, hstep']
  have hs' : (m.appendInput q).flags.s := hs
  cases ht : m.timingState with
  | none =>
    have ht' : (m.appendInput q).timingState = none := ht
    rw [step_of_timingState_eq_none hs ht, step_of_timingState_eq_none hs' ht',
      service_appendInput hs h]
    rfl
  | some t =>
    have ht' : (m.appendInput q).timingState = some t := ht
    rw [step_eq hs ht, step_eq hs' ht', service_appendInput hs h, execute_appendInput]
    rfl

/-- Bytes at the end of the queue change a micro-step exactly if it is starved. -/
theorem step_appendInput_iff :
    (m.appendInput q).step = m.step.appendInput q ↔ ¬m.Starved ∨ q = [] := by
  constructor
  · rw [← imp_iff_not_or]
    rintro heq ⟨hs, h0, hask, hwait⟩
    have hbefore : m.taken ++ m.step.input = [] := (input_step m).1.trans hwait
    have hafter : (m.appendInput q).taken ++ (m.appendInput q).step.input = m.input ++ q :=
      (input_step (m.appendInput q)).1
    have htaken : (m.appendInput q).taken = (m.input ++ q).take 1 := if_pos ⟨hs, h0, hask⟩
    have hinput : (m.step.appendInput q).input = m.step.input ++ q := rfl
    rw [heq, hinput, htaken, hwait, (List.append_eq_nil_iff.mp hbefore).2, List.nil_append,
      List.append_left_eq_self, List.take_eq_nil_iff] at hafter
    exact hafter.resolve_left one_ne_zero
  · rintro (h | rfl)
    · exact step_appendInput h q
    · rw [appendInput_nil, appendInput_nil]

theorem report_appendInput (h : ¬m.Starved) (q : List Byte) :
    (m.appendInput q).report = m.report := by
  rw [report, report, step_appendInput h]
  rfl

/-! ## Many micro-steps -/

theorem iterate_step_appendInput (h : ∀ k < n, ¬(step^[k] m).Starved) (q : List Byte) :
    step^[n] (m.appendInput q) = (step^[n] m).appendInput q := by
  induction n with
  | zero => rfl
  | succ n ih =>
    rw [Function.iterate_succ_apply', Function.iterate_succ_apply',
      ih fun k hk ↦ h k (Nat.lt_succ_of_lt hk), step_appendInput (h n n.lt_succ_self)]

/-- A loop whose condition does not look at the bytes that wait takes as many rounds with more of
them. -/
theorem LoopsFor.appendInput {goesOn : Machine → Prop}
    (hgoesOn : ∀ m, goesOn (m.appendInput q) ↔ goesOn m) (h : ∀ k < n, ¬(step^[k] m).Starved)
    (hloop : LoopsFor goesOn n m) : LoopsFor goesOn n (m.appendInput q) := by
  refine ⟨?_, ?_⟩
  · intro k hk
    rw [iterate_step_appendInput fun j hj ↦ h j (hj.trans hk), hgoesOn]
    exact hloop.before k hk
  · rw [iterate_step_appendInput h, hgoesOn]
    exact hloop.ends

theorem stepsToFinish_appendInput (m : Machine) (q : List Byte) :
    (m.appendInput q).stepsToFinish = m.stepsToFinish := by
  have hloop := loopsFor_stepsToFinish m
  -- within an instruction no byte is looked for
  have hfed : ∀ k < m.stepsToFinish, ¬(step^[k] m).Starved := by
    intro k hk hstarved
    exact (hloop.before k hk).2 hstarved.2.1
  exact (loopsFor_stepsToFinish _).unique (hloop.appendInput (fun _ ↦ Iff.rfl) hfed)

theorem stepsToLimit_appendInput {limit : Nat}
    (h : ∀ k < m.stepsToLimit limit, ¬(step^[k] m).Starved) (q : List Byte) :
    (m.appendInput q).stepsToLimit limit = m.stepsToLimit limit :=
  (loopsFor_stepsToLimit limit _).unique
    ((loopsFor_stepsToLimit limit m).appendInput (fun _ ↦ Iff.rfl) h)

theorem stepsFor_appendInput {r : Request} (h : ∀ k < m.stepsFor r, ¬(step^[k] m).Starved)
    (q : List Byte) : (m.appendInput q).stepsFor r = m.stepsFor r := by
  by_cases hl : m.isLoaded
  case neg =>
    have hl' : ¬(m.appendInput q).isLoaded := hl
    rw [stepsFor_of_not_isLoaded hl, stepsFor_of_not_isLoaded hl']
  have hl' : (m.appendInput q).isLoaded := hl
  cases r with
  | macroStep =>
    have hsc : (m.appendInput q).registers.sc = m.registers.sc := rfl
    simp only [stepsFor, hl, hl', hsc, if_true] at h ⊢
    by_cases h0 : m.registers.sc = 0
    · rw [if_pos h0] at h
      have hfirst : ¬m.Starved := h 0 (Nat.succ_pos _)
      rw [if_pos h0, if_pos h0, step_appendInput hfirst, stepsToFinish_appendInput]
    · rw [if_neg h0, if_neg h0, stepsToFinish_appendInput]
  | run | runLimited _ =>
    simp only [stepsFor, hl, hl', if_true] at h ⊢
    exact stepsToLimit_appendInput h q
  | _ => simp only [stepsFor, hl, hl', if_true]

end Machine

/-! ## Sessions -/

namespace Simulator

variable {σ : Type} [Sink σ] {s : Simulator σ} {n : Nat} {rs : List Request}

theorem advance_appendInput (h : ¬s.machine.Starved) (q : List Byte) :
    (s.modify (·.appendInput q)).advance = s.advance.modify (·.appendInput q) := by
  calc (s.modify (·.appendInput q)).advance
      = ⟨(s.machine.appendInput q).step,
          Sink.recordAll s.sink (s.machine.appendInput q).report⟩ := rfl
    _ = ⟨s.machine.step.appendInput q, Sink.recordAll s.sink s.machine.report⟩ := by
      rw [Machine.step_appendInput h, Machine.report_appendInput h]
    _ = s.advance.modify (·.appendInput q) := rfl

theorem iterate_advance_appendInput (h : ∀ k < n, ¬(Machine.step^[k] s.machine).Starved)
    (q : List Byte) :
    advance^[n] (s.modify (·.appendInput q)) = (advance^[n] s).modify (·.appendInput q) := by
  induction n with
  | zero => rfl
  | succ n ih =>
    have hlast : ¬(advance^[n] s).machine.Starved := by
      rw [machine_iterate_advance]
      exact h n n.lt_succ_self
    rw [Function.iterate_succ_apply', Function.iterate_succ_apply',
      ih fun k hk ↦ h k (Nat.lt_succ_of_lt hk), advance_appendInput hlast]

theorem serve_appendInput {r : Request} (hr : r.isStep) (hl : s.machine.isLoaded)
    (h : ∀ m ∈ s.machine.course r, ¬m.Starved) (q : List Byte) :
    (s.modify (·.appendInput q)).serve r = (s.serve r).map (·.modify (·.appendInput q)) := by
  have hl' : (s.modify (·.appendInput q)).machine.isLoaded := hl
  have hfed : ∀ k < s.machine.stepsFor r, ¬(Machine.step^[k] s.machine).Starved := by
    intro k hk
    exact h _ (List.mem_iterate.mpr ⟨k, hk, rfl⟩)
  have hsteps : (s.modify (·.appendInput q)).machine.stepsFor r = s.machine.stepsFor r :=
    Machine.stepsFor_appendInput hfed q
  cases r with
  | run =>
    rw [serve_run_of_isLoaded hl, serve_run_of_isLoaded hl', hsteps,
      iterate_advance_appendInput hfed, apply_ite (Option.map _)]
    rfl
  | microStep | macroStep | runLimited _ =>
    rw [serve_of_isBoundedStep rfl hl, serve_of_isBoundedStep rfl hl', hsteps,
      iterate_advance_appendInput hfed, Option.map_some]
  | _ => cases hr

/-- In a session that is never starved, the bytes to come and any others can wait from the start.
The others still do at the end. -/
theorem serveAll_appendInput (hl : s.machine.isLoaded)
    (hrs : ∀ r ∈ rs, r.isStep ∨ ∃ b, r = .pushInput b) (h : ∀ m ∈ s.history rs, ¬m.Starved)
    (q : List Byte) :
    (s.modify (·.appendInput (rs.flatMap Request.pushed ++ q))).serveAll (rs.filter (·.isStep)) =
      (s.serveAll rs).map (·.modify (·.appendInput q)) := by
  induction rs generalizing s with
  | nil => rfl
  | cons r rs ih =>
    obtain ⟨hr, hrest⟩ := List.forall_mem_cons.mp hrs
    rw [history, List.forall_mem_append] at h
    obtain ⟨hcourse, hlater⟩ := h
    rw [List.flatMap_cons, serveAll_cons]
    rcases hr with hstep | ⟨b, rfl⟩
    · rw [Request.pushed_of_isStep hstep, List.nil_append, List.filter_cons_of_pos hstep,
        serveAll_cons, serve_appendInput hstep hl hcourse]
      cases hserve : s.serve r with
      | none => rfl
      | some t =>
        have hlt : t.machine.isLoaded := by
          rw [machine_of_serve hserve, Machine.after_of_isStep hstep,
            Machine.isLoaded_iterate_step]
          exact hl
        rw [hserve] at hlater
        exact ih hlt hrest hlater
    · -- the byte that comes now is the first of those that could have been there already
      have hpushed : s.modify (·.appendInput (Request.pushed (.pushInput b) ++
          rs.flatMap Request.pushed ++ q)) =
          (s.modify (·.pushInput b)).modify (·.appendInput (rs.flatMap Request.pushed ++ q)) := by
        rw [List.append_assoc]
        exact congrArg (mk · s.sink) (s.machine.appendInput_append [b] _)
      rw [hpushed]
      exact ih hl hrest hlater

/-- **Input ahead of time.** If none of `n` micro-steps of a loaded machine is starved, then with
more bytes at the end of the queue they lead to the same simulator, reports included, but for these
bytes, which still wait at the end of its queue. So in a session of steps and bytes that is never
starved, the bytes can all wait from the start: nothing shows whether they do or come one by one. -/
theorem early_input (hl : s.machine.isLoaded) :
    (∀ n q, (∀ k < n, ¬(Machine.step^[k] s.machine).Starved) →
      ∃ s', s.serveAll (List.replicate n .microStep) = some s' ∧
        s.serveAll (.setInput (s.machine.input ++ q) :: List.replicate n .microStep) =
          some (s'.modify (·.appendInput q))) ∧
    ∀ rs, (∀ r ∈ rs, r.isStep ∨ ∃ b, r = .pushInput b) → (∀ m ∈ s.history rs, ¬m.Starved) →
      s.serveAll (.setInput (s.machine.input ++ rs.flatMap Request.pushed) ::
        rs.filter (·.isStep)) = s.serveAll rs := by
  -- what waits is set to what the bytes added to it make
  have hset (q : List Byte) (rs : List Request) :
      s.serveAll (.setInput (s.machine.input ++ q) :: rs) =
        (s.modify (·.appendInput q)).serveAll rs := rfl
  constructor
  · intro n q h
    have hl' : (s.modify (·.appendInput q)).machine.isLoaded := hl
    refine ⟨_, serveAll_replicate_microStep hl n, ?_⟩
    rw [hset, serveAll_replicate_microStep hl', iterate_advance_appendInput h]
  · intro rs hrs h
    have hnil : (·.modify (·.appendInput []) : Simulator σ → Simulator σ) = id := by
      funext t
      rw [modify, Machine.appendInput_nil]
      rfl
    have hall := serveAll_appendInput hl hrs h []
    rw [List.append_nil, hnil, Option.map_id_apply] at hall
    rw [hset, hall]

/-- Bytes are read and written in turn, twice. -/
def relayProgram : Program :=
  ⟨[⟨0, 0xF800, "INP", 1⟩, ⟨1, 0xF400, "OUT", 2⟩, ⟨2, 0xF800, "INP", 3⟩, ⟨3, 0xF400, "OUT", 4⟩,
    ⟨4, 0x7001, "HLT", 5⟩], []⟩

/-- The first byte comes in the middle of the first INP, the second one before the other INP. -/
def relayRequests : List Request :=
  [.runLimited 3, .pushInput 0x41, .macroStep, .macroStep, .pushInput 0x42, .run]

/-- After four micro-steps without a byte the machine is starved, but none of the four is. -/
theorem early_input_relay :
    ∃ s₁ s : Simulator EventLog, (withSink EventLog.empty).load relayProgram = (.ok (), s₁) ∧
      (∃ s', s₁.serveAll (List.replicate 4 .microStep) = some s' ∧ s'.machine.Starved ∧
        s₁.serveAll (.setInput [0x41] :: List.replicate 4 .microStep) =
          some (s'.modify (·.appendInput [0x41]))) ∧
      (∀ r ∈ relayRequests, r.isStep ∨ ∃ b, r = .pushInput b) ∧
      (∀ m ∈ s₁.history relayRequests, ¬m.Starved) ∧ s₁.serveAll relayRequests = some s ∧
      s₁.serveAll [.setInput [0x41, 0x42], .runLimited 3, .macroStep, .macroStep, .run] = some s ∧
      s.machine.isHalted ∧ s.machine.output.toList = [0x41, 0x42] := by
  obtain ⟨s₁, hload⟩ : ∃ s₁, (withSink EventLog.empty).load relayProgram = (.ok (), s₁) := ⟨_, rfl⟩
  have hstart : s₁.machine.isLoaded ∧ s₁.machine.input = [] := by
    cases hload
    exact ⟨rfl, rfl⟩
  obtain ⟨hl, hinput⟩ := hstart
  have hfour : ∀ k < 4, ¬(Machine.step^[k] s₁.machine).Starved := by
    cases hload
    decide +kernel
  have hstarved : (Machine.step^[4] s₁.machine).Starved := by
    cases hload
    decide +kernel
  have hrs : ∀ r ∈ relayRequests, r.isStep ∨ ∃ b, r = .pushInput b := by
    simp [relayRequests, Request.isStep]
  have hfed : ∀ m ∈ s₁.history relayRequests, ¬m.Starved := by
    cases hload
    decide +kernel
  have hend : (s₁.serveAll relayRequests).map
      (fun s ↦ (s.machine.isHalted, s.machine.output.toList)) = some (true, [0x41, 0x42]) := by
    cases hload
    decide +kernel
  obtain ⟨s, hs, hpair⟩ := Option.map_eq_some_iff.mp hend
  obtain ⟨hhalted, houtput⟩ := Prod.mk.inj hpair
  obtain ⟨hsteps, hsession⟩ := early_input hl
  obtain ⟨s', hs', hearly⟩ := hsteps 4 [0x41] hfour
  have hqueued := (hsession relayRequests hrs hfed).trans hs
  rw [hinput] at hearly hqueued
  have hmachine : s'.machine.Starved := by
    rw [serveAll_replicate_microStep hl, Option.some.injEq] at hs'
    rw [← hs', machine_iterate_advance]
    exact hstarved
  exact ⟨s₁, s, hload, ⟨s', hs', hmachine, hearly⟩, hrs, hfed, hs, hqueued, hhalted, houtput⟩

end Simulator

end BasicComputer
