import BasicComputer.Proofs.Session

/-!
# Byte streams

A machine exchanges bytes with its surroundings through two registers, each with a flag and a queue.
The operations do only one half of an exchange. OUT puts a byte into the output register, from where
it is delivered before the next instruction; INP asks for a byte, which is taken in before the first
instruction that finds one waiting, however often it was asked for until then.

Still nothing gets lost on the way. For the output the invariant is that a byte is pending only in a
running machine between two instructions, so no OUT finds another byte in its register, and no
machine halts over one. For the input it is that the bytes taken and the bytes that wait are the
bytes that came, and that there is an INP for each byte taken and for a request still open.

## Ports

A micro-step changes the ports in one of four ways, and in which of them can be told from the timing
state and the word in the instruction register. Both invariants are about ports and go by these four
ways. The rest of the machine is looked at once, to see that there is no fifth.

## Histories

What was written or taken at some time is read off the machine that was about to do it. So the two
accounts are between a machine and the machines before it, and a session extends the list of these
micro-step by micro-step. Changes of the queue by hand are the only requests that add to what came.
-/

namespace BasicComputer

/-- What a machine exchanges bytes through: registers, flags and queues. -/
structure Ports where
  inpr : Byte
  outr : Byte
  fgi : Bool
  fgo : Bool
  input : List Byte
  output : Array Byte
  deriving DecidableEq, Repr

namespace Ports

def ask (p : Ports) : Ports := { p with fgi := false }

def put (p : Ports) (b : Byte) : Ports := { p with outr := b, fgo := false }

/-- The byte in the output register, as long as it is to be delivered. -/
def pending (p : Ports) : List Byte := if p.fgo then [] else [p.outr]

/-- The number of requests for a byte that are still open. -/
def openRequests (p : Ports) : Nat := if p.fgi then 0 else 1

@[simp] theorem output_ask (p : Ports) : p.ask.output = p.output := rfl

@[simp] theorem output_put (p : Ports) (b : Byte) : (p.put b).output = p.output := rfl

@[simp] theorem pending_ask (p : Ports) : p.ask.pending = p.pending := rfl

@[simp] theorem pending_put (p : Ports) (b : Byte) : (p.put b).pending = [b] := rfl

end Ports

namespace Machine

variable {m : Machine}

/-- The ports of a machine. -/
def ports (m : Machine) : Ports :=
  ⟨m.registers.inpr, m.registers.outr, m.flags.fgi, m.flags.fgo, m.input, m.output⟩

/-! ## What a micro-step does at the ports -/

/-- The next micro-step executes an input-output operation. -/
def Executes (m : Machine) (op : IoOp) : Prop :=
  m.flags.s ∧ m.timingState = some .t3 ∧ decode m.registers.ir = .io op

instance (m : Machine) (op : IoOp) : Decidable (m.Executes op) :=
  inferInstanceAs (Decidable (_ ∧ _ ∧ _))

theorem sc_ne_of_executes {op : IoOp} (h : m.Executes op) : m.registers.sc ≠ 0 := by
  intro h0
  have hstate := h.2.1
  rw [timingState, h0] at hstate
  cases hstate

theorem eq_of_executes {op op' : IoOp} (h : m.Executes op) (h' : m.Executes op') : op = op' :=
  Operation.io.inj (h.2.2.symm.trans h'.2.2)

theorem step_of_executes {op : IoOp} (h : m.Executes op) :
    m.step = ((m.executeIo op).goto 0).tally .t3 := by
  rw [step_eq h.1 h.2.1, service_of_sc_ne (sc_ne_of_executes h), execute, executeT3, h.2.2]

theorem ports_skipIf (m : Machine) (condition : Bool) : (m.skipIf condition).ports = m.ports := by
  rw [skipIf]
  split <;> rfl

theorem ports_executeRegister (m : Machine) (op : RegisterOp) :
    (m.executeRegister op).ports = m.ports := by
  cases op with
  | spa | sna | sza | sze => exact ports_skipIf m _
  | cla | cle | cma | cme | cir | cil | inc | hlt => rfl

theorem ports_executeIo {op : IoOp} (hinp : op ≠ .inp) (hout : op ≠ .out) :
    (m.executeIo op).ports = m.ports := by
  cases op with
  | inp => exact absurd rfl hinp
  | out => exact absurd rfl hout
  | ski | sko => exact ports_skipIf m _
  | ion | iof => rfl

theorem ports_executeT3 (hinp : decode m.registers.ir ≠ .io .inp)
    (hout : decode m.registers.ir ≠ .io .out) : m.executeT3.ports = m.ports := by
  rw [executeT3]
  split
  case h_3 op _ => exact ports_executeRegister m op
  case h_4 op hop =>
    rw [hop] at hinp hout
    exact ports_executeIo (fun h ↦ hinp (congrArg _ h)) (fun h ↦ hout (congrArg _ h))
  all_goals rfl

theorem ports_execute {t : TimingState} (ht : t ≠ .t3) : (m.execute t).ports = m.ports := by
  cases t with
  | t3 => exact absurd rfl ht
  | t0 | t1 | t2 => rfl
  | t4 | t5 =>
    simp only [execute, executeT4, executeT5]
    split
    · rfl
    · split <;> rfl
  | t6 => exact ports_skipIf { m with memory := m.memory.write m.registers.ar m.registers.dr } _

/-- What a micro-step does at the ports: it services them between instructions, it executes INP or
OUT, or it does nothing there. -/
inductive PortStep (m : Machine) : Prop
  | service (hs : m.flags.s) (h0 : m.registers.sc = 0) (h : m.step.ports = m.service.ports)
  | inp (hinp : m.Executes .inp) (h : m.step.ports = m.ports.ask)
  | out (hout : m.Executes .out) (h : m.step.ports = m.ports.put (lowByte m.registers.ac))
  | none (hidle : m.flags.s → m.registers.sc ≠ 0) (hout : ¬m.Executes .out)
      (h : m.step.ports = m.ports)

theorem portStep (m : Machine) : m.PortStep := by
  by_cases hs : m.flags.s
  case neg =>
    refine .none (fun h ↦ absurd h hs) (fun h ↦ hs h.1) ?_
    rw [step, if_neg hs]
  by_cases h0 : m.registers.sc = 0
  · refine .service hs h0 ?_
    have hstate : m.timingState = some .t0 := by
      rw [timingState, h0]
      rfl
    rw [step_eq hs hstate]
    rfl
  by_cases hinp : m.Executes .inp
  · refine .inp hinp ?_
    rw [step_of_executes hinp]
    rfl
  by_cases hout : m.Executes .out
  · refine .out hout ?_
    rw [step_of_executes hout]
    rfl
  refine .none (fun _ ↦ h0) hout ?_
  cases hstate : m.timingState with
  | none =>
    rw [step_of_timingState_eq_none hs hstate, service_of_sc_ne h0]
    rfl
  | some t =>
    rw [step_eq hs hstate, service_of_sc_ne h0]
    by_cases ht : t = .t3
    · subst ht
      exact ports_executeT3 (fun h ↦ hinp ⟨hs, hstate, h⟩) (fun h ↦ hout ⟨hs, hstate, h⟩)
    · exact ports_execute ht

/-! ## Output -/

/-- What the next micro-step puts into the output register: the low byte of the accumulator, if it
executes OUT. -/
def written (m : Machine) : List Byte := if m.Executes .out then [lowByte m.registers.ac] else []

/-- A byte is pending only in a running machine between two instructions. -/
def Settled (m : Machine) : Prop := m.flags.fgo ∨ m.flags.s ∧ m.registers.sc = 0

theorem pending_of_fgo (h : m.flags.fgo) : m.ports.pending = [] := if_pos h

theorem fgo_of_settled (h : m.Settled) (h0 : m.flags.s → m.registers.sc ≠ 0) : m.flags.fgo := by
  rcases h with hfgo | ⟨hs, hsc⟩
  · exact hfgo
  · exact absurd hsc (h0 hs)

/-- Service delivers the byte that is pending. -/
theorem service_output (h0 : m.registers.sc = 0) :
    m.service.ports.output.toList = m.ports.output.toList ++ m.ports.pending ∧
    m.service.ports.fgo := by
  have hinput (m : Machine) : m.serviceInput.ports.output = m.ports.output ∧
      m.serviceInput.ports.fgo = m.ports.fgo := by
    rw [serviceInput]
    split <;> exact ⟨rfl, rfl⟩
  obtain ⟨houtput, hfgo⟩ := hinput m.serviceOutput
  rw [service, if_pos h0, houtput, hfgo]
  by_cases h : m.flags.fgo
  · rw [serviceOutput, if_pos h, pending_of_fgo h, List.append_nil]
    exact ⟨rfl, h⟩
  · have hpending : m.ports.pending = [m.registers.outr] := if_neg h
    rw [serviceOutput, if_neg h, hpending]
    exact ⟨Array.toList_push, rfl⟩

theorem output_le_step (m : Machine) : m.output.toList <+: m.step.output.toList := by
  show m.ports.output.toList <+: m.step.ports.output.toList
  cases m.portStep with
  | service hs h0 h =>
    rw [h, (service_output h0).1]
    exact List.prefix_append _ _
  | inp _ h | out _ h | none _ _ h =>
    have houtput : m.ports.output = m.step.ports.output := (congrArg Ports.output h).symm
    exact houtput ▸ List.prefix_refl _

/-- A micro-step adds what it writes to what is delivered and what is pending. -/
theorem output_step (hm : m.Settled) :
    m.step.ports.output.toList ++ m.step.ports.pending =
      m.ports.output.toList ++ m.ports.pending ++ m.written := by
  cases m.portStep with
  | service hs h0 h =>
    obtain ⟨houtput, hfgo⟩ := service_output h0
    have hwritten : m.written = [] := if_neg fun hout ↦ sc_ne_of_executes hout h0
    rw [h, houtput, pending_of_fgo hfgo, hwritten]
  | inp hinp h =>
    have hwritten : m.written = [] := if_neg fun hout ↦
      IoOp.noConfusion (eq_of_executes hinp hout)
    rw [h, Ports.output_ask, Ports.pending_ask, hwritten, List.append_nil]
  | out hout h =>
    have hfgo : m.flags.fgo := fgo_of_settled hm fun _ ↦ sc_ne_of_executes hout
    have hwritten : m.written = [lowByte m.registers.ac] := if_pos hout
    rw [h, Ports.output_put, Ports.pending_put, pending_of_fgo hfgo, List.append_nil, hwritten]
  | none _ hout h =>
    have hwritten : m.written = [] := if_neg hout
    rw [h, hwritten, List.append_nil]

theorem settled_step (hm : m.Settled) : m.step.Settled := by
  cases m.portStep with
  | service hs h0 h =>
    have hfgo : m.step.flags.fgo = m.service.flags.fgo := congrArg Ports.fgo h
    exact .inl (hfgo.trans (service_output h0).2)
  | inp hinp h =>
    have hfgo : m.step.flags.fgo = m.flags.fgo := congrArg Ports.fgo h
    exact .inl (hfgo.trans (fgo_of_settled hm fun _ ↦ sc_ne_of_executes hinp))
  | out hout h =>
    -- OUT is the whole of its instruction and does not halt the machine
    rw [step_of_executes hout]
    exact .inr ⟨hout.1, rfl⟩
  | none hidle _ h =>
    have hfgo : m.step.flags.fgo = m.flags.fgo := congrArg Ports.fgo h
    exact .inl (hfgo.trans (fgo_of_settled hm hidle))

/-- What the machines before `m` have written is what is delivered and what is pending. -/
structure OutputAccount (past : List Machine) (m : Machine) : Prop where
  settled : m.Settled
  total : m.ports.output.toList ++ m.ports.pending = past.flatMap written
  /-- What was delivered at any time is the beginning of what was delivered later. -/
  grows : (past.map (·.output.toList) ++ [m.output.toList]).Pairwise (· <+: ·)

theorem outputAccount_step {past : List Machine} (h : OutputAccount past m) :
    OutputAccount (past ++ [m]) m.step where
  settled := settled_step h.settled
  total := by
    rw [output_step h.settled, h.total, List.flatMap_append, List.flatMap_singleton]
  grows := by
    rw [List.map_append, List.map_singleton, List.pairwise_append]
    refine ⟨h.grows, List.pairwise_singleton _ _, ?_⟩
    intro earlier hearlier now hnow
    rw [List.mem_singleton.mp hnow]
    refine List.IsPrefix.trans ?_ (output_le_step m)
    rcases List.mem_append.mp hearlier with hpast | hlast
    · exact (List.pairwise_append.mp h.grows).2.2 earlier hpast _ (List.mem_singleton_self _)
    · obtain rfl := List.mem_singleton.mp hlast
      exact List.prefix_refl _

theorem outputAccount_of_isInput {r : Request} (hr : r.isInput) {past : List Machine}
    (h : OutputAccount past m) : OutputAccount past (m.after r) := by
  cases r with
  | setInput _ | pushInput _ | clearInput => exact ⟨h.settled, h.total, h.grows⟩
  | _ => cases hr

/-! ## Input -/

/-- What the next micro-step takes from the queue: one byte, if it stands between two instructions
of a running machine, a byte is asked for and one waits. -/
def taken (m : Machine) : List Byte :=
  if m.flags.s ∧ m.registers.sc = 0 ∧ m.flags.fgi = false then m.input.take 1 else []

theorem taken_of_idle (h : m.flags.s → m.registers.sc ≠ 0) : m.taken = [] :=
  if_neg fun ⟨hs, h0, _⟩ ↦ h hs h0

theorem taken_of_executes {op : IoOp} (h : m.Executes op) : m.taken = [] :=
  taken_of_idle fun _ ↦ sc_ne_of_executes h

theorem serviceInput_of_idle (h : m.flags.fgi = false → m.input = []) : m.serviceInput = m := by
  rw [serviceInput]
  split
  · next b rest hask hwait =>
    rw [h hask] at hwait
    cases hwait
  · rfl

theorem ports_serviceInput {b : Byte} {rest : List Byte} (hask : m.flags.fgi = false)
    (hwait : m.input = b :: rest) :
    m.serviceInput.ports = ⟨b, m.registers.outr, true, m.flags.fgo, rest, m.output⟩ := by
  rw [serviceInput, hask, hwait]
  rfl

/-- Service takes a byte from the front of the queue into the input register, which answers the
request for one. -/
theorem service_input (hs : m.flags.s) (h0 : m.registers.sc = 0) :
    m.taken ++ m.service.ports.input = m.ports.input ∧
    m.service.ports.inpr = m.taken.getLast?.getD m.ports.inpr ∧
    m.taken.length + m.service.ports.openRequests = m.ports.openRequests := by
  have houtput : m.serviceOutput.registers = m.registers ∧
      m.serviceOutput.flags.fgi = m.flags.fgi ∧ m.serviceOutput.input = m.input := by
    obtain ⟨_, _, h⟩ := m.serviceOutput_eq
    rw [h]
    exact ⟨rfl, rfl, rfl⟩
  obtain ⟨hregisters, hfgi, hinput⟩ := houtput
  rw [service, if_pos h0]
  by_cases hidle : m.flags.fgi = false → m.input = []
  · have htaken : m.taken = [] := by
      rw [taken]
      split
      · next h => rw [hidle h.2.2, List.take_nil]
      · rfl
    have hidle' : m.serviceOutput.flags.fgi = false → m.serviceOutput.input = [] := by
      rw [hfgi, hinput]
      exact hidle
    rw [htaken, serviceInput_of_idle hidle', ports, hregisters, hfgi, hinput]
    exact ⟨rfl, rfl, Nat.zero_add _⟩
  · obtain ⟨hask, hwait⟩ := Classical.not_imp.mp hidle
    obtain ⟨b, rest, hqueue⟩ := List.exists_cons_of_ne_nil hwait
    have htaken : m.taken = [b] := by
      rw [taken, if_pos ⟨hs, h0, hask⟩, hqueue]
      rfl
    rw [htaken, ports_serviceInput (hfgi.trans hask) (hinput.trans hqueue), ports, hask, hqueue]
    exact ⟨rfl, rfl, rfl⟩

/-- A micro-step takes its bytes from the front of the queue, the last of them stands in the input
register, and each answers a request; only INP makes one. -/
theorem input_step (m : Machine) :
    m.taken ++ m.step.ports.input = m.ports.input ∧
    m.step.ports.inpr = m.taken.getLast?.getD m.ports.inpr ∧
    m.taken.length + m.step.ports.openRequests ≤
      m.ports.openRequests + if m.Executes .inp then 1 else 0 := by
  cases m.portStep with
  | service hs h0 h =>
    obtain ⟨hinput, hinpr, hopen⟩ := service_input hs h0
    rw [h]
    exact ⟨hinput, hinpr, hopen.le.trans (Nat.le_add_right _ _)⟩
  | inp hinp h =>
    rw [h, taken_of_executes hinp, if_pos hinp]
    exact ⟨rfl, rfl, Nat.le_add_left _ _⟩
  | out hout h =>
    rw [h, taken_of_executes hout, List.length_nil, Nat.zero_add]
    exact ⟨rfl, rfl, Nat.le_add_right _ _⟩
  | none hidle _ h =>
    rw [h, taken_of_idle hidle, List.length_nil, Nat.zero_add]
    exact ⟨rfl, rfl, Nat.le_add_right _ _⟩

/-- Within an instruction, and on a halted machine, the queue stays as it is. -/
theorem input_step_of_idle (h : m.registers.sc ≠ 0 ∨ m.isHalted) : m.step.input = m.input := by
  have htaken : m.taken = [] := by
    apply taken_of_idle
    intro hs
    rcases h with h0 | hhalted
    · exact h0
    · exact absurd hhalted (not_isHalted_iff.mpr hs)
  have hinput := (input_step m).1
  rw [htaken] at hinput
  exact hinput

/-- What the machines before `m` have taken and what waits are the bytes that came. -/
structure InputAccount (stream : List Byte) (past : List Machine) (m : Machine) : Prop where
  total : past.flatMap taken ++ m.input = stream
  /-- The input register holds the last byte taken. -/
  inpr : m.registers.inpr = (past.flatMap taken).getLast?.getD 0
  /-- There is an INP for each byte taken and for a request still open. -/
  asked : (past.flatMap taken).length + m.ports.openRequests ≤ past.countP (·.Executes .inp)

theorem inputAccount_step {stream : List Byte} {past : List Machine}
    (h : InputAccount stream past m) : InputAccount stream (past ++ [m]) m.step := by
  obtain ⟨hinput, hinpr, hopen⟩ := input_step m
  constructor
  · rw [List.flatMap_append, List.flatMap_singleton, List.append_assoc, ← h.total]
    exact congrArg _ hinput
  · have hregister : m.step.registers.inpr = m.taken.getLast?.getD m.registers.inpr := hinpr
    rw [List.flatMap_append, List.flatMap_singleton, List.getLast?_append, hregister, h.inpr]
    cases m.taken.getLast? <;> rfl
  · have hasked := h.asked
    rw [List.flatMap_append, List.flatMap_singleton, List.length_append, List.countP_append,
      List.countP_singleton]
    simp only [decide_eq_true_eq]
    omega

theorem inputAccount_pushInput {stream : List Byte} {past : List Machine}
    (h : InputAccount stream past m) (b : Byte) :
    InputAccount (stream ++ [b]) past (m.pushInput b) where
  total := by
    rw [← h.total, List.append_assoc]
    rfl
  inpr := h.inpr
  asked := h.asked

end Machine

/-! ## Sessions -/

/-- The bytes that a request adds to the queue. -/
def Request.pushed : Request → List Byte
  | pushInput b => [b]
  | _ => []

theorem Request.pushed_of_isStep {r : Request} (h : r.isStep) : r.pushed = [] := by
  cases r with
  | pushInput _ => cases h
  | _ => rfl

namespace Simulator

variable {σ : Type} [Sink σ] {s₀ s₁ s₂ s : Simulator σ} {p : Program} {rs : List Request}

/-- **Output.** After a successful load, whatever is done with steps and with the bytes that wait to
be read, the bytes delivered and the one pending are the low bytes of the accumulator at each OUT
executed, in order. What was delivered at any time is the beginning of what is delivered later, and
nothing is pending once the machine has halted. -/
theorem output_conserved (hload : s₀.load p = (.ok (), s₁))
    (hrs : ∀ r ∈ rs, r.isStep ∨ r.isInput) (hs : s₁.serveAll rs = some s) :
    s.machine.output.toList ++ s.machine.ports.pending = (s₁.history rs).flatMap Machine.written ∧
    ((s₁.history rs).map (·.output.toList) ++ [s.machine.output.toList]).Pairwise (· <+: ·) ∧
    (s.machine.isHalted → s.machine.flags.fgo ∧
      s.machine.output.toList = (s₁.history rs).flatMap Machine.written) := by
  have hstart : Machine.OutputAccount [] s₁.machine := by
    obtain ⟨memory, pc, h⟩ := machine_of_load hload
    rw [h]
    exact ⟨.inl rfl, rfl, List.pairwise_singleton _ _⟩
  have h : Machine.OutputAccount (s₁.history rs) s.machine := by
    refine session_induction (P := fun _ ↦ Machine.OutputAccount) hs hstart ?_
    intro _ r past m hr hm
    rcases hrs r hr with hstep | hinput
    · exact Machine.keeps_of_isStep (fun _ _ ↦ Machine.outputAccount_step) hstep hm
    · rw [Machine.course_of_not_isStep (Request.isStep_of_isInput hinput), List.append_nil]
      exact Machine.outputAccount_of_isInput hinput hm
  refine ⟨h.total, h.grows, ?_⟩
  intro hhalted
  have hfgo : s.machine.flags.fgo := Machine.fgo_of_settled h.settled fun hs ↦
    absurd hhalted (Machine.not_isHalted_iff.mpr hs)
  refine ⟨hfgo, ?_⟩
  rw [← h.total, Machine.pending_of_fgo hfgo, List.append_nil]
  rfl

/-- Three times INP, twice OUT, and a halt. -/
def echoProgram : Program :=
  ⟨[⟨0, 0xF800, "INP", 1⟩, ⟨1, 0xF800, "INP", 2⟩, ⟨2, 0xF800, "INP", 3⟩, ⟨3, 0xF400, "OUT", 4⟩,
    ⟨4, 0xF400, "OUT", 5⟩, ⟨5, 0x7001, "HLT", 6⟩], []⟩

/-- After the third INP two bytes come, of which the program takes one. -/
def echoRequests : List Request :=
  [.runLimited 12, .pushInput 0x42, .pushInput 0x43, .run]

/-- The two OUT stand next to each other, and the second right before the halt. -/
theorem output_conserved_echo :
    ∃ s₁ s : Simulator EventLog, (withSink EventLog.empty).load echoProgram = (.ok (), s₁) ∧
      (∀ r ∈ echoRequests, r.isStep ∨ r.isInput) ∧ s₁.serveAll echoRequests = some s ∧
      s.machine.isHalted ∧ s.machine.flags.fgo ∧ s.machine.output.toList = [0x42, 0x42] := by
  obtain ⟨s₁, hload⟩ : ∃ s₁, (withSink EventLog.empty).load echoProgram = (.ok (), s₁) := ⟨_, rfl⟩
  have hrs : ∀ r ∈ echoRequests, r.isStep ∨ r.isInput := by decide
  have hend : (s₁.serveAll echoRequests).map (·.machine.isHalted) = some true := by
    cases hload
    decide +kernel
  have hwritten : (s₁.history echoRequests).flatMap Machine.written = [0x42, 0x42] := by
    cases hload
    decide +kernel
  obtain ⟨s, hs, hhalted⟩ := Option.map_eq_some_iff.mp hend
  obtain ⟨-, -, hhalt⟩ := output_conserved hload hrs hs
  obtain ⟨hfgo, houtput⟩ := hhalt hhalted
  exact ⟨s₁, s, hload, hrs, hs, hhalted, hfgo, houtput.trans hwritten⟩

/-- **Input.** After a successful load, with any bytes waiting at first, and whatever is done with
steps and with further bytes, the bytes taken and those that wait are the ones that came, in order.
The input register holds the last byte taken, and there is an INP executed for each byte taken and
for a request still open. Within an instruction, and once the machine has halted, the queue stays as
it is. -/
theorem input_conserved (hload : s₀.load p = (.ok (), s₁)) {bytes : List Byte}
    (hbytes : s₁.serve (.setInput bytes) = some s₂)
    (hrs : ∀ r ∈ rs, r.isStep ∨ ∃ b, r = .pushInput b) (hs : s₂.serveAll rs = some s) :
    (s₂.history rs).flatMap Machine.taken ++ s.machine.input =
      bytes ++ rs.flatMap Request.pushed ∧
    s.machine.registers.inpr = ((s₂.history rs).flatMap Machine.taken).getLast?.getD 0 ∧
    ((s₂.history rs).flatMap Machine.taken).length + s.machine.ports.openRequests ≤
      (s₂.history rs).countP (·.Executes .inp) ∧
    ∀ m : Machine, m.registers.sc ≠ 0 ∨ m.isHalted → m.step.input = m.input := by
  have hstart : Machine.InputAccount (bytes ++ [].flatMap Request.pushed) [] s₂.machine := by
    obtain ⟨memory, pc, h⟩ := machine_of_load hload
    rw [machine_of_serve hbytes, h, List.flatMap_nil, List.append_nil]
    exact ⟨rfl, rfl, Nat.zero_le _⟩
  have h : Machine.InputAccount (bytes ++ rs.flatMap Request.pushed) (s₂.history rs) s.machine := by
    refine session_induction
      (P := fun done ↦ Machine.InputAccount (bytes ++ done.flatMap Request.pushed)) hs hstart ?_
    intro done r past m hr hm
    rw [List.flatMap_append, List.flatMap_singleton, ← List.append_assoc]
    rcases hrs r hr with hstep | ⟨b, rfl⟩
    · rw [Request.pushed_of_isStep hstep, List.append_nil]
      exact Machine.keeps_of_isStep (fun _ _ ↦ Machine.inputAccount_step) hstep hm
    · rw [Machine.course_of_not_isStep rfl, List.append_nil]
      exact Machine.inputAccount_pushInput hm b
  refine ⟨h.total, h.inpr, h.asked, ?_⟩
  intro m hm
  exact Machine.input_step_of_idle hm

/-- The second INP and the third share a request, as nothing waits at the third. -/
theorem input_conserved_echo :
    ∃ s₁ s₂ s : Simulator EventLog, (withSink EventLog.empty).load echoProgram = (.ok (), s₁) ∧
      s₁.serve (.setInput [0x41]) = some s₂ ∧
      (∀ r ∈ echoRequests, r.isStep ∨ ∃ b, r = .pushInput b) ∧
      s₂.serveAll echoRequests = some s ∧
      (s₂.history echoRequests).countP (·.Executes .inp) = 3 ∧
      (s₂.history echoRequests).flatMap Machine.taken = [0x41, 0x42] ∧
      s.machine.input = [0x43] ∧ s.machine.registers.inpr = 0x42 := by
  obtain ⟨s₁, hload⟩ : ∃ s₁, (withSink EventLog.empty).load echoProgram = (.ok (), s₁) := ⟨_, rfl⟩
  obtain ⟨s₂, hbytes⟩ : ∃ s₂, s₁.serve (.setInput [0x41]) = some s₂ := ⟨_, rfl⟩
  have hrs : ∀ r ∈ echoRequests, r.isStep ∨ ∃ b, r = .pushInput b := by
    simp [echoRequests, Request.isStep]
  obtain ⟨s, hs⟩ : ∃ s, s₂.serveAll echoRequests = some s := by
    refine Option.isSome_iff_exists.mp ?_
    cases hbytes
    cases hload
    decide +kernel
  have hpast : (s₂.history echoRequests).flatMap Machine.taken = [0x41, 0x42] ∧
      (s₂.history echoRequests).countP (·.Executes .inp) = 3 := by
    cases hbytes
    cases hload
    decide +kernel
  obtain ⟨htaken, hinp⟩ := hpast
  obtain ⟨htotal, hinpr, -, -⟩ := input_conserved hload hbytes hrs hs
  rw [htaken] at htotal hinpr
  exact ⟨s₁, s₂, s, hload, hbytes, hrs, hs, hinp, htaken, List.append_cancel_left htotal, hinpr⟩

end Simulator

end BasicComputer
