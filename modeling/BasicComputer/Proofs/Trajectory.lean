import BasicComputer.Proofs.Session

/-!
# One trajectory

A loaded machine has one way to go. Micro-steps, instructions and runs under a limit move it along
that way, further or less far, and what they report is what the micro-steps on the way report. So a
session of them amounts to a number of micro-steps, whoever watches; a run under a limit can be cut
into two; and a run that halts is a run under every limit that it does not exceed. At the end of the
way, where the machine has halted, nothing moves it.

A simulator reports to a sink, and its type depends on the sink. The number of micro-steps is given
before the sink is, as a function of the machine and the requests. That it is the same for all sinks
need not be shown, and everything else follows from iterations of one function.
-/

namespace BasicComputer.Simulator

variable {σ : Type} [Sink σ] {s : Simulator σ}

/-! ## Sessions of bounded steps -/

theorem serveAll_replicate_microStep (hl : s.machine.isLoaded) (n : Nat) :
    s.serveAll (List.replicate n .microStep) = some (advance^[n] s) := by
  induction n generalizing s with
  | zero => rfl
  | succ n ih =>
    have hserve : s.serve .microStep = some s.advance := by
      rw [serve_of_isBoundedStep rfl hl, Machine.stepsFor, if_pos hl, Function.iterate_one]
    have hnext : s.advance.machine.isLoaded := by
      rw [machine_advance, Machine.isLoaded_step]
      exact hl
    rw [List.replicate_succ, serveAll_cons, hserve, Option.bind_some, ih hnext,
      Function.iterate_succ_apply]

/-- The machine alone determines to how many micro-steps a session of bounded steps amounts. -/
theorem exists_serveAll_eq {rs : List Request} (hrs : ∀ r ∈ rs, r.isBoundedStep) {m : Machine}
    (hl : m.isLoaded) :
    ∃ n, ∀ (σ : Type) [Sink σ] (s : Simulator σ), s.machine = m →
      s.serveAll rs = some (advance^[n] s) := by
  induction rs generalizing m with
  | nil => exact ⟨0, fun σ _ s _ ↦ rfl⟩
  | cons r rs ih =>
    obtain ⟨hr, hrest⟩ := List.forall_mem_cons.mp hrs
    have hnext : (Machine.step^[m.stepsFor r] m).isLoaded := by
      rw [Machine.isLoaded_iterate_step]
      exact hl
    obtain ⟨n, hn⟩ := ih hrest hnext
    refine ⟨n + m.stepsFor r, ?_⟩
    rintro σ _ s rfl
    rw [serveAll_cons, serve_of_isBoundedStep hr hl, Option.bind_some,
      hn σ _ (machine_iterate_advance s _), Function.iterate_add_apply]

/-! ## Runs -/

theorem runLimited_eq (hl : s.machine.isLoaded) (max : Nat) :
    s.runLimited max =
      (.ok ((s.runTo (s.machine.cycles + max)).machine.cycles - s.machine.cycles),
        s.runTo (s.machine.cycles + max)) := by
  simp only [runLimited, ifLoaded, hl, if_true]

theorem run_eq_some_iff (hl : s.machine.isLoaded) {c : Nat} {s' : Simulator σ} :
    s.run = some (.ok c, s') ↔
      s.runTo Machine.maxCycles = s' ∧ s'.machine.isHalted ∧
        s'.machine.cycles - s.machine.cycles = c := by
  simp only [run, hl, if_true]
  constructor
  · intro h
    split at h
    · next hhalted =>
      cases h
      exact ⟨rfl, hhalted, rfl⟩
    · cases h
  · rintro ⟨rfl, hhalted, rfl⟩
    rw [if_pos hhalted]

/-- A run under a limit can be cut into two, of which the second starts where the first ended. -/
theorem runLimited_add (hl : s.machine.isLoaded) (a b : Nat) :
    ∃ ca cb s₁ s₂, s.runLimited a = (.ok ca, s₁) ∧ s₁.runLimited b = (.ok cb, s₂) ∧
      s.runLimited (a + b) = (.ok (ca + cb), s₂) := by
  obtain ⟨t, ht⟩ : ∃ t, t = s.runTo (s.machine.cycles + a) := ⟨_, rfl⟩
  have htl : t.machine.isLoaded := by
    rw [ht, runTo_eq, machine_iterate_advance, Machine.isLoaded_iterate_step]
    exact hl
  have hsecond : t.runTo (t.machine.cycles + b) = s.runTo (s.machine.cycles + (a + b)) := by
    have hcut : t.runTo (s.machine.cycles + (a + b)) = s.runTo (s.machine.cycles + (a + b)) := by
      rw [ht]
      exact runTo_runTo (by omega) s
    by_cases hh : t.machine.isHalted
    · rw [← hcut, runTo_of_halted _ hh, runTo_of_halted _ hh]
    · -- the first run ended at its limit, so both reach for the same one
      have hcycles : t.machine.cycles = s.machine.cycles + a := by
        rw [ht] at hh ⊢
        exact cycles_runTo_of_running (Nat.le_add_right _ _) hh
      rw [hcycles, Nat.add_assoc, hcut]
  have hst : s.machine.cycles ≤ t.machine.cycles := ht ▸ cycles_le_runTo _ s
  have htu : t.machine.cycles ≤ (t.runTo (t.machine.cycles + b)).machine.cycles :=
    cycles_le_runTo _ t
  refine ⟨_, _, _, _, runLimited_eq hl a, ht ▸ runLimited_eq htl b, ?_⟩
  rw [runLimited_eq hl, ← hsecond, ← ht]
  refine Prod.ext (congrArg Except.ok ?_) rfl
  show (t.runTo _).machine.cycles - s.machine.cycles = _
  omega

/-- A run that comes to an end is a run under any limit that is not below its length. -/
theorem runLimited_of_run (hl : s.machine.isLoaded) {c : Nat} {s' : Simulator σ}
    (h : s.run = some (.ok c, s')) {n : Nat} (hn : c ≤ n) : s.runLimited n = (.ok c, s') := by
  obtain ⟨rfl, hhalted, rfl⟩ := (run_eq_some_iff hl).mp h
  have hle := cycles_le_runTo Machine.maxCycles s
  rw [runLimited_eq hl, runTo_eq_of_halts hhalted (by omega)]

theorem run_of_runLimited (hl : s.machine.isLoaded) {n : Nat}
    (hhalted : (s.runLimited n).2.machine.isHalted)
    (hcycles : (s.runLimited n).2.machine.cycles ≤ Machine.maxCycles) :
    s.run = some (s.runLimited n) := by
  rw [runLimited_eq hl] at hhalted hcycles ⊢
  rw [run_eq_some_iff hl]
  exact ⟨runTo_eq_of_halts hhalted hcycles, hhalted, rfl⟩

/-! ## Halted machines -/

theorem microStep_of_halted (hl : s.machine.isLoaded) (h : s.machine.isHalted) :
    s.microStep = (.ok (), s) := by
  simp only [microStep, ifLoaded, hl, if_true, advance_of_halted h]

theorem macroStep_of_halted (hl : s.machine.isLoaded) (h : s.machine.isHalted) :
    s.macroStep = (.ok (), s) := by
  have hfinish : s.finishInstruction = s := by
    rw [finishInstruction, if_neg]
    rintro ⟨hs, -⟩
    exact Machine.not_isHalted_iff.mpr hs h
  simp only [macroStep, ifLoaded, hl, if_true, advance_of_halted h, hfinish, ite_self]

theorem runLimited_of_halted (hl : s.machine.isLoaded) (h : s.machine.isHalted) (max : Nat) :
    s.runLimited max = (.ok 0, s) := by
  rw [runLimited_eq hl, runTo_of_halted _ h, Nat.sub_self]

theorem run_of_halted (hl : s.machine.isLoaded) (h : s.machine.isHalted) :
    s.run = some (.ok 0, s) := by
  rw [run_eq_some_iff hl, runTo_of_halted _ h]
  exact ⟨rfl, h, Nat.sub_self _⟩

/-! ## The trajectory -/

/-- **One trajectory.** On a loaded machine, whatever its registers hold, a session of micro-steps,
instructions and runs under a limit always has an outcome, and it is that of some number of
micro-steps, the reports included; the number does not depend on who watches. Runs under a limit can
be cut, a run that halts is a run under every limit from its length on, and no run fails to come to
an end where one under a limit does. A halted machine stays as it is under every such request, which
reports nothing and counts nothing. -/
theorem steps_trajectory (m : Machine) (hl : m.isLoaded) (rs : List Request)
    (hrs : ∀ r ∈ rs, r.isBoundedStep) :
    (∃ n, ∀ (σ : Type) [Sink σ] (sink : σ), ∃ s' : Simulator σ,
      serveAll ⟨m, sink⟩ rs = some s' ∧
      serveAll ⟨m, sink⟩ (List.replicate n .microStep) = some s') ∧
    ∀ (σ : Type) [Sink σ] (s : Simulator σ), s.machine = m →
      (∀ a b, ∃ ca cb s₁ s₂, s.runLimited a = (.ok ca, s₁) ∧ s₁.runLimited b = (.ok cb, s₂) ∧
        s.runLimited (a + b) = (.ok (ca + cb), s₂)) ∧
      (∀ c s', s.run = some (.ok c, s') → ∀ n, c ≤ n → s.runLimited n = (.ok c, s')) ∧
      (∀ n, (s.runLimited n).2.machine.isHalted →
        (s.runLimited n).2.machine.cycles ≤ Machine.maxCycles → s.run = some (s.runLimited n)) ∧
      (m.isHalted →
        s.microStep = (.ok (), s) ∧ s.macroStep = (.ok (), s) ∧
        (∀ max, s.runLimited max = (.ok 0, s)) ∧ s.run = some (.ok 0, s)) := by
  constructor
  · obtain ⟨n, hn⟩ := exists_serveAll_eq hrs hl
    refine ⟨n, ?_⟩
    intro σ _ sink
    exact ⟨_, hn σ ⟨m, sink⟩ rfl, serveAll_replicate_microStep hl n⟩
  · rintro σ _ s rfl
    refine ⟨runLimited_add hl, ?_, ?_, ?_⟩
    · intro c s' h n hn
      exact runLimited_of_run hl h hn
    · intro n hhalted hcycles
      exact run_of_runLimited hl hhalted hcycles
    · intro h
      exact ⟨microStep_of_halted hl h, macroStep_of_halted hl h, runLimited_of_halted hl h,
        run_of_halted hl h⟩

/-- A byte is pending at the output, the program puts out another and halts, and the sequence
counter selects no timing state. -/
def strayCounter : Machine :=
  let program : Program := ⟨[⟨0, 0xF400, "OUT", 1⟩, ⟨1, 0x7001, "HLT", 2⟩], []⟩
  (((Machine.boot program).toOption.getD .initial).setRegister .sc 9).setFlag .fgo false

/-- The first and the last of these do nothing: the limit is zero, and the machine has halted. -/
def strayRequests : List Request :=
  [.runLimited 0, .microStep, .runLimited 2, .macroStep, .runLimited 4, .macroStep]

theorem steps_trajectory_strayCounter :
    strayCounter.isLoaded ∧ strayCounter.timingState = none ∧
    (∀ r ∈ strayRequests, r.isBoundedStep) ∧
    (∃ n, ∀ sink : EventLog, ∃ s',
      serveAll ⟨strayCounter, sink⟩ strayRequests = some s' ∧
      serveAll ⟨strayCounter, sink⟩ (List.replicate n .microStep) = some s') ∧
    ∃ s', run ⟨strayCounter, EventLog.empty⟩ = some (.ok 8, s') ∧
      runLimited ⟨strayCounter, EventLog.empty⟩ 1000 = (.ok 8, s') := by
  have hl : strayCounter.isLoaded := by decide +kernel
  have hrs : ∀ r ∈ strayRequests, r.isBoundedStep := by decide
  obtain ⟨⟨n, hn⟩, hruns⟩ := steps_trajectory strayCounter hl strayRequests hrs
  refine ⟨hl, by decide +kernel, hrs, ⟨n, hn EventLog⟩, ?_⟩
  have hrun : run ⟨strayCounter, EventLog.empty⟩ =
      some (.ok 8, runTo Machine.maxCycles ⟨strayCounter, EventLog.empty⟩) :=
    (run_eq_some_iff hl).mpr ⟨rfl, by decide +kernel, by decide +kernel⟩
  obtain ⟨-, hlimit, -, -⟩ := hruns EventLog ⟨strayCounter, EventLog.empty⟩ rfl
  exact ⟨_, hrun, hlimit 8 _ hrun 1000 (by decide)⟩

end BasicComputer.Simulator
