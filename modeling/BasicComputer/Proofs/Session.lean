import BasicComputer.Proofs.Stepping
import Mathlib.Data.List.Induction

/-!
# Sessions

A session is what the user of a simulator asks of it, one request after the other: steps and runs,
bytes to be read, programs to be loaded, changes by hand. A run without end leaves no simulator
behind, so nothing comes after it.

The *course* of a request is the list of machines that take a micro-step while it is served, and the
*history* of a session is all of them, in order. What happened on the way, such as the bytes that
were written, is read off the history. Neither depends on who watches.

A statement about sessions is proved by saying what a single micro-step does to it and what each of
the other requests does; `Simulator.session_induction` and `Machine.keeps_of_isStep` put that
together.

## What is remembered

A simulator keeps no record of the machines it had. Whatever is said of the past of a session needs
one, and it is made here from the requests, as a list of machines. A request that changes something
by hand adds nothing to it, since no micro-step is taken.

## One induction

Every invariant of sessions is a statement about a machine and the list of those before it. What
requests do to the two is said once. Those who have an invariant only say what a micro-step does to
it, and what the few other requests do.
-/

namespace BasicComputer

/-- What the user of a simulator can ask of it. -/
inductive Request
  | microStep
  | macroStep
  | run
  | runLimited (max : Nat)
  | setInput (bytes : List Byte)
  | pushInput (b : Byte)
  | clearInput
  | load (p : Program)
  | reset
  | setRegister (name : RegisterName) (n : Nat)
  | setFlag (name : FlagName) (b : Bool)
  deriving DecidableEq, Repr

namespace Request

/-- Requests to step the machine, with or without a bound. -/
def isStep : Request → Bool
  | microStep | macroStep | run | runLimited _ => true
  | _ => false

/-- Requests to step the machine that are always done with some time. -/
def isBoundedStep : Request → Bool
  | microStep | macroStep | runLimited _ => true
  | _ => false

/-- Requests that change which bytes wait to be read. -/
def isInput : Request → Bool
  | setInput _ | pushInput _ | clearInput => true
  | _ => false

theorem isStep_of_isInput {r : Request} (h : r.isInput) : r.isStep = false := by
  cases r with
  | setInput _ | pushInput _ | clearInput => rfl
  | _ => cases h

end Request

namespace Simulator

variable {σ : Type} [Sink σ]

/-- The simulator after a request; there is none after a run without end. -/
def serve (s : Simulator σ) : Request → Option (Simulator σ)
  | .microStep => some s.microStep.2
  | .macroStep => some s.macroStep.2
  | .run => s.run.map (·.2)
  | .runLimited max => some (s.runLimited max).2
  | .setInput bytes => some (s.modify (·.setInput bytes))
  | .pushInput b => some (s.modify (·.pushInput b))
  | .clearInput => some (s.modify (·.setInput []))
  | .load p => some (s.load p).2
  | .reset => some s.reset
  | .setRegister name n => some (s.modify (·.setRegister name n))
  | .setFlag name b => some (s.modify (·.setFlag name b))

/-- The simulator after a session. -/
def serveAll (s : Simulator σ) (rs : List Request) : Option (Simulator σ) := rs.foldlM serve s

end Simulator

namespace Machine

/-! ## The course of a request -/

/-- The number of micro-steps that a request takes. Without a program there are none. -/
def stepsFor (m : Machine) (r : Request) : Nat :=
  if m.isLoaded then
    match r with
    | .microStep => 1
    | .macroStep => if m.registers.sc = 0 then m.step.stepsToFinish + 1 else m.stepsToFinish
    | .run => m.stepsToLimit maxCycles
    | .runLimited max => m.stepsToLimit (m.cycles + max)
    | _ => 0
  else 0

/-- The machines that take a micro-step while a request is served, in order. -/
def course (m : Machine) (r : Request) : List Machine := List.iterate step m (m.stepsFor r)

/-- The machine after a request. -/
def after (m : Machine) (r : Request) : Machine :=
  match r with
  | .microStep | .macroStep | .run | .runLimited _ => step^[m.stepsFor r] m
  | .setInput bytes => m.setInput bytes
  | .pushInput b => m.pushInput b
  | .clearInput => m.setInput []
  | .load p => (boot p).toOption.getD m
  | .reset => initial
  | .setRegister name n => m.setRegister name n
  | .setFlag name b => m.setFlag name b

/-- What a request to step reports: what its micro-steps do, or that there is no program. -/
def reports (m : Machine) (r : Request) : List Entry :=
  if m.isLoaded then (m.course r).flatMap report else [.error .system Fault.notLoaded.reason]

variable {m : Machine} {r : Request}

theorem stepsFor_of_not_isLoaded (h : ¬m.isLoaded) (r : Request) : m.stepsFor r = 0 := if_neg h

theorem after_of_isStep (hr : r.isStep) : m.after r = step^[m.stepsFor r] m := by
  cases r with
  | microStep | macroStep | run | runLimited _ => rfl
  | _ => cases hr

theorem course_of_not_isStep (hr : r.isStep = false) : m.course r = [] := by
  have h : m.stepsFor r = 0 := by
    cases r with
    | microStep | macroStep | run | runLimited _ => cases hr
    | _ => exact ite_self 0
  rw [course, h, List.iterate]

/-- What every micro-step keeps, where the machine that takes it joins those before, a request to
step keeps. -/
theorem keeps_of_isStep {P : List Machine → Machine → Prop}
    (h : ∀ past m, P past m → P (past ++ [m]) m.step) (hr : r.isStep) {past : List Machine}
    (hm : P past m) : P (past ++ m.course r) (m.after r) := by
  have hsteps (n : Nat) : P (past ++ List.iterate step m n) (step^[n] m) := by
    induction n generalizing past m with
    | zero =>
      rw [List.iterate, List.append_nil]
      exact hm
    | succ n ih =>
      rw [List.iterate, Function.iterate_succ_apply, List.append_cons]
      exact ih (h past m hm)
  rw [after_of_isStep hr]
  exact hsteps (m.stepsFor r)

theorem boot_eq {p : Program} (h : boot p = .ok m) :
    ∃ memory pc, m = { initial with
      memory := memory, program := some p, registers := { Registers.zero with pc := pc } } := by
  rw [boot] at h
  split at h
  · cases h
  · split at h
    · cases h
    · cases h
      exact ⟨_, _, rfl⟩

theorem isLoaded_step (m : Machine) : m.step.isLoaded = m.isLoaded := by
  have hprogram : m.step.program = m.program := congrArg (·.2.2) (fixture_step m)
  rw [isLoaded, hprogram, isLoaded]

theorem isLoaded_iterate_step (m : Machine) (n : Nat) : (step^[n] m).isLoaded = m.isLoaded := by
  induction n with
  | zero => rfl
  | succ n ih => rw [Function.iterate_succ_apply', isLoaded_step, ih]

end Machine

namespace Simulator

variable {σ : Type} [Sink σ] {s s' : Simulator σ} {r : Request}

/-! ## One request -/

/-- Stepping a machine without a program is refused. -/
theorem serve_of_not_isLoaded (hr : r.isStep) (h : ¬s.machine.isLoaded) :
    s.serve r = some (s.report [.error .system Fault.notLoaded.reason]) := by
  cases r with
  | microStep => simp [serve, microStep, ifLoaded, h]
  | macroStep => simp [serve, macroStep, ifLoaded, h]
  | run => simp [serve, run, h]
  | runLimited max => simp [serve, runLimited, ifLoaded, h]
  | _ => cases hr

/-- A bounded request to step is a number of micro-steps. -/
theorem serve_of_isBoundedStep (hr : r.isBoundedStep) (h : s.machine.isLoaded) :
    s.serve r = some (advance^[s.machine.stepsFor r] s) := by
  cases r with
  | microStep => simp [serve, microStep, ifLoaded, Machine.stepsFor, h]
  | macroStep =>
    simp only [serve, macroStep, ifLoaded, Machine.stepsFor, h, if_true]
    split
    · rw [finishInstruction_eq, ← Function.iterate_succ_apply, machine_advance]
    · rw [finishInstruction_eq]
  | runLimited max =>
    simp only [serve, runLimited, ifLoaded, Machine.stepsFor, h, if_true]
    rw [runTo_eq]
  | _ => cases hr

/-- So is a run, if there is an end to it. -/
theorem serve_run_of_isLoaded (h : s.machine.isLoaded) :
    s.serve .run =
      if (advance^[s.machine.stepsFor .run] s).machine.isHalted then
        some (advance^[s.machine.stepsFor .run] s)
      else none := by
  simp only [serve, run, Machine.stepsFor, h, if_true, runTo_eq]
  split <;> rfl

theorem eq_of_serve_run (h : s.machine.isLoaded) (hs : s.serve .run = some s') :
    s' = advance^[s.machine.stepsFor .run] s := by
  rw [serve_run_of_isLoaded h] at hs
  split at hs
  · exact (Option.some.inj hs).symm
  · cases hs

theorem eq_of_serve (hr : r.isStep) (h : s.machine.isLoaded) (hs : s.serve r = some s') :
    s' = advance^[s.machine.stepsFor r] s := by
  cases r with
  | run => exact eq_of_serve_run h hs
  | microStep | macroStep | runLimited _ =>
    rw [serve_of_isBoundedStep rfl h] at hs
    exact (Option.some.inj hs).symm
  | _ => cases hr

/-- What a request does to the machine does not depend on who watches. -/
theorem machine_of_serve (hs : s.serve r = some s') : s'.machine = s.machine.after r := by
  by_cases hr : r.isStep
  · rw [Machine.after_of_isStep hr]
    by_cases hl : s.machine.isLoaded
    · rw [eq_of_serve hr hl hs, machine_iterate_advance]
    · rw [serve_of_not_isLoaded hr hl] at hs
      cases hs
      rw [Machine.stepsFor_of_not_isLoaded hl]
      rfl
  · cases r with
    | microStep | macroStep | run | runLimited _ => exact absurd rfl hr
    | load p =>
      cases hs
      simp only [load, Machine.after]
      cases Machine.boot p <;> rfl
    | _ =>
      cases hs
      rfl

/-- A machine just loaded is as at power-on, but for memory, the program and the program counter. -/
theorem machine_of_load {p : Program} (h : s.load p = (.ok (), s')) :
    ∃ memory pc, s'.machine = { Machine.initial with
      memory := memory, program := some p, registers := { Registers.zero with pc := pc } } :=
  Machine.boot_eq (boot_of_load h)

theorem sink_of_serve (hr : r.isStep) (hs : s.serve r = some s') :
    s'.sink = Sink.recordAll s.sink (s.machine.reports r) := by
  by_cases hl : s.machine.isLoaded
  · rw [eq_of_serve hr hl hs, sink_iterate_advance, Machine.reports, if_pos hl, Machine.course]
  · rw [serve_of_not_isLoaded hr hl] at hs
    cases hs
    rw [Machine.reports, if_neg hl]
    rfl

/-! ## Whole sessions -/

/-- The machines that take a micro-step in the course of a session, in order. -/
def history (s : Simulator σ) : List Request → List Machine
  | [] => []
  | r :: rs => s.machine.course r ++ (s.serve r).elim [] (·.history rs)

theorem serveAll_cons (s : Simulator σ) (r : Request) (rs : List Request) :
    s.serveAll (r :: rs) = (s.serve r).bind (·.serveAll rs) := rfl

theorem serveAll_concat (s : Simulator σ) (rs : List Request) (r : Request) :
    s.serveAll (rs ++ [r]) = (s.serveAll rs).bind (·.serve r) := by
  rw [serveAll, List.foldlM_append]
  refine Option.bind_congr fun t _ ↦ ?_
  exact bind_pure (t.serve r)

theorem history_concat {rs : List Request} (hs : s.serveAll rs = some s') (r : Request) :
    s.history (rs ++ [r]) = s.history rs ++ s'.machine.course r := by
  induction rs generalizing s with
  | nil =>
    cases hs
    simp only [List.nil_append, history]
    cases s'.serve r <;> exact List.append_nil _
  | cons q rs ih =>
    rw [serveAll_cons] at hs
    obtain ⟨t, ht, hrest⟩ := Option.bind_eq_some_iff.mp hs
    simp only [List.cons_append, history, ht, Option.elim_some]
    rw [ih hrest, List.append_assoc]

/-- What holds of a machine at the start and is kept by every request of a session, with the course
of the request added to the history, holds at the end. -/
theorem session_induction {P : List Request → List Machine → Machine → Prop} {rs : List Request}
    (hs : s.serveAll rs = some s') (start : P [] [] s.machine)
    (next : ∀ done r past m, r ∈ rs → P done past m →
      P (done ++ [r]) (past ++ m.course r) (m.after r)) :
    P rs (s.history rs) s'.machine := by
  induction rs using List.reverseRecOn generalizing s' with
  | nil =>
    cases hs
    exact start
  | append_singleton rs r ih =>
    rw [serveAll_concat] at hs
    obtain ⟨t, ht, hr⟩ := Option.bind_eq_some_iff.mp hs
    rw [history_concat ht, machine_of_serve hr]
    refine next rs r _ _ (by simp) (ih ht ?_)
    intro done q past m hq
    exact next done q past m (List.mem_append_left [r] hq)

end Simulator

end BasicComputer
