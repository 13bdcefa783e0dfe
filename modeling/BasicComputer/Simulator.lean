import BasicComputer.Assembly
import BasicComputer.Event.Log
import BasicComputer.Machine.Trace

/-!
# The simulator

A machine together with the sink that takes in what it reports. There are several ways to drive it,
by micro-steps, by instructions, up to a limit or until it halts, and all of them repeat the same
micro-step; they differ in when they stop.

Only a loaded machine can be driven. Asking an empty one is an error, and that is all it changes.

## What varies between sinks

Nothing but what they make of the entries. The sink is a type parameter with one operation, and no
function of the simulator looks into it, so a run takes the same course beside every sink.

## Running without a limit

A program may never halt, and then there is nothing that a run could return. The largest count of
the cycle counter serves as the limit, and a run that gets there has no result.
-/

namespace BasicComputer

/-- A machine and the sink that takes in its reports. -/
structure Simulator (σ : Type) where
  machine : Machine
  sink : σ

namespace Simulator

variable {σ : Type} [Sink σ]

/-- A machine at power-on. -/
def withSink (sink : σ) : Simulator σ := ⟨.initial, sink⟩

def report (s : Simulator σ) (entries : List Entry) : Simulator σ :=
  { s with sink := Sink.recordAll s.sink entries }

/-! ## Loading -/

/-- Assemble a source text, reporting to the sink. The machine stays as it is. -/
def assemble (s : Simulator σ) (source : String) : Except AssemblyError Program × Simulator σ :=
  let a := BasicComputer.assemble source
  (a.outcome, s.report a.entries)

private def resetEntry : Entry := .info .system "Simulator reset"

/-- Bring the machine to power-on, without a program. -/
def reset (s : Simulator σ) : Simulator σ := { s with machine := .initial }.report [resetEntry]

/-- Load a program into the machine in place of everything it held, or say why it cannot be and
leave the machine as it is. -/
def load (s : Simulator σ) (p : Program) : Except Fault Unit × Simulator σ :=
  match Machine.boot p with
  | .error fault => (.error fault, s.report [.error .system fault.reason])
  | .ok machine =>
    (.ok (), { s with machine }.report
      [resetEntry,
        .success .system (s!"Program loaded: {p.instructions.length} instruction(s), "
          ++ s!"{p.data.length} data word(s), "
          ++ s!"PC = {Numeral.hex 3 (p.entryPoint.getD 0)}")])

/-- A machine just loaded is the one that is ready to run the program. -/
theorem boot_of_load {s s' : Simulator σ} {p : Program} (h : s.load p = (.ok (), s')) :
    Machine.boot p = .ok s'.machine := by
  rw [load] at h
  split at h
  · cases h
  · next machine hboot =>
    cases h
    exact hboot

/-! ## Stepping -/

/-- One micro-step, and the report on it. -/
def advance (s : Simulator σ) : Simulator σ :=
  let before := s.machine.registers
  let flags := s.machine.flags
  let after := s.machine.step
  ⟨after, Sink.recordAll s.sink (Machine.trace before flags after)⟩

/-- Micro-steps up to the end of the current instruction. -/
def finishInstruction (s : Simulator σ) : Simulator σ :=
  if s.machine.flags.s ∧ s.machine.registers.sc ≠ 0 then finishInstruction s.advance else s
termination_by s.machine.remaining
decreasing_by
  rename_i h
  exact Machine.remaining_step_lt h.1 h.2

/-- Micro-steps until the cycle counter reaches `limit` or the machine halts. -/
def runTo (limit : Nat) (s : Simulator σ) : Simulator σ :=
  if s.machine.flags.s ∧ s.machine.cycles < limit then runTo limit s.advance else s
termination_by 2 * (limit - s.machine.cycles) + if 7 ≤ s.machine.registers.sc.toNat then 1 else 0
decreasing_by
  rename_i h
  exact Machine.distance_step_lt h.1 h.2

/-- Do something with a loaded machine. -/
def ifLoaded {α : Type} (s : Simulator σ) (act : Simulator σ → α × Simulator σ) :
    Except Fault α × Simulator σ :=
  if s.machine.isLoaded then
    let result := act s
    (.ok result.1, result.2)
  else (.error .notLoaded, s.report [.error .system Fault.notLoaded.reason])

def microStep (s : Simulator σ) : Except Fault Unit × Simulator σ :=
  s.ifLoaded fun s ↦ ((), s.advance)

/-- Execute one instruction, or the rest of one already begun. -/
def macroStep (s : Simulator σ) : Except Fault Unit × Simulator σ :=
  s.ifLoaded fun s ↦
    ((), if s.machine.registers.sc = 0 then s.advance.finishInstruction else s.finishInstruction)

/-- Run for at most `max` cycles. Gives the number of cycles run. -/
def runLimited (s : Simulator σ) (max : Nat) : Except Fault Nat × Simulator σ :=
  s.ifLoaded fun s ↦
    let start := s.machine.cycles
    let s := s.runTo (start + max)
    (s.machine.cycles - start, s)

/-- Run until the machine halts. Gives the number of cycles run, or nothing at all if the machine
has not halted when the cycle counter can count no further. -/
def run (s : Simulator σ) : Option (Except Fault Nat × Simulator σ) :=
  if s.machine.isLoaded then
    let start := s.machine.cycles
    let s := s.runTo Machine.maxCycles
    if s.machine.isHalted then some (.ok (s.machine.cycles - start), s) else none
  else some (.error .notLoaded, s.report [.error .system Fault.notLoaded.reason])

/-! ## Changing the machine by hand -/

/-- Change the machine without a report. -/
def modify (s : Simulator σ) (f : Machine → Machine) : Simulator σ :=
  { s with machine := f s.machine }

def summary (s : Simulator σ) : String :=
  String.join ["Simulator \x7b loaded: ", toString s.machine.isLoaded, ", cycles: ",
    toString s.machine.cycles, ", regs: ", s.machine.registers.describe, ", flags: ",
    s.machine.flags.describe, " \x7d"]

end Simulator

end BasicComputer
