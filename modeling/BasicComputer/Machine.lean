import BasicComputer.Memory
import BasicComputer.Registers

/-!
# The machine

Everything that a run can change: registers, flags, memory, the bytes waiting to be read and those
already written, two counters, and the program that was loaded. A machine without a program does not
run.

## What counts as the machine

Whatever the next micro-step depends on is part of the machine, and so is whatever it counts. Those
who watch are not, and neither is what they have been told: that is kept beside the machine, and a
machine can be compared with another without regard to it.

A counter of 64 bits is a natural number here, and the largest number that it could hold is a
constant of its own. Running up to that constant is where the difference can be seen.
-/

namespace BasicComputer

/-- The timing states. An instruction passes through them from the first on. -/
inductive TimingState
  | t0 | t1 | t2 | t3 | t4 | t5 | t6
  deriving DecidableEq, Repr

namespace TimingState

def all : List TimingState := [t0, t1, t2, t3, t4, t5, t6]

def name : TimingState → String
  | t0 => "T0"
  | t1 => "T1"
  | t2 => "T2"
  | t3 => "T3"
  | t4 => "T4"
  | t5 => "T5"
  | t6 => "T6"

/-- The value of the sequence counter that selects the state. -/
def index : TimingState → Nat
  | t0 => 0
  | t1 => 1
  | t2 => 2
  | t3 => 3
  | t4 => 4
  | t5 => 5
  | t6 => 6

/-- The state that a value of the sequence counter selects. Values from seven on select none. -/
def ofCount? (sc : SequenceCount) : Option TimingState := all[sc.toNat]?

theorem ofCount?_eq_some {sc : SequenceCount} {t : TimingState} (h : ofCount? sc = some t) :
    sc.toNat = t.index := by
  revert sc t
  intro sc t
  cases t <;> revert sc <;> decide

theorem ofCount?_eq_none {sc : SequenceCount} (h : ofCount? sc = none) : 7 ≤ sc.toNat := by
  revert sc
  decide

end TimingState

/-- The state of the computer. -/
structure Machine where
  registers : Registers
  flags : Flags
  memory : Memory
  /-- Bytes not yet consumed. -/
  input : List Byte
  /-- Bytes written, in order. -/
  output : Array Byte
  /-- Timing states executed since the last reset. -/
  cycles : Nat
  /-- Instructions completed since the last reset. -/
  instructions : Nat
  /-- The program loaded since the last reset. -/
  program : Option Program
  deriving DecidableEq

/-- Why a machine cannot be loaded or stepped. -/
inductive Fault
  /-- The program has no instruction to start from. -/
  | emptyProgram
  /-- There is no program. -/
  | notLoaded
  /-- The program does not fit into memory. -/
  | memory (error : MemoryError)
  deriving DecidableEq, Repr

namespace Fault

/-- What is wrong, as it is reported when it is found. -/
def reason : Fault → String
  | emptyProgram => "cannot load a program with no instructions"
  | notLoaded => "no program loaded"
  | memory e => e.message

/-- What is wrong and where. -/
def message : Fault → String
  | memory e => s!"memory error: {e.message}"
  | fault => fault.reason

end Fault

namespace Machine

/-- The most cycles that a counter of 64 bits can count. -/
def maxCycles : Nat := UInt64.size - 1

/-- The state at power-on. -/
def initial : Machine := ⟨.zero, .start, .empty, [], #[], 0, 0, none⟩

def isLoaded (m : Machine) : Bool := m.program.isSome

def isHalted (m : Machine) : Bool := !m.flags.s

/-- The timing state the next micro-step executes. -/
def timingState (m : Machine) : Option TimingState :=
  TimingState.ofCount? m.registers.sc

/-- The machine that is ready to run a program: at power-on but for the program's words in memory
and the program counter at its entry point. -/
def boot (p : Program) : Except Fault Machine :=
  match p.entryPoint with
  | none => .error .emptyProgram
  | some entry =>
    match Memory.empty.load p with
    | .error e => .error (.memory e)
    | .ok memory =>
      .ok { initial with
        memory, program := some p, registers := { Registers.zero with pc := .ofNat 12 entry } }

/-- Let bytes wait in place of those that do. -/
def setInput (m : Machine) (bytes : List Byte) : Machine := { m with input := bytes }

/-- Let one more byte wait. -/
def pushInput (m : Machine) (b : Byte) : Machine := { m with input := m.input ++ [b] }

def setRegister (m : Machine) (name : RegisterName) (n : Nat) : Machine :=
  { m with registers := m.registers.set name n }

def setFlag (m : Machine) (name : FlagName) (b : Bool) : Machine :=
  { m with flags := m.flags.set name b }

end Machine

end BasicComputer
