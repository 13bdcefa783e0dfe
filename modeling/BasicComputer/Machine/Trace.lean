import BasicComputer.Event
import BasicComputer.Machine.Step

/-!
# Traces

What a micro-step reports. The report is read off the registers and flags before the step and the
machine after it, so reporting cannot disturb stepping: the two are separate functions.

## Reading instead of interleaving

A machine that reports while it works would have to be shown to do the same work when nobody
listens. Here this holds by the types: stepping never sees a report. What has to be got right
instead is that every report can be read off, with values from before the step and from after it.
-/

namespace BasicComputer.Machine

private def hexWord (w : Word) : String := Numeral.hex 4 w.toNat
private def hexAddress (a : Address) : String := Numeral.hex 3 a.toNat
private def hexByte (b : Byte) : String := Numeral.hex 2 b.toNat
private def bit (b : Bool) : String := if b then "1" else "0"

private def skipMessage (condition : Bool) (name met unmet : String) (after : Registers) : String :=
  if condition then s!"{name}: {met}, so PC <- PC + 1 = {hexAddress after.pc}"
  else s!"{name}: {unmet}, no action"

/-- The services done before a step. The input flag rises only when a byte is taken in. -/
def traceService (before : Registers) (flags : Flags) (after : Machine) : List Entry :=
  if before.sc = 0 then
    (if flags.fgo then []
      else [.info .executeIo s!"OUTPUT <- OUTR = {hexByte before.outr}, FGO <- 1"])
    ++ (if !flags.fgi && after.flags.fgi then
        [.info .executeIo (s!"INPR <- INPUT = {hexByte after.registers.inpr}, "
          ++ s!"AC = {hexWord after.registers.ac}, FGI <- 1")]
      else [])
  else []

def registerMessage (before : Registers) (flags : Flags) (after : Machine) : RegisterOp → String
  | .cla => "CLA: AC <- 0"
  | .cle => "CLE: E <- 0"
  | .cma => "CMA: AC <- ~AC"
  | .cme => "CME: E <- ~E"
  | .cir => s!"CIR: AC <- {hexWord after.registers.ac}, E <- {bit after.flags.e}"
  | .cil => s!"CIL: AC <- {hexWord after.registers.ac}, E <- {bit after.flags.e}"
  | .inc => s!"INC: AC <- AC + 1 = {hexWord after.registers.ac}"
  | .spa => skipMessage (!before.ac.msb) "SPA" "AC(15) = 0" "AC(15) = 1" after.registers
  | .sna => skipMessage before.ac.msb "SNA" "AC(15) = 1" "AC(15) = 0" after.registers
  | .sza => skipMessage (before.ac == 0) "SZA" "AC = 0" "AC != 0" after.registers
  | .sze => skipMessage (!flags.e) "SZE" "E = 0" "E != 0" after.registers
  | .hlt => "HLT: S <- 0"

def ioMessage (flags : Flags) (after : Machine) : IoOp → String
  | .inp =>
    s!"INP: AC(0-7) <- INPR = {hexByte after.registers.inpr}, AC = {hexWord after.registers.ac}, "
      ++ "FGI <- 0"
  | .out => s!"OUT: OUTR <- AC(0-7) = {hexByte after.registers.outr}, FGO <- 0"
  | .ski => skipMessage flags.fgi "SKI" "FGI = 1" "FGI = 0" after.registers
  | .sko => skipMessage flags.fgo "SKO" "FGO = 1" "FGO = 0" after.registers
  | .ion => "ION: IEN <- 1"
  | .iof => "IOF: IEN <- 0"

def traceT3 (before : Registers) (flags : Flags) (after : Machine) : Entry :=
  match decode before.ir with
  | .memory _ _ true => .info .executeMemory s!"AR <- M[AR] = {hexAddress after.registers.ar}"
  | .memory _ _ false => .info .executeMemory "No Indirection"
  | .register op => .info .executeRegister (registerMessage before flags after op)
  | .io op => .info .executeIo (ioMessage flags after op)
  | .unknown w => .warning .executeRegister s!"Unknown instruction {hexWord w}, ignored"

/-- The report on a state that the instruction register has no business with. -/
def noMemoryOp (before : Registers) : Entry :=
  .warning .executeMemory
    s!"IR = {hexWord before.ir} is not a memory-reference instruction, SC <- 0"

def traceT4 (before after : Registers) : Entry :=
  match memoryOp? before with
  | none => noMemoryOp before
  | some op =>
    .info .executeMemory <|
      match op with
      | .and | .add | .lda | .isz => s!"DR <- M[AR] = {hexWord after.dr}"
      | .sta => s!"STA: M[AR] <- AC = {hexWord after.ac}, SC <- 0"
      | .bun => s!"BUN: PC <- AR = {hexAddress after.pc}, SC <- 0"
      | .bsa =>
        s!"BSA: M[AR] <- PC = {hexAddress after.pc}, AR <- AR + 1 = {hexAddress after.ar}"

def traceT5 (before : Registers) (after : Machine) : Entry :=
  match memoryOp? before with
  | none => noMemoryOp before
  | some op =>
    match op with
    | .and => .info .executeMemory s!"AND: AC <- AC & DR = {hexWord after.registers.ac}"
    | .add =>
      .info .executeMemory
        s!"ADD: AC <- AC + DR = {hexWord after.registers.ac}, E <- {bit after.flags.e}"
    | .lda => .info .executeMemory s!"LDA: AC <- DR = {hexWord after.registers.ac}"
    | .bsa => .info .executeMemory s!"BSA: PC <- AR = {hexAddress after.registers.pc}, SC <- 0"
    | .isz => .info .executeMemory s!"ISZ: DR <- DR + 1 = {hexWord after.registers.dr}"
    | .sta | .bun => .warning .executeMemory s!"{op.mnemonic} has no T5, SC <- 0"

def traceT6 (before after : Registers) : List Entry :=
  [.info .executeMemory s!"M[AR] <- DR = {hexWord before.dr}",
    .info .executeMemory <|
      if before.dr = 0 then s!"ISZ: DR = 0, so PC <- PC + 1 = {hexAddress after.pc}"
      else "ISZ: DR != 0, no action"]

/-- The report on a timing state. -/
def traceState (before : Registers) (flags : Flags) (after : Machine) : TimingState → List Entry
  | .t0 => [.info .fetch s!"AR <- PC = {hexAddress after.registers.ar}"]
  | .t1 =>
    [.info .fetch s!"IR <- M[AR] = {hexWord after.registers.ir}",
      .info .fetch s!"PC <- PC + 1 = {hexAddress after.registers.pc}"]
  | .t2 =>
    [.info .decode "D0-D7 <- IR(12-14)",
      .info .decode s!"AR <- IR(0-11) = {hexAddress after.registers.ar}",
      .info .decode s!"I <- IR(15) = {bit (Fields.ofWord before.ir).indirect}"]
  | .t3 => [traceT3 before flags after]
  | .t4 => [traceT4 before after.registers]
  | .t5 => [traceT5 before after]
  | .t6 => traceT6 before after.registers

/-- The report on a micro-step that led from registers `before` and flags `flags` to the machine
`after`. A halted machine reports nothing. -/
def trace (before : Registers) (flags : Flags) (after : Machine) : List Entry :=
  if flags.s then
    traceService before flags after ++
      match TimingState.ofCount? before.sc with
      | none =>
        [.warning .system s!"SC = {before.sc.toNat} is not a valid T-state, SC <- 0"]
      | some t => traceState before flags after t
  else []

end BasicComputer.Machine
