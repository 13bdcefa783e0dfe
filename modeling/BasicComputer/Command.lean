import BasicComputer.Command.Arguments
import BasicComputer.Command.Files
import BasicComputer.Listing
import BasicComputer.Simulator
import BasicComputer.Snapshot
import BasicComputer.Text.Quoted

/-!
# Commands

What the program answers to its arguments: lines of output, lines of diagnostics and an exit code,
all computed from the arguments and the text of the source file. Reading the file and printing the
answer is left to the caller.

Lines that show an entry as it came are kept apart from lines of plain text, so that a run with its
trace can be compared with the run without.

An answer is computed in full before any of it is printed. A run that does not end within its limit
still has one, since there always is a limit. What an answer depends on is in its arguments: how
much to tell, the path as it was given, the options, and the text of the file or why there is none.
-/

namespace BasicComputer

/-! ## What is watched -/

/-- A sink whose effects a command shows. -/
class Observer (σ : Type) extends Sink σ where
  /-- What has been passed on to the diagnostic channel. -/
  records : σ → Array Record
  /-- What has been shown as it came. -/
  shown : σ → Array Entry

instance : Observer Channel where
  records := Channel.records
  shown _ := #[]

/-- Of an event log everything handed to a subscriber is shown. -/
instance : Observer EventLog where
  records := EventLog.records
  shown log := log.delivered.map (·.2)

namespace Command

/-! ## Answers -/

/-- A line of output. -/
inductive OutputLine
  | text (s : String)
  /-- An entry shown as it came. -/
  | trace (e : Entry)
  deriving DecidableEq, Repr

/-- A line of diagnostics. -/
inductive ErrorLine
  | text (s : String)
  /-- A record of the diagnostic channel. -/
  | record (r : Record)
  deriving DecidableEq, Repr

/-- The answer to a command. -/
structure Answer where
  exitCode : Nat
  output : List OutputLine
  errors : List ErrorLine
  deriving DecidableEq, Repr

/-- The least severity shown at a verbosity. -/
def threshold (verbosity : Nat) : Severity :=
  match verbosity with
  | 0 => .error
  | 1 => .warn
  | 2 => .info
  | _ => .debug

/-- The records shown at a verbosity. -/
def shownRecords (verbosity : Nat) (records : Array Record) : List ErrorLine :=
  (records.toList.filter fun r ↦ (threshold verbosity).rank ≤ r.severity.rank).map .record

def plain (lines : List String) : List OutputLine := lines.map .text

private def padRight (width : Nat) (s : String) : String :=
  s ++ String.ofList (List.replicate (width - s.length) ' ')

private def padLeft (width : Nat) (s : String) : String :=
  String.ofList (List.replicate (width - s.length) ' ') ++ s

private def bit (b : Bool) : String := if b then "1" else "0"

/-! ## Assembling -/

def instructionLine (i : Instruction) : String :=
  s!"{Numeral.hex 3 i.origin}: {Numeral.hex 4 i.word.toNat}  "
    ++ s!"{padRight 12 (Listing.ofWord i.word)} ; {padLeft 4 (toString i.line)}: {i.source}"

def datumLine (d : Datum) : String :=
  s!"{Numeral.hex 3 d.origin}: {Numeral.hex 4 d.word.toNat}  DATA"

def symbolLine (definition : String × Nat) : String :=
  s!"{padRight 12 definition.1} {Numeral.hex 3 definition.2}"

/-- List what a source text assembles to. -/
def assembleFile (verbosity : Nat) (path : String) (symbols : Bool) (source : String) : Answer :=
  let a := assemble source
  let records := shownRecords verbosity (Sink.recordAll Channel.empty a.entries).records
  let opening := s!"📝 Assembling: {path}"
  match a.outcome with
  | .error e => ⟨1, plain [opening], records ++ [.text s!"❌ Assembly error: {e.message}"]⟩
  | .ok p =>
    let table :=
      if symbols then "" :: "━━━ Symbols ━━━" :: a.symbols.sorted.map symbolLine else []
    ⟨0, plain ([opening,
      s!"✓ Assembled {p.instructions.length} instructions, {p.data.length} data words", ""]
      ++ p.instructions.map instructionLine ++ p.data.map datumLine ++ table), records⟩

/-! ## Running -/

def resultLines (steps : Nat) (m : Machine) : List String :=
  ["", "━━━ Result ━━━", s!"Micro-steps:  {steps}", s!"Instructions: {m.instructions}",
    s!"Output:       {Text.quote m.snapshot.outputText}", m.registers.describe,
    s!"E={bit m.flags.e} S={bit m.flags.s} IEN={bit m.flags.ien} FGI={bit m.flags.fgi} "
      ++ s!"FGO={bit m.flags.fgo}"]

/-- The notice that a run was cut short. -/
def limitLines (maxSteps : Nat) : List String :=
  ["", s!"⚠️  Reached max steps limit ({maxSteps}). Use --max-steps to increase."]

/-- What a run shows at its end. -/
def finalLines (options : RunOptions) (steps : Nat) (m : Machine) : List String :=
  if options.json then [m.snapshot.toJson.text Json.indented]
  else resultLines steps m ++ if m.isHalted then [] else limitLines options.maxSteps

/-- The machine that will read what the options say, if they say anything about it. -/
def RunOptions.feed (options : RunOptions) (m : Machine) : Machine :=
  match options.input with
  | none => m
  | some text => m.setInput (Text.encodeText text)

variable {σ : Type} [Observer σ]

/-- The entries shown between two moments. -/
def shownSince (earlier later : σ) : List OutputLine :=
  ((Observer.shown later).toList.drop (Observer.shown earlier).size).map .trace

/-- Run a source text with a given sink. -/
def runWith (sink : σ) (verbosity : Nat) (path : String) (options : RunOptions)
    (source : String) : Answer :=
  let opening := plain [s!"🔧 Running: {path}"]
  let failed (s : Simulator σ) (message : String) : Answer :=
    ⟨1, opening ++ shownSince sink s.sink,
      shownRecords verbosity (Observer.records s.sink) ++ [.text message]⟩
  match (Simulator.withSink sink).assemble source with
  | (.error e, s) => failed s s!"❌ Assembly error: {e.message}"
  | (.ok p, s) =>
    match s.load p with
    | (.error fault, s) => failed s s!"❌ Failed to load program: {fault.message}"
    | (.ok (), loaded) =>
      let ready := loaded.modify options.feed
      let begun := opening ++ shownSince sink loaded.sink ++ plain ["", "━━━ Execution ━━━"]
      match ready.runLimited options.maxSteps with
      | (.error fault, s) =>
        ⟨1, begun ++ shownSince loaded.sink s.sink,
          shownRecords verbosity (Observer.records s.sink)
            ++ [.text (s!"❌ CPU error at PC={Numeral.hex 3 s.machine.registers.pc.toNat}: "
              ++ fault.message)]⟩
      | (.ok steps, s) =>
        ⟨0, begun ++ shownSince loaded.sink s.sink ++ plain (finalLines options steps s.machine),
          shownRecords verbosity (Observer.records s.sink)⟩

/-- Run a source text. Its trace is shown by way of a subscription. -/
def runFile (verbosity : Nat) (path : String) (options : RunOptions) (source : String) : Answer :=
  if options.trace then runWith EventLog.empty.subscribe.2 verbosity path options source
  else runWith Channel.empty verbosity path options source

/-! ## Disassembling -/

/-- List the memory that a source text fills. -/
def disassembleFile (verbosity : Nat) (path : String) (source : String) : Answer :=
  let opening := [s!"📖 Disassembling: {path}", ""]
  let failed (s : Simulator Channel) (message : String) : Answer :=
    ⟨1, plain opening,
      shownRecords verbosity s.sink.records ++ [.text s!"❌ {message}"]⟩
  match (Simulator.withSink Channel.empty).assemble source with
  | (.error e, s) => failed s e.message
  | (.ok p, s) =>
    match s.load p with
    | (.error fault, s) => failed s fault.message
    | (.ok (), s) =>
      ⟨0, plain (opening ++ [Listing.ofMemory s.machine.memory]),
        shownRecords verbosity s.sink.records⟩

/-! ## All commands -/

def bannerLines : List String :=
  ["Mano Simulator v0.1.0", "An assembler and simulator for the Mano basic computer", "",
    "Use --help for available commands"]

def helpLines : List String :=
  ["An assembler and T-state simulator for the Mano basic computer", "",
    "Usage: mano-sim [OPTIONS] [COMMAND]", "", "Commands:",
    "  asm [-s] SOURCE     Assemble a source file and print the listing",
    "  run SOURCE          Run a program until it halts",
    "                        -i, --input TEXT   Text fed to the input queue",
    "                        -m, --max-steps N  Maximum number of micro-steps to run",
    "                        -t, --trace        Print every trace event",
    "                        --json             Print the final machine state as JSON",
    "  disasm SOURCE       Assemble a source file and disassemble the memory image", "",
    "Options:", "  -v, --verbose  Sets the level of verbosity (repeat for more)",
    "  -h, --help     Print help", "  -V, --version  Print version"]

/-- The file that an action reads. -/
def Action.path? : Action → Option String
  | assemble path _ | run path _ | disassemble path => some path
  | banner | help | version => none

/-- The answer to an invocation whose file has been read as `source`. -/
def answer (invocation : Invocation) (source : Except ReadError String) : Answer :=
  let onSource (f : String → Answer) : Answer :=
    match source with
    | .ok text => f text
    | .error e => ⟨1, [], [.text s!"❌ Failed to read file: {e.message}"]⟩
  match invocation.action with
  | .banner => ⟨0, plain bannerLines, []⟩
  | .help => ⟨0, plain helpLines, []⟩
  | .version => ⟨0, plain ["mano-sim 0.1.0"], []⟩
  | .assemble path symbols => onSource (assembleFile invocation.verbosity path symbols)
  | .run path options => onSource (runFile invocation.verbosity path options)
  | .disassemble path => onSource (disassembleFile invocation.verbosity path)

end Command

end BasicComputer
