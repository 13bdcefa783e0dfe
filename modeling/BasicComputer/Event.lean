/-!
# Entries

The assembler and the machine say what they do in entries: the part of the system that speaks, how
grave the matter is, and a message. Nothing ever reads an entry back, so whoever watches cannot
change what happens.

An entry that leaves for the diagnostic channel of the surrounding program becomes a record there,
under that channel's own names for sources and severities.

How grave an entry is and how grave the record is that it becomes are different things. A reader of
entries wants to see successes told apart from ordinary progress. The diagnostic channel only knows
degrees, on which a success is more worth knowing than a step on the way to it.
-/

namespace BasicComputer

/-- The part of the system an entry comes from. -/
inductive Context
  | fetch | decode | executeMemory | executeRegister | executeIo
  | directive | system | lexer | parser | assembler
  deriving DecidableEq, Repr

namespace Context

def all : List Context :=
  [fetch, decode, executeMemory, executeRegister, executeIo, directive, system, lexer, parser,
    assembler]

def tag : Context → String
  | fetch => "FETCH"
  | decode => "DECODE"
  | executeMemory => "EXECUTE_MRI"
  | executeRegister => "EXECUTE_NMRI"
  | executeIo => "EXECUTE_IO"
  | directive => "DIRECTIVE"
  | system => "SYSTEM"
  | lexer => "LEXER"
  | parser => "PARSER"
  | assembler => "ASSEMBLER"

def target : Context → String
  | fetch => "mano::fetch"
  | decode => "mano::decode"
  | executeMemory => "mano::execute_mri"
  | executeRegister => "mano::execute_nmri"
  | executeIo => "mano::execute_io"
  | directive => "mano::directive"
  | system => "mano::system"
  | lexer => "mano::lexer"
  | parser => "mano::parser"
  | assembler => "mano::assembler"

def ofTag? (s : String) : Option Context := all.find? (·.tag == s)

end Context

/-- What the diagnostic channel calls the gravity of a record, from the least to the greatest. -/
inductive Severity
  | debug | info | warn | error
  deriving DecidableEq, Repr

namespace Severity

def tag : Severity → String
  | debug => "DEBUG"
  | info => "INFO"
  | warn => "WARN"
  | error => "ERROR"

def rank : Severity → Nat
  | debug => 0
  | info => 1
  | warn => 2
  | error => 3

end Severity

/-- How grave an entry is. -/
inductive Level
  | info | warning | error | success
  deriving DecidableEq, Repr

namespace Level

def all : List Level := [info, warning, error, success]

def tag : Level → String
  | info => "INFO"
  | warning => "WARNING"
  | error => "ERROR"
  | success => "SUCCESS"

def ofTag? (s : String) : Option Level := all.find? (·.tag == s)

/-- On the diagnostic channel ordinary progress is for debugging, and a success is worth knowing. -/
def severity : Level → Severity
  | info => .debug
  | success => .info
  | warning => .warn
  | error => .error

end Level

/-- One thing the assembler or the machine says. -/
structure Entry where
  context : Context
  level : Level
  message : String
  deriving DecidableEq, Repr

namespace Entry

def info (context : Context) (message : String) : Entry := ⟨context, .info, message⟩
def warning (context : Context) (message : String) : Entry := ⟨context, .warning, message⟩
def error (context : Context) (message : String) : Entry := ⟨context, .error, message⟩
def success (context : Context) (message : String) : Entry := ⟨context, .success, message⟩

def text (e : Entry) : String := s!"[{e.context.tag}] [{e.level.tag}] {e.message}"

end Entry

/-- An entry as the diagnostic channel has it. -/
structure Record where
  target : String
  severity : Severity
  message : String
  deriving DecidableEq, Repr

def Entry.record (e : Entry) : Record := ⟨e.context.target, e.level.severity, e.message⟩

def Record.text (r : Record) : String := s!"[{r.target}][{r.severity.tag}] {r.message}"

end BasicComputer
