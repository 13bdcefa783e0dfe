/-!
# Command-line arguments

The arguments name an action on a source file, and switches that modify it. Switches may stand
before or after the file; short ones may be run together behind one hyphen, and the value of a
switch that takes one may be attached to it or follow as the next argument, unless that looks like a
switch itself. Behind a bare pair of hyphens nothing is a switch any more.

A switch that asks for help or for the version decides the matter where it stands, whatever comes
after it. Anything else that is out of place makes the arguments invalid as a whole.

## Items before meaning

The arguments are cut into items first, and only then is asked what they say. The cutting needs to
know which switches there are and which of them take a value, since a value may look like an
operand. Whether a switch is repeated, or an operand missing, is decided on the list of items.
-/

namespace BasicComputer.Command

/-- The switches. -/
inductive Switch
  | verbose | version | help | symbols | input | maxSteps | trace | json
  deriving DecidableEq, Repr

namespace Switch

def letter? : Switch → Option Char
  | verbose => some 'v'
  | version => some 'V'
  | help => some 'h'
  | symbols => some 's'
  | input => some 'i'
  | maxSteps => some 'm'
  | trace => some 't'
  | json => none

def name : Switch → String
  | verbose => "verbose"
  | version => "version"
  | help => "help"
  | symbols => "symbols"
  | input => "input"
  | maxSteps => "max-steps"
  | trace => "trace"
  | json => "json"

/-- Whether a value belongs to the switch. -/
def takesValue : Switch → Bool
  | input | maxSteps => true
  | _ => false

/-- Whether the switch makes what follows it irrelevant. -/
def isFinal : Switch → Bool
  | version | help => true
  | _ => false

end Switch

/-- The actions that take a source file. -/
inductive Verb
  | assemble | run | disassemble
  deriving DecidableEq, Repr

namespace Verb

def all : List Verb := [assemble, run, disassemble]

def name : Verb → String
  | assemble => "asm"
  | run => "run"
  | disassemble => "disasm"

def ofName? (s : String) : Option Verb := all.find? (·.name == s)

/-- The switches that may follow the verb. -/
def switches : Verb → List Switch
  | assemble => [.symbols, .verbose, .help]
  | run => [.input, .maxSteps, .trace, .json, .verbose, .help]
  | disassemble => [.verbose, .help]

end Verb

/-! ## Cutting arguments up -/

/-- What an argument, or a part of one, turns out to be. -/
inductive Item
  | switch (s : Switch)
  | value (s : Switch) (text : List Char)
  | operand (text : String)
  deriving DecidableEq, Repr

/-- What one argument contains: items, and a switch whose value is still to come. -/
structure Reading where
  items : List Item
  awaiting : Option Switch
  deriving DecidableEq, Repr

/-- Letters run together behind one hyphen. What is left behind the letter of a switch that takes a
value is the value, and one equals sign in front of it is dropped. -/
def readLetters (accepted : List Switch) : List Char → Option Reading
  | [] => some ⟨[], none⟩
  | c :: cs =>
    match accepted.find? (·.letter? == some c) with
    | none => none
    | some s =>
      if s.takesValue then
        match cs with
        | [] => some ⟨[], some s⟩
        | '=' :: text => some ⟨[.value s text], none⟩
        | text => some ⟨[.value s text], none⟩
      else if s.isFinal then some ⟨[.switch s], none⟩
      else (readLetters accepted cs).map fun r ↦ ⟨.switch s :: r.items, r.awaiting⟩

/-- A name behind two hyphens, with a value behind an equals sign or without. -/
def readName (accepted : List Switch) (cs : List Char) : Option Reading :=
  let name := String.ofList (cs.takeWhile (· != '='))
  match accepted.find? (·.name == name), cs.dropWhile (· != '=') with
  | none, _ => none
  | some s, [] => if s.takesValue then some ⟨[], some s⟩ else some ⟨[.switch s], none⟩
  | some s, _ :: text => if s.takesValue then some ⟨[.value s text], none⟩ else none

/-- One argument. A lone hyphen is an operand. -/
def readArgument (accepted : List Switch) (argument : String) : Option Reading :=
  match argument.toList with
  | '-' :: '-' :: cs => readName accepted cs
  | '-' :: c :: cs => readLetters accepted (c :: cs)
  | _ => some ⟨[.operand argument], none⟩

/-- Whether an argument is read as a switch. -/
def looksLikeSwitch (argument : String) : Bool :=
  match argument.toList with
  | '-' :: _ :: _ => true
  | _ => false

/-- The items of all arguments behind a verb, up to a switch that makes the others irrelevant. -/
def readArguments (accepted : List Switch) : List String → Option (List Item)
  | [] => some []
  | argument :: rest =>
    if argument = "--" then some (rest.map .operand)
    else
      match readArgument accepted argument with
      | none => none
      | some ⟨items, some s⟩ =>
        match rest with
        | [] => none
        | value :: rest =>
          if looksLikeSwitch value then none
          else (readArguments accepted rest).map fun r ↦ items ++ .value s value.toList :: r
      | some ⟨items, none⟩ =>
        if items.contains (.switch .help) then some items
        else (readArguments accepted rest).map (items ++ ·)

/-! ## Invocations -/

/-- How a program is to be run. -/
structure RunOptions where
  /-- What the program will read, if anything is said about it. -/
  input : Option String
  /-- How many micro-steps it may take. -/
  maxSteps : Nat
  /-- Whether the trace is shown. -/
  trace : Bool
  /-- Whether the final state is shown as data. -/
  json : Bool
  deriving DecidableEq, Repr

/-- What is to be done. -/
inductive Action
  /-- Say what the program is. -/
  | banner
  /-- Say how it is used. -/
  | help
  /-- Say which version it is. -/
  | version
  /-- List a source file's words, and its labels on request. -/
  | assemble (path : String) (symbols : Bool)
  /-- Run a source file. -/
  | run (path : String) (options : RunOptions)
  /-- List the memory that a source file fills. -/
  | disassemble (path : String)
  deriving DecidableEq, Repr

/-- An action, and how much is to be said about it. -/
structure Invocation where
  verbosity : Nat
  action : Action
  deriving DecidableEq, Repr

/-- The number of micro-steps a run may take if nothing is said about it. -/
def defaultMaxSteps : Nat := 100000

private def isDigit (c : Char) : Bool := '0' ≤ c && c ≤ '9'

/-- A count of 64 bits, which a plus sign may lead. -/
def readCount (cs : List Char) : Option Nat :=
  let digits := if cs.head? == some '+' then cs.tail else cs
  if digits.isEmpty || !digits.all isDigit then none
  else
    let n := digits.foldl (fun n c ↦ 10 * n + (c.toNat - 48)) 0
    if n < UInt64.size then some n else none

namespace Item

def isOf (s : Switch) : Item → Bool
  | switch t => t == s
  | value t _ => t == s
  | operand _ => false

/-- The operand an item is. -/
def operand? : Item → Option String
  | operand text => some text
  | _ => none

/-- The value an item gives to a switch. -/
def valueOf? (s : Switch) : Item → Option (List Char)
  | value t text => if t = s then some text else none
  | _ => none

end Item

/-- The action of a verb on one file. -/
def Verb.action (items : List Item) (path : String) : Verb → Option Action
  | assemble => some (.assemble path (items.contains (.switch .symbols)))
  | disassemble => some (.disassemble path)
  | run => do
    let maxSteps ←
      match items.findSome? (Item.valueOf? .maxSteps) with
      | none => some defaultMaxSteps
      | some text => readCount text
    return .run path {
      input := (items.findSome? (Item.valueOf? .input)).map String.ofList
      maxSteps
      trace := items.contains (.switch .trace)
      json := items.contains (.switch .json) }

/-- What the arguments behind a verb ask for. Every switch but the one for verbosity may be given
once. That one counts, and replaces what was said about it before the verb. What stands before a
switch that asks for help must make sense for all that, but need not be complete. -/
def Verb.read (verb : Verb) (verbosity : Nat) (arguments : List String) : Option Invocation := do
  let items ← readArguments verb.switches arguments
  let single := verb.switches.filter (· != .verbose)
  if single.any fun s ↦ 1 < items.countP (Item.isOf s) then none
  else
    let count := items.countP (Item.isOf .verbose)
    let wanted (action : Action) : Invocation := ⟨if count = 0 then verbosity else count, action⟩
    let asksForHelp := items.contains (.switch .help)
    let onFile (path : String) : Option Invocation :=
      (verb.action items path).map fun action ↦ wanted (if asksForHelp then .help else action)
    match items.filterMap Item.operand? with
    | [] => if asksForHelp then onFile "" else none
    | [path] => onFile path
    | _ => none

/-- The switches that may stand before a verb. -/
def commonSwitches : List Switch := [.verbose, .version, .help]

/-- What a request for help asks for; a verb may be named in it, or the request itself. -/
def readTopic (verbosity : Nat) : List String → Option Invocation
  | [] => some ⟨verbosity, .help⟩
  | [topic] =>
    if topic = "help" || (Verb.ofName? topic).isSome then some ⟨verbosity, .help⟩ else none
  | _ => none

/-- What arguments ask for when verbosity has been asked for `verbosity` times before them. -/
def readInvocation (verbosity : Nat) : List String → Option Invocation
  | [] => some ⟨verbosity, .banner⟩
  | argument :: rest =>
    match Verb.ofName? argument with
    | some verb => verb.read verbosity rest
    | none =>
      if argument = "--" then if rest.isEmpty then some ⟨verbosity, .banner⟩ else none
      else if argument = "help" then readTopic verbosity rest
      else if !looksLikeSwitch argument then none
      else
        match readArgument commonSwitches argument with
        | none => none
        | some r =>
          if r.items.contains (.switch .version) then some ⟨verbosity, .version⟩
          else if r.items.contains (.switch .help) then some ⟨verbosity, .help⟩
          else readInvocation (verbosity + r.items.length) rest

/-- What a whole list of arguments asks for; nothing if it is invalid. -/
def parse (arguments : List String) : Option Invocation := readInvocation 0 arguments

end BasicComputer.Command
