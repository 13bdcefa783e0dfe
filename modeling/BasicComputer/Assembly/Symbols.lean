import BasicComputer.Assembly.Line
import BasicComputer.Event
import BasicComputer.Word

/-!
# Labels and their addresses

Before any word is emitted, every line is given the address its word will have. A location counter
starts at zero, moves to the value of each `ORG`, and moves on by one behind every line that emits a
word. A label stands for the counter at its own line, on an `ORG` line for the value just set.

The counter may come to rest one past the last address, which only matters if another word follows.
Labels found before a line that cannot be placed are kept.

## Defining and reporting

A label is reported at the moment it is defined, between the look at the table and the change to
it. The first pass therefore carries the table and the report along, as one `Labelling`, and leaves
both behind wherever it stops. That the report tells of the labels in the table, and of no others,
is a property of the pass.
-/

namespace BasicComputer

/-! ## What can be wrong -/

/-- The ways in which well-formed lines are no program. -/
inductive SemanticFault
  | missingEnd
  | multipleEnd
  | endNotLast
  | duplicateLabel (label : String)
  | undefinedLabel (label : String)
  | decimalOutOfRange (literal : String)
  | hexadecimalOutOfRange (literal : String)
  | originOutOfRange (literal : String)
  | addressOverflow
  deriving DecidableEq, Repr

def SemanticFault.describe : SemanticFault → String
  | missingEnd => "missing END directive"
  | multipleEnd => "multiple END directives"
  | endNotLast => "END directive must be the last statement"
  | duplicateLabel label => s!"duplicate label '{label}'"
  | undefinedLabel label => s!"undefined label '{label}'"
  | decimalOutOfRange literal => s!"DEC value {literal} out of range (-32768 to 32767)"
  | hexadecimalOutOfRange literal => s!"HEX value {literal} out of range (0-FFFF)"
  | originOutOfRange literal => s!"ORG address {literal} out of range (0-FFF)"
  | addressOverflow => "location counter passed the end of memory"

/-- A fault and where it is. -/
structure SemanticError extends Position where
  fault : SemanticFault
  deriving DecidableEq, Repr

def SemanticError.message (e : SemanticError) : String :=
  s!"assembler error at line {e.line}, col {e.column}: {e.fault.describe}"

/-- The error of a fault at a token. -/
def Token.faults (t : Token) (fault : SemanticFault) : SemanticError := ⟨t.toPosition, fault⟩

/-! ## The symbol table -/

/-- Labels and their addresses, in the order of their definition. -/
structure SymbolTable where
  entries : List (String × Nat)
  deriving DecidableEq, Repr

namespace SymbolTable

def empty : SymbolTable := ⟨[]⟩

def lookup? (table : SymbolTable) (label : String) : Option Nat := table.entries.lookup label

/-- Whether a label has an address. -/
def contains (table : SymbolTable) (label : String) : Bool := (table.lookup? label).isSome

/-- The table with one more label behind the others. -/
def insert (table : SymbolTable) (label : String) (address : Nat) : SymbolTable :=
  ⟨table.entries ++ [(label, address)]⟩

/-- The entries in the order of their labels. -/
def sorted (table : SymbolTable) : List (String × Nat) :=
  table.entries.mergeSort fun a b ↦ decide (a.1 ≤ b.1)

end SymbolTable

/-- How far labels have been given their addresses: those that are defined, and what has been
reported of them, in order. -/
structure Labelling where
  symbols : SymbolTable
  entries : List Entry

/-- What the definition of a label is reported as. -/
def labelEntry (definition : String × Nat) : Entry :=
  .info .assembler s!"label {definition.1} = {Numeral.hex 3 definition.2}"

namespace Labelling

def empty : Labelling := ⟨.empty, []⟩

/-- Give a label an address and report it, unless it has one. -/
def define (labels : Labelling) (label : Token) (address : Nat) : Except SemanticError Labelling :=
  if labels.symbols.contains label.text then .error (label.faults (.duplicateLabel label.text))
  else .ok {
    symbols := labels.symbols.insert label.text address
    entries := labels.entries ++ [labelEntry (label.text, address)] }

/-- Give a line's label an address, if it has one. -/
def defineLabel (labels : Labelling) (label : Option Token) (address : Nat) :
    Except SemanticError Labelling :=
  match label with
  | none => .ok labels
  | some t => labels.define t address

end Labelling

/-! ## The location counter -/

/-- The address that the operand of an `ORG` names. -/
def originValue (t : Token) : Except SemanticError Nat :=
  let n := Numeral.value 16 t.text.toList
  if n < memorySize then .ok n else .error (t.faults (.originOutOfRange t.text))

/-- The counter behind a word emitted at `location` by the statement named by `head`. -/
def nextLocation (location : Nat) (head : Token) : Except SemanticError Nat :=
  if location < memorySize then .ok (location + 1) else .error (head.faults .addressOverflow)

/-- The first pass: define the labels of the lines, the counter standing at `location`. Gives the
labels defined, also where a line could not be placed. -/
def layout (location : Nat) (labels : Labelling) :
    List Line → Labelling × Except SemanticError Unit
  | [] => (labels, .ok ())
  | line :: rest =>
    match line.statement with
    | .origin value =>
      match originValue value with
      | .error e => (labels, .error e)
      | .ok start =>
        match labels.defineLabel line.label start with
        | .error e => (labels, .error e)
        | .ok labels => layout start labels rest
    | .finish =>
      match labels.defineLabel line.label location with
      | .error e => (labels, .error e)
      | .ok labels => (labels, .ok ())
    | _ =>
      match labels.defineLabel line.label location with
      | .error e => (labels, .error e)
      | .ok labels =>
        match nextLocation location line.head with
        | .error e => (labels, .error e)
        | .ok next => layout next labels rest

/-- The first name in a text that is no label. -/
def undefinedName? (table : SymbolTable) (tokens : List Token) : Option SemanticError :=
  (tokens.find? fun t ↦ t.kind == .identifier && !table.contains t.text).map fun t ↦
    t.faults (.undefinedLabel t.text)

end BasicComputer
