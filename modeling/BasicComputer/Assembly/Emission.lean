import BasicComputer.Assembly.Symbols
import BasicComputer.Program

/-!
# Emission

Once every label has an address, the lines are gone through again. Each one now has an effect: it
moves the location counter, ends the text, or emits a word at the counter's place. The program is
what these effects leave behind, and the report on them is one entry each.

Emission keeps its own counter, with the same checks as before.

## Effects as data

The second pass gives a list of effects instead of a program and a report. Both are read off the
list, so an effect is reported exactly if it takes place. It also shows how far the pass got, which
a program cut short would not.
-/

namespace BasicComputer

/-- The effect of one line. -/
inductive Emission
  /-- The counter goes to `location`. -/
  | origin (location : Nat)
  /-- The text ends. -/
  | finish
  /-- A number is emitted. -/
  | datum (radix : Radix) (datum : Datum)
  /-- An instruction is emitted. -/
  | instruction (instruction : Instruction)
  deriving DecidableEq, Repr

namespace Emission

/-- What the effect is reported as. -/
def entry : Emission → Entry
  | origin location => .info .directive s!"ORG: LC <- {Numeral.hex 3 location}"
  | finish => .info .directive "END"
  | datum radix d =>
    .info .directive (s!"{radix.directiveName}: M[{Numeral.hex 3 d.origin}] <- "
      ++ Numeral.hex 4 d.word.toNat)
  | instruction i =>
    .info .assembler s!"{Numeral.hex 3 i.origin}: {Numeral.hex 4 i.word.toNat}  {i.source}"

/-- The instruction emitted, if one is. -/
def instruction? : Emission → Option Instruction
  | instruction i => some i
  | _ => none

/-- The number emitted, if one is. -/
def datum? : Emission → Option Datum
  | datum _ d => some d
  | _ => none

end Emission

/-- The program that effects leave behind. -/
def Program.ofEmissions (emissions : List Emission) : Program :=
  ⟨emissions.filterMap Emission.instruction?, emissions.filterMap Emission.datum?⟩

/-! ## Literals -/

/-- The address a decimal numeral names, however long it is. -/
def decimalAddress (cs : List Char) : Nat :=
  Numeral.valueMod memorySize (cs.filter Numeral.isDecimalDigit)

/-- The word that the operand of a `DEC` names, in two's complement. -/
def decimalWord (t : Token) : Except SemanticError Word :=
  let n := Numeral.signedValue t.text.toList
  if -32768 ≤ n ∧ n ≤ 32767 then .ok (BitVec.ofInt 16 n)
  else .error (t.faults (.decimalOutOfRange t.text))

def hexadecimalWord (t : Token) : Except SemanticError Word :=
  let n := Numeral.value 16 t.text.toList
  if n ≤ 0xFFFF then .ok (BitVec.ofNat 16 n)
  else .error (t.faults (.hexadecimalOutOfRange t.text))

def literalWord : Radix → Token → Except SemanticError Word
  | .decimal => decimalWord
  | .hexadecimal => hexadecimalWord

/-! ## The second pass -/

/-- The address that an operand stands for. -/
def Place.address (symbols : SymbolTable) : Place → Except SemanticError Nat
  | number t => .ok (decimalAddress t.text.toList)
  | symbol t =>
    match symbols.lookup? t.text with
    | some a => .ok a
    | none => .error (t.faults (.undefinedLabel t.text))

/-- The effect of a line at `location`. -/
def Line.emission (symbols : SymbolTable) (location : Nat) (l : Line) :
    Except SemanticError Emission :=
  let emit (o : Operation) : Emission := .instruction ⟨location, encode o, l.source, l.number⟩
  match l.statement with
  | .origin value => return .origin (← originValue value)
  | .finish => return .finish
  | .datum radix value => return .datum radix ⟨location, ← literalWord radix value⟩
  | .memory op place marker =>
    return emit (.memory op (BitVec.ofNat 16 (← place.address symbols)) marker.isSome)
  | .register op => return emit (.register op)
  | .io op => return emit (.io op)

/-- The second pass: the effects of the lines, the counter standing at `location`. Gives those that
came about, also where a later line has none. -/
def emit (symbols : SymbolTable) (location : Nat) :
    List Line → List Emission × Except SemanticError Unit
  | [] => ([], .ok ())
  | line :: rest =>
    match line.emission symbols location with
    | .error e => ([], .error e)
    | .ok .finish => ([.finish], .ok ())
    | .ok (.origin start) =>
      let later := emit symbols start rest
      (.origin start :: later.1, later.2)
    | .ok effect =>
      match nextLocation location line.head with
      | .error e => ([effect], .error e)
      | .ok next =>
        let later := emit symbols next rest
        (effect :: later.1, later.2)

end BasicComputer
