import BasicComputer.Word
import BasicComputer.Text.Numeral

/-!
# Programs

A program is what assembly produces and what a machine loads: words with the addresses they go to,
the instructions among them together with the source line each one came from. An origin is any
number at all; whether it is an address is checked when the program is loaded.

Instructions and data are kept apart, each in the order of the source, and their common order is
lost. It would only matter where two words go to the same address. There the data win, since they
are loaded later, and `words` is in the order of loading for that reason.
-/

namespace BasicComputer

/-- A word that a line of instruction text stands for. -/
structure Instruction where
  /-- Where the word goes. -/
  origin : Nat
  word : Word
  /-- The text of the source line. -/
  source : String
  /-- The number of the source line, counted from one. -/
  line : Nat
  deriving DecidableEq, Repr

/-- A word that a source line gives as a number. -/
structure Datum where
  /-- Where the word goes. -/
  origin : Nat
  word : Word
  deriving DecidableEq, Repr

/-- Instructions and data, each in the order of the source. -/
structure Program where
  instructions : List Instruction
  data : List Datum
  deriving DecidableEq, Repr

def Instruction.text (i : Instruction) : String :=
  s!"{Numeral.hex 3 i.origin}: {Numeral.binary 16 i.word.toNat}  ; line {i.line}: {i.source}"

def Datum.text (d : Datum) : String :=
  s!"{Numeral.hex 3 d.origin}: {Numeral.binary 16 d.word.toNat}"

namespace Program

/-- Where execution starts: at the first instruction, if there is one. -/
def entryPoint (p : Program) : Option Nat := p.instructions.head?.map (·.origin)

def size (p : Program) : Nat := p.instructions.length + p.data.length

def isEmpty (p : Program) : Bool := p.instructions.isEmpty && p.data.isEmpty

/-- Every word with its origin, in the order they are loaded: instructions, then data. -/
def words (p : Program) : List (Nat × Word) :=
  p.instructions.map (fun i ↦ (i.origin, i.word)) ++ p.data.map (fun d ↦ (d.origin, d.word))

theorem length_words (p : Program) : p.words.length = p.size := by
  simp [words, size]

end Program

end BasicComputer
