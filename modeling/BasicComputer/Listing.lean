import BasicComputer.Memory
import BasicComputer.Operation

/-!
# Listings

Words written out as the operations they stand for. Addresses are in hexadecimal, so a listing shows
a program and is not a source text of it.

The listing of a program knows which words are data and shows them as numbers. The listing of memory
does not, and shows every word as the operation it stands for, so that it goes by the words alone.
Words that are zero are left out of it.
-/

namespace BasicComputer

def Operation.text : Operation → String
  | memory op address indirect =>
    s!"{op.mnemonic} {Numeral.hex 3 address.toNat}" ++ if indirect then " I" else ""
  | register op => op.mnemonic
  | io op => op.mnemonic
  | unknown w => s!"??? {Numeral.hex 4 w.toNat}"

namespace Listing

/-- A word as the operation it stands for. -/
def ofWord (w : Word) : String := (decode w).text

def row (origin : Nat) (w : Word) (text : String) : String :=
  s!"{Numeral.hex 3 origin}: {Numeral.hex 4 w.toNat}  {text}\n"

/-- The words of a program, each with its place and whether it is an instruction, by their places.
Words with the same place keep the order they are loaded in. -/
def sortedWords (p : Program) : List (Nat × Word × Bool) :=
  (p.instructions.map (fun i ↦ (i.origin, i.word, true))
      ++ p.data.map fun d ↦ (d.origin, d.word, false)).mergeSort
    fun a b ↦ decide (a.1 ≤ b.1)

/-- The rows of a program. Data are shown as numbers. -/
def rows (p : Program) : List String :=
  (sortedWords p).map fun (origin, w, isInstruction) ↦
    row origin w (if isInstruction then ofWord w else s!"HEX {Numeral.hex 1 w.toNat}")

/-- What a listing of a program begins with. -/
def header : String := "; Mano Disassembly\n; ----------------\n\n"

/-- The listing of a program. -/
def ofProgram (p : Program) : String := String.join (header :: rows p)

/-- The listing of the words in memory that are not zero. -/
def ofMemory (m : Memory) : String :=
  String.join (m.nonZero.map fun (origin, w) ↦ row origin w (ofWord w))

end Listing

end BasicComputer
