import BasicComputer.Program

/-!
# Memory

Memory is 4096 words, one for each address. Beside the words it keeps a table of the instructions
that were loaded, for display only: a later write to a word does not touch the table.

A program is loaded whole or not at all. Its instructions go in first and its data after them, so of
several words with one origin the last in that order stays.

A vector of as many words as there are addresses has no address out of bounds, so reading and
writing never fail. Only loading can, since the origins in a program are arbitrary numbers. It
checks all of them before it writes the first word, which leaves no half-loaded memory behind.
-/

namespace BasicComputer

/-- Words, and what was loaded where. -/
structure Memory where
  words : Vector Word memorySize
  sources : Vector (Option Instruction) memorySize
  deriving DecidableEq

/-- Why a program does not fit into memory. -/
inductive MemoryError
  /-- A word's origin is no address. -/
  | addressOutOfRange (origin : Nat)
  deriving DecidableEq, Repr

def MemoryError.message : MemoryError → String
  | addressOutOfRange origin =>
    s!"memory address 0x{Numeral.hex 1 origin} out of range (0x000 to 0xFFF)"

namespace Memory

/-- All words zero, nothing loaded. -/
def empty : Memory := ⟨.replicate memorySize 0, .replicate memorySize none⟩

def read (m : Memory) (a : Address) : Word :=
  have : a.toNat < memorySize := a.isLt
  m.words[a.toNat]

/-- Replace the word at an address. -/
def write (m : Memory) (a : Address) (w : Word) : Memory :=
  { m with words := m.words.set a.toNat w a.isLt }

/-- The instruction loaded at an address. -/
def sourceAt (m : Memory) (a : Address) : Option Instruction :=
  have : a.toNat < memorySize := a.isLt
  m.sources[a.toNat]

/-- The addresses of the words that are not zero, with these words. -/
def nonZero (m : Memory) : List (Nat × Word) :=
  (m.words.toList.zipIdx.filter (·.1 != 0)).map fun w ↦ (w.2, w.1)

/-! ## Loading -/

/-- A program fits if every origin is an address; the first that is not is the error. -/
def check (p : Program) : Except MemoryError Unit :=
  match p.words.find? (memorySize ≤ ·.1) with
  | some w => .error (.addressOutOfRange w.1)
  | none => .ok ()

def placeInstruction (m : Memory) (i : Instruction) : Memory :=
  ⟨m.words.setIfInBounds i.origin i.word, m.sources.setIfInBounds i.origin (some i)⟩

def placeDatum (m : Memory) (d : Datum) : Memory :=
  { m with words := m.words.setIfInBounds d.origin d.word }

def load (m : Memory) (p : Program) : Except MemoryError Memory := do
  check p
  return p.data.foldl placeDatum (p.instructions.foldl placeInstruction m)

def summary (m : Memory) : String :=
  String.join ["Memory \x7b non_zero_words: ", toString m.nonZero.length, ", total_words: ",
    toString memorySize, " \x7d"]

@[simp] theorem read_write_self (m : Memory) (a : Address) (w : Word) :
    (m.write a w).read a = w := by
  simp [read, write]

theorem read_write_of_ne (m : Memory) {a b : Address} (h : a ≠ b) (w : Word) :
    (m.write a w).read b = m.read b := by
  have : a.toNat ≠ b.toNat := fun e ↦ h (BitVec.eq_of_toNat_eq e)
  simp [read, write, this]

end Memory

end BasicComputer
