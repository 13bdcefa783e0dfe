/-!
# Words, addresses and bytes

The basic computer computes on four widths: sixteen-bit words, twelve-bit addresses, the bytes that
travel through its input and output registers, and the four bits of its sequence counter. Each is a
bit vector of exactly that width, so arithmetic wraps by construction and every address names a word
of memory.
-/

namespace BasicComputer

/-- A machine word. -/
abbrev Word := BitVec 16

/-- A memory address. There are as many of them as there are words of memory. -/
abbrev Address := BitVec 12

/-- What the input and output registers hold. -/
abbrev Byte := BitVec 8

/-- A value of the sequence counter. -/
abbrev SequenceCount := BitVec 4

/-- The number of words in memory. -/
abbrev memorySize : Nat := 4096

/-- The bits of a word that a memory reference uses as its address. -/
def lowAddress (w : Word) : Address := w.setWidth 12

/-- The byte an output instruction takes from a word. -/
def lowByte (w : Word) : Byte := w.setWidth 8

/-- `w` with its low byte replaced by `b`. -/
def withLowByte (w : Word) (b : Byte) : Word := w >>> 8 <<< 8 ||| b.setWidth 16

end BasicComputer
