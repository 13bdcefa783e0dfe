import BasicComputer.Word

/-!
# Operations and their encoding

A word whose bits 14-12 are not `111` is a memory reference: bit 15 asks for indirection, bits 14-12
select the operation and bits 11-0 are the address. The remaining words are register and
input-output operations, each one fixed constant; a word of that shape which is none of the
constants is unknown to the machine.

An `Operation` may carry any sixteen-bit address, since it is also what a programmer writes down;
`encode` keeps the twelve bits that fit.

## One table for both directions

What stands for an operation is a function on operations, and the way back is a search through all
of them. So the two directions cannot disagree in one entry, and whether they are inverse to each
other comes down to the codes being different.

## Why addresses are wider here than in words

An address beyond memory is no address, but a programmer can ask for one. Cutting it down is an act
of encoding, so it is `encode` that does it, and the operation still tells what was asked for. What
`decode` gives always fits.
-/

namespace BasicComputer

/-! ## Memory references -/

/-- The operations that refer to memory. -/
inductive MemoryOp
  | and | add | lda | sta | bun | bsa | isz
  deriving DecidableEq, Repr

namespace MemoryOp

/-- Every memory operation, by opcode. -/
def all : List MemoryOp := [and, add, lda, sta, bun, bsa, isz]

/-- The value of bits 14-12. -/
def opcode : MemoryOp → BitVec 3
  | and => 0
  | add => 1
  | lda => 2
  | sta => 3
  | bun => 4
  | bsa => 5
  | isz => 6

/-- The operation with a given opcode; opcode seven has none. -/
def ofOpcode? (code : BitVec 3) : Option MemoryOp := all.find? (·.opcode == code)

def mnemonic : MemoryOp → String
  | and => "AND"
  | add => "ADD"
  | lda => "LDA"
  | sta => "STA"
  | bun => "BUN"
  | bsa => "BSA"
  | isz => "ISZ"

end MemoryOp

/-! ## Register operations -/

/-- The operations on the accumulator, the carry flag and the running flag. -/
inductive RegisterOp
  | cla | cle | cma | cme | cir | cil | inc | spa | sna | sza | sze | hlt
  deriving DecidableEq, Repr

namespace RegisterOp

/-- Every register operation, from the highest code to the lowest. -/
def all : List RegisterOp := [cla, cle, cma, cme, cir, cil, inc, spa, sna, sza, sze, hlt]

def code : RegisterOp → Word
  | cla => 0x7800
  | cle => 0x7400
  | cma => 0x7200
  | cme => 0x7100
  | cir => 0x7080
  | cil => 0x7040
  | inc => 0x7020
  | spa => 0x7010
  | sna => 0x7008
  | sza => 0x7004
  | sze => 0x7002
  | hlt => 0x7001

def ofCode? (w : Word) : Option RegisterOp := all.find? (·.code == w)

def mnemonic : RegisterOp → String
  | cla => "CLA"
  | cle => "CLE"
  | cma => "CMA"
  | cme => "CME"
  | cir => "CIR"
  | cil => "CIL"
  | inc => "INC"
  | spa => "SPA"
  | sna => "SNA"
  | sza => "SZA"
  | sze => "SZE"
  | hlt => "HLT"

end RegisterOp

/-! ## Input and output -/

/-- The operations on the input and output registers and their flags. -/
inductive IoOp
  | inp | out | ski | sko | ion | iof
  deriving DecidableEq, Repr

namespace IoOp

/-- Every input-output operation, from the highest code to the lowest. -/
def all : List IoOp := [inp, out, ski, sko, ion, iof]

def code : IoOp → Word
  | inp => 0xF800
  | out => 0xF400
  | ski => 0xF200
  | sko => 0xF100
  | ion => 0xF080
  | iof => 0xF040

def ofCode? (w : Word) : Option IoOp := all.find? (·.code == w)

def mnemonic : IoOp → String
  | inp => "INP"
  | out => "OUT"
  | ski => "SKI"
  | sko => "SKO"
  | ion => "ION"
  | iof => "IOF"

end IoOp

/-! ## Words as operations -/

/-- The three fields of a word that the decoding state extracts. -/
structure Fields where
  /-- Bits 14-12. -/
  opcode : BitVec 3
  /-- Bits 11-0. -/
  address : Address
  /-- Bit 15. -/
  indirect : Bool
  deriving DecidableEq, Repr

/-- The fields of a word. -/
def Fields.ofWord (w : Word) : Fields := ⟨w.extractLsb' 12 3, lowAddress w, w.msb⟩

/-- What a word asks the machine to do. -/
inductive Operation
  /-- A memory reference. -/
  | memory (op : MemoryOp) (address : Word) (indirect : Bool)
  /-- A register operation. -/
  | register (op : RegisterOp)
  /-- An input-output operation. -/
  | io (op : IoOp)
  /-- A word with opcode seven that is no operation; the machine ignores it. -/
  | unknown (word : Word)
  deriving DecidableEq, Repr

/-- The operation a word stands for. -/
def decode (w : Word) : Operation :=
  match MemoryOp.ofOpcode? (Fields.ofWord w).opcode with
  | some op => .memory op ((Fields.ofWord w).address.setWidth 16) (Fields.ofWord w).indirect
  | none =>
    match RegisterOp.ofCode? w with
    | some op => .register op
    | none =>
      match IoOp.ofCode? w with
      | some op => .io op
      | none => .unknown w

/-- The word that stands for an operation; the address is taken modulo the size of memory. -/
def encode : Operation → Word
  | .memory op address indirect =>
    (BitVec.ofBool indirect ++ op.opcode ++ lowAddress address : BitVec (1 + 3 + 12))
  | .register op => op.code
  | .io op => op.code
  | .unknown w => w

end BasicComputer
