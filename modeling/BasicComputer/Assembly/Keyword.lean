import BasicComputer.Operation

/-!
# Reserved words

A statement is named by a reserved word: the mnemonic of an operation, or a directive to the
assembler itself. Reserved words are written in upper case; nothing else is reserved.

`DEC` and `HEX` are one directive in two radices. They are read alike, take one number each and emit
one word each, and whatever is said of one is said of the other. What differs, the digits, the range
and the wording, is a function of the radix.
-/

namespace BasicComputer

/-- The two ways a number is written in a source text. -/
inductive Radix
  | decimal | hexadecimal
  deriving DecidableEq, Repr

namespace Radix

/-- The directive that gives a word in this radix. -/
def directiveName : Radix → String
  | decimal => "DEC"
  | hexadecimal => "HEX"

/-- The radix as an adjective. -/
def adjective : Radix → String
  | decimal => "decimal"
  | hexadecimal => "hexadecimal"

end Radix

/-- The operations a statement can name. -/
inductive Mnemonic
  | memory (op : MemoryOp)
  | register (op : RegisterOp)
  | io (op : IoOp)
  deriving DecidableEq, Repr

namespace Mnemonic

def all : List Mnemonic :=
  MemoryOp.all.map memory ++ RegisterOp.all.map register ++ IoOp.all.map io

def name : Mnemonic → String
  | memory op => op.mnemonic
  | register op => op.mnemonic
  | io op => op.mnemonic

def ofName? (s : String) : Option Mnemonic := all.find? (·.name == s)

end Mnemonic

/-- Statements that direct the assembler. -/
inductive Directive
  /-- Go on at a given address. -/
  | origin
  /-- The text ends here. -/
  | finish
  /-- Emit a number. -/
  | datum (radix : Radix)
  deriving DecidableEq, Repr

namespace Directive

def all : List Directive := [origin, finish, datum .decimal, datum .hexadecimal]

def name : Directive → String
  | origin => "ORG"
  | finish => "END"
  | datum radix => radix.directiveName

def ofName? (s : String) : Option Directive := all.find? (·.name == s)

end Directive

/-- A reserved word. -/
inductive Keyword
  | mnemonic (m : Mnemonic)
  | directive (d : Directive)
  deriving DecidableEq, Repr

namespace Keyword

def name : Keyword → String
  | mnemonic m => m.name
  | directive d => d.name

def ofName? (s : String) : Option Keyword :=
  ((Mnemonic.ofName? s).map mnemonic).or ((Directive.ofName? s).map directive)

/-- Whether the word names an operation that refers to memory. -/
def isMemory : Keyword → Bool
  | mnemonic (.memory _) => true
  | _ => false

end Keyword

end BasicComputer
