import BasicComputer.Word
import BasicComputer.Text.Numeral

/-!
# Registers and flags

The register file and the five one-bit flags. Whatever is put into a register is cut down to the
register's width.

Registers can be set by hand, under their names and with numbers of any size. The names are data,
so that one function covers all of them, and the cutting down to a width is said once for each
register.
-/

namespace BasicComputer

/-- The register file. -/
structure Registers where
  /-- The accumulator. -/
  ac : Word
  /-- The data register, which holds operands. -/
  dr : Word
  /-- The instruction register. -/
  ir : Word
  /-- The temporary register. No operation uses it. -/
  tr : Word
  /-- The address register. -/
  ar : Address
  /-- The program counter. -/
  pc : Address
  /-- The input register. -/
  inpr : Byte
  /-- The output register. -/
  outr : Byte
  /-- The sequence counter, which selects the timing state. -/
  sc : SequenceCount
  deriving DecidableEq, Repr

structure Flags where
  /-- The carry out of the adder, and the seventeenth bit of a circulation. -/
  e : Bool
  /-- Whether the machine runs. -/
  s : Bool
  /-- Whether interrupts are enabled. -/
  ien : Bool
  /-- Whether the input register holds a byte not yet read. -/
  fgi : Bool
  /-- Whether the output register is free for a byte. -/
  fgo : Bool
  deriving DecidableEq, Repr

inductive RegisterName
  | ac | dr | ir | tr | ar | pc | inpr | outr | sc
  deriving DecidableEq, Repr

inductive FlagName
  | e | s | ien | fgi | fgo
  deriving DecidableEq, Repr

namespace Registers

def zero : Registers := ⟨0, 0, 0, 0, 0, 0, 0, 0, 0⟩

/-- Put a number into a register, modulo the register's width. -/
def set (r : Registers) (name : RegisterName) (n : Nat) : Registers :=
  match name with
  | .ac => { r with ac := .ofNat 16 n }
  | .dr => { r with dr := .ofNat 16 n }
  | .ir => { r with ir := .ofNat 16 n }
  | .tr => { r with tr := .ofNat 16 n }
  | .ar => { r with ar := .ofNat 12 n }
  | .pc => { r with pc := .ofNat 12 n }
  | .inpr => { r with inpr := .ofNat 8 n }
  | .outr => { r with outr := .ofNat 8 n }
  | .sc => { r with sc := .ofNat 4 n }

def get (r : Registers) : RegisterName → Nat
  | .ac => r.ac.toNat
  | .dr => r.dr.toNat
  | .ir => r.ir.toNat
  | .tr => r.tr.toNat
  | .ar => r.ar.toNat
  | .pc => r.pc.toNat
  | .inpr => r.inpr.toNat
  | .outr => r.outr.toNat
  | .sc => r.sc.toNat

/-- Move the program counter to the next address. -/
def advancePc (r : Registers) : Registers := { r with pc := r.pc + 1 }

/-- The registers as one line of text. -/
def describe (r : Registers) : String :=
  s!"AC={Numeral.hex 4 r.ac.toNat} DR={Numeral.hex 4 r.dr.toNat} IR={Numeral.hex 4 r.ir.toNat} "
    ++ s!"TR={Numeral.hex 4 r.tr.toNat} AR={Numeral.hex 3 r.ar.toNat} "
    ++ s!"PC={Numeral.hex 3 r.pc.toNat} "
    ++ s!"INPR={Numeral.hex 2 r.inpr.toNat} OUTR={Numeral.hex 2 r.outr.toNat} SC={r.sc.toNat}"

end Registers

namespace Flags

/-- The flags at power-on: running, nothing to read, free to write. -/
def start : Flags := ⟨false, true, false, true, true⟩

def set (f : Flags) (name : FlagName) (b : Bool) : Flags :=
  match name with
  | .e => { f with e := b }
  | .s => { f with s := b }
  | .ien => { f with ien := b }
  | .fgi => { f with fgi := b }
  | .fgo => { f with fgo := b }

def get (f : Flags) : FlagName → Bool
  | .e => f.e
  | .s => f.s
  | .ien => f.ien
  | .fgi => f.fgi
  | .fgo => f.fgo

/-- The flags as one line of text. -/
def describe (f : Flags) : String :=
  String.join ["Flags \x7b e: ", toString f.e, ", s: ", toString f.s, ", ien: ", toString f.ien,
    ", fgi: ", toString f.fgi, ", fgo: ", toString f.fgo, " \x7d"]

end Flags

end BasicComputer
