import BasicComputer.Json.Library
import BasicComputer.Machine
import BasicComputer.Text.Utf8

/-!
# Snapshots

A copy of everything that a machine holds at one moment, apart from what it has counted. A snapshot
travels as a JSON object with one member per register, flag and stream, in a fixed order.

As data from outside, a snapshot may hold anything that fits its number formats, whether a machine
could be in that state or not.

Which members there are, what they are called and of what type each is, is said here. All else is
left to a library: how a number, a list or a record becomes JSON and how JSON is written and read.
-/

namespace BasicComputer

/-- The state of a machine as data. -/
structure Snapshot where
  ac : Word
  dr : Word
  ir : Word
  tr : Word
  ar : Word
  pc : Word
  inpr : Word
  outr : Word
  sc : Byte
  e : Bool
  s : Bool
  ien : Bool
  fgi : Bool
  fgo : Bool
  memory : List Word
  /-- Bytes not yet consumed. -/
  input : List Byte
  /-- Bytes written. -/
  output : List Byte
  deriving DecidableEq, Repr

/-- A copy of the machine's state. -/
def Machine.snapshot (m : Machine) : Snapshot where
  ac := m.registers.ac
  dr := m.registers.dr
  ir := m.registers.ir
  tr := m.registers.tr
  ar := m.registers.ar.setWidth 16
  pc := m.registers.pc.setWidth 16
  inpr := m.registers.inpr.setWidth 16
  outr := m.registers.outr.setWidth 16
  sc := m.registers.sc.setWidth 8
  e := m.flags.e
  s := m.flags.s
  ien := m.flags.ien
  fgi := m.flags.fgi
  fgo := m.flags.fgo
  memory := m.memory.words.toList
  input := m.input
  output := m.output.toList

namespace Snapshot

def outputText (s : Snapshot) : String := String.ofList (Text.decodeBytes s.output)

/-! ## As JSON -/

/-- The names of the members, in their order. -/
def names : List String :=
  ["ac", "dr", "ir", "tr", "ar", "pc", "inpr", "outr", "sc", "e", "s", "ien", "fgi", "fgo",
    "memory", "input_stream", "output_stream"]

/-- The values of the members, in their order. -/
def values (s : Snapshot) (lib : Json.Library := Json.library) : List Json :=
  [(lib.bits 16).toJson s.ac, (lib.bits 16).toJson s.dr, (lib.bits 16).toJson s.ir,
    (lib.bits 16).toJson s.tr, (lib.bits 16).toJson s.ar, (lib.bits 16).toJson s.pc,
    (lib.bits 16).toJson s.inpr, (lib.bits 16).toJson s.outr, (lib.bits 8).toJson s.sc,
    lib.bool.toJson s.e, lib.bool.toJson s.s, lib.bool.toJson s.ien, lib.bool.toJson s.fgi,
    lib.bool.toJson s.fgo, (lib.list (lib.bits 16)).toJson s.memory,
    (lib.list (lib.bits 8)).toJson s.input, (lib.list (lib.bits 8)).toJson s.output]

def ofValues? (lib : Json.Library) : List Json → Option Snapshot
  | [ac, dr, ir, tr, ar, pc, inpr, outr, sc, e, s, ien, fgi, fgo, memory, input, output] =>
    return {
      ac := ← (lib.bits 16).ofJson? ac, dr := ← (lib.bits 16).ofJson? dr
      ir := ← (lib.bits 16).ofJson? ir, tr := ← (lib.bits 16).ofJson? tr
      ar := ← (lib.bits 16).ofJson? ar, pc := ← (lib.bits 16).ofJson? pc
      inpr := ← (lib.bits 16).ofJson? inpr, outr := ← (lib.bits 16).ofJson? outr
      sc := ← (lib.bits 8).ofJson? sc
      e := ← lib.bool.ofJson? e, s := ← lib.bool.ofJson? s, ien := ← lib.bool.ofJson? ien
      fgi := ← lib.bool.ofJson? fgi, fgo := ← lib.bool.ofJson? fgo
      memory := ← (lib.list (lib.bits 16)).ofJson? memory
      input := ← (lib.list (lib.bits 8)).ofJson? input
      output := ← (lib.list (lib.bits 8)).ofJson? output }
  | _ => none

def codec (lib : Json.Library) : Json.Codec Snapshot where
  toJson s := (lib.record names).toJson (s.values lib)
  ofJson? j := do ofValues? lib (← (lib.record names).ofJson? j)

def toJson (s : Snapshot) : Json := (codec Json.library).toJson s

/-- The snapshot that an object describes. -/
def ofJson? (j : Json) : Option Snapshot := (codec Json.library).ofJson? j

/-- The snapshot that a JSON text describes. -/
def parse? (text : String) : Option Snapshot := Json.library.parse? (codec Json.library) text

end Snapshot

end BasicComputer
