import BasicComputer.Proofs.InstructionSet
import Mathlib.Data.Nat.Bitwise
import Mathlib.Tactic.IntervalCases

/-!
# The machine on bare numbers

The registers of the machine are bit vectors. What is put into one has the width of the register by
construction, and every address names a word of memory. Here the same machine is written down on
numbers that are bounded by nothing. A register holds a number, and so does each place of memory, of
which there are as many as there are. Sums, complements and shifts are those of numbers. Only `put`
keeps a number within the width of a register, and a place that memory does not have stops the
machine.

How an address is turned into a place is left open: it is a function `place`, of which nothing is
said but that it leaves numbers below the size of memory alone. It may take the remainder by the
size of memory, or do nothing at all.

The main statement is that a micro-step of the bare machine is a micro-step of the machine. It holds
because of three things that are seen here for each register and each timing state: all numbers that
can be too large go through `put`, what is looked for in memory comes out of the address register,
and what is written there comes out of a register no wider than a word.

## Why a second machine

Of a bit vector of twelve bits it is no statement about the program that it is below 4096. The
question is whether the program would keep its numbers within bounds if nothing else did, and for
this there must be something that could go beyond them. So the machine is repeated without the
types, and with `put` wherever a register is written.

Both machines are stepped side by side, and each timing state has one lemma that says so. The bare
one may stop, and that it never does is part of what is said, as its result is given outright.
-/

namespace BasicComputer

/-- The number of bits in a register. -/
def RegisterName.width : RegisterName → Nat
  | .ac | .dr | .ir | .tr => 16
  | .ar | .pc => 12
  | .inpr | .outr => 8
  | .sc => 4

/-- A machine on numbers of any size. -/
structure BareMachine where
  registers : RegisterName → Nat
  flags : Flags
  words : List Nat
  sources : List (Option Instruction)
  /-- Bytes not yet consumed. -/
  input : List Byte
  /-- Bytes written, in order. -/
  output : Array Byte
  cycles : Nat
  instructions : Nat
  program : Option Program

namespace BareMachine

/-! ## Registers and memory -/

/-- Put a number into a register. Bits that the register has no room for are cut off. -/
def put (b : BareMachine) (name : RegisterName) (n : Nat) : BareMachine :=
  { b with registers := Function.update b.registers name (n &&& (2 ^ name.width - 1)) }

/-- The number in a place of memory, if there is such a place. -/
def fetch (b : BareMachine) (place : Nat) : Option Nat := b.words[place]?

/-- Write a number into a place of memory, if there is such a place. -/
def store (b : BareMachine) (place n : Nat) : Option BareMachine :=
  if place < b.words.length then some { b with words := b.words.set place n } else none

def advancePc (b : BareMachine) : BareMachine := b.put .pc (b.registers .pc + 1)

def skipIf (condition : Bool) (b : BareMachine) : BareMachine :=
  if condition then b.advancePc else b

/-! ## Input and output service -/

/-- The accumulator with the input register in place of its low byte. -/
def merged (b : BareMachine) : Nat := b.registers .ac &&& 0xFF00 ||| b.registers .inpr

/-- Deliver the byte in the output register if it is pending. -/
def serviceOutput (b : BareMachine) : BareMachine :=
  if b.flags.fgo then b
  else { b with output := b.output.push (.ofNat 8 (b.registers .outr)), flags.fgo := true }

/-- Take in the next byte if one is asked for and one waits. -/
def serviceInput (b : BareMachine) : BareMachine :=
  match b.flags.fgi, b.input with
  | false, byte :: rest =>
    let b := b.put .inpr byte.toNat
    { b.put .ac b.merged with flags.fgi := true, input := rest }
  | _, _ => b

def service (b : BareMachine) : BareMachine :=
  if b.registers .sc = 0 then b.serviceOutput.serviceInput else b

/-! ## Operations without a memory reference -/

/-- The effect of a register operation. -/
def executeRegister (b : BareMachine) : RegisterOp → BareMachine
  | .cla => b.put .ac 0
  | .cle => { b with flags.e := false }
  | .cma => b.put .ac (0xFFFF ^^^ b.registers .ac)
  | .cme => { b with flags.e := !b.flags.e }
  | .cir =>
    { b.put .ac (b.registers .ac >>> 1 ||| b.flags.e.toNat <<< 15) with
      flags.e := b.registers .ac &&& 1 != 0 }
  | .cil =>
    { b.put .ac (b.registers .ac <<< 1 ||| b.flags.e.toNat) with
      flags.e := b.registers .ac &&& 0x8000 != 0 }
  | .inc => b.put .ac (b.registers .ac + 1)
  | .spa => b.skipIf (b.registers .ac &&& 0x8000 == 0)
  | .sna => b.skipIf (b.registers .ac &&& 0x8000 != 0)
  | .sza => b.skipIf (b.registers .ac == 0)
  | .sze => b.skipIf !b.flags.e
  | .hlt => { b with flags.s := false }

/-- The effect of an input-output operation. -/
def executeIo (b : BareMachine) : IoOp → BareMachine
  | .inp => { b.put .ac b.merged with flags.fgi := false }
  | .out => { b.put .outr (b.registers .ac) with flags.fgo := false }
  | .ski => b.skipIf b.flags.fgi
  | .sko => b.skipIf b.flags.fgo
  | .ion => { b with flags.ien := true }
  | .iof => { b with flags.ien := false }

/-! ## The timing states -/

/-- The memory operation in the instruction register. -/
def memoryOp? (b : BareMachine) : Option MemoryOp :=
  MemoryOp.all.find? (·.opcode.toNat == (b.registers .ir >>> 12 &&& 7))

section

variable (place : Nat → Nat)

/-- T3: resolve indirection, or execute. -/
def executeT3 (b : BareMachine) : Option BareMachine :=
  match b.memoryOp? with
  | some _ =>
    if b.registers .ir &&& 0x8000 != 0 then do
      let w ← b.fetch (place (b.registers .ar))
      return (b.put .ar w).put .sc 4
    else some (b.put .sc 4)
  | none =>
    match RegisterOp.all.find? (·.code.toNat == b.registers .ir) with
    | some op => some ((b.executeRegister op).put .sc 0)
    | none =>
      match IoOp.all.find? (·.code.toNat == b.registers .ir) with
      | some op => some ((b.executeIo op).put .sc 0)
      | none => some (b.put .sc 0)

/-- T4: the first part of a memory operation. -/
def executeT4 (b : BareMachine) : Option BareMachine :=
  match b.memoryOp? with
  | none => some (b.put .sc 0)
  | some op =>
    match op with
    | .and | .add | .lda | .isz => do
      let w ← b.fetch (place (b.registers .ar))
      return (b.put .dr w).put .sc 5
    | .sta => do
      let b ← b.store (place (b.registers .ar)) (b.registers .ac)
      return b.put .sc 0
    | .bun => some ((b.put .pc (b.registers .ar)).put .sc 0)
    | .bsa => do
      let b ← b.store (place (b.registers .ar)) (b.registers .pc)
      return (b.put .ar (b.registers .ar + 1)).put .sc 5

/-- T5: the second part of a memory operation. -/
def executeT5 (b : BareMachine) : BareMachine :=
  match b.memoryOp? with
  | none => b.put .sc 0
  | some op =>
    match op with
    | .and => (b.put .ac (b.registers .ac &&& b.registers .dr)).put .sc 0
    | .add =>
      { b.put .ac (b.registers .ac + b.registers .dr) with
        flags.e := decide (0xFFFF < b.registers .ac + b.registers .dr) }.put .sc 0
    | .lda => (b.put .ac (b.registers .dr)).put .sc 0
    | .bsa => (b.put .pc (b.registers .ar)).put .sc 0
    | .isz => (b.put .dr (b.registers .dr + 1)).put .sc 6
    | .sta | .bun => b.put .sc 0

/-- T6: write an incremented word back, and pass over the next instruction if it became zero. -/
def executeT6 (b : BareMachine) : Option BareMachine := do
  let b ← b.store (place (b.registers .ar)) (b.registers .dr)
  return (b.skipIf (b.registers .dr == 0)).put .sc 0

/-- The effect of a timing state. -/
def execute (b : BareMachine) : TimingState → Option BareMachine
  | .t0 => some ((b.put .ar (b.registers .pc)).put .sc 1)
  | .t1 => do
    let w ← b.fetch (place (b.registers .ar))
    return ((b.put .ir w).advancePc).put .sc 2
  | .t2 => some ((b.put .ar (b.registers .ir &&& 0xFFF)).put .sc 3)
  | .t3 => b.executeT3 place
  | .t4 => b.executeT4 place
  | .t5 => some b.executeT5
  | .t6 => b.executeT6 place

def tally (b : BareMachine) (t : TimingState) : BareMachine :=
  { b with
    cycles := b.cycles + 1
    instructions :=
      if t ≠ .t0 ∧ b.registers .sc = 0 then b.instructions + 1 else b.instructions }

/-- One micro-step. -/
def step (b : BareMachine) : Option BareMachine :=
  if b.flags.s then
    let b := b.service
    match TimingState.all[b.registers .sc]? with
    | none => some (b.put .sc 0)
    | some t => do
      let b ← b.execute place t
      return b.tally t
  else some b

end

end BareMachine

/-- A machine with its registers and words as numbers. -/
def Machine.bare (m : Machine) : BareMachine where
  registers := m.registers.get
  flags := m.flags
  words := m.memory.words.toList.map (·.toNat)
  sources := m.memory.sources.toList
  input := m.input
  output := m.output
  cycles := m.cycles
  instructions := m.instructions
  program := m.program

/-! ## Words as numbers -/

section Words

variable {n : Nat} (x y : BitVec n)

theorem ofNat_toNat_self : BitVec.ofNat n x.toNat = x := by
  rw [BitVec.ofNat_toNat, BitVec.setWidth_eq]

theorem ofNat_toNat_add_one : BitVec.ofNat n (x.toNat + 1) = x + 1 := by
  rw [BitVec.ofNat_add, ofNat_toNat_self]
  rfl

theorem toNat_beq_toNat : (x.toNat == y.toNat) = (x == y) := by
  rw [Bool.eq_iff_iff, beq_iff_eq, beq_iff_eq, BitVec.toNat_inj]

end Words

section Words

variable (w : Word)

theorem ofNat_complement : BitVec.ofNat 16 (0xFFFF ^^^ w.toNat) = ~~~w := by
  rw [BitVec.ofNat_xor, ofNat_toNat_self, BitVec.not_def]
  rfl

theorem ofNat_circulateRight (e : Bool) :
    BitVec.ofNat 16 (w.toNat >>> 1 ||| e.toNat <<< 15) =
      w >>> 1 ||| (BitVec.ofBool e).setWidth 16 <<< 15 := by
  have hcarry : BitVec.ofNat 16 (e.toNat <<< 15) = (BitVec.ofBool e).setWidth 16 <<< 15 := by
    cases e <;> rfl
  rw [BitVec.ofNat_or, hcarry, ← BitVec.toNat_ushiftRight, ofNat_toNat_self]

theorem ofNat_circulateLeft (e : Bool) :
    BitVec.ofNat 16 (w.toNat <<< 1 ||| e.toNat) = w <<< 1 ||| (BitVec.ofBool e).setWidth 16 := by
  have hcarry : BitVec.ofNat 16 e.toNat = (BitVec.ofBool e).setWidth 16 := by cases e <;> rfl
  have hshift : BitVec.ofNat 16 (w.toNat <<< 1) = w <<< 1 := by
    apply BitVec.eq_of_toNat_eq
    rw [BitVec.toNat_ofNat, BitVec.toNat_shiftLeft]
  rw [BitVec.ofNat_or, hcarry, hshift]

theorem ofNat_merged (b : Byte) :
    BitVec.ofNat 16 (w.toNat &&& 0xFF00 ||| b.toNat) = withLowByte w b := by
  have hhigh : w &&& 0xFF00#16 = w >>> 8 <<< 8 := by
    ext i hi
    interval_cases i <;> simp
  rw [BitVec.ofNat_or, BitVec.ofNat_and, ofNat_toNat_self, BitVec.ofNat_toNat, withLowByte, hhigh]

theorem ofNat_lowAddress : BitVec.ofNat 12 (w.toNat &&& 0xFFF) = lowAddress w := by
  have hmask : w.toNat &&& 0xFFF = w.toNat % 2 ^ 12 := Nat.and_two_pow_sub_one_eq_mod _ 12
  apply BitVec.eq_of_toNat_eq
  rw [hmask, BitVec.toNat_ofNat, Nat.mod_mod, lowAddress, BitVec.toNat_setWidth]

/-- A bit is asked for by masking the others. -/
theorem toNat_and_two_pow_bne (i : Nat) : (w.toNat &&& 2 ^ i != 0) = w.getLsbD i := by
  have hbit : w.toNat.testBit i = w.getLsbD i := rfl
  rw [Nat.and_two_pow, hbit]
  cases w.getLsbD i <;> simp

theorem toNat_and_bne_eq_msb : (w.toNat &&& 0x8000 != 0) = w.msb := by
  rw [BitVec.msb_eq_getLsbD_last]
  exact toNat_and_two_pow_bne w 15

theorem find?_memoryOp :
    MemoryOp.all.find? (·.opcode.toNat == (w.toNat >>> 12 &&& 7)) =
      MemoryOp.ofOpcode? (Fields.ofWord w).opcode := by
  have hopcode : w.toNat >>> 12 &&& 7 = (Fields.ofWord w).opcode.toNat := by
    rw [Fields.toNat_opcode, Nat.shiftRight_eq_div_pow]
    exact Nat.and_two_pow_sub_one_eq_mod _ 3
  simp only [hopcode, toNat_beq_toNat]
  rfl

theorem find?_registerOp :
    RegisterOp.all.find? (·.code.toNat == w.toNat) = RegisterOp.ofCode? w := by
  simp only [toNat_beq_toNat]
  rfl

theorem find?_ioOp : IoOp.all.find? (·.code.toNat == w.toNat) = IoOp.ofCode? w := by
  simp only [toNat_beq_toNat]
  rfl

end Words

namespace Machine

variable (m : Machine)

/-! ## Registers and memory of a machine -/

theorem bare_length_words : m.bare.words.length = memorySize := by simp [bare]

theorem bare_length_sources : m.bare.sources.length = memorySize := by simp [bare]

theorem bare_registers (name : RegisterName) : m.bare.registers name = m.registers.get name := rfl

theorem bare_sc_eq_zero : m.bare.registers .sc = 0 ↔ m.registers.sc = 0 :=
  BitVec.toNat_inj (y := 0)

theorem bare_put (name : RegisterName) (n : Nat) :
    m.bare.put name n = (m.setRegister name n).bare := by
  have hregisters : Function.update m.registers.get name (n &&& (2 ^ name.width - 1)) =
      (m.registers.set name n).get := by
    rw [Nat.and_two_pow_sub_one_eq_mod, Function.update_eq_iff]
    constructor
    · cases name <;> rfl
    · intro other hother
      cases name <;> cases other <;> first | rfl | exact absurd rfl hother
  rw [BareMachine.put, setRegister, bare, bare, hregisters]

theorem bare_advancePc :
    m.bare.advancePc = { m with registers.pc := m.registers.pc + 1 }.bare := by
  rw [← ofNat_toNat_add_one]
  exact m.bare_put .pc _

theorem bare_skipIf (condition : Bool) :
    m.bare.skipIf condition = (m.skipIf condition).bare := by
  rw [BareMachine.skipIf, skipIf, bare_advancePc, apply_ite bare]

/-! ## Input and output service -/

theorem bare_merged :
    BitVec.ofNat 16 m.bare.merged = withLowByte m.registers.ac m.registers.inpr :=
  ofNat_merged m.registers.ac m.registers.inpr

theorem bare_serviceOutput : m.bare.serviceOutput = m.serviceOutput.bare := by
  rw [serviceOutput, apply_ite bare, ← ofNat_toNat_self m.registers.outr]
  rfl

theorem bare_serviceInput : m.bare.serviceInput = m.serviceInput.bare := by
  have hflags : m.bare.flags = m.flags := rfl
  have hinput : m.bare.input = m.input := rfl
  rw [BareMachine.serviceInput, serviceInput, hflags, hinput]
  cases m.flags.fgi with
  | true => rfl
  | false =>
    cases m.input with
    | nil => rfl
    | cons byte rest =>
      have hbyte : m.setRegister .inpr byte.toNat = { m with registers.inpr := byte } := by
        rw [setRegister, Registers.set, ofNat_toNat_self]
      dsimp only
      rw [bare_put, hbyte, bare_put, ← bare_merged { m with registers.inpr := byte }]
      rfl

theorem bare_service : m.bare.service = m.service.bare := by
  rw [BareMachine.service, service, bare_serviceOutput, bare_serviceInput, apply_ite bare]
  exact if_congr m.bare_sc_eq_zero rfl rfl

/-! ## Operations without a memory reference -/

theorem bare_executeRegister (op : RegisterOp) :
    m.bare.executeRegister op = (m.executeRegister op).bare := by
  cases op with
  | cle | cme | hlt => rfl
  | cla => exact m.bare_put .ac 0
  | cma =>
    rw [executeRegister, ← ofNat_complement]
    exact m.bare_put .ac _
  | cir =>
    rw [BareMachine.executeRegister, bare_put, executeRegister, ← ofNat_circulateRight,
      ← toNat_and_two_pow_bne]
    rfl
  | cil =>
    rw [BareMachine.executeRegister, bare_put, executeRegister, ← ofNat_circulateLeft,
      ← toNat_and_bne_eq_msb]
    rfl
  | inc =>
    rw [executeRegister, ← ofNat_toNat_add_one]
    exact m.bare_put .ac _
  | spa =>
    rw [executeRegister, ← toNat_and_bne_eq_msb, bne, Bool.not_not]
    exact m.bare_skipIf _
  | sna =>
    rw [executeRegister, ← toNat_and_bne_eq_msb]
    exact m.bare_skipIf _
  | sza =>
    rw [executeRegister, ← toNat_beq_toNat]
    exact m.bare_skipIf _
  | sze => exact m.bare_skipIf _

theorem bare_executeIo (op : IoOp) : m.bare.executeIo op = (m.executeIo op).bare := by
  cases op with
  | inp =>
    rw [BareMachine.executeIo, bare_put, executeIo, ← bare_merged]
    rfl
  | out =>
    rw [BareMachine.executeIo, bare_put, executeIo, lowByte, ← BitVec.ofNat_toNat]
    rfl
  | ski | sko => exact m.bare_skipIf _
  | ion | iof => rfl

/-! ## The timing states -/

theorem bare_memoryOp? : m.bare.memoryOp? = memoryOp? m.registers := find?_memoryOp m.registers.ir

theorem bare_executeT5 : m.bare.executeT5 = m.executeT5.bare := by
  have hsum : BitVec.ofNat 16 (m.registers.ac.toNat + m.registers.dr.toNat) =
      m.registers.ac + m.registers.dr := by
    rw [BitVec.ofNat_add, ofNat_toNat_self, ofNat_toNat_self]
  have hboth : BitVec.ofNat 16 (m.registers.ac.toNat &&& m.registers.dr.toNat) =
      m.registers.ac &&& m.registers.dr := by
    rw [← BitVec.toNat_and, ofNat_toNat_self]
  rw [BareMachine.executeT5, executeT5, bare_memoryOp?]
  cases memoryOp? m.registers with
  | none => exact m.bare_put .sc 0
  | some op =>
    cases op with
    | sta | bun => exact m.bare_put .sc 0
    | and =>
      simp only [bare_registers, bare_put, setRegister, Registers.get, Registers.set, hboth]
      rfl
    | add =>
      simp only [bare_registers, bare_put, setRegister, Registers.get, Registers.set, hsum]
      exact bare_put
        { m with
          registers.ac := m.registers.ac + m.registers.dr
          flags.e := m.registers.ac.uaddOverflow m.registers.dr } .sc 0
    | lda | bsa =>
      simp only [bare_registers, bare_put, setRegister, Registers.get, Registers.set,
        ofNat_toNat_self]
      rfl
    | isz =>
      simp only [bare_registers, bare_put, setRegister, Registers.get, Registers.set,
        ofNat_toNat_add_one]
      rfl

theorem bare_tally (t : TimingState) : m.bare.tally t = (m.tally t).bare := by
  simp only [BareMachine.tally, bare_sc_eq_zero]
  rfl

section Memory

variable {place : Nat → Nat} (hplace : ∀ n < memorySize, place n = n)
include hplace

theorem bare_fetch (a : Address) :
    m.bare.fetch (place a.toNat) = some (m.memory.read a).toNat := by
  have hlt : a.toNat < memorySize := a.isLt
  rw [hplace _ hlt, BareMachine.fetch, bare, List.getElem?_map, Vector.getElem?_toList,
    Vector.getElem?_eq_getElem hlt]
  rfl

theorem bare_store (a : Address) (w : Word) :
    m.bare.store (place a.toNat) w.toNat =
      some { m with memory := m.memory.write a w }.bare := by
  have hlt : a.toNat < memorySize := a.isLt
  rw [hplace _ hlt, BareMachine.store, bare_length_words, if_pos hlt]
  simp [bare, Memory.write, Vector.toList_set, List.map_set]

theorem bare_executeT3 : m.bare.executeT3 place = some m.executeT3.bare := by
  have hfetch := m.bare_fetch hplace m.registers.ar
  have hir : m.bare.registers .ir = m.registers.ir.toNat := rfl
  have har : m.bare.registers .ar = m.registers.ar.toNat := rfl
  rw [BareMachine.executeT3, executeT3, bare_memoryOp?, memoryOp?, decode, hir, har, hfetch,
    toNat_and_bne_eq_msb, find?_registerOp, find?_ioOp]
  cases MemoryOp.ofOpcode? (Fields.ofWord m.registers.ir).opcode with
  | some op =>
    have hindirect : (Fields.ofWord m.registers.ir).indirect = m.registers.ir.msb := rfl
    dsimp only
    rw [hindirect]
    cases m.registers.ir.msb with
    | false => exact congrArg some (m.bare_put .sc 4)
    | true =>
      simp only [if_true, Option.bind_eq_bind, Option.bind_some, Option.pure_def, bare_put,
        setRegister, Registers.set, BitVec.ofNat_toNat]
      rfl
  | none =>
    cases RegisterOp.ofCode? m.registers.ir with
    | some op =>
      dsimp only
      rw [bare_executeRegister, bare_put]
      rfl
    | none =>
      cases IoOp.ofCode? m.registers.ir with
      | some op =>
        dsimp only
        rw [bare_executeIo, bare_put]
        rfl
      | none => exact congrArg some (m.bare_put .sc 0)

theorem bare_executeT4 : m.bare.executeT4 place = some m.executeT4.bare := by
  have hfetch := m.bare_fetch hplace m.registers.ar
  have hstore := m.bare_store hplace m.registers.ar
  have har : m.bare.registers .ar = m.registers.ar.toNat := rfl
  rw [BareMachine.executeT4, executeT4, bare_memoryOp?, har]
  cases memoryOp? m.registers with
  | none => exact congrArg some (m.bare_put .sc 0)
  | some op =>
    cases op with
    | and | add | lda | isz =>
      simp only [hfetch, Option.bind_eq_bind, Option.bind_some, Option.pure_def, bare_put,
        setRegister, Registers.set, ofNat_toNat_self]
      rfl
    | sta =>
      have hac : m.bare.registers .ac = m.registers.ac.toNat := rfl
      simp only [hac, hstore, Option.bind_eq_bind, Option.bind_some, Option.pure_def, bare_put]
      rfl
    | bun =>
      simp only [bare_put, setRegister, Registers.set, ofNat_toNat_self]
      rfl
    | bsa =>
      have hpc : m.bare.registers .pc = (m.registers.pc.setWidth 16).toNat :=
        (BitVec.toNat_setWidth_of_le (by decide)).symm
      simp only [hpc, hstore, Option.bind_eq_bind, Option.bind_some, Option.pure_def,
        bare_registers, Registers.get, bare_put, setRegister, Registers.set, ofNat_toNat_add_one]
      rfl

theorem bare_executeT6 : m.bare.executeT6 place = some m.executeT6.bare := by
  have hstore := m.bare_store hplace m.registers.ar m.registers.dr
  have har : m.bare.registers .ar = m.registers.ar.toNat := rfl
  have hdr : m.bare.registers .dr = m.registers.dr.toNat := rfl
  rw [BareMachine.executeT6, har, hdr, hstore]
  simp only [Option.bind_eq_bind, Option.bind_some, Option.pure_def, bare_skipIf, bare_put]
  rw [executeT6, ← toNat_beq_toNat]
  rfl

/-- A timing state does the same on bare numbers. -/
theorem bare_execute (t : TimingState) : m.bare.execute place t = some (m.execute t).bare := by
  cases t with
  | t0 =>
    simp only [BareMachine.execute, bare_registers, Registers.get, bare_put, setRegister,
      Registers.set, ofNat_toNat_self]
    rfl
  | t1 =>
    have hfetch := m.bare_fetch hplace m.registers.ar
    simp only [BareMachine.execute, bare_registers, Registers.get, hfetch, Option.bind_eq_bind,
      Option.bind_some, Option.pure_def, bare_put, setRegister, Registers.set, ofNat_toNat_self,
      bare_advancePc]
    rfl
  | t2 =>
    simp only [BareMachine.execute, bare_registers, Registers.get, bare_put, setRegister,
      Registers.set, ofNat_lowAddress]
    rfl
  | t3 => exact m.bare_executeT3 hplace
  | t4 => exact m.bare_executeT4 hplace
  | t5 => exact congrArg some m.bare_executeT5
  | t6 => exact m.bare_executeT6 hplace

/-- **Micro-steps on bare numbers.** A micro-step of the bare machine never stops, and leaves the
machine that a micro-step of the machine leaves. -/
theorem bare_step : m.bare.step place = some m.step.bare := by
  have hflags : m.bare.flags = m.flags := rfl
  have hstate : TimingState.all[m.service.bare.registers .sc]? =
      TimingState.ofCount? m.service.registers.sc := rfl
  rw [BareMachine.step, step, hflags]
  cases m.flags.s with
  | false => rfl
  | true =>
    dsimp only [if_true]
    rw [bare_service, hstate]
    cases TimingState.ofCount? m.service.registers.sc with
    | none => exact congrArg some (m.service.bare_put .sc 0)
    | some t =>
      dsimp only
      rw [bare_execute _ hplace, Option.bind_eq_bind, Option.bind_some, bare_tally]
      rfl

end Memory

end Machine

end BasicComputer
