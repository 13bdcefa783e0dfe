import BasicComputer.Proofs.WrittenLines
import Mathlib.Data.BitVec
import Mathlib.Tactic.Ring

/-!
# Multiplication by repeated addition

The computer has no instruction to multiply. A program that adds one factor to a sum, in a loop that
counts the negated other factor up to zero, gives the product of any two words: a round changes the
sum and the counter, but not the sum less the product of counter and factor. As the counter wraps
around, there are up to 65536 rounds, and a counter that starts with zero makes all of them.

The program is proved as it is written: from its text through assembly and loading to the halt, with
the number of its micro-steps.

Memory is written as a fixed part, with the operations and one factor, and two words that change.
Every instruction of the loop is looked up in the fixed part, so it is the same in all rounds. What
a round does is then a fact about two words.

The invariant holds for every counter, zero included. That zero makes the most rounds, and not none,
is a matter of the rule for loops and not of the program.
-/

namespace BasicComputer

namespace Multiplication

/-! ## The program -/

/-- The text of the program that adds `x` to a sum and counts `c` up to zero. -/
def text (x c : Word) : String :=
  "\n".intercalate ["ORG 100", "LOOP, LDA SUM", "ADD X", "STA SUM", "ISZ CNT", "BUN LOOP", "HLT",
    "X, DEC " ++ toString x.toInt, "CNT, DEC " ++ toString c.toInt, "SUM, DEC 0", "END"]

def lines (x c : Word) : List Written :=
  [⟨none, .origin "100"⟩, ⟨some "LOOP", .reference .lda "SUM"⟩, ⟨none, .reference .add "X"⟩,
    ⟨none, .reference .sta "SUM"⟩, ⟨none, .reference .isz "CNT"⟩, ⟨none, .reference .bun "LOOP"⟩,
    ⟨none, .item (.register .hlt)⟩, ⟨some "X", .item (.datum .decimal x)⟩,
    ⟨some "CNT", .item (.datum .decimal c)⟩, ⟨some "SUM", .item (.datum .decimal 0)⟩,
    ⟨none, .finish⟩]

theorem source_lines (x c : Word) : Written.source (lines x c) = text x c := by
  simp only [Written.source, lines, List.map_cons, List.map_nil, Written.text]
  rfl

theorem isProgram_lines (x c : Word) : Written.IsProgram (lines x c) where
  proper := of_decide_eq_true rfl
  first := by
    rintro w ⟨rfl⟩
    exact nofun
  ends := by rfl
  places := by rfl
  names := by rfl

/-- The part of memory that stays as it is: the operations and the factor. -/
def code (x : Word) : List (Nat × Word) :=
  [(0x100, encode (.memory .lda 0x108 false)), (0x101, encode (.memory .add 0x106 false)),
    (0x102, encode (.memory .sta 0x108 false)), (0x103, encode (.memory .isz 0x107 false)),
    (0x104, encode (.memory .bun 0x100 false)), (0x105, encode (.register .hlt)), (0x106, x)]

/-- Memory with a counter and a sum. -/
def memory (x counter sum : Word) : Address → Word :=
  Function.update (Function.update (imageOf (code x)) 0x107 counter) 0x108 sum

theorem imageOf_lines (x c : Word) :
    imageOf (Program.ofEmissions (effectsOf (Written.lines (lines x c)))).words = memory x c 0 := by
  have hwords : (Program.ofEmissions (effectsOf (Written.lines (lines x c)))).words =
      code (Radix.decimal.word (String.ofList (Radix.decimal.digits x)).toList) ++
        [(0x107, Radix.decimal.word (String.ofList (Radix.decimal.digits c)).toList)] ++
        [(0x108, Radix.decimal.word (String.ofList (Radix.decimal.digits 0)).toList)] := rfl
  rw [hwords, Radix.word_toList_digits, Radix.word_toList_digits, Radix.word_toList_digits, memory,
    ← imageOf_concat, ← imageOf_concat]
  rfl

/-- The processor in the program. -/
def processor (x counter sum ac : Word) (e : Bool) (pc : Address) : Processor :=
  { Processor.start pc (memory x counter sum) with ac := ac, e := e }

theorem loads_lines (x c : Word) {σ : Type} [Sink σ] (s : Simulator σ) :
    ∃ p s', (assemble (text x c)).outcome = .ok p ∧ s.load p = (.ok (), s') ∧
      s'.machine.Ready (processor x c 0 0 false 0x100) := by
  have hentry : (Program.ofEmissions (effectsOf (Written.lines (lines x c)))).entryPoint =
      some 0x100 := rfl
  obtain ⟨p, s', hassemble, hload, hready⟩ := (isProgram_lines x c).loaded hentry s
  rw [source_lines] at hassemble
  rw [imageOf_lines] at hready
  exact ⟨p, s', hassemble, hload, hready⟩

/-! ## A round -/

open Processor

section Round

variable (x counter sum ac : Word) (e : Bool)

theorem store_sum (pc : Address) (w : Word) :
    (processor x counter sum ac e pc).store 0x108 w = processor x counter w ac e pc := by
  have hmemory : Function.update (memory x counter sum) 0x108 w = memory x counter w :=
    Function.update_idem ..
  exact congrArg (fun m ↦ { processor x counter sum ac e pc with memory := m }) hmemory

theorem store_counter (pc : Address) (w : Word) :
    (processor x counter sum ac e pc).store 0x107 w = processor x w sum ac e pc := by
  have hmemory : Function.update (memory x counter sum) 0x107 w = memory x w sum := by
    rw [memory, Function.update_comm (by decide), Function.update_idem]
    rfl
  exact congrArg (fun m ↦ { processor x counter sum ac e pc with memory := m }) hmemory

theorem runs_lda : Runs 6 (processor x counter sum ac e 0x100)
    (processor x counter sum sum e 0x101) :=
  .of_memory rfl .lda 0x108 rfl rfl

theorem runs_add : Runs 6 (processor x counter sum ac e 0x101)
    (processor x counter sum (ac + x) (decide (65536 ≤ ac.toNat + x.toNat)) 0x102) :=
  .of_memory rfl .add 0x106 rfl rfl

theorem runs_sta : Runs 5 (processor x counter sum ac e 0x102)
    (processor x counter ac ac e 0x103) :=
  .of_memory rfl .sta 0x108 rfl (store_sum x counter sum ac e 0x103 ac)

theorem runs_isz : Runs 7 (processor x counter sum ac e 0x103)
    ((processor x (counter + 1) sum ac e 0x104).skipIf (counter + 1 == 0)) :=
  .of_memory rfl .isz 0x107 rfl
    (congrArg (skipIf _) (store_counter x counter sum ac e 0x104 (counter + 1)))

theorem runs_bun : Runs 5 (processor x counter sum ac e 0x104)
    (processor x counter sum ac e 0x100) :=
  .of_memory rfl .bun 0x100 rfl rfl

theorem runs_hlt : Runs 4 (processor x counter sum ac e 0x105)
    { processor x counter sum ac e 0x106 with s := false } :=
  .of_register rfl .hlt rfl rfl

/-- A round up to where it is decided whether there is another: `x` is added to the sum and one to
the counter. -/
theorem runs_round : ∃ e', Runs 24 (processor x counter sum ac e 0x100)
    ((processor x (counter + 1) (sum + x) (sum + x) e' 0x104).skipIf (counter + 1 == 0)) := by
  have hadd := (runs_lda x counter sum ac e).trans (runs_add x counter sum sum e)
  have hcount (e' : Bool) := (runs_sta x counter sum (sum + x) e').trans
    (runs_isz x counter (sum + x) (sum + x) e')
  exact ⟨_, hadd.trans (hcount _)⟩

end Round

/-! ## All rounds -/

/-- What is the same whenever a round begins: the sum, less the product of counter and `x`. -/
def Invariant (x difference counter : Word) (p : Processor) : Prop :=
  ∃ sum ac e, p = processor x counter sum ac e 0x100 ∧ sum - counter * x = difference

/-- The program has halted, with the counter at zero and with `result` in the sum. -/
def Finished (x result : Word) (p : Processor) : Prop :=
  ∃ e, p = { processor x 0 result result e 0x106 with s := false }

variable {x difference counter : Word} {p : Processor}

theorem next_round (hlt : counter.toNat < 65535) (h : Invariant x difference counter p) :
    ∃ q, Runs 29 p q ∧ Invariant x difference (counter + 1) q := by
  obtain ⟨sum, ac, e, rfl, hsum⟩ := h
  obtain ⟨e', hround⟩ := runs_round x counter sum ac e
  rw [beq_eq_false_iff_ne.mpr (toNat_succ_of_lt hlt).2] at hround
  refine ⟨_, hround.trans (runs_bun ..), sum + x, sum + x, e', rfl, ?_⟩
  rw [← hsum]
  ring

theorem last_round (h : Invariant x difference 65535 p) :
    ∃ q, Runs 28 p q ∧ Finished x difference q := by
  obtain ⟨sum, ac, e, rfl, hsum⟩ := h
  obtain ⟨e', hround⟩ := runs_round x 65535 sum ac e
  have hlast : sum + x = difference := by
    have hminus : (65535 : Word) = -1 := rfl
    rw [← hsum, hminus]
    ring
  rw [hlast] at hround
  exact ⟨_, hround.trans (runs_hlt ..), e', rfl⟩

/-- From its start, the program comes to a halt with the product of the negated counter and `x`. -/
theorem runs_all (x c : Word) :
    ∃ q, Runs (29 * (65535 - c.toNat) + 28) (processor x c 0 0 false 0x100) q ∧
      Finished x (-c * x) q := by
  have hstart : Invariant x (-c * x) c (processor x c 0 0 false 0x100) :=
    ⟨0, 0, false, rfl, by ring⟩
  exact Runs.of_rounds (fun _ _ ↦ next_round) (fun _ ↦ last_round) hstart

end Multiplication

open Multiplication in
/-- **Multiplication by repeated addition is correct for all operands.** For every `x` and every `c`
the text is assembled and loaded, and without input the program halts with the product of `-c` and
`x`, modulo the number of words, in the accumulator and in the word at `108`, and with zero in the
counter. A round takes 29 micro-steps and the last one 28, and the rounds are as many as there are
from `c` up to zero. -/
theorem multiplication_halts (x c : Word) {σ : Type} [Sink σ] (s : Simulator σ) :
    ∃ p s₁ s₂, (assemble (text x c)).outcome = .ok p ∧ s.load p = (.ok (), s₁) ∧
      s₁.machine.input = [] ∧
      Machine.LoopsFor (·.flags.s) (29 * (65536 - c.toNat) - 1) s₁.machine ∧
      s₁.run = some (.ok (29 * (65536 - c.toNat) - 1), s₂) ∧
      s₂ = Simulator.advance^[29 * (65536 - c.toNat) - 1] s₁ ∧ s₂.machine.isHalted ∧
      s₂.machine.registers.ac = .ofInt 16 (-c.toInt * x.toInt) ∧
      s₂.machine.memory.read 0x108 = .ofInt 16 (-c.toInt * x.toInt) ∧
      s₂.machine.memory.read 0x107 = 0 := by
  obtain ⟨p, s₁, hassemble, hload, hready⟩ := loads_lines x c s
  obtain ⟨q, hruns, e, rfl⟩ := runs_all x c
  have hlt := c.isLt
  have hsteps : 29 * (65535 - c.toNat) + 28 = 29 * (65536 - c.toNat) - 1 := by omega
  have hmax : 29 * (65536 - c.toNat) - 1 ≤ Machine.maxCycles := by
    have hlimit : 29 * 65536 ≤ Machine.maxCycles := by decide
    omega
  rw [hsteps] at hruns
  obtain ⟨hloops, hrun, hhalted, hend⟩ := Simulator.run_of_runs hready hruns rfl hmax
  have hproduct : BitVec.ofInt 16 (-c.toInt * x.toInt) = -c * x := by
    rw [BitVec.ofInt_mul, BitVec.ofInt_neg, BitVec.ofInt_toInt, BitVec.ofInt_toInt]
  have hread (a : Address) := congrFun (congrArg Processor.memory hend) a
  rw [hproduct]
  exact ⟨p, s₁, _, hassemble, hload, congrArg Processor.input hready.processor, hloops, hrun, rfl,
    hhalted, congrArg Processor.ac hend, hread 0x108, hread 0x107⟩

end BasicComputer
