import BasicComputer.Proofs.TimedRuns
import Mathlib.Algebra.BigOperators.Group.List.Basic
import Mathlib.Algebra.Ring.Int.Defs

/-!
# Circulation

The carry flag and the accumulator are a circle of seventeen bits, which two operations turn by one
place, one to the left and one to the right. Turning a circle is addition of places modulo
seventeen. So whatever the two operations are mixed to, it matters only how many there are of each,
and the circle is back where it was when seventeen divides the difference.

Service could interfere, since a byte that is taken in goes to the accumulator. None is taken in as
long as none is asked for, and to turn the circle asks for none.

Both operations act on a flag and a word in step. Joined to a vector of seventeen bits, the two are
turned by one function, whose argument is an integer, and turns are added up. All that has to be
known of the operations is by how much each of them turns.

The instructions are not given by a program. They are whatever the memory holds at the places that
the program counter runs through, and they are asked to be turns one after the other. The induction
is on how many of them there are.
-/

namespace BasicComputer

/-! ## Turning -/

/-- Seventeen bits turned by `k` places to the left, which is to the right if `k` is negative. -/
def turn (k : Int) (x : BitVec 17) : BitVec 17 := x.rotateLeft (k % 17).toNat

theorem getLsbD_turn (k : Int) (x : BitVec 17) {i : Nat} (hi : i < 17) :
    (turn k x).getLsbD i = x.getLsbD ((i - k) % 17).toNat := by
  have hk : (k % 17).toNat % 17 = (k % 17).toNat := by omega
  rw [turn, BitVec.getLsbD_rotateLeft, hk]
  by_cases hlt : i < (k % 17).toNat
  · have hplace : 17 - (k % 17).toNat + i = ((i - k) % 17).toNat := by omega
    rw [decide_eq_true hlt, cond_true, hplace]
  · have hplace : i - (k % 17).toNat = ((i - k) % 17).toNat := by omega
    rw [decide_eq_false hlt, cond_false, decide_eq_true hi, Bool.true_and, hplace]

theorem turn_turn (j k : Int) (x : BitVec 17) : turn j (turn k x) = turn (j + k) x := by
  apply BitVec.eq_of_getLsbD_eq
  intro i hi
  have hplace : ((((i - j) % 17).toNat - k) % 17).toNat = ((i - (j + k)) % 17).toNat := by omega
  rw [getLsbD_turn j _ hi, getLsbD_turn k _ (by omega), getLsbD_turn _ _ hi, hplace]

theorem turn_of_dvd {k : Int} (h : 17 ∣ k) (x : BitVec 17) : turn k x = x := by
  apply BitVec.eq_of_getLsbD_eq
  intro i hi
  have hplace : ((i - k) % 17).toNat = i := by omega
  rw [getLsbD_turn k _ hi, hplace]

theorem turn_neg_one (x : BitVec 17) : turn (-1) x = x.rotateRight 1 := by
  apply BitVec.eq_of_getLsbD_eq
  intro i hi
  rw [getLsbD_turn _ _ hi, BitVec.getLsbD_rotateRight]
  by_cases hlt : i < 16
  · have hplace : ((i - -1 : Int) % 17).toNat = 1 + i := by omega
    rw [hplace, decide_eq_true (by omega), cond_true, Nat.one_mod]
  · obtain rfl : i = 16 := by omega
    rfl

/-! ## The circle -/

/-- The carry flag and the accumulator as one number, with the carry flag at the top. -/
def Machine.circle (m : Machine) : BitVec 17 :=
  .ofNat 17 (m.flags.e.toNat * 65536 + m.registers.ac.toNat)

/-- By how many places an operation turns the circle. -/
def Operation.turns : Operation → Int
  | register .cil => 1
  | register .cir => -1
  | _ => 0

namespace Processor

theorem toNat_circle (e : Bool) (ac : Word) :
    (circle e ac).toNat = e.toNat * 65536 + ac.toNat := by
  rw [circle, BitVec.toNat_append, BitVec.toNat_ofBool, ← Nat.shiftLeft_add_eq_or_of_lt ac.isLt,
    Nat.shiftLeft_eq]

/-- Taken from the circle, the carry flag and the accumulator make it up again. -/
theorem circle_setCircle (p : Processor) (x : BitVec 17) :
    circle (p.setCircle x).e (p.setCircle x).ac = x := by
  apply BitVec.eq_of_getLsbD_eq
  intro i hi
  rw [getLsbD_circle, setCircle, BitVec.getLsbD_setWidth, BitVec.msb_eq_getLsbD_last]
  by_cases h : i < 16
  · rw [if_pos h, decide_eq_true h, Bool.true_and]
  · obtain rfl : i = 16 := by omega
    rfl

variable {p : Processor}

theorem step_of_circulates (hi : p.fgi)
    (h : p.upcoming = .register .cir ∨ p.upcoming = .register .cil) :
    p.step.s = p.s ∧ p.step.fgi ∧
    circle p.step.e p.step.ac = turn p.upcoming.turns (circle p.e p.ac) := by
  rcases h with h | h
  · have hstep : p.step = p.fetch.setCircle ((circle p.fetch.e p.fetch.ac).rotateRight 1) :=
      step_of_register h
    rw [hstep, circle_setCircle, h, Operation.turns, turn_neg_one, fetch_of_fgi hi]
    exact ⟨rfl, hi, rfl⟩
  · have hstep : p.step = p.fetch.setCircle ((circle p.fetch.e p.fetch.ac).rotateLeft 1) :=
      step_of_register h
    rw [hstep, circle_setCircle, h, fetch_of_fgi hi]
    exact ⟨rfl, hi, rfl⟩

end Processor

theorem Machine.circle_eq (m : Machine) :
    m.circle = Processor.circle m.flags.e m.registers.ac := by
  rw [circle, ← Processor.toNat_circle, BitVec.ofNat_toNat, BitVec.setWidth_eq]

/-- Loaded, running and between two instructions, with no byte asked for. -/
structure Machine.AtRest (m : Machine) : Prop where
  isLoaded : m.isLoaded
  s : m.flags.s
  sc : m.registers.sc = 0
  fgi : m.flags.fgi

theorem Machine.circle_inj {m m' : Machine} (h : m.circle = m'.circle) :
    m.registers.ac = m'.registers.ac ∧ m.flags.e = m'.flags.e := by
  rw [circle_eq, circle_eq, ← BitVec.toNat_inj, Processor.toNat_circle,
    Processor.toNat_circle] at h
  have hlt := m.registers.ac.isLt
  have hlt' := m'.registers.ac.isLt
  have hac : m.registers.ac.toNat = m'.registers.ac.toNat := by omega
  have he : m.flags.e.toNat = m'.flags.e.toNat := by omega
  refine ⟨BitVec.eq_of_toNat_eq hac, ?_⟩
  revert he
  cases m.flags.e <;> cases m'.flags.e <;> decide

/-! ## Many instructions -/

/-- Turns to the left and to the right make up for each other. -/
theorem sum_turns {ops : List Operation}
    (h : ∀ op ∈ ops, op = .register .cir ∨ op = .register .cil) :
    (ops.map Operation.turns).sum =
      ops.count (.register .cil) - (ops.count (.register .cir) : Int) := by
  induction ops with
  | nil => rfl
  | cons op ops ih =>
    obtain ⟨hop, hrest⟩ := List.forall_mem_cons.mp h
    rw [List.map_cons, List.sum_cons, ih hrest, List.count_cons, List.count_cons]
    rcases hop with rfl | rfl
    · simp [Operation.turns]
      omega
    · simp [Operation.turns]
      omega

namespace Simulator

variable {σ : Type} [Sink σ] {s : Simulator σ} {n : Nat}

/-- The simulator after `n` instructions. -/
def afterInstructions (s : Simulator σ) (n : Nat) : Simulator σ := (fun s ↦ s.macroStep.2)^[n] s

/-- The operations that the next `n` instructions carry out. -/
def upcoming (s : Simulator σ) (n : Nat) : List Operation :=
  (List.range n).map fun k ↦ (s.afterInstructions k).machine.processor.upcoming

theorem afterInstructions_succ (s : Simulator σ) (n : Nat) :
    s.afterInstructions (n + 1) = (s.afterInstructions n).macroStep.2 :=
  Function.iterate_succ_apply' _ n s

theorem upcoming_succ (s : Simulator σ) (n : Nat) :
    s.upcoming (n + 1) = s.upcoming n ++ [(s.afterInstructions n).machine.processor.upcoming] := by
  rw [upcoming, List.range_succ, List.map_append]
  rfl

/-- An instruction that turns the circle does nothing else that matters to the next one. -/
theorem atRest_macroStep (h : s.machine.AtRest)
    (hop : s.machine.processor.upcoming = .register .cir ∨
      s.machine.processor.upcoming = .register .cil) :
    s.macroStep.2.machine.AtRest ∧ s.macroStep.2.machine.circle =
      turn s.machine.processor.upcoming.turns s.machine.circle := by
  obtain ⟨hl, hs, h0, hi⟩ := h
  have hmachine : s.macroStep.2.machine = s.machine.step.finish := by
    rw [macroStep_of_sc_eq hl h0, machine_finishInstruction, machine_advance]
  obtain ⟨hsc, hp⟩ := Machine.completes_step hs h0
  obtain ⟨hkeeps, hfgi, hcircle⟩ := Processor.step_of_circulates hi hop
  rw [← hp] at hkeeps hfgi hcircle
  rw [hmachine, Machine.circle_eq, Machine.circle_eq]
  refine ⟨⟨?_, hkeeps.trans hs, hsc, hfgi⟩, hcircle⟩
  rw [Machine.finish_eq_iterate, Machine.isLoaded_iterate_step, Machine.isLoaded_step]
  exact hl

theorem atRest_afterInstructions (h : s.machine.AtRest)
    (hall : ∀ op ∈ s.upcoming n, op = .register .cir ∨ op = .register .cil) :
    (s.afterInstructions n).machine.AtRest ∧ (s.afterInstructions n).machine.circle =
      turn ((s.upcoming n).map Operation.turns).sum s.machine.circle := by
  induction n with
  | zero => exact ⟨h, (turn_of_dvd (Int.dvd_zero 17) _).symm⟩
  | succ n ih =>
    rw [upcoming_succ] at hall ⊢
    obtain ⟨hbefore, hlast⟩ := List.forall_mem_append.mp hall
    obtain ⟨hrest, hcircle⟩ := ih hbefore
    obtain ⟨hnext, hturn⟩ := atRest_macroStep hrest (hlast _ (List.mem_singleton_self _))
    rw [afterInstructions_succ]
    refine ⟨hnext, ?_⟩
    rw [hturn, hcircle, turn_turn, List.map_append, List.sum_append, List.map_singleton,
      List.sum_singleton, Int.add_comm]

/-- **Circulation.** As long as instructions only turn the circle of the carry flag and the
accumulator, it is turned to the left by as many places as there are more turns to the left than to
the right, modulo seventeen. Equally many of both restore it, in whatever order, and so do
seventeen, or any multiple of seventeen, of one of them. -/
theorem circulation_rotates (hl : s.machine.isLoaded) (hs : s.machine.flags.s)
    (h0 : s.machine.registers.sc = 0) (hi : s.machine.flags.fgi)
    (h : ∀ op ∈ s.upcoming n, op = .register .cir ∨ op = .register .cil) :
    let m := (s.afterInstructions n).machine
    let lefts := (s.upcoming n).count (.register .cil)
    let rights := (s.upcoming n).count (.register .cir)
    m.circle = s.machine.circle.rotateLeft ((lefts - rights : Int) % 17).toNat ∧
    (lefts = rights →
      m.registers.ac = s.machine.registers.ac ∧ m.flags.e = s.machine.flags.e) ∧
    (17 ∣ n →
      (∀ op ∈ s.upcoming n, op = .register .cir) ∨ (∀ op ∈ s.upcoming n, op = .register .cil) →
      m.registers.ac = s.machine.registers.ac ∧ m.flags.e = s.machine.flags.e) := by
  intro m lefts rights
  have hcircle : m.circle = turn (lefts - rights) s.machine.circle := by
    rw [← sum_turns h]
    exact (atRest_afterInstructions ⟨hl, hs, h0, hi⟩ h).2
  have hlength : (s.upcoming n).length = n := by
    rw [upcoming, List.length_map, List.length_range]
  refine ⟨hcircle, ?_, ?_⟩
  · intro heq
    apply Machine.circle_inj
    rw [hcircle, heq, turn_of_dvd ⟨0, Int.sub_self _⟩]
  · intro hn hone
    apply Machine.circle_inj
    rw [hcircle, turn_of_dvd]
    rcases hone with hright | hleft
    · have hrights : rights = n :=
        (List.count_eq_length.mpr fun op hop ↦ (hright op hop).symm).trans hlength
      have hlefts : lefts = 0 := List.count_eq_zero.mpr fun hop ↦ by cases hright _ hop
      omega
    · have hlefts : lefts = n :=
        (List.count_eq_length.mpr fun op hop ↦ (hleft op hop).symm).trans hlength
      have hrights : rights = 0 := List.count_eq_zero.mpr fun hop ↦ by cases hleft _ hop
      omega

/-- Two turns to the left and one to the right, with the top bit of the accumulator set, the carry
flag clear and a byte pending at the output. -/
def mixedTurns : Simulator EventLog where
  machine := { Machine.initial with
    memory := ((Memory.empty.write 0 0x7040).write 1 0x7080).write 2 0x7040
    registers := { Registers.zero with ac := 0x8001 }
    flags := { Flags.start with fgo := false }
    input := [0x41]
    program := some ⟨[⟨0, 0x7040, "CIL", 1⟩, ⟨1, 0x7080, "CIR", 2⟩, ⟨2, 0x7040, "CIL", 3⟩], []⟩ }
  sink := .empty

theorem circulation_rotates_mixedTurns :
    mixedTurns.machine.isLoaded ∧ mixedTurns.machine.flags.s ∧
    mixedTurns.machine.registers.sc = 0 ∧ mixedTurns.machine.flags.fgi ∧
    mixedTurns.upcoming 3 = [.register .cil, .register .cir, .register .cil] ∧
    (∀ op ∈ mixedTurns.upcoming 3, op = .register .cir ∨ op = .register .cil) ∧
    (mixedTurns.afterInstructions 3).machine.circle = BitVec.rotateLeft 0x08001 1 := by
  have hops : mixedTurns.upcoming 3 = [.register .cil, .register .cir, .register .cil] := by
    decide +kernel
  have hturns : ∀ op ∈ mixedTurns.upcoming 3, op = .register .cir ∨ op = .register .cil := by
    rw [hops]
    decide
  have hcircle := (circulation_rotates rfl rfl rfl rfl hturns).1
  rw [hops] at hcircle
  exact ⟨rfl, rfl, rfl, rfl, hops, hturns, hcircle⟩

end Simulator

end BasicComputer
