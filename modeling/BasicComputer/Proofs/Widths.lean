import BasicComputer.Proofs.BareMachine
import BasicComputer.Proofs.LastWrite
import BasicComputer.Proofs.Termination
import Mathlib.Data.PFun

/-!
# The widths of registers

A register holds no number that is too wide for it, whatever has been asked of the simulator, and so
no address has to be cut down before it is a place of memory. For bit vectors there would be nothing
to say. So the whole simulator is written down once more for the bare machine: loading and clearing,
the loops around the micro-step, the changes by hand. A session of requests is then a session of the
bare machine, and what it leaves behind is within all widths. It is left behind whether addresses
are taken modulo the size of memory or as they are, and as they are, a single address too large
would have stopped the machine.

The induction is over the requests of a session, and for the loops over their rounds. What it
carries is that the bare machine is the machine of the simulator with its registers and words as
numbers. A run without end leaves nothing behind, but each part of it is a session of micro-steps.

## Loops without a bound

On bare numbers nothing is known of how many rounds a loop makes. A loop is therefore a partial
value there, and has one if some number of rounds ends it. To give the value is to give the number,
and the number is the one that the loop of the machine has. Where that loop has no end, the bare one
has no value, and a session with such a run says nothing on either side.
-/

namespace BasicComputer

namespace BareMachine

/-! ## The simulator on bare numbers -/

section

variable (place : Nat → Nat)

def microStep (b : BareMachine) : Part BareMachine := .ofOption (b.step place)

/-- Micro-steps as long as a condition holds. -/
def runWhile (goesOn : BareMachine → Prop) [DecidablePred goesOn] : BareMachine →. BareMachine :=
  PFun.fix fun b ↦
    if goesOn b then (b.microStep place).map .inr else .some (.inl b)

def InInstruction (b : BareMachine) : Prop := b.flags.s ∧ b.registers .sc ≠ 0

instance : DecidablePred InInstruction := fun _ ↦ inferInstanceAs (Decidable (_ ∧ _))

/-- One instruction, or the rest of one already begun. -/
def macroStep (b : BareMachine) : Part BareMachine := do
  let b ← if b.registers .sc = 0 then b.microStep place else .some b
  runWhile place InInstruction b

end

/-- The machine at power-on. -/
def start : BareMachine where
  registers _ := 0
  flags := .start
  words := .replicate memorySize 0
  sources := .replicate memorySize none
  input := []
  output := #[]
  cycles := 0
  instructions := 0
  program := none

/-- Bring the machine to power-on. Memory keeps its places. -/
def reset (b : BareMachine) : BareMachine :=
  { start with words := b.words.map fun _ ↦ 0, sources := b.sources.map fun _ ↦ none }

/-- Put an instruction in its place, if there is such a place. -/
def placeInstruction (b : BareMachine) (i : Instruction) : Option BareMachine := do
  let b ← b.store i.origin i.word.toNat
  if i.origin < b.sources.length then
    some { b with sources := b.sources.set i.origin (some i) }
  else none

/-- Put a datum in its place, if there is such a place. -/
def placeDatum (b : BareMachine) (d : Datum) : Option BareMachine := b.store d.origin d.word.toNat

/-- Load a program, unless it has no instruction or does not fit. -/
def load (b : BareMachine) (p : Program) : Option BareMachine :=
  match p.entryPoint, Memory.check p with
  | some entry, .ok () => do
    let b ← p.instructions.foldlM placeInstruction b.reset
    let b ← p.data.foldlM placeDatum b
    return { b with program := some p }.put .pc entry
  | _, _ => some b

/-- Do something with a loaded machine, and nothing with one that is not. -/
def ifLoaded (b : BareMachine) (act : BareMachine →. BareMachine) : Part BareMachine :=
  if b.program.isSome then act b else .some b

/-- The machine after a request. There is none if the machine has stopped at an address without a
place, or after a run without end. -/
def serve (place : Nat → Nat) (b : BareMachine) : Request → Part BareMachine
  | .microStep => b.ifLoaded (microStep place)
  | .macroStep => b.ifLoaded (macroStep place)
  | .run => b.ifLoaded (runWhile place (·.flags.s))
  | .runLimited max =>
    let limit := b.cycles + max
    b.ifLoaded (runWhile place fun b ↦ b.flags.s ∧ b.cycles < limit)
  | .setInput bytes => .some { b with input := bytes }
  | .pushInput byte => .some { b with input := b.input ++ [byte] }
  | .clearInput => .some { b with input := [] }
  | .load p => .ofOption (b.load p)
  | .reset => .some b.reset
  | .setRegister name n => .some (b.put name n)
  | .setFlag name value => .some { b with flags := b.flags.set name value }

/-- The machine after a session. -/
def serveAll (place : Nat → Nat) (b : BareMachine) (rs : List Request) : Part BareMachine :=
  rs.foldlM (serve place) b

/-! ## Loops -/

section

variable {place : Nat → Nat} {goesOn : BareMachine → Prop} [DecidablePred goesOn]
  {b c : BareMachine}

theorem runWhile_of_not (h : ¬goesOn b) : runWhile place goesOn b = .some b := by
  refine Part.eq_some_iff.mpr (PFun.fix_stop ?_)
  rw [if_neg h]
  exact Part.mem_some _

theorem runWhile_of_step (h : goesOn b) (hstep : b.step place = some c) :
    runWhile place goesOn b = runWhile place goesOn c := by
  refine PFun.fix_fwd_eq ?_
  rw [if_pos h, microStep, hstep]
  exact Part.mem_map _ (Part.mem_some c)

end

/-! ## Widths -/

/-- No register and no word of memory holds a number that is too wide for it, and memory has all of
its words. -/
structure Fits (b : BareMachine) : Prop where
  registers : ∀ name, b.registers name < 2 ^ name.width
  length_words : b.words.length = memorySize
  words : ∀ n ∈ b.words, n < 2 ^ 16

end BareMachine

namespace Machine

variable (m : Machine)

theorem bare_fits : m.bare.Fits where
  registers name := by
    cases name <;> exact BitVec.isLt _
  length_words := m.bare_length_words
  words n hn := by
    obtain ⟨w, -, rfl⟩ := List.mem_map.mp hn
    exact w.isLt

/-! ## Loading -/

theorem bare_initial : initial.bare = BareMachine.start := by
  have hregisters : Registers.zero.get = fun _ ↦ 0 := by
    funext name
    cases name <;> rfl
  rw [bare, BareMachine.start, ← hregisters]
  simp [initial, Memory.empty, Vector.toList_replicate]

theorem bare_reset : m.bare.reset = initial.bare := by
  rw [bare_initial, BareMachine.reset, List.map_const', List.map_const', bare_length_words,
    bare_length_sources]
  rfl

/-- Entries that all go to addresses are put in their places one after the other. -/
theorem bare_foldlM {α : Type} {origin : α → Nat}
    {act : BareMachine → α → Option BareMachine} {put : Memory → α → Memory}
    (hact : ∀ (m : Machine) a, origin a < memorySize →
      act m.bare a = some { m with memory := put m.memory a }.bare)
    {xs : List α} (hxs : ∀ x ∈ xs, origin x < memorySize) :
    xs.foldlM act m.bare = some { m with memory := xs.foldl put m.memory }.bare := by
  induction xs generalizing m with
  | nil => rfl
  | cons x xs ih =>
    obtain ⟨hx, hrest⟩ := List.forall_mem_cons.mp hxs
    rw [List.foldlM_cons, hact m x hx, List.foldl_cons]
    exact ih _ hrest

theorem bare_placeDatum {d : Datum} (h : d.origin < memorySize) :
    m.bare.placeDatum d = some { m with memory := m.memory.placeDatum d }.bare := by
  rw [BareMachine.placeDatum, BareMachine.store, bare_length_words, if_pos h]
  simp [bare, Memory.placeDatum, List.map_set]

theorem bare_placeInstruction {i : Instruction} (h : i.origin < memorySize) :
    m.bare.placeInstruction i = some { m with memory := m.memory.placeInstruction i }.bare := by
  rw [BareMachine.placeInstruction, BareMachine.store, bare_length_words, if_pos h]
  simp [bare, Memory.placeInstruction, h, List.map_set]

/-- Loading does the same on bare numbers. No word of a program that fits is put where there is no
place. -/
theorem bare_load (p : Program) : m.bare.load p = some ((boot p).toOption.getD m).bare := by
  rw [BareMachine.load, boot]
  cases p.entryPoint with
  | none => rfl
  | some entry =>
    cases hcheck : Memory.check p with
    | error e =>
      rw [Memory.load_eq_error_iff.mpr hcheck]
      rfl
    | ok _ =>
      have hwords := Memory.check_eq_ok_iff.mp hcheck
      rw [Program.words, List.forall_mem_append, List.forall_mem_map, List.forall_mem_map] at hwords
      obtain ⟨hinstructions, hdata⟩ := hwords
      dsimp only
      rw [bare_reset, bare_foldlM _ (fun m _ ↦ m.bare_placeInstruction) hinstructions,
        Option.bind_eq_bind, Option.bind_some, bare_foldlM _ (fun m _ ↦ m.bare_placeDatum) hdata,
        Memory.load, hcheck]
      exact congrArg some (bare_put
        { initial with
          memory := p.data.foldl Memory.placeDatum
            (p.instructions.foldl Memory.placeInstruction .empty)
          program := some p } .pc entry)

/-! ## Requests -/

section

variable {place : Nat → Nat} (hplace : ∀ n < memorySize, place n = n)
include hplace

/-- A loop around the micro-step is the same on bare numbers, however many rounds it has. -/
theorem bare_runWhile {goesOn : BareMachine → Prop} [DecidablePred goesOn] {n : Nat} {m : Machine}
    (h : LoopsFor (fun m ↦ goesOn m.bare) n m) :
    BareMachine.runWhile place goesOn m.bare = .some (step^[n] m).bare := by
  induction n generalizing m with
  | zero => exact BareMachine.runWhile_of_not (loopsFor_zero_iff.mp h)
  | succ n ih =>
    obtain ⟨hfirst, hrest⟩ := loopsFor_succ_iff.mp h
    rw [BareMachine.runWhile_of_step hfirst (m.bare_step hplace), Function.iterate_succ_apply]
    exact ih hrest

theorem bare_microStep (hl : m.isLoaded) :
    m.bare.microStep place = .some (m.after .microStep).bare := by
  have hsteps : m.stepsFor .microStep = 1 := if_pos hl
  rw [BareMachine.microStep, m.bare_step hplace, after, hsteps]
  rfl

theorem bare_finish :
    BareMachine.runWhile place BareMachine.InInstruction m.bare =
      .some (step^[m.stepsToFinish] m).bare := by
  have hgoesOn : InInstruction = fun m ↦ BareMachine.InInstruction m.bare := by
    funext m
    exact propext (and_congr_right fun _ ↦ not_congr m.bare_sc_eq_zero.symm)
  exact bare_runWhile hplace (hgoesOn ▸ m.loopsFor_stepsToFinish)

theorem bare_macroStep (hl : m.isLoaded) :
    m.bare.macroStep place = .some (m.after .macroStep).bare := by
  have hsteps : m.stepsFor .macroStep = if m.registers.sc = 0 then m.step.stepsToFinish + 1
    else m.stepsToFinish := if_pos hl
  rw [BareMachine.macroStep, after, hsteps]
  by_cases hsc : m.registers.sc = 0
  · rw [if_pos (m.bare_sc_eq_zero.mpr hsc), if_pos hsc, BareMachine.microStep, m.bare_step hplace]
    exact (Part.bind_some _ _).trans (m.step.bare_finish hplace)
  · rw [if_neg (mt m.bare_sc_eq_zero.mp hsc), if_neg hsc]
    exact (Part.bind_some _ _).trans (m.bare_finish hplace)

theorem bare_run (hl : m.isLoaded) (hend : (m.after .run).isHalted) :
    BareMachine.runWhile place (·.flags.s) m.bare = .some (m.after .run).bare := by
  have hsteps : m.stepsFor .run = m.stepsToLimit maxCycles := if_pos hl
  have hloop := m.loopsFor_stepsToLimit maxCycles
  rw [after, hsteps] at hend ⊢
  refine bare_runWhile hplace ⟨fun k hk ↦ (hloop.before k hk).1, ?_⟩
  intro hs
  exact not_isHalted_iff.mpr hs hend

theorem bare_runLimited (hl : m.isLoaded) (max : Nat) :
    BareMachine.runWhile place (fun b ↦ b.flags.s ∧ b.cycles < m.cycles + max) m.bare =
      .some (m.after (.runLimited max)).bare := by
  have hsteps : m.stepsFor (.runLimited max) = m.stepsToLimit (m.cycles + max) := if_pos hl
  rw [after, hsteps]
  exact bare_runWhile hplace (m.loopsFor_stepsToLimit (m.cycles + max))

omit hplace in
theorem bare_ifLoaded {act : BareMachine →. BareMachine} {r : Request} (hr : r.isStep)
    (h : m.isLoaded → act m.bare = .some (m.after r).bare) :
    m.bare.ifLoaded act = .some (m.after r).bare := by
  by_cases hl : m.isLoaded
  · exact (if_pos hl).trans (h hl)
  · rw [after_of_isStep hr, stepsFor_of_not_isLoaded hl]
    exact if_neg hl

/-- A request does the same on bare numbers, provided that a run has an end. -/
theorem bare_serve {r : Request}
    (hend : r = .run → m.isLoaded → (m.after .run).isHalted) :
    m.bare.serve place r = .some (m.after r).bare := by
  cases r with
  | microStep => exact m.bare_ifLoaded rfl (m.bare_microStep hplace)
  | macroStep => exact m.bare_ifLoaded rfl (m.bare_macroStep hplace)
  | run => exact m.bare_ifLoaded rfl fun hl ↦ m.bare_run hplace hl (hend rfl hl)
  | runLimited max => exact m.bare_ifLoaded rfl fun hl ↦ m.bare_runLimited hplace hl max
  | setInput _ | pushInput _ | clearInput | setFlag _ _ => rfl
  | load p => exact congrArg Part.ofOption (m.bare_load p)
  | reset => exact congrArg Part.some m.bare_reset
  | setRegister name n => exact congrArg Part.some (m.bare_put name n)

end

end Machine

namespace Simulator

variable {σ : Type} [Sink σ] {s s' : Simulator σ} {place : Nat → Nat}

theorem bare_of_serve (hplace : ∀ n < memorySize, place n = n) {r : Request}
    (hs : s.serve r = some s') : s.machine.bare.serve place r = .some s'.machine.bare := by
  have hafter := machine_of_serve hs
  rw [hafter]
  refine s.machine.bare_serve hplace ?_
  rintro rfl hl
  rw [serve_run_of_isLoaded hl] at hs
  rw [← hafter]
  split at hs
  · next hhalted =>
    cases hs
    exact hhalted
  · cases hs

/-- **Sessions on bare numbers.** A session leaves behind what it leaves behind on bare numbers,
however addresses are turned into places. -/
theorem bare_of_serveAll (hplace : ∀ n < memorySize, place n = n) {rs : List Request}
    (hs : s.serveAll rs = some s') :
    s.machine.bare.serveAll place rs = .some s'.machine.bare := by
  induction rs generalizing s with
  | nil =>
    cases hs
    rfl
  | cons r rs ih =>
    rw [serveAll_cons] at hs
    obtain ⟨t, ht, hrest⟩ := Option.bind_eq_some_iff.mp hs
    rw [BareMachine.serveAll, List.foldlM_cons, bare_of_serve hplace ht]
    exact (Part.bind_some _ _).trans (ih hrest)

/-- **Widths are kept.** On numbers that nothing but `BareMachine.put` bounds, a session from
power-on leaves behind the machine that the simulator has, within all widths; and it makes no
difference to any of its accesses to memory whether the address is taken modulo the size of memory
or as it is. -/
theorem widths_kept {sink : σ} {rs : List Request} (hs : (withSink sink).serveAll rs = some s) :
    BareMachine.start.serveAll (· % memorySize) rs = .some s.machine.bare ∧
    BareMachine.start.serveAll id rs = .some s.machine.bare ∧ s.machine.bare.Fits := by
  have hstart : (withSink sink).machine.bare = BareMachine.start := Machine.bare_initial
  rw [← hstart]
  exact ⟨bare_of_serveAll (fun _ ↦ Nat.mod_eq_of_lt) hs, bare_of_serveAll (fun _ _ ↦ rfl) hs,
    s.machine.bare_fits⟩

/-- A program that starts at the last address. It adds a number by way of an address that is wider
than any, and then calls a subroutine at the last address. -/
def edgeProgram : Program :=
  ⟨[⟨0xFFF, 0x9001, "ADD 001 I", 1⟩, ⟨0x000, 0x5FFF, "BSA FFF", 2⟩, ⟨0x678, 0x7001, "HLT", 3⟩],
    [⟨0x001, 0xFFFE⟩, ⟨0xFFE, 0xFFFF⟩]⟩

/-- Numbers too wide for their registers, and a sequence counter without a timing state. -/
def edgeRequests : List Request :=
  [.load edgeProgram, .setRegister .ac 0xFFFFFFFF, .setFlag .fgi false, .setInput [0xFF],
    .macroStep, .runLimited 5, .setRegister .sc 0x1F, .microStep, .setRegister .outr 0xFFFFFF41,
    .setFlag .fgo false, .setRegister .pc 0x12345678, .microStep, .run]

/-- The sum, the program counter and the address register have all gone past their widths. -/
theorem widths_kept_edge :
    ∃ s : Simulator EventLog, (withSink EventLog.empty).serveAll edgeRequests = some s ∧
      s.machine.registers = ⟨0xFFFE, 0xFFFF, 0x7001, 0, 0x001, 0x679, 0xFF, 0x41, 0⟩ ∧
      BareMachine.start.serveAll (· % memorySize) edgeRequests = .some s.machine.bare ∧
      BareMachine.start.serveAll id edgeRequests = .some s.machine.bare ∧ s.machine.bare.Fits := by
  have hend : ((withSink EventLog.empty).serveAll edgeRequests).map (·.machine.registers) =
      some ⟨0xFFFE, 0xFFFF, 0x7001, 0, 0x001, 0x679, 0xFF, 0x41, 0⟩ := by
    decide +kernel
  obtain ⟨s, hs, hregisters⟩ := Option.map_eq_some_iff.mp hend
  obtain ⟨hmodulo, has, hfits⟩ := widths_kept hs
  exact ⟨s, hs, hregisters, hmodulo, has, hfits⟩

/-- With a number in the address register that has not been cut down, it does make a difference. -/
example :
    let b := { BareMachine.start with registers := Function.update (fun _ ↦ 1) .ar 0x1005 }
    (b.step (· % memorySize)).isSome ∧ (b.step id).isNone := by
  decide +kernel

end Simulator

end BasicComputer
