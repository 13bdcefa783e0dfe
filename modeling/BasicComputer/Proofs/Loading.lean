import BasicComputer.Proofs.Image
import BasicComputer.Proofs.Session

/-!
# Loading

A program is loaded whole or not at all. Whether it can be is settled by the program alone: it needs
an instruction to start from, and every word of it needs an address to go to. A program that fails
one of these leaves the machine as it is. Any other replaces everything that the machine held, so
the machines that two simulators are left with are equal, and so is all that happens to them later.

The machine that is ready to run was described by what it is like, without a word on the machine it
takes the place of. Loading can also be told as what is done to that machine: look for what can be
wrong, then clear one component after the other, and write the words into what is left. Told in this
way there is a second point at which loading could fail, after everything has been cleared already.
It never does, since nothing is looked for there that has not been looked for before.

## Two ways to load

One describes the machine that is left. It cannot leave half a program behind, because it says
nothing of the way there. The other is a sequence of changes to the machine at hand, some of which
come before the last point of failure. Only of the second is it news that a refused program leaves
no trace, and so it is the second that the first is shown to be equal to.
-/

namespace BasicComputer

/-- What keeps a program from being loaded: that it has no instruction, or else the first of its
words, in the order they are loaded, that goes to no address. -/
def Program.fault? (p : Program) : Option Fault :=
  if p.instructions.isEmpty then some .emptyProgram
  else (p.words.find? (memorySize ≤ ·.1)).map fun w ↦ .memory (.addressOutOfRange w.1)

/-! ## Loading in place -/

/-- Set every word to zero and forget what was loaded. -/
def Memory.clear (m : Memory) : Memory := ⟨m.words.map fun _ ↦ 0, m.sources.map fun _ ↦ none⟩

theorem Memory.clear_eq (m : Memory) : m.clear = empty := by
  have hwords : (m.words.map fun _ ↦ (0 : Word)) = .replicate memorySize 0 := by
    ext i hi
    simp
  have hsources : (m.sources.map fun _ ↦ (none : Option Instruction)) =
      .replicate memorySize none := by
    ext i hi
    simp
  rw [clear, hwords, hsources, empty]

namespace Machine

/-- Bring every component of a machine back to what it is at power-on. -/
def clear (m : Machine) : Machine := ⟨.zero, .start, m.memory.clear, [], #[], 0, 0, none⟩

theorem clear_eq (m : Machine) : m.clear = initial := by
  rw [clear, m.memory.clear_eq, initial]

/-- Load a program into a machine step by step. -/
def loadInPlace (m : Machine) (p : Program) : Except Fault Unit × Machine :=
  match p.entryPoint with
  | none => (.error .emptyProgram, m)
  | some entry =>
    match Memory.check p with
    | .error e => (.error (.memory e), m)
    | .ok () =>
      -- what the machine held is lost from here on
      let m := m.clear
      match m.memory.load p with
      | .error e => (.error (.memory e), m)
      | .ok memory => (.ok (), { m with memory, program := some p }.setRegister .pc entry)

/-- Loading step by step gives the machine that is ready to run, or leaves the machine as it
was. -/
theorem loadInPlace_eq (m : Machine) (p : Program) :
    m.loadInPlace p =
      match boot p with
      | .error fault => (.error fault, m)
      | .ok machine => (.ok (), machine) := by
  have hmemory : initial.memory = .empty := rfl
  rw [loadInPlace, boot, m.clear_eq]
  cases p.entryPoint with
  | none => rfl
  | some entry =>
    dsimp only
    rw [hmemory]
    cases hload : Memory.empty.load p with
    | error e => rw [Memory.load_eq_error_iff.mp hload]
    | ok memory =>
      -- had the first look at the words found anything, the second would have done so as well
      cases hcheck : Memory.check p with
      | error e =>
        rw [Memory.load_eq_error_iff.mpr hcheck] at hload
        cases hload
      | ok _ => rfl

end Machine

/-! ## What can be wrong -/

namespace Machine

variable {p : Program} {fault : Fault}

theorem boot_of_fault? (h : p.fault? = some fault) : boot p = .error fault := by
  rw [Program.fault?] at h
  rw [boot, Program.entryPoint]
  cases hp : p.instructions with
  | nil =>
    rw [hp] at h
    exact congrArg Except.error (Option.some.inj h)
  | cons i is =>
    rw [hp, List.isEmpty_cons, if_neg Bool.false_ne_true] at h
    obtain ⟨w, hw, rfl⟩ := Option.map_eq_some_iff.mp h
    have hcheck : Memory.check p = .error (.addressOutOfRange w.1) := by
      rw [Memory.check, hw]
    rw [List.head?_cons, Option.map_some, Memory.load_eq_error_iff.mpr hcheck]

theorem exists_boot_of_fault? (h : p.fault? = none) : ∃ machine, boot p = .ok machine := by
  rw [Program.fault?] at h
  cases hp : p.instructions with
  | nil =>
    rw [hp] at h
    cases h
  | cons i is =>
    rw [hp, List.isEmpty_cons, if_neg Bool.false_ne_true, Option.map_eq_none_iff,
      Memory.find?_words_eq_none_iff] at h
    exact exists_boot_eq_ok (by rw [Program.entryPoint, hp]; rfl) h

end Machine

namespace Simulator

variable {σ : Type} [Sink σ] {p : Program} {fault : Fault}

theorem load_of_fault? (h : p.fault? = some fault) (s : Simulator σ) :
    (s.load p).1 = .error fault ∧ (s.load p).2.machine = s.machine := by
  rw [load, Machine.boot_of_fault? h]
  exact ⟨rfl, rfl⟩

/-- Where a program can be loaded, all simulators are left with the same machine. -/
theorem exists_load_of_fault? (h : p.fault? = none) :
    ∃ machine, ∀ (σ : Type) [Sink σ] (s : Simulator σ),
      (s.load p).1 = .ok () ∧ (s.load p).2.machine = machine := by
  obtain ⟨machine, hboot⟩ := Machine.exists_boot_of_fault? h
  refine ⟨machine, ?_⟩
  intro σ _ s
  rw [load, hboot]
  exact ⟨rfl, rfl⟩

/-- To load a program is to load it into the machine step by step. -/
theorem load_eq_loadInPlace (s : Simulator σ) (p : Program) :
    ((s.load p).1, (s.load p).2.machine) = s.machine.loadInPlace p := by
  rw [load, s.machine.loadInPlace_eq]
  cases Machine.boot p <;> rfl

/-! ## What happens later

What a session does to a simulator and what it reports is determined by the machine it starts from.
-/

theorem eq_of_serve_isStep {s s' : Simulator σ} {r : Request} (hr : r.isStep)
    (hs : s.serve r = some s') :
    s' = ⟨s.machine.after r, Sink.recordAll s.sink (s.machine.reports r)⟩ := by
  rw [← machine_of_serve hs, ← sink_of_serve hr hs]

/-- A run comes to an end or does not; that is up to the machine. -/
theorem serve_run_eq {s : Simulator σ} (hl : s.machine.isLoaded) :
    s.serve .run =
      if (s.machine.after .run).isHalted then
        some ⟨s.machine.after .run, Sink.recordAll s.sink (s.machine.reports .run)⟩
      else none := by
  have hend : advance^[s.machine.stepsFor .run] s =
      ⟨s.machine.after .run, Sink.recordAll s.sink (s.machine.reports .run)⟩ := by
    rw [Machine.reports, if_pos hl, Machine.course, ← sink_iterate_advance, Machine.after,
      ← machine_iterate_advance]
  rw [serve_run_of_isLoaded hl, hend]

theorem exists_serve_eq (m : Machine) (r : Request) :
    ∃ result : Option (Machine × List Entry), ∀ (σ : Type) [Sink σ] (sink : σ),
      serve ⟨m, sink⟩ r = result.map fun x ↦ ⟨x.1, Sink.recordAll sink x.2⟩ := by
  have hstep (hr : r.isStep) (h : ∀ (σ : Type) [Sink σ] (sink : σ), (serve ⟨m, sink⟩ r).isSome) :
      ∃ result : Option (Machine × List Entry), ∀ (σ : Type) [Sink σ] (sink : σ),
        serve ⟨m, sink⟩ r = result.map fun x ↦ ⟨x.1, Sink.recordAll sink x.2⟩ := by
    refine ⟨some (m.after r, m.reports r), fun σ _ sink ↦ ?_⟩
    obtain ⟨s', hs'⟩ := Option.isSome_iff_exists.mp (h σ sink)
    rw [hs', eq_of_serve_isStep hr hs', Option.map_some]
  cases r with
  | microStep | macroStep | runLimited _ => exact hstep rfl fun σ _ sink ↦ rfl
  | run =>
    by_cases hl : m.isLoaded
    · refine ⟨if (m.after .run).isHalted then some (m.after .run, m.reports .run) else none, ?_⟩
      intro σ _ sink
      rw [serve_run_eq hl, apply_ite (Option.map _)]
      rfl
    · refine hstep rfl fun σ _ sink ↦ ?_
      rw [serve_of_not_isLoaded rfl hl, Option.isSome_some]
  | load p =>
    simp only [serve, load]
    cases Machine.boot p with
    | error fault => exact ⟨some (m, _), fun σ _ sink ↦ rfl⟩
    | ok machine => exact ⟨some (machine, _), fun σ _ sink ↦ rfl⟩
  | reset => exact ⟨some (.initial, _), fun σ _ sink ↦ rfl⟩
  | setInput bytes => exact ⟨some (m.setInput bytes, []), fun σ _ sink ↦ rfl⟩
  | pushInput b => exact ⟨some (m.pushInput b, []), fun σ _ sink ↦ rfl⟩
  | clearInput => exact ⟨some (m.setInput [], []), fun σ _ sink ↦ rfl⟩
  | setRegister name n => exact ⟨some (m.setRegister name n, []), fun σ _ sink ↦ rfl⟩
  | setFlag name b => exact ⟨some (m.setFlag name b, []), fun σ _ sink ↦ rfl⟩

/-- The machine alone determines to which machine a session leads and what is reported on the
way. -/
theorem exists_serveAll_result (m : Machine) (rs : List Request) :
    ∃ result : Option (Machine × List Entry), ∀ (σ : Type) [Sink σ] (sink : σ),
      serveAll ⟨m, sink⟩ rs = result.map fun x ↦ ⟨x.1, Sink.recordAll sink x.2⟩ := by
  induction rs generalizing m with
  | nil => exact ⟨some (m, []), fun σ _ sink ↦ rfl⟩
  | cons r rs ih =>
    obtain ⟨first, hfirst⟩ := exists_serve_eq m r
    cases first with
    | none =>
      refine ⟨none, fun σ _ sink ↦ ?_⟩
      rw [serveAll_cons, hfirst]
      rfl
    | some x =>
      obtain ⟨rest, hrest⟩ := ih x.1
      refine ⟨rest.map fun y ↦ (y.1, x.2 ++ y.2), fun σ _ sink ↦ ?_⟩
      rw [serveAll_cons, hfirst, Option.map_some, Option.bind_some, hrest, Option.map_map]
      refine congrArg (Option.map · rest) (funext fun y ↦ ?_)
      rw [Function.comp_apply, Sink.recordAll_append]

/-- **Whole or not at all.** A program with a fault is refused with this fault, and the machine
stays what it is. Any other program is loaded, and whatever the machine held before, it is then the
machine that a new simulator is left with by the same program; so every session that follows leads
to one and the same machine with one and the same report. Either way, the outcome is that of loading
the program step by step. -/
theorem load_allOrNothing (p : Program) :
    (∀ fault, p.fault? = some fault → ∀ (σ : Type) [Sink σ] (s : Simulator σ),
      (s.load p).1 = .error fault ∧ (s.load p).2.machine = s.machine) ∧
    (p.fault? = none →
      (∀ (σ τ : Type) [Sink σ] [Sink τ] (s : Simulator σ) (sink : τ),
        (s.load p).1 = .ok () ∧
          (s.load p).2.machine = ((withSink sink).load p).2.machine) ∧
      ∀ rs : List Request, ∃ result : Option (Machine × List Entry),
        ∀ (σ : Type) [Sink σ] (s : Simulator σ),
          (s.load p).2.serveAll rs =
            result.map fun x ↦ ⟨x.1, Sink.recordAll (s.load p).2.sink x.2⟩) ∧
    ∀ (σ : Type) [Sink σ] (s : Simulator σ),
      ((s.load p).1, (s.load p).2.machine) = s.machine.loadInPlace p := by
  refine ⟨?_, ?_, ?_⟩
  · intro fault h σ _ s
    exact load_of_fault? h s
  · intro h
    obtain ⟨machine, hload⟩ := exists_load_of_fault? h
    constructor
    · intro σ τ _ _ s sink
      obtain ⟨hok, hmachine⟩ := hload σ s
      exact ⟨hok, hmachine.trans (hload τ (withSink sink)).2.symm⟩
    · intro rs
      obtain ⟨result, hresult⟩ := exists_serveAll_result machine rs
      refine ⟨result, ?_⟩
      intro σ _ s
      rw [← hresult σ (s.load p).2.sink, ← (hload σ s).2]
  · intro σ _ s
    exact load_eq_loadInPlace s p

/-- A program with a word right behind the last address. -/
def beyondMemory : Program := ⟨[⟨0, 0x7001, "HLT", 1⟩], [⟨0xFFF, 2⟩, ⟨0x1000, 1⟩]⟩

/-- The same with its words in memory. -/
def withinMemory : Program := ⟨[⟨0, 0x7001, "HLT", 1⟩], [⟨0xFFF, 2⟩, ⟨0xFFE, 1⟩]⟩

/-- A simulator that has been used: its machine has halted, and bytes wait to be read. -/
def used : Simulator Channel :=
  ⟨((Machine.initial.setRegister .sc 9).setFlag .s false).setInput [1, 2], Channel.empty⟩

theorem load_allOrNothing_used :
    beyondMemory.fault? = some (.memory (.addressOutOfRange 0x1000)) ∧
    (used.load beyondMemory).1 = .error (.memory (.addressOutOfRange 0x1000)) ∧
    (used.load beyondMemory).2.machine = used.machine ∧
    withinMemory.fault? = none ∧
    (used.load withinMemory).2.machine =
      ((withSink EventLog.empty).load withinMemory).2.machine := by
  have hbeyond : beyondMemory.fault? = some (.memory (.addressOutOfRange 0x1000)) := by decide
  have hwithin : withinMemory.fault? = none := by decide
  obtain ⟨hrefused, hkept⟩ := (load_allOrNothing beyondMemory).1 _ hbeyond Channel used
  obtain ⟨hloaded, -⟩ := (load_allOrNothing withinMemory).2.1 hwithin
  exact ⟨hbeyond, hrefused, hkept, hwithin,
    (hloaded Channel EventLog used EventLog.empty).2⟩

end Simulator

end BasicComputer
