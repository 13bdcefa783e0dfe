import BasicComputer.Command
import BasicComputer.Proofs.Capacity
import BasicComputer.Proofs.Trajectory
import BasicComputer.Proofs.WrittenNumbers

/-!
# Which files are good

Three commands take a source file, and each goes its own way with it: one only assembles it, one
loads and runs it, and one loads it to list the memory. Still they agree on which files are good.
The first accepts what can be assembled, the others what can be assembled and names an operation to
start from. Nothing behind the loading of a program can fail, whatever the options of a run are: an
assembled program fits into memory, a loaded machine can always be stepped, and a run under a limit
comes to an end.

A run that its limit cuts short says so. Then the machine has not halted, and it has gone through as
many micro-steps as the limit allows.

## Good files

Whether a file is good is said by two properties of its text, and each command is compared with
them. This is shorter than comparing the commands with each other, and it says more: they agree, and
on what.

## Lines of output

That a run has been cut short is told in one line of its output. To find this line, and to find it
only where it belongs, it must not be confused with any other. It can be told from the others by its
first character, and this holds whatever numbers the lines show.
-/

namespace BasicComputer

/-! ## Good files -/

/-- Whether a text is assembled. -/
def Assembles (source : String) : Prop := ∃ p, (assemble source).outcome = .ok p

/-- Whether some line of a text names an operation. -/
def NamesOperation (source : String) : Prop :=
  ∃ tokens lines, tokenize source = .ok tokens ∧ parse tokens = .ok lines ∧
    ∃ l ∈ lines, l.statement.isOperation

theorem namesOperation_iff {source : String} {p : Program}
    (h : (assemble source).outcome = .ok p) :
    NamesOperation source ↔ p.instructions.isEmpty = false := by
  obtain ⟨tokens, lines, ht, hp, -, rfl, -⟩ := consistent_of_assemble h
  rw [isEmpty_instructions_ofEmissions, Bool.not_eq_false', List.any_eq_true]
  constructor
  · rintro ⟨tokens', lines', ht', hp', hl⟩
    rw [ht] at ht'
    cases ht'
    rw [hp] at hp'
    cases hp'
    exact hl
  · exact fun hl ↦ ⟨tokens, lines, ht, hp, hl⟩

/-- An assembled program can be loaded if its text names an operation. Otherwise it cannot, since
there is nothing to start from. -/
theorem boot_of_assemble {source : String} {p : Program} (h : (assemble source).outcome = .ok p) :
    (NamesOperation source → ∃ machine, Machine.boot p = .ok machine) ∧
      (¬NamesOperation source → Machine.boot p = .error .emptyProgram) := by
  obtain ⟨-, lines, -, -, hconsistent, hprogram, -⟩ := consistent_of_assemble h
  have hwords : ∀ w ∈ p.words, w.1 < memorySize := by
    rw [hprogram]
    exact hconsistent.lt_of_mem_words
  have hfault := Program.fault?_of_forall_lt hwords
  rw [namesOperation_iff h, Bool.not_eq_false]
  constructor
  · intro hne
    rw [hne] at hfault
    exact Machine.exists_boot_of_fault? hfault
  · intro hempty
    rw [hempty] at hfault
    exact Machine.boot_of_fault? hfault

theorem not_assembles {source : String} {e : AssemblyError}
    (h : (assemble source).outcome = .error e) : ¬Assembles source := by
  rintro ⟨p, hp⟩
  rw [h] at hp
  cases hp

namespace Command

/-! ## Answers -/

/-- Whether an answer has one exit code in the good case and the other in all others. -/
def Answer.Accepts (a : Answer) (good : Prop) : Prop :=
  (good → a.exitCode = 0) ∧ (¬good → a.exitCode = 1)

theorem Answer.Accepts.of_good {a : Answer} {good : Prop} (h : good) (hcode : a.exitCode = 0) :
    a.Accepts good :=
  ⟨fun _ ↦ hcode, fun hbad ↦ absurd h hbad⟩

theorem Answer.Accepts.of_bad {a : Answer} {good : Prop} (h : ¬good) (hcode : a.exitCode = 1) :
    a.Accepts good :=
  ⟨fun hgood ↦ absurd hgood h, fun _ ↦ hcode⟩

/-- Whether an answer closes its diagnostics with a message, and has no other but records. -/
def Answer.Reports (a : Answer) (message : String) : Prop :=
  ∃ records : List Record, a.errors = records.map .record ++ [.text message]

/-- The machine at the end of a run that starts with a machine just loaded. -/
def RunOptions.final (options : RunOptions) (machine : Machine) : Machine :=
  (options.feed machine).after (.runLimited options.maxSteps)

/-! ## Runs -/

section Runs

variable {σ : Type} [Observer σ] {source : String} {p : Program} {machine : Machine}

theorem cycles_feed (options : RunOptions) (m : Machine) : (options.feed m).cycles = m.cycles := by
  rw [RunOptions.feed]
  cases options.input <;> rfl

theorem isLoaded_feed (options : RunOptions) (m : Machine) :
    (options.feed m).isLoaded = m.isLoaded := by
  rw [RunOptions.feed]
  cases options.input <;> rfl

theorem cycles_of_boot (hboot : Machine.boot p = .ok machine) : machine.cycles = 0 := by
  obtain ⟨memory, pc, rfl⟩ := Machine.boot_eq hboot
  rfl

theorem isLoaded_of_boot (hboot : Machine.boot p = .ok machine) : machine.isLoaded := by
  obtain ⟨memory, pc, rfl⟩ := Machine.boot_eq hboot
  rfl

/-- A run of a machine just loaded counts its micro-steps from zero. -/
theorem runLimited_feed (hboot : Machine.boot p = .ok machine) (options : RunOptions)
    {s : Simulator σ} (hs : s.machine = options.feed machine) :
    s.runLimited options.maxSteps = (.ok (options.final machine).cycles, s.runTo options.maxSteps) ∧
      (s.runTo options.maxSteps).machine = options.final machine := by
  have hloaded : s.machine.isLoaded := by
    rw [hs, isLoaded_feed]
    exact isLoaded_of_boot hboot
  have hcycles : s.machine.cycles = 0 := by rw [hs, cycles_feed, cycles_of_boot hboot]
  have hrun := Simulator.runLimited_eq hloaded options.maxSteps
  have hafter : (s.runLimited options.maxSteps).2.machine =
      s.machine.after (.runLimited options.maxSteps) := Simulator.machine_of_serve rfl
  rw [hcycles, Nat.zero_add, Nat.sub_zero] at hrun
  rw [hrun, hs] at hafter
  exact ⟨hrun.trans (by rw [hafter, RunOptions.final]), hafter⟩

/-- A machine that a run leaves running has gone through as many micro-steps as the limit allows. -/
theorem cycles_final (hboot : Machine.boot p = .ok machine) {options : RunOptions}
    (hrunning : ¬(options.final machine).isHalted) :
    (options.final machine).cycles = options.maxSteps := by
  obtain ⟨-, hfinal⟩ :=
    runLimited_feed (s := ⟨options.feed machine, Channel.empty⟩) hboot options rfl
  rw [← hfinal] at hrunning ⊢
  refine Simulator.cycles_runTo_of_running ?_ hrunning
  rw [cycles_feed, cycles_of_boot hboot]
  exact Nat.zero_le _

theorem exists_load_eq (hboot : Machine.boot p = .ok machine) (s : Simulator σ) :
    ∃ loaded, s.load p = (.ok (), loaded) ∧ loaded.machine = machine := by
  rw [Simulator.load, hboot]
  exact ⟨_, rfl, rfl⟩

variable (sink : σ) (verbosity : Nat) (path : String) (options : RunOptions)

theorem runWith_of_error {e : AssemblyError} (h : (assemble source).outcome = .error e) :
    (runWith sink verbosity path options source).exitCode = 1 ∧
      (runWith sink verbosity path options source).Reports s!"❌ Assembly error: {e.message}" := by
  rw [runWith, Simulator.assemble, h]
  exact ⟨rfl, _, rfl⟩

theorem runWith_of_boot_eq_error (h : (assemble source).outcome = .ok p) {fault : Fault}
    (hboot : Machine.boot p = .error fault) :
    (runWith sink verbosity path options source).exitCode = 1 := by
  rw [runWith, Simulator.assemble, h]
  dsimp only
  rw [Simulator.load, hboot]

theorem runWith_of_boot_eq_ok (h : (assemble source).outcome = .ok p)
    (hboot : Machine.boot p = .ok machine) :
    (runWith sink verbosity path options source).exitCode = 0 ∧
    ∃ before during : List Entry, (runWith sink verbosity path options source).output =
      plain [s!"🔧 Running: {path}"] ++ before.map .trace ++ plain ["", "━━━ Execution ━━━"] ++
        during.map .trace ++
        plain (finalLines options (options.final machine).cycles (options.final machine)) := by
  rw [runWith, Simulator.assemble, h]
  dsimp only
  obtain ⟨loaded, hload, hmachine⟩ :=
    exists_load_eq hboot ((Simulator.withSink sink).report (BasicComputer.assemble source).entries)
  rw [hload]
  dsimp only
  have hready : (loaded.modify options.feed).machine = options.feed machine :=
    congrArg options.feed hmachine
  obtain ⟨hrun, hfinal⟩ := runLimited_feed hboot options hready
  rw [hrun]
  dsimp only
  rw [hfinal]
  exact ⟨rfl, _, _, rfl⟩

theorem runFile_of_forall {P : Answer → Prop}
    (h : ∀ (σ : Type) [Observer σ] (sink : σ), P (runWith sink verbosity path options source)) :
    P (runFile verbosity path options source) := by
  rw [runFile]
  split
  · exact h EventLog _
  · exact h Channel _

end Runs

/-! ## What a run shows -/

section Lines

/-- The line with the number of micro-steps that a run took. -/
def stepsLine (steps : Nat) : String := s!"Micro-steps:  {steps}"

/-- The line that says that a run was cut short. -/
def limitLine (maxSteps : Nat) : String :=
  s!"⚠️  Reached max steps limit ({maxSteps}). Use --max-steps to increase."

theorem stepsLine_inj {m n : Nat} : stepsLine m = stepsLine n ↔ m = n := by
  refine ⟨fun h ↦ ?_, congrArg stepsLine⟩
  have hrepr : m.repr = n.repr := by
    unfold stepsLine at h
    exact (String.append_right_inj _).mp h
  have hdigits : Nat.toDigits 10 m = Nat.toDigits 10 n := by
    simpa using congrArg String.toList hrepr
  rw [← Numeral.value_toDigits m, hdigits, Numeral.value_toDigits]

/-- Among lines that start in other ways, a line is found only if it is the one put there. -/
theorem mem_iff_of_head? {x line : String} {before behind : List String}
    (h : x.toList.head? ∉ (before ++ behind).map (·.toList.head?)) :
    x ∈ before ++ line :: behind ↔ x = line := by
  constructor
  · intro hx
    by_contra hne
    have hmem : x ∈ before ++ behind := by simpa [hne] using hx
    exact h (List.mem_map_of_mem hmem)
  · rintro rfl
    simp

/-- What a run shows, without its trace. -/
def runLines (path : String) (options : RunOptions) (steps : Nat) (m : Machine) : List String :=
  [s!"🔧 Running: {path}", "", "━━━ Execution ━━━"] ++ finalLines options steps m

variable {options : RunOptions} (path : String) (steps : Nat) (m : Machine)

theorem map_head?_resultLines : (resultLines steps m).map (·.toList.head?) =
    [none, some '━', some 'M', some 'I', some 'O', some 'A', some 'E'] := by
  unfold resultLines Registers.describe
  simp only [List.map_cons, List.map_nil, String.toList_append]
  rfl

theorem map_head?_opening : [s!"🔧 Running: {path}", "", "━━━ Execution ━━━"].map (·.toList.head?) =
    [some '🔧', none, some '━'] := by
  simp only [List.map_cons, List.map_nil, String.toList_append]
  rfl

theorem map_head?_limitLines (maxSteps : Nat) : (limitLines maxSteps).map (·.toList.head?) =
    [none, some '⚠'] := by
  simp only [limitLines, List.map_cons, List.map_nil, String.toList_append]
  rfl

theorem head?_stepsLine (n : Nat) : (stepsLine n).toList.head? = some 'M' := by
  unfold stepsLine
  simp only [String.toList_append]
  rfl

theorem head?_limitLine (n : Nat) : (limitLine n).toList.head? = some '⚠' := by
  unfold limitLine
  simp only [String.toList_append]
  rfl

/-- The number of micro-steps stands among lines that start in other ways. -/
theorem exists_runLines_eq (hjson : options.json = false) :
    ∃ before behind, runLines path options steps m = before ++ stepsLine steps :: behind ∧
      some 'M' ∉ (before ++ behind).map (·.toList.head?) := by
  obtain ⟨state, hstate⟩ : ∃ state, resultLines steps m =
      ["", "━━━ Result ━━━"] ++ stepsLine steps :: state := by
    unfold resultLines stepsLine
    exact ⟨_, rfl⟩
  have hheads := map_head?_resultLines steps m
  rw [hstate] at hheads
  obtain ⟨-, hstates⟩ : (stepsLine steps).toList.head? = some 'M' ∧
      state.map (·.toList.head?) = [some 'I', some 'O', some 'A', some 'E'] := by
    simpa using hheads
  refine ⟨[s!"🔧 Running: {path}", "", "━━━ Execution ━━━"] ++ ["", "━━━ Result ━━━"],
    state ++ if m.isHalted then [] else limitLines options.maxSteps, ?_, ?_⟩
  · rw [runLines, finalLines, hjson, if_neg Bool.false_ne_true, hstate]
    simp only [List.append_assoc, List.cons_append]
  · have hruled : ["", "━━━ Result ━━━"].map (·.toList.head?) = [none, some '━'] := rfl
    rw [List.map_append, List.map_append, List.map_append, map_head?_opening, hruled, hstates]
    split
    · decide
    · rw [map_head?_limitLines]
      decide

theorem stepsLine_mem_iff (hjson : options.json = false) {n : Nat} :
    stepsLine n ∈ runLines path options steps m ↔ n = steps := by
  obtain ⟨before, behind, hlines, hheads⟩ := exists_runLines_eq path steps m hjson
  rw [hlines, mem_iff_of_head?, stepsLine_inj]
  rwa [head?_stepsLine]

theorem limitLine_mem_iff (hjson : options.json = false) :
    limitLine options.maxSteps ∈ runLines path options steps m ↔ ¬m.isHalted := by
  rw [runLines, finalLines, hjson, if_neg Bool.false_ne_true]
  by_cases hhalted : m.isHalted
  · rw [if_pos hhalted, List.append_nil]
    refine iff_of_false (fun hmem ↦ ?_) (not_not.mpr hhalted)
    have hhead := List.mem_map_of_mem (f := (·.toList.head?)) hmem
    rw [head?_limitLine, List.map_append, map_head?_opening, map_head?_resultLines] at hhead
    simp at hhead
  · rw [if_neg hhalted]
    refine iff_of_true (List.mem_append_right _ (List.mem_append_right _ ?_)) hhalted
    exact List.mem_cons_of_mem _ List.mem_cons_self

end Lines

/-! ## The commands -/

section Commands

variable (verbosity : Nat) (path : String) {source : String}

theorem accepts_assembleFile (symbols : Bool) :
    (assembleFile verbosity path symbols source).Accepts (Assembles source) := by
  rw [assembleFile]
  cases h : (BasicComputer.assemble source).outcome with
  | error e => exact .of_bad (not_assembles h) rfl
  | ok p => exact .of_good ⟨p, h⟩ rfl

theorem accepts_of_cases {a : Answer}
    (herror : ∀ e, (BasicComputer.assemble source).outcome = .error e → a.exitCode = 1)
    (hunloaded : ∀ p fault, (BasicComputer.assemble source).outcome = .ok p →
      Machine.boot p = .error fault → a.exitCode = 1)
    (hloaded : ∀ p machine, (BasicComputer.assemble source).outcome = .ok p →
      Machine.boot p = .ok machine → a.exitCode = 0) :
    a.Accepts (Assembles source ∧ NamesOperation source) := by
  cases h : (BasicComputer.assemble source).outcome with
  | error e => exact .of_bad (fun hgood ↦ not_assembles h hgood.1) (herror e h)
  | ok p =>
    obtain ⟨hboot, hnone⟩ := boot_of_assemble h
    by_cases hnames : NamesOperation source
    · obtain ⟨machine, hmachine⟩ := hboot hnames
      exact .of_good ⟨⟨p, h⟩, hnames⟩ (hloaded p machine h hmachine)
    · exact .of_bad (fun hgood ↦ hnames hgood.2) (hunloaded p _ h (hnone hnames))

theorem accepts_runFile (options : RunOptions) :
    (runFile verbosity path options source).Accepts (Assembles source ∧ NamesOperation source) := by
  refine runFile_of_forall (P := (·.Accepts _)) verbosity path options fun σ _ sink ↦ ?_
  refine accepts_of_cases (fun e h ↦ ?_) (fun p fault h hboot ↦ ?_) fun p machine h hboot ↦ ?_
  · exact (runWith_of_error sink verbosity path options h).1
  · exact runWith_of_boot_eq_error sink verbosity path options h hboot
  · exact (runWith_of_boot_eq_ok sink verbosity path options h hboot).1

theorem accepts_disassembleFile :
    (disassembleFile verbosity path source).Accepts
      (Assembles source ∧ NamesOperation source) := by
  rw [disassembleFile, Simulator.assemble]
  refine accepts_of_cases (fun e h ↦ ?_) (fun p fault h hboot ↦ ?_) fun p machine h hboot ↦ ?_
  · rw [h]
  · rw [h]
    dsimp only
    rw [Simulator.load, hboot]
  · rw [h]
    dsimp only
    rw [Simulator.load, hboot]

theorem reports_assembleFile (symbols : Bool) {e : AssemblyError}
    (h : (BasicComputer.assemble source).outcome = .error e) :
    (assembleFile verbosity path symbols source).Reports s!"❌ Assembly error: {e.message}" := by
  rw [assembleFile, h]
  exact ⟨_, rfl⟩

theorem reports_disassembleFile {e : AssemblyError}
    (h : (BasicComputer.assemble source).outcome = .error e) :
    (disassembleFile verbosity path source).Reports s!"❌ {e.message}" := by
  rw [disassembleFile, Simulator.assemble, h]
  exact ⟨_, rfl⟩

theorem text_mem_runFile {options : RunOptions} {p : Program} {machine : Machine}
    (h : (BasicComputer.assemble source).outcome = .ok p) (hboot : Machine.boot p = .ok machine)
    (s : String) :
    .text s ∈ (runFile verbosity path options source).output ↔
      s ∈ runLines path options (options.final machine).cycles (options.final machine) := by
  refine runFile_of_forall (P := fun a ↦ .text s ∈ a.output ↔ _) verbosity path options
    fun σ _ sink ↦ ?_
  obtain ⟨-, before, during, houtput⟩ :=
    runWith_of_boot_eq_ok sink verbosity path options h hboot
  rw [houtput, runLines]
  simp [plain]

variable (source)

/-- **The commands agree on which files are good.** A file that can be read is accepted by the first
command if it is assembled, and by the others if besides it names an operation, whatever the
options. Otherwise the exit code is one, and where assembly fails all commands give the same reason.
A run whose final state is shown as text says that it was cut short exactly if the machine has not
halted, and then its number of micro-steps is the limit. -/
theorem commands_agree :
    (∀ symbols, (answer ⟨verbosity, .assemble path symbols⟩ (.ok source)).Accepts
      (Assembles source)) ∧
    (∀ options, (answer ⟨verbosity, .run path options⟩ (.ok source)).Accepts
      (Assembles source ∧ NamesOperation source)) ∧
    (answer ⟨verbosity, .disassemble path⟩ (.ok source)).Accepts
      (Assembles source ∧ NamesOperation source) ∧
    (∀ e, (BasicComputer.assemble source).outcome = .error e →
      (∀ symbols, (answer ⟨verbosity, .assemble path symbols⟩ (.ok source)).Reports
        s!"❌ Assembly error: {e.message}") ∧
      (∀ options, (answer ⟨verbosity, .run path options⟩ (.ok source)).Reports
        s!"❌ Assembly error: {e.message}") ∧
      (answer ⟨verbosity, .disassemble path⟩ (.ok source)).Reports s!"❌ {e.message}") ∧
    ∀ options p machine, options.json = false → (BasicComputer.assemble source).outcome = .ok p →
      Machine.boot p = .ok machine →
      (.text (limitLine options.maxSteps) ∈
          (answer ⟨verbosity, .run path options⟩ (.ok source)).output ↔
        ¬(options.final machine).isHalted) ∧
      (∀ n, .text (stepsLine n) ∈ (answer ⟨verbosity, .run path options⟩ (.ok source)).output ↔
        n = (options.final machine).cycles) ∧
      (¬(options.final machine).isHalted →
        (options.final machine).cycles = options.maxSteps) := by
  refine ⟨accepts_assembleFile verbosity path, accepts_runFile verbosity path,
    accepts_disassembleFile verbosity path, fun e h ↦ ⟨fun symbols ↦ ?_, fun options ↦ ?_, ?_⟩,
    fun options p machine hjson h hboot ↦ ⟨?_, fun n ↦ ?_, cycles_final hboot⟩⟩
  · exact reports_assembleFile verbosity path symbols h
  · exact runFile_of_forall (P := (·.Reports _)) verbosity path options fun σ _ sink ↦
      (runWith_of_error sink verbosity path options h).2
  · exact reports_disassembleFile verbosity path h
  · exact (text_mem_runFile verbosity path h hboot _).trans (limitLine_mem_iff path _ _ hjson)
  · exact (text_mem_runFile verbosity path h hboot _).trans (stepsLine_mem_iff path _ _ hjson)

end Commands

/-- A text with one operation. -/
def oneHalt : String := "HLT\nEND"

def oneHaltProgram : Program := ⟨[⟨0, 0x7001, "HLT", 1⟩], []⟩

/-- A text without an operation. -/
def oneNumber : String := "DEC 1\nEND"

def oneNumberProgram : Program := ⟨[], [⟨0, 1⟩]⟩

/-- A run that may take no step at all. -/
def noSteps : RunOptions := ⟨none, 0, true, false⟩

/-- The operation is not executed, which the run says; the number is assembled, but not run. -/
theorem commands_agree_noSteps :
    (answer ⟨0, .run "a" noSteps⟩ (.ok oneHalt)).exitCode = 0 ∧
    .text (limitLine 0) ∈ (answer ⟨0, .run "a" noSteps⟩ (.ok oneHalt)).output ∧
    .text (stepsLine 0) ∈ (answer ⟨0, .run "a" noSteps⟩ (.ok oneHalt)).output ∧
    (answer ⟨0, .assemble "b" true⟩ (.ok oneNumber)).exitCode = 0 ∧
    (answer ⟨0, .run "b" noSteps⟩ (.ok oneNumber)).exitCode = 1 ∧
    (answer ⟨0, .disassemble "b"⟩ (.ok oneNumber)).exitCode = 1 := by
  have hhalt : (BasicComputer.assemble oneHalt).outcome = .ok oneHaltProgram := rfl
  have hnumber : (BasicComputer.assemble oneNumber).outcome = .ok oneNumberProgram := rfl
  have hnames : NamesOperation oneHalt := (namesOperation_iff hhalt).mpr rfl
  have hnone : ¬NamesOperation oneNumber := (namesOperation_iff hnumber).not.mpr (by decide)
  obtain ⟨machine, hboot⟩ := (boot_of_assemble hhalt).1 hnames
  have hfinal : noSteps.final machine = machine := by
    simp [RunOptions.final, RunOptions.feed, noSteps, Machine.after, Machine.stepsFor,
      Machine.stepsToLimit]
  have hrunning : ¬(noSteps.final machine).isHalted := by
    obtain ⟨memory, pc, hmachine⟩ := Machine.boot_eq hboot
    rw [hfinal, hmachine]
    exact Bool.false_ne_true
  obtain ⟨-, hrun, -, -, hshown⟩ := commands_agree 0 "a" oneHalt
  obtain ⟨hassembled, hunrun, hunlisted, -, -⟩ := commands_agree 0 "b" oneNumber
  obtain ⟨hlimit, hsteps, hcycles⟩ := hshown noSteps oneHaltProgram machine rfl hhalt hboot
  refine ⟨(hrun noSteps).1 ⟨⟨_, hhalt⟩, hnames⟩, hlimit.mpr hrunning, ?_,
    (hassembled true).1 ⟨_, hnumber⟩, (hunrun noSteps).2 fun h ↦ hnone h.2,
    hunlisted.2 fun h ↦ hnone h.2⟩
  exact (hsteps 0).mpr (hcycles hrunning).symm

end Command

end BasicComputer
