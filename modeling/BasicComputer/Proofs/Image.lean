import BasicComputer.Proofs.AddressRange
import BasicComputer.Simulator

/-!
# The memory image

Loading a program writes its words one after the other into memory that is all zero, the
instructions before the data. So an address holds the last word written to it, and that is settled
by the words of the program alone.

For an assembled text this means: an address holds what the last line with a number for it gives,
and only if there is no such line what the last operation there is encoded as. Among lines of one
kind the later one wins. Between the two kinds the number wins, even over an operation further down.

## From the back

Loading goes forward and overwrites. What it leaves at an address can be told by looking from the
back: the first word found there stays. Both lists of a program are handled as one for this, the
data behind the instructions, since this is the order they are loaded in.

The line that decides about an address is defined in the same way, as the last of its kind. A
filter by kind commutes with everything else that is done to lines, so the search for the last line
and the search for the last word are the same search.
-/

namespace BasicComputer

/-! ## Words one after the other -/

/-- The last of the words that go to `a`. -/
def lastWord (ws : List (Nat × Word)) (a : Nat) : Option Word :=
  ((ws.filter (·.1 == a)).getLast?).map Prod.snd

theorem lastWord_append (ws vs : List (Nat × Word)) (a : Nat) :
    lastWord (ws ++ vs) a = (lastWord vs a).or (lastWord ws a) := by
  rw [lastWord, List.filter_append, List.getLast?_append, Option.map_or]
  rfl

/-- What puts one thing after the other in its place leaves the last of them behind, wherever it is
looked at. -/
theorem foldl_eq_getLast? {α β γ : Type} {place : β → α → β} (view : β → γ) {fits : α → Bool}
    {value : α → γ}
    (hplace : ∀ m x, view (place m x) = if fits x then value x else view m) (xs : List α) (m : β) :
    view (xs.foldl place m) = (((xs.filter fits).getLast?).map value).getD (view m) := by
  induction xs generalizing m with
  | nil => rfl
  | cons x xs ih =>
    -- the first thing stays only if none of the others fits
    rw [List.foldl_cons, ih, hplace, ← List.singleton_append, List.filter_append,
      List.getLast?_append, List.filter_singleton]
    cases (xs.filter fits).getLast? with
    | some y => rfl
    | none => cases fits x <;> rfl

namespace Memory

theorem read_empty (a : Address) : empty.read a = 0 := by
  simp [empty, read]

theorem read_placeInstruction (m : Memory) (i : Instruction) (a : Address) :
    (m.placeInstruction i).read a = if i.origin = a.toNat then i.word else m.read a := by
  simp [placeInstruction, read, Vector.getElem_setIfInBounds]

theorem read_placeDatum (m : Memory) (d : Datum) (a : Address) :
    (m.placeDatum d).read a = if d.origin = a.toNat then d.word else m.read a := by
  simp [placeDatum, read, Vector.getElem_setIfInBounds]

theorem read_foldl {α : Type} {place : Memory → α → Memory} {entry : α → Nat × Word} {a : Address}
    (hplace : ∀ m x, (place m x).read a = if (entry x).1 = a.toNat then (entry x).2 else m.read a)
    (xs : List α) (m : Memory) :
    (xs.foldl place m).read a = (lastWord (xs.map entry) a.toNat).getD (m.read a) := by
  have hview (m : Memory) (x : α) : (place m x).read a =
      if ((entry x).1 == a.toNat) = true then (entry x).2 else m.read a := by
    simp only [hplace, beq_iff_eq]
  rw [foldl_eq_getLast? (read · a) hview, lastWord, List.filter_map, List.getLast?_map,
    Option.map_map]
  rfl

theorem find?_words_eq_none_iff {p : Program} :
    p.words.find? (memorySize ≤ ·.1) = none ↔ ∀ w ∈ p.words, w.1 < memorySize := by
  rw [List.find?_eq_none]
  simp only [decide_eq_true_eq, Nat.not_le]

theorem check_of_forall_lt {p : Program} (h : ∀ w ∈ p.words, w.1 < memorySize) :
    check p = .ok () := by
  rw [check, find?_words_eq_none_iff.mpr h]

theorem exists_load_eq_ok {p : Program} (h : ∀ w ∈ p.words, w.1 < memorySize) (m : Memory) :
    ∃ m', m.load p = .ok m' := by
  refine ⟨p.data.foldl placeDatum (p.instructions.foldl placeInstruction m), ?_⟩
  rw [load, check_of_forall_lt h]
  rfl

/-- A program can be loaded into any memory or into none. -/
theorem load_eq_error_iff {m : Memory} {p : Program} {e : MemoryError} :
    m.load p = .error e ↔ check p = .error e := by
  rw [load]
  cases check p with
  | error e' =>
    have herror : (Except.error e' : Except MemoryError Memory) = .error e ↔
        (Except.error e' : Except MemoryError Unit) = .error e := by
      rw [Except.error.injEq, Except.error.injEq]
    exact herror
  | ok _ =>
    constructor
    · intro h
      cases h
    · intro h
      cases h

/-- A loaded program leaves the last of its words at every address. -/
theorem read_of_load {m m' : Memory} {p : Program} (h : m.load p = .ok m') (a : Address) :
    m'.read a = (lastWord p.words a.toNat).getD (m.read a) := by
  obtain ⟨-, -, h⟩ := bind_eq_ok.mp h
  cases h
  have hinstructions (m : Memory) : (p.instructions.foldl placeInstruction m).read a =
      (lastWord (p.instructions.map fun i ↦ (i.origin, i.word)) a.toNat).getD (m.read a) :=
    read_foldl (fun m i ↦ read_placeInstruction m i a) p.instructions m
  have hdata (m : Memory) : (p.data.foldl placeDatum m).read a =
      (lastWord (p.data.map fun d ↦ (d.origin, d.word)) a.toNat).getD (m.read a) :=
    read_foldl (fun m d ↦ read_placeDatum m d a) p.data m
  rw [hdata, hinstructions, Program.words, lastWord_append, Option.getD_or]

end Memory

namespace Machine

theorem boot_eq_ok {p : Program} {machine : Machine} (h : boot p = .ok machine) :
    ∃ entry, p.entryPoint = some entry ∧ machine.registers.pc = .ofNat 12 entry ∧
      ∀ a, machine.memory.read a = (lastWord p.words a.toNat).getD 0 := by
  rw [boot] at h
  split at h
  next => cases h
  next entry hentry =>
    split at h
    next => cases h
    next memory hmemory =>
      cases h
      refine ⟨entry, hentry, rfl, fun a ↦ ?_⟩
      rw [← Memory.read_empty a]
      exact Memory.read_of_load hmemory a

theorem exists_boot_eq_ok {p : Program} (hentry : p.entryPoint.isSome)
    (hwords : ∀ w ∈ p.words, w.1 < memorySize) : ∃ machine, boot p = .ok machine := by
  obtain ⟨entry, he⟩ := Option.isSome_iff_exists.mp hentry
  obtain ⟨memory, hmemory⟩ := Memory.exists_load_eq_ok hwords .empty
  rw [boot, he]
  dsimp only
  rw [hmemory]
  exact ⟨_, rfl⟩

end Machine

namespace Simulator

variable {σ : Type} [Sink σ] {p : Program}

theorem load_eq_ok {s : Simulator σ} (h : (s.load p).1 = .ok ()) :
    ∃ entry, p.entryPoint = some entry ∧
      (s.load p).2.machine.registers.pc = .ofNat 12 entry ∧
      ∀ a, (s.load p).2.machine.memory.read a = (lastWord p.words a.toNat).getD 0 := by
  rw [load] at h ⊢
  cases hboot : Machine.boot p with
  | error fault =>
    rw [hboot] at h
    cases h
  | ok machine => exact Machine.boot_eq_ok hboot

theorem load_ok (s : Simulator σ) (hentry : p.entryPoint.isSome)
    (hwords : ∀ w ∈ p.words, w.1 < memorySize) : (s.load p).1 = .ok () := by
  obtain ⟨machine, hboot⟩ := Machine.exists_boot_eq_ok hentry hwords
  rw [load, hboot]

end Simulator

/-! ## The words of an assembled text -/

namespace Statement

theorem emits_of_isOperation {s : Statement} (h : s.isOperation) : s.emits := by
  rw [emits, h, Bool.true_or]

theorem emits_of_isDatum {s : Statement} (h : s.isDatum) : s.emits := by
  rw [emits, h, Bool.or_true]

theorem isDatum_of_isOperation {s : Statement} (h : s.isOperation) : s.isDatum = false := by
  cases s with
  | memory _ _ _ | register _ | io _ | origin _ | finish => rfl
  | datum _ _ => cases h

end Statement

/-- The last line of a kind at `a`. -/
def lastLine (kind : Statement → Bool) (ps : List (Nat × Line)) (a : Nat) : Option (Nat × Line) :=
  (ps.filter fun p ↦ kind p.2.statement && p.1 == a).getLast?

section Lines

variable {kind : Statement → Bool} {ps : List (Nat × Line)} {a : Nat}

theorem of_lastLine_eq_some {p : Nat × Line} (h : lastLine kind ps a = some p) :
    p ∈ ps ∧ kind p.2.statement ∧ p.1 = a := by
  have hp := List.mem_of_getLast? h
  rw [List.mem_filter, Bool.and_eq_true, beq_iff_eq] at hp
  exact hp

theorem lastLine_eq_none_iff :
    lastLine kind ps a = none ↔ ∀ p ∈ ps, kind p.2.statement → p.1 ≠ a := by
  rw [lastLine, List.getLast?_eq_none_iff, List.filter_eq_nil_iff]
  refine forall₂_congr fun p _ ↦ ?_
  rw [Bool.and_eq_true, beq_iff_eq, not_and]

/-- What is the last line of a kind is also the last one of any narrower kind that it is of. -/
theorem lastLine_of_imp {narrower : Statement → Bool} (himp : ∀ s, narrower s → kind s)
    {p : Nat × Line} (h : lastLine kind ps a = some p) (hp : narrower p.2.statement) :
    lastLine narrower ps a = some p := by
  -- `p` is not dropped with those that are not of the narrower kind, and it stays the last one
  obtain ⟨before, hsplit⟩ := List.getLast?_eq_some_iff.mp h
  have hfilter : (ps.filter fun q ↦ narrower q.2.statement && q.1 == a) =
      (ps.filter fun q ↦ kind q.2.statement && q.1 == a).filter fun q ↦ narrower q.2.statement := by
    rw [List.filter_filter]
    refine List.filter_congr fun q _ ↦ ?_
    cases hq : narrower q.2.statement with
    | false => rfl
    | true => rw [himp _ hq, Bool.true_and, Bool.true_and]
  rw [lastLine, hfilter, hsplit, List.filter_append, List.filter_singleton, hp]
  exact List.getLast?_append_of_ne_nil _ (List.cons_ne_nil p [])

/-- The words of the lines of a kind, with their addresses. -/
def wordsOf (kind : Statement → Bool) (symbols : SymbolTable) (ps : List (Nat × Line)) :
    List (Nat × Word) :=
  (ps.filter (kind ·.2.statement)).map fun p ↦ (p.1, p.2.word symbols)

theorem lastWord_wordsOf (symbols : SymbolTable) :
    lastWord (wordsOf kind symbols ps) a = (lastLine kind ps a).map (·.2.word symbols) := by
  have hfilter : (ps.filter (kind ·.2.statement)).filter (fun p ↦ p.1 == a) =
      ps.filter fun p ↦ kind p.2.statement && p.1 == a := by
    rw [List.filter_filter]
    exact List.filter_congr fun p _ ↦ Bool.and_comm _ _
  rw [lastWord, wordsOf, List.filter_map, List.getLast?_map, Option.map_map, lastLine, ← hfilter]
  rfl

/-- The words that lines leave behind are those of the operations and then the numbers. -/
theorem words_ofEmissions (lines : List Line) :
    (Program.ofEmissions (effectsOf lines)).words =
      wordsOf Statement.isOperation (symbolsOf lines) (placed lines) ++
        wordsOf Statement.isDatum (symbolsOf lines) (placed lines) := by
  rw [Program.words, Program.ofEmissions, effectsOf, instructions_effects, data_effects,
    List.map_map, List.map_map]
  rfl

/-- The line whose word stays at `a`. -/
def decisiveLine (ps : List (Nat × Line)) (a : Nat) : Option (Nat × Line) :=
  (lastLine Statement.isDatum ps a).or (lastLine Statement.isOperation ps a)

/-- The last line with a word for `a` decides, unless it is an operation and a number goes there
as well. -/
theorem decisiveLine_eq_some {p : Nat × Line} (h : lastLine Statement.emits ps a = some p)
    (hp : p.2.statement.isOperation → lastLine Statement.isDatum ps a = none) :
    decisiveLine ps a = some p := by
  obtain ⟨-, hemits, -⟩ := of_lastLine_eq_some h
  rw [Statement.emits, Bool.or_eq_true] at hemits
  rcases hemits with hoperation | hdatum
  · rw [decisiveLine, hp hoperation, Option.none_or]
    exact lastLine_of_imp (fun _ ↦ Statement.emits_of_isOperation) h hoperation
  · have hlast := lastLine_of_imp (fun _ ↦ Statement.emits_of_isDatum) h hdatum
    rw [decisiveLine, hlast, Option.some_or]

theorem decisiveLine_eq_none (h : lastLine Statement.emits ps a = none) :
    decisiveLine ps a = none := by
  rw [lastLine_eq_none_iff] at h
  rw [decisiveLine, Option.or_eq_none_iff, lastLine_eq_none_iff, lastLine_eq_none_iff]
  exact ⟨fun p hp hdatum ↦ h p hp (Statement.emits_of_isDatum hdatum),
    fun p hp hoperation ↦ h p hp (Statement.emits_of_isOperation hoperation)⟩

/-- Where no two lines have one address, every line with a word decides for its own. -/
theorem decisiveLine_of_nodup (h : (ps.map Prod.fst).Nodup) {p : Nat × Line} (hp : p ∈ ps)
    (hemits : p.2.statement.emits) : decisiveLine ps p.1 = some p := by
  have hunique {q : Nat × Line} (hq : q ∈ ps) (haddress : q.1 = p.1) : q = p :=
    List.inj_on_of_nodup_map h hq hp haddress
  cases hlast : lastLine Statement.emits ps p.1 with
  | none => exact absurd rfl (lastLine_eq_none_iff.mp hlast p hp hemits)
  | some q =>
    obtain ⟨hq, -, haddress⟩ := of_lastLine_eq_some hlast
    obtain rfl := hunique hq haddress
    refine decisiveLine_eq_some hlast fun hoperation ↦ ?_
    -- a number for the same address would have to be the operation itself
    rw [lastLine_eq_none_iff]
    intro r hr hdatum haddress
    rw [hunique hr haddress, Statement.isDatum_of_isOperation hoperation] at hdatum
    cases hdatum

end Lines

/-- Every word that consistent lines leave behind goes to an address. -/
theorem Consistent.lt_of_mem_words {lines : List Line} (h : Consistent lines) :
    ∀ w ∈ (Program.ofEmissions (effectsOf lines)).words, w.1 < memorySize := by
  have hwords (kind : Statement → Bool) (himp : ∀ s, kind s → s.emits) :
      ∀ w ∈ wordsOf kind (symbolsOf lines) (placed lines), w.1 < memorySize := by
    rw [wordsOf, List.forall_mem_map]
    intro p hp
    obtain ⟨hp, hkind⟩ := List.mem_filter.mp hp
    exact h.lt_of_emits hp (himp _ hkind)
  rw [words_ofEmissions, List.forall_mem_append]
  exact ⟨hwords _ fun _ ↦ Statement.emits_of_isOperation,
    hwords _ fun _ ↦ Statement.emits_of_isDatum⟩

theorem load_of_assemble {source : String} {program : Program}
    (h : (assemble source).outcome = .ok program) (hentry : program.entryPoint.isSome) {σ : Type}
    [Sink σ] (s : Simulator σ) : (s.load program).1 = .ok () := by
  obtain ⟨tokens, lines, -, -, hconsistent, rfl, -⟩ := consistent_of_assemble h
  exact s.load_ok hentry hconsistent.lt_of_mem_words

/-- The words that lines leave behind are at their addresses once they are loaded. -/
theorem read_load_lines {σ : Type} [Sink σ] {s : Simulator σ} {lines : List Line}
    (h : (s.load (.ofEmissions (effectsOf lines))).1 = .ok ()) (a : Address) :
    (s.load (.ofEmissions (effectsOf lines))).2.machine.memory.read a =
      (decisiveLine (placed lines) a.toNat).elim 0 (·.2.word (symbolsOf lines)) := by
  obtain ⟨-, -, -, hread⟩ := Simulator.load_eq_ok h
  rw [hread, words_ofEmissions, lastWord_append, lastWord_wordsOf, lastWord_wordsOf, decisiveLine,
    ← Option.map_or]
  cases (lastLine Statement.isDatum (placed lines) a.toNat).or _ <;> rfl

/-- **What memory holds.** A loaded text leaves at every address the word of the last line with a
number for it, or else the word of the last operation there, or else zero. That is the word of the
last line of all with a word for the address, except where this line is an operation and an earlier
line has a number for the same address. -/
theorem read_load_assembled {source : String} {program : Program}
    (h : (assemble source).outcome = .ok program) {σ : Type} [Sink σ] {s : Simulator σ}
    (hload : (s.load program).1 = .ok ()) :
    ∃ tokens lines, tokenize source = .ok tokens ∧ parse tokens = .ok lines ∧
      program.words = wordsOf Statement.isOperation (assemble source).symbols (placed lines) ++
        wordsOf Statement.isDatum (assemble source).symbols (placed lines) ∧
      ∀ a : Address,
        (s.load program).2.machine.memory.read a =
          (decisiveLine (placed lines) a.toNat).elim 0 (·.2.word (assemble source).symbols) ∧
        (lastLine Statement.emits (placed lines) a.toNat = none →
          (s.load program).2.machine.memory.read a = 0) ∧
        ∀ p, lastLine Statement.emits (placed lines) a.toNat = some p →
          (p.2.statement.isOperation →
            lastLine Statement.isDatum (placed lines) a.toNat = none) →
          (s.load program).2.machine.memory.read a = p.2.word (assemble source).symbols := by
  obtain ⟨tokens, lines, ht, hp, -, rfl, hsymbols⟩ := consistent_of_assemble h
  rw [hsymbols]
  refine ⟨tokens, lines, ht, hp, words_ofEmissions lines, fun a ↦ ?_⟩
  have hread := read_load_lines hload a
  refine ⟨hread, fun hnone ↦ ?_, fun p hlast hoperation ↦ ?_⟩
  · rw [hread, decisiveLine_eq_none hnone]
    rfl
  · rw [hread, decisiveLine_eq_some hlast hoperation]
    rfl

/-- A text with two numbers for one address. -/
def twoNumbers : String := "HLT\nORG 10\nDEC 1\nORG 10\nDEC 2\nEND"

def twoNumbersProgram : Program := ⟨[⟨0, 0x7001, "HLT", 1⟩], [⟨0x10, 1⟩, ⟨0x10, 2⟩]⟩

theorem read_load_twoNumbers :
    (assemble twoNumbers).outcome = .ok twoNumbersProgram ∧
    ((Simulator.withSink EventLog.empty).load twoNumbersProgram).1 = .ok () ∧
    (∃ tokens lines, tokenize twoNumbers = .ok tokens ∧ parse tokens = .ok lines ∧
      ((Simulator.withSink EventLog.empty).load twoNumbersProgram).2.machine.memory.read 0x10 =
        (decisiveLine (placed lines) 0x10).elim 0 (·.2.word (assemble twoNumbers).symbols)) ∧
    ((Simulator.withSink EventLog.empty).load
      twoNumbersProgram).2.machine.memory.read 0x10 = 2 := by
  have h : (assemble twoNumbers).outcome = .ok twoNumbersProgram := rfl
  have hload : ((Simulator.withSink EventLog.empty).load twoNumbersProgram).1 = .ok () :=
    Simulator.load_ok _ rfl (by decide)
  obtain ⟨tokens, lines, ht, hp, -, hread⟩ := read_load_assembled h hload
  obtain ⟨-, -, -, hwords⟩ := Simulator.load_eq_ok hload
  exact ⟨h, hload, ⟨tokens, lines, ht, hp, (hread 0x10).1⟩, hwords 0x10⟩

/-- A text with a number and, further down, an operation for one address. -/
def numberThenOperation : String := "DEC 5\nORG 0\nHLT\nEND"

def numberThenOperationProgram : Program := ⟨[⟨0, 0x7001, "HLT", 3⟩], [⟨0, 5⟩]⟩

theorem read_load_numberThenOperation :
    (assemble numberThenOperation).outcome = .ok numberThenOperationProgram ∧
    ((Simulator.withSink EventLog.empty).load numberThenOperationProgram).1 = .ok () ∧
    ∃ tokens lines p, tokenize numberThenOperation = .ok tokens ∧ parse tokens = .ok lines ∧
      lastLine Statement.emits (placed lines) 0 = some p ∧
      p.2.word (assemble numberThenOperation).symbols = 0x7001 ∧
      ((Simulator.withSink EventLog.empty).load
        numberThenOperationProgram).2.machine.memory.read 0 = 5 := by
  have hload : ((Simulator.withSink EventLog.empty).load numberThenOperationProgram).1 = .ok () :=
    Simulator.load_ok _ rfl (by decide)
  obtain ⟨-, -, -, hwords⟩ := Simulator.load_eq_ok hload
  exact ⟨rfl, hload, _, _, _, rfl, rfl, rfl, rfl, hwords 0⟩

end BasicComputer
