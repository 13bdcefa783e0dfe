import BasicComputer.Proofs.Loading

/-!
# What is assembled fits

Assembly refuses every word that would go beyond the end of memory, so loading an assembled program
never fails for want of room. It can still fail for want of an operation: a text may consist of
numbers alone.

The words of a text come in two sequences, the instructions and the data, each in the order of the
lines. Put together they are the words of the lines in another order. Where no line is an `ORG`, the
lines count their addresses up from zero, and so the words go to the first addresses of all, one to
each.

To say that without `ORG` every address up to some number is used once, the two sequences have to be
put together, and their order in the text is not the one they are loaded in. As lists they may
differ. As lists up to order they are the words of the lines, and nothing here depends on more.
-/

namespace BasicComputer

/-! ## Two sequences of words -/

/-- The words of operations and the words of numbers are the words of lines. -/
theorem wordsOf_emits_perm (symbols : SymbolTable) (ps : List (Nat × Line)) :
    (wordsOf Statement.isOperation symbols ps ++ wordsOf Statement.isDatum symbols ps).Perm
      (wordsOf Statement.emits symbols ps) := by
  have hoperations : (ps.filter (·.2.statement.emits)).filter (·.2.statement.isOperation) =
      ps.filter (·.2.statement.isOperation) := by
    rw [List.filter_filter]
    refine List.filter_congr fun p _ ↦ ?_
    cases p.2.statement <;> rfl
  -- a line with a word that is no operation is a number
  have hnumbers : (ps.filter (·.2.statement.emits)).filter (!·.2.statement.isOperation) =
      ps.filter (·.2.statement.isDatum) := by
    rw [List.filter_filter]
    refine List.filter_congr fun p _ ↦ ?_
    cases p.2.statement <;> rfl
  have hperm := List.filter_append_perm (·.2.statement.isOperation)
    (ps.filter (·.2.statement.emits))
  rw [hoperations, hnumbers] at hperm
  rw [wordsOf, wordsOf, wordsOf, ← List.map_append]
  exact hperm.map _

/-! ## Texts without `ORG` -/

/-- Where there is no `ORG`, the lines with words are at the addresses that count them. -/
theorem map_fst_filter_emits {lines : List Line} (h : ∀ l ∈ lines, l.origin? = none)
    (before : List Line) :
    (((contexts before lines).map fun c ↦ (addressAfter c.1, c.2)).filter
        (·.2.statement.emits)).map Prod.fst =
      List.range' (addressAfter before) (lines.countP (·.statement.emits)) := by
  induction lines generalizing before with
  | nil => rfl
  | cons l rest ih =>
    rw [List.forall_mem_cons] at h
    have hrest := ih h.2 (before ++ [l])
    rw [addressAfter_of_origin?_eq_none h.1] at hrest
    rw [contexts, List.map_cons, List.filter_cons, List.countP_cons]
    by_cases hl : l.statement.emits
    · rw [if_pos hl] at hrest
      rw [if_pos hl, if_pos hl, List.map_cons, hrest, List.range'_succ]
    · rw [if_neg hl] at hrest
      rw [if_neg hl, if_neg hl, hrest]
      rfl

theorem map_fst_words_perm {lines : List Line} (h : ∀ l ∈ lines, l.origin? = none) :
    ((Program.ofEmissions (effectsOf lines)).words.map Prod.fst).Perm
      (List.range (Program.ofEmissions (effectsOf lines)).size) := by
  have hperm : ((Program.ofEmissions (effectsOf lines)).words.map Prod.fst).Perm
      (List.range (lines.countP (·.statement.emits))) := by
    have hfst := (wordsOf_emits_perm (symbolsOf lines) (placed lines)).map Prod.fst
    have hcount : (wordsOf Statement.emits (symbolsOf lines) (placed lines)).map Prod.fst =
        List.range (lines.countP (·.statement.emits)) := by
      rw [wordsOf, List.map_map, List.range_eq_range']
      exact map_fst_filter_emits h []
    rwa [← words_ofEmissions, hcount] at hfst
  have hsize := hperm.length_eq
  rw [List.length_map, Program.length_words, List.length_range] at hsize
  rwa [hsize]

/-! ## Assembled programs -/

theorem isEmpty_instructions_ofEmissions (lines : List Line) :
    (Program.ofEmissions (effectsOf lines)).instructions.isEmpty =
      !lines.any (·.statement.isOperation) := by
  have hany : (placed lines).any (·.2.statement.isOperation) =
      lines.any (·.statement.isOperation) :=
    calc (placed lines).any (·.2.statement.isOperation)
        = ((placed lines).map Prod.snd).any (·.statement.isOperation) := by rw [List.any_map]; rfl
      _ = lines.any (·.statement.isOperation) := by rw [map_snd_placed]
  rw [Program.ofEmissions, effectsOf, instructions_effects, List.isEmpty_map, ← hany,
    Bool.eq_iff_iff, List.isEmpty_iff, List.filter_eq_nil_iff, Bool.not_eq_true', List.any_eq_false]

theorem Program.fault?_of_forall_lt {p : Program} (h : ∀ w ∈ p.words, w.1 < memorySize) :
    p.fault? = if p.instructions.isEmpty then some .emptyProgram else none := by
  rw [fault?, Memory.find?_words_eq_none_iff.mpr h]
  rfl

/-- A program whose words all go to addresses can be loaded unless it has no instruction. -/
theorem Simulator.load_of_forall_lt {p : Program} (h : ∀ w ∈ p.words, w.1 < memorySize) {σ : Type}
    [Sink σ] (s : Simulator σ) :
    (s.load p).1 = if p.instructions.isEmpty then .error .emptyProgram else .ok () := by
  have hfault := Program.fault?_of_forall_lt h
  by_cases hempty : p.instructions.isEmpty
  · rw [if_pos hempty] at hfault ⊢
    exact (load_of_fault? hfault s).1
  · rw [if_neg hempty] at hfault ⊢
    obtain ⟨machine, hload⟩ := exists_load_of_fault? hfault
    exact (hload σ s).1

/-- **What is assembled fits.** The words of an assembled program all go to addresses, so memory
takes the program, and loading it into any simulator fails only if no line names an operation, for
just that reason. Where no line is an `ORG`, the words go to the first addresses, one to each. -/
theorem assemble_fits {source : String} {program : Program}
    (h : (assemble source).outcome = .ok program) :
    (∀ i ∈ program.instructions, i.origin ≤ 0xFFF) ∧
    (∀ d ∈ program.data, d.origin ≤ 0xFFF) ∧
    Memory.check program = .ok () ∧
    ∃ tokens lines, tokenize source = .ok tokens ∧ parse tokens = .ok lines ∧
      (∀ (σ : Type) [Sink σ] (s : Simulator σ), (s.load program).1 =
        if lines.any (·.statement.isOperation) then .ok () else .error .emptyProgram) ∧
      ((∀ l ∈ lines, l.origin? = none) →
        (program.words.map Prod.fst).Perm (List.range program.size)) := by
  obtain ⟨tokens, lines, ht, hp, hconsistent, rfl, -⟩ := consistent_of_assemble h
  have hwords := hconsistent.lt_of_mem_words
  have hboth := hwords
  rw [Program.words, List.forall_mem_append, List.forall_mem_map, List.forall_mem_map] at hboth
  obtain ⟨hinstructions, hdata⟩ := hboth
  refine ⟨fun i hi ↦ Nat.le_of_lt_succ (hinstructions i hi),
    fun d hd ↦ Nat.le_of_lt_succ (hdata d hd), Memory.check_of_forall_lt hwords, tokens, lines,
    ht, hp, ?_, map_fst_words_perm⟩
  intro σ _ s
  rw [s.load_of_forall_lt hwords, isEmpty_instructions_ofEmissions]
  cases lines.any (·.statement.isOperation) <;> rfl

/-- A text that goes up to the last address and has no operation. -/
def numbersAtEnd : String := "DEC -1\nORG FFE\nHEX 2\nDEC 3\nEND"

def numbersAtEndProgram : Program := ⟨[], [⟨0, 0xFFFF⟩, ⟨0xFFE, 2⟩, ⟨0xFFF, 3⟩]⟩

theorem assemble_fits_numbersAtEnd :
    (assemble numbersAtEnd).outcome = .ok numbersAtEndProgram ∧
    (∀ d ∈ numbersAtEndProgram.data, d.origin ≤ 0xFFF) ∧
    Memory.check numbersAtEndProgram = .ok () ∧
    ((Simulator.withSink EventLog.empty).load numbersAtEndProgram).1 = .error .emptyProgram := by
  have h : (assemble numbersAtEnd).outcome = .ok numbersAtEndProgram := rfl
  obtain ⟨-, hdata, hcheck, -⟩ := assemble_fits h
  exact ⟨h, hdata, hcheck, rfl⟩

end BasicComputer
