import BasicComputer.Proofs.Layout

/-!
# Words at their addresses

Assembly computes addresses twice, once for the labels and once for the words, and each time with a
counter of its own that every line updates. The first pass was compared with the addresses of lines
before; here the second one is, and so the two agree. Where a text is assembled, a label on a line
with a word stands for the address that the word goes to.

The second pass repeats the checks of the first, and none of them can fail any more. Only a number
out of range is left to stop it.

## A second counter

Nothing is handed from the first pass to the second but the symbol table. The second pass counts
again, from zero, and refuses again what the first one would have refused. That the two counters
agree is not shown by comparing them step by step. Each is compared with the address of a line,
which is defined without either.

## What a line leaves behind

The effect of a line is defined for all lines, also for those whose number is out of range or whose
operand is undefined, where it is never used. A total function needs no proof that a line is all
right, and so the lines of a text can be mapped by it first and checked afterwards.
-/

namespace BasicComputer

/-! ## The second pass -/

namespace Radix

/-- Whether a numeral stands for a word. Decimal numbers have a sign. -/
def InRange (radix : Radix) (cs : List Char) : Prop :=
  match radix with
  | decimal => -32768 ≤ Numeral.signedValue cs ∧ Numeral.signedValue cs ≤ 32767
  | hexadecimal => Numeral.value 16 cs ≤ 0xFFFF

instance : (radix : Radix) → (cs : List Char) → Decidable (radix.InRange cs)
  | decimal, cs =>
    inferInstanceAs (Decidable (-32768 ≤ Numeral.signedValue cs ∧ Numeral.signedValue cs ≤ 32767))
  | hexadecimal, cs => inferInstanceAs (Decidable (Numeral.value 16 cs ≤ 0xFFFF))

/-- The word that a numeral stands for. -/
def word (radix : Radix) (cs : List Char) : Word :=
  match radix with
  | decimal => BitVec.ofInt 16 (Numeral.signedValue cs)
  | hexadecimal => BitVec.ofNat 16 (Numeral.value 16 cs)

/-- What a numeral that stands for no word is reported as. -/
def rangeFault (radix : Radix) (literal : String) : SemanticFault :=
  match radix with
  | decimal => .decimalOutOfRange literal
  | hexadecimal => .hexadecimalOutOfRange literal

end Radix

theorem literalWord_eq (radix : Radix) (t : Token) :
    literalWord radix t =
      if radix.InRange t.text.toList then .ok (radix.word t.text.toList)
      else .error (t.faults (radix.rangeFault t.text)) := by
  cases radix <;> rfl

/-- The address that an operand stands for, zero in place of a name that is no label. -/
def Place.value (symbols : SymbolTable) : Place → Nat
  | number t => decimalAddress t.text.toList
  | symbol t => (symbols.lookup? t.text).getD 0

namespace Line

/-- A number out of the range of its directive. -/
def literalFault? (l : Line) : Option SemanticError :=
  match l.statement with
  | .datum radix value =>
    if radix.InRange value.text.toList then none
    else some (value.faults (radix.rangeFault value.text))
  | _ => none

/-- Whether the name that a line refers to, if it refers to one, is in the symbol table. -/
def Resolves (symbols : SymbolTable) (l : Line) : Prop :=
  match l.statement with
  | .memory _ (.symbol t) _ => symbols.contains t.text
  | _ => True

/-- The word that a line stands for, zero if it stands for none. -/
def word (symbols : SymbolTable) (l : Line) : Word :=
  match l.statement with
  | .memory op place marker =>
    encode (.memory op (BitVec.ofNat 16 (place.value symbols)) marker.isSome)
  | .register op => encode (.register op)
  | .io op => encode (.io op)
  | .datum radix value => radix.word value.text.toList
  | .origin _ | .finish => 0

/-- What a line at `address` leaves behind. -/
def effect (symbols : SymbolTable) (address : Nat) (l : Line) : Emission :=
  match l.statement with
  | .origin value => .origin (Numeral.value 16 value.text.toList)
  | .finish => .finish
  | .datum radix _ => .datum radix ⟨address, l.word symbols⟩
  | .memory _ _ _ | .register _ | .io _ =>
    .instruction ⟨address, l.word symbols, l.source, l.number⟩

variable {symbols : SymbolTable} {l : Line}

theorem literalFault?_of_not_isDatum (h : l.statement.isDatum = false) :
    l.literalFault? = none := by
  unfold literalFault?
  split
  next heq =>
    rw [heq] at h
    cases h
  next => rfl

theorem address_of_resolves (hr : l.Resolves symbols) {op : MemoryOp} {place : Place}
    {marker : Option Token} (hl : l.statement = .memory op place marker) :
    place.address symbols = .ok (place.value symbols) := by
  cases place with
  | number t => rfl
  | symbol t =>
    rw [Resolves, hl] at hr
    obtain ⟨a, ha⟩ := Option.isSome_iff_exists.mp hr
    rw [Place.address, Place.value, ha]
    rfl

/-- A line has its effect unless its number is out of range. -/
theorem emission_eq (hr : l.Resolves symbols) (ho : l.badOrigin? = none) (address : Nat) :
    l.emission symbols address =
      match l.literalFault? with
      | some e => .error e
      | none => .ok (l.effect symbols address) := by
  unfold emission effect word
  cases hl : l.statement with
  | origin value =>
    have hv : ¬0xFFF < Numeral.value 16 value.text.toList := by
      intro hv
      rw [badOrigin?_of_origin hl, if_pos hv] at ho
      cases ho
    rw [literalFault?_of_not_isDatum (by rw [hl]; rfl)]
    dsimp only
    rw [originValue_eq, if_neg hv]
    rfl
  | datum radix value =>
    rw [literalFault?, hl]
    dsimp only
    rw [literalWord_eq]
    split <;> rfl
  | memory op place marker =>
    rw [literalFault?_of_not_isDatum (by rw [hl]; rfl)]
    dsimp only
    rw [address_of_resolves hr hl]
    rfl
  | finish | register op | io op =>
    rw [literalFault?_of_not_isDatum (by rw [hl]; rfl)]
    rfl

end Line

section Emit

variable {symbols : SymbolTable} {l : Line} {location : Nat}

theorem emit_of_error {e : SemanticError} (h : l.emission symbols location = .error e)
    (rest : List Line) : emit symbols location (l :: rest) = ([], .error e) := by
  rw [emit, h]

theorem emit_of_finish (h : l.emission symbols location = .ok .finish) (rest : List Line) :
    emit symbols location (l :: rest) = ([.finish], .ok ()) := by
  rw [emit, h]

theorem emit_of_emits (h : l.emission symbols location = .ok (l.effect symbols location))
    (hl : l.statement.emits) (hlocation : location < memorySize) (rest : List Line) :
    emit symbols location (l :: rest) =
      (l.effect symbols location :: (emit symbols (location + 1) rest).1,
        (emit symbols (location + 1) rest).2) := by
  rw [emit, h, nextLocation, if_pos hlocation]
  unfold Line.effect
  cases hs : l.statement with
  | origin _ | finish =>
    rw [hs] at hl
    cases hl
  | memory _ _ _ | register _ | io _ | datum _ _ => rfl

/-- The second pass over a line that has its effect goes on with the address behind the line. -/
theorem emit_cons {before rest : List Line}
    (h : l.emission symbols (addressAfter before) = .ok (l.effect symbols (addressAfter before)))
    (hover : l.overflow? before = none) (hfinish : FinishesLast (l :: rest)) :
    emit symbols (addressAfter before) (l :: rest) =
      (l.effect symbols (addressAfter before) ::
          (emit symbols (addressAfter (before ++ [l])) rest).1,
        (emit symbols (addressAfter (before ++ [l])) rest).2) := by
  rcases l.origin_or_finish_or_emits with ⟨value, hl⟩ | hl | hl
  · have ho : l.origin? = some (Numeral.value 16 value.text.toList) := by rw [Line.origin?, hl]
    rw [addressAfter_of_origin ho, emit, h, Line.effect, hl]
  · obtain rfl := hfinish.eq_nil hl
    have hend : l.effect symbols (addressAfter before) = .finish := by rw [Line.effect, hl]
    rw [hend] at h ⊢
    rw [emit_of_finish h]
    rfl
  · have hlocation : addressAfter before < memorySize := by
      by_contra hge
      rw [Line.overflow?, if_pos ⟨hl, by omega⟩] at hover
      cases hover
    rw [addressAfter_of_emits hl, emit_of_emits h hl hlocation]

/-- The second pass fails at the first number that is out of range. If there is none, every line
has its effect at its address. -/
theorem emit_eq {before lines : List Line} (hplaced : misplacement? before lines = none)
    (hfinish : FinishesLast lines) (hresolves : ∀ l ∈ lines, l.Resolves symbols) :
    match lines.findSome? Line.literalFault? with
    | some e => (emit symbols (addressAfter before) lines).2 = .error e
    | none => emit symbols (addressAfter before) lines =
        ((contexts before lines).map fun c ↦ c.2.effect symbols (addressAfter c.1), .ok ()) := by
  induction lines generalizing before with
  | nil => rfl
  | cons l rest ih =>
    rw [misplacement?_cons, Option.or_eq_none_iff, Line.misplacement?, Option.or_eq_none_iff,
      Option.or_eq_none_iff] at hplaced
    obtain ⟨⟨⟨hbad, -⟩, hover⟩, hplaced⟩ := hplaced
    rw [List.forall_mem_cons] at hresolves
    have hline := Line.emission_eq hresolves.1 hbad (addressAfter before)
    rw [List.findSome?_cons]
    cases hf : l.literalFault? with
    | some e =>
      rw [hf] at hline
      rw [emit_of_error hline]
    | none =>
      rw [hf] at hline
      have hlater := ih hplaced hfinish.of_cons hresolves.2
      rw [emit_cons hline hover hfinish]
      dsimp only
      cases hr : rest.findSome? Line.literalFault? with
      | some e =>
        rw [hr] at hlater
        exact hlater
      | none =>
        rw [hr] at hlater
        rw [hlater]
        rfl

end Emit

/-! ## Both passes -/

def undefined? (lines : List Line) (tokens : List Token) : Option SemanticError :=
  (tokens.find? fun t ↦ t.kind == .identifier && !(labelsOf lines).contains t.text).map fun t ↦
    t.faults (.undefinedLabel t.text)

def lineFault? (tokens : List Token) (lines : List Line) : Option SemanticError :=
  ((misplacement? [] lines).or (undefined? lines tokens)).or (lines.findSome? Line.literalFault?)

/-- The labels of a text and what they stand for. -/
def symbolsOf (lines : List Line) : SymbolTable := ⟨definitions [] lines⟩

/-- What the lines of a text leave behind. -/
def effectsOf (lines : List Line) : List Emission :=
  (placed lines).map fun p ↦ p.2.effect (symbolsOf lines) p.1

theorem contains_symbolsOf (lines : List Line) (label : String) :
    (symbolsOf lines).contains label = (labelsOf lines).contains label := by
  rw [Bool.eq_iff_iff, SymbolTable.contains_iff, symbolsOf, map_fst_definitions,
    List.contains_iff_mem]

theorem undefinedName?_symbolsOf (lines : List Line) (tokens : List Token) :
    undefinedName? (symbolsOf lines) tokens = undefined? lines tokens := by
  simp only [undefinedName?, undefined?, contains_symbolsOf]

theorem resolves_of_undefined? {lines : List Line} (hw : ∀ l ∈ lines, l.WellFormed)
    (h : undefined? lines (lines.flatMap Line.tokens) = none) :
    ∀ l ∈ lines, l.Resolves (symbolsOf lines) := by
  intro l hl
  rw [undefined?, Option.map_eq_none_iff, List.find?_eq_none] at h
  unfold Line.Resolves
  split
  next op t marker hs =>
    have ht : t ∈ lines.flatMap Line.tokens := by
      refine List.mem_flatMap.mpr ⟨l, hl, ?_⟩
      simp [Line.tokens, hs, Statement.operands, Place.token]
    have hk : t.kind = .identifier := by
      have hoperands := (hw l hl).operands
      rw [hs] at hoperands
      exact hoperands.1.1
    have hdefined := h t ht
    rw [hk] at hdefined
    rw [contains_symbolsOf]
    simpa using hdefined
  next => trivial

theorem layout_symbolsOf {lines : List Line} (hfinish : FinishesLast lines) :
    match misplacement? [] lines with
    | some e => (layout 0 .empty lines).2 = .error e
    | none => layout 0 .empty lines =
        (⟨symbolsOf lines, (symbolsOf lines).entries.map labelEntry⟩, .ok ()) :=
  layout_eq rfl hfinish

theorem emit_symbolsOf {lines : List Line} (hw : ∀ l ∈ lines, l.WellFormed)
    (hplaced : misplacement? [] lines = none) (hfinish : FinishesLast lines)
    (hdefined : undefined? lines (lines.flatMap Line.tokens) = none) :
    match lines.findSome? Line.literalFault? with
    | some e => (emit (symbolsOf lines) 0 lines).2 = .error e
    | none => emit (symbolsOf lines) 0 lines = (effectsOf lines, .ok ()) := by
  rw [effectsOf, placed, List.map_map]
  exact emit_eq hplaced hfinish (resolves_of_undefined? hw hdefined)

/-- Lines whose end is all right are assembled unless something else is wrong with them. -/
theorem assembleLines_eq {tokens : List Token} {lines : List Line}
    (hparse : parse tokens = .ok lines) (hend : endFault? tokens = none) (reported : List Entry) :
    match lineFault? tokens lines with
    | some e => (assembleLines tokens lines reported).outcome = .error (.semantic e)
    | none => (assembleLines tokens lines reported).outcome = .ok (.ofEmissions (effectsOf lines)) ∧
        (assembleLines tokens lines reported).symbols = symbolsOf lines := by
  obtain ⟨rfl, hw⟩ := parse_eq_ok hparse
  have hfinish := finishesLast_of_endFault? hw hend
  have hlayout := layout_symbolsOf hfinish
  rw [assembleLines, lineFault?]
  cases hm : misplacement? [] lines with
  | some e =>
    rw [hm] at hlayout
    rcases hl : layout 0 .empty lines with ⟨labels, result⟩
    rw [hl] at hlayout
    obtain rfl : result = .error e := hlayout
    rfl
  | none =>
    rw [hm] at hlayout
    rw [hlayout]
    dsimp only
    rw [undefinedName?_symbolsOf, Option.none_or]
    cases hu : undefined? lines (lines.flatMap Line.tokens) with
    | some e => rfl
    | none =>
      have hemit := emit_symbolsOf hw hm hfinish hu
      rw [Option.none_or]
      cases hf : lines.findSome? Line.literalFault? with
      | some e =>
        rw [hf] at hemit
        rcases he : emit (symbolsOf lines) 0 lines with ⟨emissions, result⟩
        rw [he] at hemit
        obtain rfl : result = .error e := hemit
        rfl
      | none =>
        rw [hf] at hemit
        rw [hemit]
        exact ⟨rfl, rfl⟩

/-! ## Outcomes

The verdict on a text only adds to what is reported, so the outcome is known as soon as it is known
how far the text can be read. -/

section Outcome

variable {source : String} {tokens : List Token}

theorem outcome_assemble (source : String) :
    (assemble source).outcome = (assembleText source).outcome := by
  rw [assemble]

theorem symbols_assemble (source : String) :
    (assemble source).symbols = (assembleText source).symbols := by
  rw [assemble]

theorem outcome_of_lexError {e : LexError} (h : tokenize source = .error e) :
    (assemble source).outcome = .error (.lexical e) := by
  rw [outcome_assemble, assembleText, h]

theorem outcome_of_syntaxError {e : SyntaxError} (htokens : tokenize source = .ok tokens)
    (hparse : parse tokens = .error e) : (assemble source).outcome = .error (.grammatical e) := by
  rw [outcome_assemble, assembleText, htokens]
  dsimp only
  rw [hparse]

/-- A text whose lines are read and whose end is all right is assembled line by line. -/
theorem exists_assembleText_eq {lines : List Line} (htokens : tokenize source = .ok tokens)
    (hparse : parse tokens = .ok lines) (hend : checkEnd tokens = .ok ()) :
    ∃ reported, assembleText source = assembleLines tokens lines reported := by
  rw [assembleText, htokens]
  dsimp only
  rw [hparse]
  dsimp only
  rw [hend]
  exact ⟨_, rfl⟩

/-- A text whose lines are read is assembled unless something is wrong with its end or its
lines. -/
theorem assemble_of_lines {lines : List Line} (htokens : tokenize source = .ok tokens)
    (hparse : parse tokens = .ok lines) :
    match (endFault? tokens).or (lineFault? tokens lines) with
    | some e => (assemble source).outcome = .error (.semantic e)
    | none => (assemble source).outcome = .ok (.ofEmissions (effectsOf lines)) ∧
        (assemble source).symbols = symbolsOf lines := by
  rw [outcome_assemble, symbols_assemble, assembleText, htokens]
  dsimp only
  rw [hparse]
  dsimp only
  rw [checkEnd_eq]
  cases h : endFault? tokens with
  | some e => rfl
  | none => exact assembleLines_eq hparse h _

/-- Assembly gives a program only to a text that can be read and has no fault. -/
theorem assemble_eq_ok {program : Program} (h : (assemble source).outcome = .ok program) :
    ∃ tokens lines, tokenize source = .ok tokens ∧ parse tokens = .ok lines ∧
      endFault? tokens = none ∧ lineFault? tokens lines = none ∧
      program = .ofEmissions (effectsOf lines) ∧ (assemble source).symbols = symbolsOf lines := by
  rcases ht : tokenize source with e | tokens
  · rw [outcome_of_lexError ht] at h
    cases h
  rcases hp : parse tokens with e | lines
  · rw [outcome_of_syntaxError ht hp] at h
    cases h
  have hcases := assemble_of_lines ht hp
  rcases hf : (endFault? tokens).or (lineFault? tokens lines) with _ | e
  · rw [hf] at hcases
    obtain ⟨hend, hline⟩ := Option.or_eq_none_iff.mp hf
    rw [hcases.1, Except.ok.injEq] at h
    exact ⟨tokens, lines, rfl, hp, hend, hline, h.symm, hcases.2⟩
  · rw [hf] at hcases
    rw [hcases] at h
    cases h

end Outcome

/-! ## The program -/

section Effects

variable (symbols : SymbolTable) (ps : List (Nat × Line))

theorem instructions_effects :
    (ps.map fun p ↦ p.2.effect symbols p.1).filterMap Emission.instruction? =
      (ps.filter (·.2.statement.isOperation)).map fun p ↦
        ⟨p.1, p.2.word symbols, p.2.source, p.2.number⟩ := by
  induction ps with
  | nil => rfl
  | cons p ps ih =>
    rw [List.map_cons, List.filterMap_cons, List.filter_cons, ih]
    unfold Line.effect
    cases p.2.statement <;> rfl

theorem data_effects :
    (ps.map fun p ↦ p.2.effect symbols p.1).filterMap Emission.datum? =
      (ps.filter (·.2.statement.isDatum)).map fun p ↦ ⟨p.1, p.2.word symbols⟩ := by
  induction ps with
  | nil => rfl
  | cons p ps ih =>
    rw [List.map_cons, List.filterMap_cons, List.filter_cons, ih]
    unfold Line.effect
    cases p.2.statement <;> rfl

end Effects

theorem entries_symbolsOf (lines : List Line) :
    (symbolsOf lines).entries = (placed lines).filterMap fun p ↦ p.2.definition? p.1 := by
  rw [symbolsOf, definitions, placed, List.filterMap_map]
  rfl

theorem lookup_symbolsOf {lines : List Line} (h : (labelsOf lines).Nodup) {p : Nat × Line}
    (hp : p ∈ placed lines) {t : Token} (ht : t ∈ p.2.label) :
    (symbolsOf lines).lookup? t.text = some (p.2.labelValue p.1) := by
  have hmem : (t.text, p.2.labelValue p.1) ∈ (symbolsOf lines).entries := by
    rw [entries_symbolsOf, List.mem_filterMap]
    exact ⟨p, hp, by rw [Line.definition?, show p.2.label = some t from ht]; rfl⟩
  rw [← map_fst_definitions [] lines] at h
  exact lookup_of_mem h hmem

/-- **Both passes agree on every address.** In a text that is assembled, every line that names an
operation makes one instruction and every line that gives a number makes one word of data, in the
order of the lines and at their addresses. The symbol table holds the labels of the lines and no
others, each with the address of its line, or with the address that the line sets. -/
theorem assemble_placed {source : String} {program : Program}
    (h : (assemble source).outcome = .ok program) :
    ∃ tokens lines, tokenize source = .ok tokens ∧ parse tokens = .ok lines ∧
      program.instructions =
        ((placed lines).filter (·.2.statement.isOperation)).map (fun p ↦
          ⟨p.1, p.2.word (assemble source).symbols, p.2.source, p.2.number⟩) ∧
      program.data =
        ((placed lines).filter (·.2.statement.isDatum)).map (fun p ↦
          ⟨p.1, p.2.word (assemble source).symbols⟩) ∧
      (assemble source).symbols.entries =
        (placed lines).filterMap (fun p ↦ p.2.definition? p.1) ∧
      (labelsOf lines).Nodup ∧
      ∀ p ∈ placed lines, ∀ t ∈ p.2.label,
        (assemble source).symbols.lookup? t.text = some (p.2.labelValue p.1) := by
  obtain ⟨tokens, lines, ht, hp, -, hfault, rfl, hsymbols⟩ := assemble_eq_ok h
  rw [lineFault?, Option.or_eq_none_iff, Option.or_eq_none_iff, misplacement?_eq_none_iff] at hfault
  obtain ⟨⟨⟨-, hlabels, -⟩, -⟩, -⟩ := hfault
  have hnil : (labelsOf []).Nodup := List.nodup_nil
  have hnodup : (labelsOf lines).Nodup := (repeatedLabel?_eq_none_iff hnil).mp hlabels
  rw [hsymbols]
  refine ⟨tokens, lines, ht, hp, ?_, ?_, entries_symbolsOf lines, hnodup, ?_⟩
  · exact instructions_effects (symbolsOf lines) (placed lines)
  · exact data_effects (symbolsOf lines) (placed lines)
  · intro p hp t ht
    exact lookup_symbolsOf hnodup hp ht

/-- A text with a label ahead of its use and labels on all kinds of lines, in three segments. -/
def threeSegments : String := "S, BUN B\nA, ORG 10\nDEC 1\nB, LDA A I\nORG 40\nC, HLT\nE, END"

def threeSegmentsProgram : Program :=
  ⟨[⟨0, 0x4011, "S, BUN B", 1⟩, ⟨0x11, 0xA010, "B, LDA A I", 4⟩, ⟨0x40, 0x7001, "C, HLT", 6⟩],
    [⟨0x10, 1⟩]⟩

theorem assemble_threeSegments :
    (assemble threeSegments).outcome = .ok threeSegmentsProgram ∧
    ∃ tokens lines, tokenize threeSegments = .ok tokens ∧ parse tokens = .ok lines ∧
      threeSegmentsProgram.instructions =
        ((placed lines).filter (·.2.statement.isOperation)).map (fun p ↦
          ⟨p.1, p.2.word (assemble threeSegments).symbols, p.2.source, p.2.number⟩) := by
  have h : (assemble threeSegments).outcome = .ok threeSegmentsProgram := rfl
  obtain ⟨tokens, lines, ht, hp, hinstructions, -⟩ := assemble_placed h
  exact ⟨h, tokens, lines, ht, hp, hinstructions⟩

end BasicComputer
