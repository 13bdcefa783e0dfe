import BasicComputer.Proofs.AddressRange
import BasicComputer.Proofs.LineGrammar

/-!
# What lines state

A line with a mnemonic states an operation, which can be told from its words and the symbol table:
no tokens, kinds or bits are needed for that. The assembler turns such a line into a word, and the
machine takes the word apart again. What the machine sees is what the line states.

An address may be written with any number of digits. Only its residue modulo the size of memory
counts, and so it is with a label that stands for the place right behind the last address.

What a line states is said here by a function from words to operations. It looks up the mnemonic and
the name, and it is used neither by the assembler nor by the machine. To compare the two through it
is more than to see that decoding undoes encoding: both could agree on a reading that nobody would
give to the line.

The letter of indirection, for example, may be a label, a name and a mark on one line. The function
goes by the place of a word alone.
-/

namespace BasicComputer

/-! ## Stated operations -/

/-- The words of a line without the label in front, if there is one. -/
def withoutLabel : List (List Char) → List (List Char)
  | [] => []
  | w :: ws => if IsReserved w then w :: ws else ws

/-- The address that an operand names: the value of a decimal number or what a label stands for,
reduced to the size of memory. -/
def namedAddress? (symbols : SymbolTable) (place : List Char) : Option Nat :=
  (if Numeral.isDecimal place then some (Numeral.value 10 place)
    else symbols.lookup? (String.ofList place)).map (· % memorySize)

/-- The operation that a mnemonic and the words behind it state. -/
def operationOf? (symbols : SymbolTable) : Mnemonic → List (List Char) → Option Operation
  | .memory op, [place] =>
    (namedAddress? symbols place).map fun a ↦ .memory op (BitVec.ofNat 16 a) false
  | .memory op, [place, ['I']] =>
    (namedAddress? symbols place).map fun a ↦ .memory op (BitVec.ofNat 16 a) true
  | .register op, [] => some (.register op)
  | .io op, [] => some (.io op)
  | _, _ => none

/-- The operation that the words of a line state. -/
def statedOperation? (symbols : SymbolTable) (ws : List (List Char)) : Option Operation :=
  match withoutLabel ws with
  | [] => none
  | w :: operands => (Mnemonic.ofName? (String.ofList w)).bind (operationOf? symbols · operands)

section Stated

variable {symbols : SymbolTable} {operands : List (List Char)}

theorem Mnemonic.ofName?_name (m : Mnemonic) : ofName? m.name = some m := by
  rcases m with op | op | op
  · cases op <;> rfl
  · cases op <;> rfl
  · cases op <;> rfl

theorem operationOf?_ne_unknown {m : Mnemonic} (w : Word) :
    operationOf? symbols m operands ≠ some (.unknown w) := by
  unfold operationOf?
  split <;> simp

/-- Every word has a meaning to the machine, but some of these meanings cannot be stated. -/
theorem statedOperation?_ne_unknown {ws : List (List Char)} (w : Word) :
    statedOperation? symbols ws ≠ some (.unknown w) := by
  unfold statedOperation?
  split
  · exact (Option.some_ne_none _).symm
  · intro h
    obtain ⟨m, -, hm⟩ := Option.bind_eq_some_iff.mp h
    exact operationOf?_ne_unknown w hm

theorem withoutLabel_name (k : Keyword) (ws : List (List Char)) :
    withoutLabel (k.name.toList :: ws) = k.name.toList :: ws := if_pos (isReserved_name k)

theorem statedOperation?_name (m : Mnemonic) :
    statedOperation? symbols (m.name.toList :: operands) = operationOf? symbols m operands := by
  have hname : withoutLabel (m.name.toList :: operands) = m.name.toList :: operands :=
    withoutLabel_name (.mnemonic m) operands
  rw [statedOperation?, hname]
  dsimp only
  rw [String.ofList_toList, Mnemonic.ofName?_name]
  rfl

theorem statedOperation?_label {w : List Char} (hw : ¬IsReserved w) (m : Mnemonic) :
    statedOperation? symbols (w :: m.name.toList :: operands) =
      operationOf? symbols m operands := by
  have hname : withoutLabel (m.name.toList :: operands) = m.name.toList :: operands :=
    withoutLabel_name (.mnemonic m) operands
  have hlabel : withoutLabel (w :: m.name.toList :: operands) = m.name.toList :: operands :=
    if_neg hw
  rw [← statedOperation?_name, statedOperation?, statedOperation?, hlabel, hname]

end Stated

/-! ## From words to operations -/

section Lines

variable {symbols : SymbolTable} {previous : Option Token} {l : Line}

theorem setWidth_lowAddress_ofNat (n : Nat) :
    (lowAddress (BitVec.ofNat 16 n)).setWidth 16 = BitVec.ofNat 16 (n % memorySize) := by
  rw [setWidth_lowAddress, BitVec.toNat_ofNat, Nat.mod_mod_of_dvd n (by decide)]

theorem namedAddress?_token {place : Place} (hplace : place.WellFormed) {head : Token}
    {op : MemoryOp} (hhead : head.keyword? = some (.mnemonic (.memory op)))
    (hkind : Token.kindOf (some head) place.token.toLexeme = place.token.kind)
    {marker : Option Token} (hl : l.statement = .memory op place marker)
    (hresolves : l.Resolves symbols) :
    namedAddress? symbols place.token.text.toList = some (place.value symbols % memorySize) := by
  cases place with
  | number t =>
    have hdecimal : Numeral.isDecimal t.text.toList := isDecimal_of_kindOf hhead hkind hplace
    have hdigits : t.text.toList.filter Numeral.isDecimalDigit = t.text.toList := by
      rw [List.filter_eq_self]
      rw [Numeral.isDecimal, Bool.and_eq_true, List.all_eq_true] at hdecimal
      exact hdecimal.2
    rw [Place.token, namedAddress?, if_pos hdecimal, Place.value, decimalAddress, hdigits,
      Numeral.valueMod_eq, Nat.mod_mod]
    rfl
  | symbol t =>
    have hname : ¬Numeral.isDecimal t.text.toList := not_isDecimal_of_isName hplace.2
    rw [Line.Resolves, hl] at hresolves
    obtain ⟨a, ha⟩ := Option.isSome_iff_exists.mp hresolves
    rw [Place.token, namedAddress?, if_neg hname, String.ofList_toList, Place.value, ha]
    rfl

/-- The word of a statement with a mnemonic is decoded as the operation that the mnemonic and the
words behind it state. -/
theorem Line.operationOf?_operands (hw : l.WellFormed) (hresolves : l.Resolves symbols)
    {m : Mnemonic} (hm : l.statement.keyword = .mnemonic m)
    (h : Token.Classified (some l.head) l.statement.operands) :
    operationOf? symbols m (l.statement.operands.map (·.text.toList)) =
      some (decode (l.word symbols)) := by
  have hkeyword := hw.head
  have hoperands := hw.operands
  rw [word]
  cases hs : l.statement with
  | memory op place marker =>
    rw [hs] at h hkeyword hoperands hm
    obtain rfl : .memory op = m := Keyword.mnemonic.inj hm
    obtain ⟨hplace, hmarker⟩ := hoperands
    obtain ⟨hkind, hrest⟩ := h
    have haddress := namedAddress?_token hplace hkeyword hkind hs hresolves
    dsimp only
    rw [decode_encode_memory, setWidth_lowAddress_ofNat]
    cases marker with
    | none =>
      rw [Statement.operands, Option.toList_none, List.map_singleton, operationOf?, haddress]
      rfl
    | some t =>
      have hI : t.text = "I" := Token.text_eq_mark (hrest.1.trans (hmarker t rfl))
      have hmark : "I".toList = ['I'] := rfl
      rw [Statement.operands, Option.toList_some, List.map_cons, List.map_singleton, hI, hmark,
        operationOf?, haddress]
      rfl
  | register op =>
    rw [hs] at hm
    obtain rfl : .register op = m := Keyword.mnemonic.inj hm
    exact congrArg some (decode_encode_register op).symm
  | io op =>
    rw [hs] at hm
    obtain rfl : .io op = m := Keyword.mnemonic.inj hm
    exact congrArg some (decode_encode_io op).symm
  | origin value | datum radix value | finish =>
    rw [hs] at hm
    cases hm

theorem Statement.exists_mnemonic {s : Statement} (h : s.isOperation) :
    ∃ m, s.keyword = .mnemonic m := by
  cases s with
  | memory op place marker => exact ⟨.memory op, rfl⟩
  | register op => exact ⟨.register op, rfl⟩
  | io op => exact ⟨.io op, rfl⟩
  | origin value | datum radix value | finish => cases h

/-- The word of a line is decoded as the operation that the words of the line state. -/
theorem Line.statedOperation?_tokens (hw : l.WellFormed) (hresolves : l.Resolves symbols)
    (hop : l.statement.isOperation) (h : Token.Classified previous l.tokens) :
    statedOperation? symbols (l.tokens.map (·.text.toList)) = some (decode (l.word symbols)) := by
  obtain ⟨m, hm⟩ := Statement.exists_mnemonic hop
  have hhead : l.head.text = m.name := by
    rw [Token.text_of_keyword? hw.head, hm]
    rfl
  unfold tokens at h ⊢
  cases hlabel : l.label with
  | none =>
    rw [hlabel] at h
    rw [Option.toList_none, List.nil_append, List.map_cons, hhead, statedOperation?_name]
    exact operationOf?_operands hw hresolves hm h.2
  | some t =>
    rw [hlabel] at h
    obtain ⟨hkind, -, hrest⟩ := h
    have hsymbol := isSymbol_of_kindOf hkind (hw.label t hlabel)
    rw [Option.toList_some, List.singleton_append, List.map_cons, List.map_cons, hhead,
      statedOperation?_label hsymbol.free]
    exact operationOf?_operands hw hresolves hm hrest

end Lines

/-! ## Instructions -/

section Source

variable {source : String} {tokens : List Token} {lines : List Line}

/-- Every line that is read is made up of the words of one line of the text. -/
theorem exists_raw_of_mem_lines (ht : tokenize source = .ok tokens) (hp : parse tokens = .ok lines)
    {l : Line} (hl : l ∈ lines) :
    ∃ raw, 1 ≤ l.number ∧ (Text.lines source.toList)[l.number - 1]? = some raw ∧
      l.source = (CodeLine.ofRaw l.number raw).text ∧
      l.tokens.map (·.text.toList) = (CodeLine.ofRaw l.number raw).words := by
  obtain ⟨c, hc, (hline : l.StandsOn c)⟩ := exists_mem_of_forall₂ (standsOn_of_parse ht hp).flip hl
  have hmem := (List.mem_filter.mp hc).1
  obtain ⟨raw, hle, hraw, hcode⟩ := exists_raw_of_mem_codeLines hmem
  rw [hline.number_eq, hline.source_eq, hline.map_text_tokens (isClean_of_tokenize ht c hmem)]
  exact ⟨raw, hle, hraw, congrArg CodeLine.text hcode, congrArg CodeLine.words hcode⟩

theorem pairwise_number_placed (ht : tokenize source = .ok tokens) (hp : parse tokens = .ok lines) :
    (placed lines).Pairwise fun p q ↦ p.2.number < q.2.number := by
  have hnumbers : (lines.map Line.number).Pairwise (· < ·) := by
    rw [map_number_of_standsOn (standsOn_of_parse ht hp), List.pairwise_map]
    exact (pairwise_codeLines source).filter _
  rw [← map_snd_placed lines, List.map_map, List.pairwise_map] at hnumbers
  exact hnumbers

end Source

/-- **The machine does what the lines state.** Every instruction of an assembled text has the number
of a line of this text and that line, in upper case, without its comment and without the blanks
around it. Its word is decoded as the operation that the words of the line state. Further
instructions are from further down. -/
theorem decode_assembled {source : String} {program : Program}
    (h : (assemble source).outcome = .ok program) :
    (∀ i ∈ program.instructions, ∃ raw,
      1 ≤ i.line ∧ (Text.lines source.toList)[i.line - 1]? = some raw ∧
      i.source = (CodeLine.ofRaw i.line raw).text ∧
      statedOperation? (assemble source).symbols (CodeLine.ofRaw i.line raw).words =
        some (decode i.word) ∧
      ∀ w, decode i.word ≠ .unknown w) ∧
    program.instructions.Pairwise fun i j ↦ i.line < j.line := by
  obtain ⟨tokens, lines, ht, hp, hconsistent, rfl, hsymbols⟩ := consistent_of_assemble h
  rw [hsymbols, Program.ofEmissions, effectsOf, instructions_effects]
  constructor
  · rw [List.forall_mem_map]
    intro p hmem
    obtain ⟨hplaced, hop⟩ := List.mem_filter.mp hmem
    have hl := mem_of_mem_placed hplaced
    obtain ⟨raw, hle, hraw, hsource, hwords⟩ := exists_raw_of_mem_lines ht hp hl
    obtain ⟨previous, hclassified⟩ := exists_classified_of_parse ht hp hl
    have hstated := Line.statedOperation?_tokens (hconsistent.wellFormed _ hl)
      (hconsistent.resolves _ hl) hop hclassified
    rw [hwords] at hstated
    refine ⟨raw, hle, hraw, hsource, hstated, fun w hw ↦ ?_⟩
    rw [hw] at hstated
    exact statedOperation?_ne_unknown w hstated
  · rw [List.pairwise_map]
    exact (pairwise_number_placed ht hp).filter _

/-- A text whose first line has the letter for indirection in three roles, and whose second
instruction has an address far beyond memory. -/
def manifoldMark : String := "i, lda i i // all three\n\nBUN 12345678901234567890 I\nEND"

def manifoldMarkProgram : Program :=
  ⟨[⟨0, 0xA000, "I, LDA I I", 1⟩, ⟨1, 0xCAD2, "BUN 12345678901234567890 I", 3⟩], []⟩

theorem decode_assembled_manifoldMark :
    (assemble manifoldMark).outcome = .ok manifoldMarkProgram ∧
    (∀ i ∈ manifoldMarkProgram.instructions, ∃ raw,
      (Text.lines manifoldMark.toList)[i.line - 1]? = some raw ∧
      statedOperation? (assemble manifoldMark).symbols (CodeLine.ofRaw i.line raw).words =
        some (decode i.word)) ∧
    decode 0xA000 = .memory .lda 0 true := by
  have h : (assemble manifoldMark).outcome = .ok manifoldMarkProgram := rfl
  obtain ⟨hstated, -⟩ := decode_assembled h
  refine ⟨h, fun i hi ↦ ?_, by decide⟩
  obtain ⟨raw, -, hraw, -, hoperation, -⟩ := hstated i hi
  exact ⟨raw, hraw, hoperation⟩

end BasicComputer
