import BasicComputer.Proofs.AddressRange
import BasicComputer.Proofs.LineRuns
import BasicComputer.Proofs.Spelling

/-!
# Names do not matter

A label can have any name. If the labels of a text get other names, and different labels different
ones, the text is assembled to the same words at the same addresses, and its labels stand for what
they stood for under their old names.

A new name might be taken for something else: `I` for the mark of indirection, `A` for a number. But
a line can be told from its words. So it is enough to exchange the names in the lines that have been
read, and to see that the new text has the words of these lines.

## Renaming lines instead of texts

A text with new names has tokens in other columns, and perhaps of other kinds. Renaming its tokens
would have to account for both. Renamed lines are well formed, and they have the words of the new
text, and there is only one way to read these words. So the new text is read as these lines up to
their places, whatever is between its words.

## Injectivity

Two labels with one new name would be one label defined twice. That the renaming is injective is
asked for on the labels of the text alone, since names that are not labels do not occur in a text
that is assembled.
-/

namespace BasicComputer

/-! ## Renaming -/

section Definitions

variable (r : String → String)

/-- A token with another text if it is a name. -/
def Token.renamed (t : Token) : Token :=
  { t with text := if t.kind = .identifier then r t.text else t.text }

def Place.renamed : Place → Place
  | number t => number t
  | symbol t => symbol (t.renamed r)

def Statement.renamed : Statement → Statement
  | memory op place marker => memory op (place.renamed r) marker
  | register op => register op
  | io op => io op
  | origin value => origin value
  | datum radix value => datum radix value
  | finish => finish

/-- A line with other names for its label and for what it refers to. -/
def Line.renamed (l : Line) : Line :=
  ⟨l.label.map (Token.renamed r), l.head, l.statement.renamed r⟩

def SymbolTable.renamed (table : SymbolTable) : SymbolTable :=
  ⟨table.entries.map fun e ↦ (r e.1, e.2)⟩

/-- The words of a text whose names are exchanged, line by line. -/
def renamedWords (tokens : List Token) : List (List (List Char)) :=
  (lineRuns tokens).map (List.map fun t ↦ (t.renamed r).text.toList)

/-- Whether labels get names, and different labels different ones. -/
structure IsRenaming (labels : List String) : Prop where
  injective : ∀ a ∈ labels, ∀ b ∈ labels, r a = r b → a = b
  symbols : ∀ a ∈ labels, IsSymbol (r a).toList

end Definitions

/-! ## Renamed lines -/

section Lines

variable {r : String → String} {labels : List String}

namespace Token

variable {t : Token}

theorem text_renamed (h : t.kind = .identifier) : (t.renamed r).text = r t.text := if_pos h

theorem renamed_of_ne (h : t.kind ≠ .identifier) : t.renamed r = t := by
  rw [renamed, if_neg h]

theorem renamed_of_kind {kind : TokenKind} (h : t.kind = kind) (hkind : kind ≠ .identifier) :
    t.renamed r = t := by
  rw [← h] at hkind
  exact renamed_of_ne hkind

theorem isEnd_renamed (t : Token) : (t.renamed r).isEnd = t.isEnd := by
  by_cases h : t.kind = .identifier
  · have hne : t.kind ≠ .keyword := by
      rw [h]
      exact TokenKind.noConfusion
    rw [isEnd_of_kind_ne hne, isEnd_of_kind_ne (t := t.renamed r) hne]
  · rw [renamed_of_ne h]

end Token

theorem Place.token_renamed {place : Place} (h : place.WellFormed) :
    (place.renamed r).token = place.token.renamed r := by
  cases place with
  | number t => exact (Token.renamed_of_kind h TokenKind.noConfusion).symm
  | symbol t => rfl

namespace Statement

/-- Only a name that stands for an address is exchanged. -/
theorem operands_renamed {s : Statement} (h : s.WellFormed) :
    (s.renamed r).operands = s.operands.map (Token.renamed r) := by
  have hvalue {value : Token} {radix : Radix} (hkind : value.kind = .number radix) :
      [value] = [value].map (Token.renamed r) := by
    rw [List.map_singleton, Token.renamed_of_kind hkind TokenKind.noConfusion]
  cases s with
  | memory op place marker =>
    have hmarker : marker.toList = marker.toList.map (Token.renamed r) := by
      cases marker with
      | none => rfl
      | some t =>
        rw [Option.toList_some, List.map_singleton,
          Token.renamed_of_kind (h.2 t rfl) TokenKind.noConfusion]
    exact congrArg₂ List.cons (Place.token_renamed h.1) hmarker
  | origin value => exact hvalue h
  | datum radix value => exact hvalue h
  | register _ | io _ | finish => rfl

theorem keyword_renamed (s : Statement) : (s.renamed r).keyword = s.keyword := by
  cases s <;> rfl

theorem isOperation_renamed (s : Statement) : (s.renamed r).isOperation = s.isOperation := by
  cases s <;> rfl

theorem isDatum_renamed (s : Statement) : (s.renamed r).isDatum = s.isDatum := by
  cases s <;> rfl

theorem emits_renamed (s : Statement) : (s.renamed r).emits = s.emits := by
  rw [emits, emits, isOperation_renamed, isDatum_renamed]

theorem renamed_eq_datum_iff {s : Statement} {radix : Radix} {value : Token} :
    s.renamed r = datum radix value ↔ s = datum radix value := by
  cases s <;> simp [renamed]

theorem wellFormed_renamed {s : Statement} (h : s.WellFormed)
    (hnames : ∀ t ∈ s.operands, t.kind = .identifier → IsSymbol (r t.text).toList) :
    (s.renamed r).WellFormed := by
  cases s with
  | memory op place marker =>
    refine ⟨?_, h.2⟩
    cases place with
    | number t => exact h.1
    | symbol t =>
      obtain ⟨hkind, -⟩ := h.1
      refine ⟨hkind, ?_⟩
      rw [Token.text_renamed hkind]
      exact (hnames t List.mem_cons_self hkind).name
  | register _ | io _ | origin _ | datum _ _ | finish => exact h

theorem spelled_renamed {s : Statement} (h : s.Spelled) : (s.renamed r).Spelled := by
  cases s with
  | memory op place marker => cases place <;> exact h
  | register _ | io _ | origin _ | datum _ _ | finish => trivial

theorem operands_words_renamed {s : Statement} (hs : s.WellFormed)
    (hnames : ∀ t ∈ s.operands, t.kind = .identifier → IsSymbol (r t.text).toList)
    (h : Operands s.keyword (s.operands.map (·.text.toList))) :
    Operands (s.renamed r).keyword ((s.renamed r).operands.map (·.text.toList)) := by
  cases s with
  | memory op place marker =>
    cases place with
    | number t => exact h
    | symbol t =>
      obtain ⟨hkind, -⟩ := hs.1
      have hsymbol := hnames t List.mem_cons_self hkind
      rw [← Token.text_renamed (r := r) hkind] at hsymbol
      rcases marker with _ | u
      · exact .direct op (.inr hsymbol)
      · have hI : u.text.toList = ['I'] := by
          generalize hws : List.map _ _ = ws at h
          cases h with
          | direct => cases hws
          | indirect => exact (List.cons.inj (List.cons.inj hws).2).1
        have hindirect := Operands.indirect op (.inr hsymbol)
        rwa [← hI] at hindirect
  | register _ | io _ | origin _ | datum _ _ | finish => exact h

end Statement

namespace Line

variable {l : Line}

theorem mem_tokens_of_mem_label {t : Token} (ht : t ∈ l.label) : t ∈ l.tokens :=
  List.mem_append_left _ (Option.mem_toList.mpr ht)

theorem mem_tokens_of_mem_operands {t : Token} (ht : t ∈ l.statement.operands) : t ∈ l.tokens :=
  List.mem_append_right _ (List.mem_cons_of_mem _ ht)

theorem tokens_renamed (hl : l.WellFormed) :
    (l.renamed r).tokens = l.tokens.map (Token.renamed r) := by
  have hhead := Token.renamed_of_kind (r := r) (Token.kind_of_keyword? hl.head)
    TokenKind.noConfusion
  rw [tokens, tokens, List.map_append, List.map_cons, hhead,
    ← Statement.operands_renamed hl.operands, ← Option.toList_map]
  rfl

theorem origin?_renamed (l : Line) : (l.renamed r).origin? = l.origin? := by
  rw [origin?, origin?, renamed]
  cases l.statement <;> rfl

theorem definition?_renamed (hl : l.WellFormed) (address : Nat) :
    (l.renamed r).definition? address = (l.definition? address).map fun e ↦ (r e.1, e.2) := by
  have hlabel : (l.renamed r).label = l.label.map (Token.renamed r) := rfl
  rw [definition?, definition?, hlabel, labelValue, labelValue, origin?_renamed, Option.map_map,
    Option.map_map]
  refine Option.map_congr fun t ht ↦ ?_
  rw [Function.comp_apply, Function.comp_apply, Token.text_renamed (hl.label t ht).1]

section Names

variable (hl : l.WellFormed)
  (hnames : ∀ t ∈ l.tokens, t.kind = .identifier → IsSymbol (r t.text).toList)

include hl hnames

theorem wellFormed_renamed : (l.renamed r).WellFormed := by
  constructor
  · intro t' ht'
    obtain ⟨t, ht, rfl⟩ := Option.map_eq_some_iff.mp ht'
    have hkind := (hl.label t ht).1
    refine ⟨hkind, ?_⟩
    rw [Token.text_renamed hkind]
    exact (hnames t (mem_tokens_of_mem_label ht) hkind).name
  · exact hl.head.trans (congrArg some (Statement.keyword_renamed _).symm)
  · exact Statement.wellFormed_renamed hl.operands
      fun t ht ↦ hnames t (mem_tokens_of_mem_operands ht)

theorem spelled_renamed (hs : l.Spelled) : (l.renamed r).Spelled := by
  constructor
  · intro t' ht'
    obtain ⟨t, ht, rfl⟩ := Option.map_eq_some_iff.mp ht'
    have hkind := (hl.label t ht).1
    rw [Token.text_renamed hkind]
    exact (hnames t (mem_tokens_of_mem_label ht) hkind).free
  · exact Statement.spelled_renamed hs.statement
  · exact Statement.operands_words_renamed hl.operands
      (fun t ht ↦ hnames t (mem_tokens_of_mem_operands ht)) hs.operands

end Names

end Line

/-! ## Labels and words under other names -/

theorem SymbolTable.lookup?_renamed {table : SymbolTable} {label : String}
    (h : ∀ e ∈ table.entries, r label = r e.1 → label = e.1) :
    (table.renamed r).lookup? (r label) = table.lookup? label := by
  rw [lookup?, lookup?, renamed]
  generalize table.entries = entries at h
  dsimp only
  induction entries with
  | nil => rfl
  | cons e entries ih =>
    rw [List.forall_mem_cons] at h
    have hkey : (r label == r e.1) = (label == e.1) := by
      rw [Bool.eq_iff_iff, beq_iff_eq, beq_iff_eq]
      exact ⟨h.1, congrArg r⟩
    rw [List.map_cons, List.lookup_cons, List.lookup_cons, hkey, ih h.2]

theorem symbolsOf_renamed {lines : List Line} (hw : ∀ l ∈ lines, l.WellFormed) :
    symbolsOf (lines.map (Line.renamed r)) = (symbolsOf lines).renamed r := by
  have hentries : (symbolsOf (lines.map (Line.renamed r))).entries =
      ((symbolsOf lines).renamed r).entries := by
    rw [entries_symbolsOf, placed_map Line.origin?_renamed fun l ↦ l.statement.emits_renamed,
      SymbolTable.renamed, entries_symbolsOf, List.filterMap_map, List.map_filterMap]
    refine List.filterMap_congr fun p hp ↦ ?_
    exact Line.definition?_renamed (hw p.2 (mem_of_mem_placed hp)) p.1
  exact congrArg SymbolTable.mk hentries

theorem labelsOf_renamed {lines : List Line} (hw : ∀ l ∈ lines, l.WellFormed) :
    labelsOf (lines.map (Line.renamed r)) = (labelsOf lines).map r := by
  have hfst (lines : List Line) : labelsOf lines = (symbolsOf lines).entries.map Prod.fst :=
    (map_fst_definitions [] lines).symm
  rw [hfst, hfst, symbolsOf_renamed hw, SymbolTable.renamed, List.map_map, List.map_map]
  rfl

/-- A line stands for the same word if the name that it refers to stands for the same address. -/
theorem Line.word_renamed {table : SymbolTable} {l : Line} (hl : l.WellFormed)
    (hr : IsRenaming r labels) (htable : ∀ e ∈ table.entries, e.1 ∈ labels)
    (hnames : ∀ t ∈ l.tokens, t.kind = .identifier → t.text ∈ labels) :
    (l.renamed r).word (table.renamed r) = l.word table := by
  have hstatement : (l.renamed r).statement = l.statement.renamed r := rfl
  rw [word, word, hstatement]
  cases hs : l.statement with
  | memory op place marker =>
    cases place with
    | number t => rfl
    | symbol t =>
      have hw := hl.operands
      rw [hs] at hw
      obtain ⟨⟨hkind, -⟩, -⟩ := hw
      have hlabel : t.text ∈ labels := by
        refine hnames t (mem_tokens_of_mem_operands ?_) hkind
        rw [hs]
        exact List.mem_cons_self
      have hlookup : (table.renamed r).lookup? (r t.text) = table.lookup? t.text :=
        SymbolTable.lookup?_renamed fun e he ↦ hr.injective _ hlabel _ (htable e he)
      rw [Statement.renamed, Place.renamed]
      dsimp only
      rw [Place.value, Place.value, Token.text_renamed hkind, hlookup]
  | register _ | io _ | origin _ | datum _ _ | finish => rfl

section Text

variable {lines : List Line} (hr : IsRenaming r (labelsOf lines))
  (hw : ∀ l ∈ lines, l.WellFormed)

include hw

theorem flatMap_tokens_renamed :
    (lines.map (Line.renamed r)).flatMap Line.tokens =
      (lines.flatMap Line.tokens).map (Token.renamed r) := by
  rw [List.flatMap_map, List.map_flatMap]
  exact List.flatMap_congr fun l hl ↦ Line.tokens_renamed (hw l hl)

theorem stacked_renamed (h : Stacked lines) : Stacked (lines.map (Line.renamed r)) := by
  constructor
  · intro l' hl' t' ht'
    obtain ⟨l, hl, rfl⟩ := List.mem_map.mp hl'
    rw [Line.tokens_renamed (hw l hl)] at ht'
    obtain ⟨t, ht, rfl⟩ := List.mem_map.mp ht'
    exact h.together l hl t ht
  · rw [List.isChain_map]
    exact h.apart

include hr

/-- A text is as acceptable as it was under its old names. -/
theorem Acceptable.renamed (h : Acceptable (lines.flatMap Line.tokens) lines) :
    Acceptable ((lines.map (Line.renamed r)).flatMap Line.tokens)
      (lines.map (Line.renamed r)) := by
  have hemits (l : Line) : (l.renamed r).statement.emits = l.statement.emits :=
    l.statement.emits_renamed
  have hend : Token.isEnd ∘ Token.renamed r = Token.isEnd := funext Token.isEnd_renamed
  constructor
  · rw [flatMap_tokens_renamed hw, List.countP_map, hend]
    exact h.one_end
  · obtain ⟨t, hlast, ht⟩ := h.end_last
    refine ⟨t.renamed r, ?_, t.isEnd_renamed.trans ht⟩
    rw [flatMap_tokens_renamed hw, List.getLast?_map, hlast]
    rfl
  · rw [List.forall_mem_map]
    intro l hl
    rw [Line.origin?_renamed]
    exact h.origins l hl
  · rw [labelsOf_renamed hw]
    exact h.labels.map_on hr.injective
  · rw [length_segment_map hemits]
    exact h.start_fits
  · exact (fitsOrigins_map hemits Line.origin?_renamed).mpr h.origins_fit
  · rw [List.forall_mem_map, labelsOf_renamed hw]
    intro l hl t' ht' hkind
    have hoperands := Statement.operands_renamed (r := r) (hw l hl).operands
    rw [Line.renamed, hoperands] at ht'
    obtain ⟨t, ht, rfl⟩ := List.mem_map.mp ht'
    have hname : t.kind = .identifier := hkind
    rw [Token.text_renamed hname]
    exact List.mem_map_of_mem (h.names l hl t ht hname)
  · rw [List.forall_mem_map]
    intro l hl radix value hs
    exact h.numbers l hl radix value (Statement.renamed_eq_datum_iff.mp hs)

/-- Lines leave the same words at the same addresses under other names. -/
theorem alike_renamed
    (hnames : ∀ l ∈ lines, ∀ t ∈ l.tokens, t.kind = .identifier → t.text ∈ labelsOf lines) :
    (Program.ofEmissions (effectsOf lines)).Alike
      (.ofEmissions (effectsOf (lines.map (Line.renamed r)))) := by
  have hplaced := placed_map (f := Line.renamed r) Line.origin?_renamed
    (fun l ↦ l.statement.emits_renamed) lines
  have hword {p : Nat × Line} (hp : p ∈ placed lines) :
      (p.2.renamed r).word ((symbolsOf lines).renamed r) = p.2.word (symbolsOf lines) := by
    have hl := mem_of_mem_placed hp
    refine Line.word_renamed (hw p.2 hl) hr (fun e he ↦ ?_) (hnames p.2 hl)
    rw [← map_fst_definitions [] lines]
    exact List.mem_map_of_mem he
  have hfilter (kind : Statement → Bool) (hkind : ∀ s : Statement, kind (s.renamed r) = kind s) :
      ((placed lines).map fun p ↦ (p.1, p.2.renamed r)).filter (kind ·.2.statement) =
        ((placed lines).filter (kind ·.2.statement)).map fun p ↦ (p.1, p.2.renamed r) := by
    rw [List.filter_map]
    exact congrArg (fun q ↦ ((placed lines).filter q).map _) (funext fun p ↦ hkind p.2.statement)
  rw [Program.ofEmissions, Program.ofEmissions, effectsOf, effectsOf, hplaced, symbolsOf_renamed hw]
  constructor
  · rw [instructions_effects, instructions_effects, hfilter _ Statement.isOperation_renamed,
      List.map_map, List.map_map, List.map_map]
    refine List.map_congr_left fun p hp ↦ ?_
    exact congrArg (p.1, ·) (hword (List.mem_filter.mp hp).1).symm
  · dsimp only
    rw [data_effects, data_effects, hfilter _ Statement.isDatum_renamed, List.map_map]
    refine List.map_congr_left fun p hp ↦ ?_
    exact congrArg (Datum.mk p.1) (hword (List.mem_filter.mp hp).1).symm

end Text

end Lines

/-! ## Renamed texts -/

section Texts

variable {source : String} {tokens : List Token} {lines : List Line}

theorem renamedWords_of_parse {r : String → String} (hp : parse tokens = .ok lines) :
    renamedWords r tokens =
      (lines.map (Line.renamed r)).map fun l ↦ l.tokens.map (·.text.toList) := by
  rw [renamedWords, ← map_tokens_of_parse hp, List.map_map, List.map_map]
  refine List.map_congr_left fun l hl ↦ ?_
  rw [Function.comp_apply, Function.comp_apply, Line.tokens_renamed ((parse_eq_ok hp).2 l hl),
    List.map_map]
  rfl

/-- **Names do not matter.** Let a text be assembled, and let its labels get other names, different
labels different ones, none of them reserved. Then each text that has the words of this text, with
new names in place of the old ones and in whatever layout, is assembled to the same words at the
same addresses, with the same table of symbols under the new names. Only its first word must not
look like a number, as it would be taken for one. -/
theorem assemble_renamed {source' : String} {r : String → String} {p : Program}
    (h : (assemble source).outcome = .ok p) (ht : tokenize source = .ok tokens)
    (hr : IsRenaming r ((assemble source).symbols.entries.map Prod.fst))
    (hwords : wordLines source' = renamedWords r tokens) (hfirst : ¬StartsWithNumeral source') :
    (∃ q, (assemble source').outcome = .ok q ∧ p.Alike q) ∧
      (assemble source').symbols = (assemble source).symbols.renamed r := by
  obtain ⟨_, lines, htokens, hp, hacceptable⟩ := acceptable_of_assemble h
  obtain rfl := Except.ok.inj (ht.symm.trans htokens)
  obtain ⟨houtcome, hsymbols⟩ := assemble_of_acceptable ht hp hacceptable
  obtain rfl : p = _ := Except.ok.inj (h.symm.trans houtcome)
  obtain ⟨rfl, hw⟩ := parse_eq_ok hp
  rw [hsymbols, symbolsOf, map_fst_definitions] at hr
  have hnames : ∀ l ∈ lines, ∀ t ∈ l.tokens, t.kind = .identifier → t.text ∈ labelsOf lines :=
    fun l hl t ↦ Line.mem_labelsOf_of_mem_tokens hl (hw l hl) (hacceptable.names l hl)
  have hnew : ∀ l ∈ lines, ∀ t ∈ l.tokens, t.kind = .identifier → IsSymbol (r t.text).toList :=
    fun l hl t ht hkind ↦ hr.symbols _ (hnames l hl t ht hkind)
  have hw' : ∀ l ∈ lines.map (Line.renamed r), l.WellFormed :=
    List.forall_mem_map.mpr fun l hl ↦ Line.wellFormed_renamed (hw l hl) (hnew l hl)
  have hs' : ∀ l ∈ lines.map (Line.renamed r), l.Spelled :=
    List.forall_mem_map.mpr fun l hl ↦
      Line.spelled_renamed (hw l hl) (hnew l hl) (spelled_of_parse ht hp l hl)
  have hstacked := stacked_renamed (r := r) hw
    (stacked_of_standsOn ((pairwise_codeLines source).filter _) (standsOn_of_parse ht hp))
  -- the new text is read as the lines with the new names, somewhere else
  rw [renamedWords_of_parse hp] at hwords
  obtain ⟨tokens', lines', ht', hp', hmoved⟩ := exists_parse_of_spelled hw' hs' hwords hfirst
  obtain ⟨⟨q, hq, halike⟩, hsymbols'⟩ :=
    assemble_of_map_moved hw' hstacked (hacceptable.renamed hr hw) ht' hp' hmoved
  rw [hsymbols', hsymbols, symbolsOf_renamed hw]
  refine ⟨⟨q, hq, ?_⟩, rfl⟩
  have hsame := alike_renamed hr hw hnames
  exact ⟨hsame.instructions.trans halike.instructions, hsame.data.trans halike.data⟩

end Texts

/-- A text with references to labels below. -/
def namedText : String := "LDA X I\nX, STA Y\nY, HEX F\nEND"

/-- The same text with names that could be a mark of indirection and a number. -/
def otherNamesText : String := "LDA I I\nI, STA A\nA, HEX F\nEND"

/-- The names that the labels get. -/
def otherName (name : String) : String := if name = "X" then "I" else "A"

theorem assemble_renamed_otherNames :
    ∃ p q, (assemble namedText).outcome = .ok p ∧ (assemble otherNamesText).outcome = .ok q ∧
      p.Alike q ∧ (assemble namedText).symbols = ⟨[("X", 1), ("Y", 2)]⟩ ∧
      (assemble otherNamesText).symbols = ⟨[("I", 1), ("A", 2)]⟩ := by
  have hsymbols : (assemble namedText).symbols = ⟨[("X", 1), ("Y", 2)]⟩ := rfl
  have hr : IsRenaming otherName ((assemble namedText).symbols.entries.map Prod.fst) := by
    rw [hsymbols]
    refine ⟨by decide, fun a ha ↦ ?_⟩
    constructor <;> revert a <;> decide
  obtain ⟨tokens, ht, hwords⟩ : ∃ tokens, tokenize namedText = .ok tokens ∧
      wordLines otherNamesText = renamedWords otherName tokens := ⟨_, rfl, by decide +kernel⟩
  have hfirst : ¬StartsWithNumeral otherNamesText := by
    rintro ⟨w, ⟨rfl⟩, hkeyword, -⟩
    exact hkeyword rfl
  obtain ⟨⟨q, hq, halike⟩, hsame⟩ := assemble_renamed rfl ht hr hwords hfirst
  exact ⟨_, q, rfl, hq, halike, hsymbols, hsame⟩

end BasicComputer
