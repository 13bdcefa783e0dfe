import BasicComputer.Proofs.Renumbering
import BasicComputer.Proofs.WrittenNumbers

/-!
# Starting at zero

The location counter starts at zero, so a text that starts with `ORG 0` starts where it would start
anyway. Writing this line in front of a text changes nothing but the numbers of the lines below it,
with one exception: the first word of a text goes by its shape alone, and with the line in front of
it, it is the first word no more.

The exception concerns texts that start with what looks like a hexadecimal numeral, and is no
reserved word. Such a word is taken for a number, with which no statement starts; behind other words
it would be a name. Those texts are never assembled, however they go on.

## Acceptance and effect

That both texts are assembled or neither is shown condition by condition: each of the conditions of
acceptance holds with the line in front if it holds without it. None of them mentions a counter, so
the line in front has to be considered at the start of the text and nowhere else. The words are then
compared by their addresses, which are defined without a counter as well.

## The exception

What looks like a numeral at the start of a text is a number there, and one line further down it is
what the word above makes of it. The two texts then have different tokens from the start, and there
is nothing to compare. It is enough that no statement starts with a number.
-/

namespace BasicComputer

/-! ## The line in front -/

/-- A text behind the line `ORG 0`. -/
def zeroOrigin (source : String) : String := "ORG 0\n" ++ source

def startToken : Token := ⟨⟨⟨1, 1⟩, "ORG", "ORG 0"⟩, .keyword⟩

def zeroToken : Token := ⟨⟨⟨1, 5⟩, "0", "ORG 0"⟩, .number .hexadecimal⟩

/-- The line `ORG 0`. -/
def startLine : Line := ⟨none, startToken, .origin zeroToken⟩

/-- The first word of a text. -/
def firstWord? (source : String) : Option String :=
  ((codeLines source).flatMap CodeLine.lexemes).head?.map (·.text)

/-- Whether a text starts with a word that goes by its shape and has that of a number. -/
def StartsWithNumeral (source : String) : Prop :=
  ∃ w ∈ firstWord? source, ¬(Keyword.ofName? w).isSome ∧ Numeral.isHex w.toList

section Tokens

variable {source : String}

theorem codeLines_append {front : String} {cs : List Char}
    (hfront : Text.uppercase front = cs ++ ['\n']) (hcs : '\n' ∉ cs) (source : String) :
    codeLines (front ++ source) =
      ⟨1, beforeComment cs⟩ :: (codeLines source).map CodeLine.down := by
  have hlines : Text.lines (Text.uppercase (front ++ source)) =
      cs :: Text.lines (Text.uppercase source) := by
    rw [Text.uppercase_append, hfront, List.append_assoc]
    exact Text.lines_append_newline hcs _
  rw [codeLines, hlines, List.zipIdx_cons, List.zipIdx_succ, List.map_cons, List.map_map, codeLines,
    List.map_map]
  rfl

theorem flatMap_lexemes_down (cs : List CodeLine) :
    (cs.map CodeLine.down).flatMap CodeLine.lexemes =
      (cs.flatMap CodeLine.lexemes).map Lexeme.down := by
  rw [List.flatMap_map, List.map_flatMap]
  exact congrArg (fun f ↦ cs.flatMap f) (funext CodeLine.lexemes_down)

theorem codeLines_zeroOrigin (source : String) :
    codeLines (zeroOrigin source) =
      ⟨1, ['O', 'R', 'G', ' ', '0']⟩ :: (codeLines source).map CodeLine.down := by
  have hfront : Text.uppercase "ORG 0\n" = ['O', 'R', 'G', ' ', '0'] ++ ['\n'] := rfl
  exact codeLines_append hfront (by decide) source

theorem lexemes_zeroOrigin (source : String) :
    lexemes (zeroOrigin source) =
      ((lexemes source).map fun xs ↦
        startToken.toLexeme :: zeroToken.toLexeme :: xs.map Lexeme.down).mapError
          LexError.down := by
  have hstart : CodeLine.error? ⟨1, ['O', 'R', 'G', ' ', '0']⟩ = none := rfl
  have herrors : ((codeLines source).map CodeLine.down).findSome? CodeLine.error? =
      ((codeLines source).findSome? CodeLine.error?).map LexError.down := by
    rw [List.findSome?_map, List.map_findSome?]
    exact congrArg (fun f ↦ (codeLines source).findSome? f) (funext CodeLine.error?_down)
  rw [lexemes, lexemes, codeLines_zeroOrigin, List.findSome?_cons, hstart, List.flatMap_cons,
    flatMap_lexemes_down, herrors]
  cases (codeLines source).findSome? CodeLine.error? <;> rfl

theorem line_ne_zero_of_mem {x : Lexeme}
    (hx : x ∈ (codeLines source).flatMap CodeLine.lexemes) : x.line ≠ 0 := by
  obtain ⟨l, hl, hx⟩ := List.mem_flatMap.mp hx
  obtain ⟨⟨code, n⟩, hmem, rfl⟩ := List.mem_map.mp hl
  obtain ⟨r, -, rfl⟩ := List.mem_map.mp hx
  have hle : 1 ≤ n := List.le_snd_of_mem_zipIdx hmem
  exact Nat.ne_of_gt hle

/-- Where a lexeme that does not go by its shape stands at the start of a text or behind the line
`ORG 0` makes no difference to its kind. -/
theorem kindOf_zeroToken {x : Lexeme} (hline : x.line ≠ 0)
    (h : ¬(Keyword.ofName? x.text).isSome → ¬Numeral.isHex x.text.toList) :
    Token.kindOf (some zeroToken) x.down = Token.kindOf none x := by
  have htext : x.down.text = x.text := rfl
  rw [Token.kindOf, Token.kindOf, htext]
  by_cases hkeyword : (Keyword.ofName? x.text).isSome
  · rw [if_pos hkeyword, if_pos hkeyword]
  rw [if_neg hkeyword, if_neg hkeyword]
  by_cases hI : x.text = "I"
  · -- what stands on another line marks no indirection
    have hbelow : ¬(zeroToken.line = x.down.line ∧ zeroToken.kind.isOperand) := by
      rintro ⟨hsame, -⟩
      exact hline (Nat.succ_inj.mp hsame).symm
    rw [if_pos hI, if_pos hI, if_neg hbelow]
  · have hhex := h hkeyword
    have hdecimal : ¬Numeral.isDecimal x.text.toList :=
      fun hdecimal ↦ hhex (Numeral.isHex_of_isDecimal hdecimal)
    rw [if_neg hI, if_neg hI, Token.kindByShape, if_neg hdecimal, if_neg hhex]
    rfl

theorem classify_zeroToken {xs : List Lexeme} (hline : ∀ x ∈ xs, x.line ≠ 0)
    (h : ∀ x ∈ xs.head?, ¬(Keyword.ofName? x.text).isSome → ¬Numeral.isHex x.text.toList) :
    Token.classify (some zeroToken) (xs.map Lexeme.down) =
      (Token.classify none xs).map Token.down := by
  cases xs with
  | nil => rfl
  | cons x xs =>
    rw [List.map_cons, Token.classify, Token.classify, List.map_cons,
      kindOf_zeroToken (hline x List.mem_cons_self) (h x rfl)]
    exact congrArg _ (Token.classify_down ⟨x, Token.kindOf none x⟩ xs)

theorem tokenize_zeroOrigin (h : ¬StartsWithNumeral source) :
    tokenize (zeroOrigin source) =
      ((tokenize source).map fun ts ↦ startToken :: zeroToken :: ts.map Token.down).mapError
        LexError.down := by
  rw [tokenize, tokenize, lexemes_zeroOrigin, lexemes]
  split
  next => rfl
  next =>
    have hfirst : ∀ x ∈ ((codeLines source).flatMap CodeLine.lexemes).head?,
        ¬(Keyword.ofName? x.text).isSome → ¬Numeral.isHex x.text.toList := by
      intro x hx hkeyword hhex
      exact h ⟨x.text, Option.mem_map_of_mem _ hx, hkeyword, hhex⟩
    have hclassify := classify_zeroToken (fun x ↦ line_ne_zero_of_mem) hfirst
    have hstart (ys : List Lexeme) :
        Token.classify none (startToken.toLexeme :: zeroToken.toLexeme :: ys) =
          startToken :: zeroToken :: Token.classify (some zeroToken) ys := rfl
    simp only [Except.map, Except.mapError]
    rw [hstart, hclassify]

theorem line_ne_zero_of_tokenize {tokens : List Token} (h : tokenize source = .ok tokens) :
    ∀ t ∈ tokens, t.line ≠ 0 := by
  rw [tokenize, lexemes] at h
  split at h
  next => cases h
  next =>
    cases h
    intro t ht
    have hmem : t.toLexeme ∈ (Token.classify none
        ((codeLines source).flatMap CodeLine.lexemes)).map Token.toLexeme :=
      List.mem_map_of_mem ht
    rw [Token.map_toLexeme_classify] at hmem
    exact line_ne_zero_of_mem hmem

end Tokens

/-! ## Lines -/

theorem parse_zeroOrigin {tokens : List Token} (h : ∀ t ∈ tokens, t.line ≠ 0) :
    parse (startToken :: zeroToken :: tokens.map Token.down) =
      ((parse tokens).map fun lines ↦ startLine :: lines.map Line.down).mapError
        SyntaxError.down := by
  have hgroups : groupByLine (startToken :: [zeroToken] ++ tokens.map Token.down) =
      (startToken, [zeroToken]) :: groupByLine (tokens.map Token.down) := by
    apply groupByLine_append
    · exact List.forall_mem_singleton.mpr rfl
    · intro u hu
      rw [List.head?_map] at hu
      obtain ⟨t, ht, rfl⟩ := Option.map_eq_some_iff.mp hu
      exact fun hline ↦ h t (List.mem_of_mem_head? ht) (Nat.succ_inj.mp hline)
  have hread : Line.read startToken [zeroToken] = .ok startLine := rfl
  have hrest := parse_down tokens
  rw [parse] at hrest ⊢
  rw [show startToken :: zeroToken :: tokens.map Token.down =
      startToken :: [zeroToken] ++ tokens.map Token.down from rfl, hgroups, List.mapM_cons, hread,
    hrest]
  cases parse tokens <;> rfl

section Acceptable

variable {tokens : List Token} {lines : List Line}

theorem labelsOf_zeroOrigin (lines : List Line) :
    labelsOf (startLine :: lines.map Line.down) = labelsOf lines :=
  labelsOf_moved oneDown lines

theorem one_end_zeroOrigin :
    (startToken :: zeroToken :: tokens.map Token.down).countP Token.isEnd =
      tokens.countP Token.isEnd := by
  have hstart : ¬startToken.isEnd := by decide
  have hzero : ¬zeroToken.isEnd := by decide
  rw [List.countP_cons_of_neg hstart, List.countP_cons_of_neg hzero, List.countP_map]
  rfl

theorem end_last_zeroOrigin :
    (∃ t, (startToken :: zeroToken :: tokens.map Token.down).getLast? = some t ∧ t.isEnd) ↔
      ∃ t, tokens.getLast? = some t ∧ t.isEnd := by
  rcases List.eq_nil_or_concat tokens with rfl | ⟨body, last, rfl⟩
  · have hzero : ¬zeroToken.isEnd := by decide
    simp [hzero]
  · rw [List.concat_eq_append, List.map_append, ← List.cons_append, ← List.cons_append,
      List.map_singleton, List.getLast?_concat, List.getLast?_concat]
    simp [Token.isEnd_down]

theorem origins_zeroOrigin :
    (∀ l ∈ startLine :: lines.map Line.down, ∀ start, l.origin? = some start → start ≤ 0xFFF) ↔
      ∀ l ∈ lines, ∀ start, l.origin? = some start → start ≤ 0xFFF := by
  have horigin : startLine.origin? = some 0 := rfl
  rw [List.forall_mem_cons, List.forall_mem_map, horigin]
  simp only [Line.origin?_moved]
  exact and_iff_right (by simp)

theorem names_zeroOrigin :
    (∀ l ∈ startLine :: lines.map Line.down, ∀ t ∈ l.statement.operands, t.kind = .identifier →
        t.text ∈ labelsOf (startLine :: lines.map Line.down)) ↔
      ∀ l ∈ lines, ∀ t ∈ l.statement.operands, t.kind = .identifier → t.text ∈ labelsOf lines := by
  have hstart : ∀ t ∈ startLine.statement.operands, t.kind = .identifier →
      t.text ∈ labelsOf lines := by
    intro t ht hk
    rw [List.mem_singleton.mp ht] at hk
    cases hk
  rw [List.forall_mem_cons, List.forall_mem_map, labelsOf_zeroOrigin, and_iff_right hstart]
  refine forall₂_congr fun l _ ↦ ?_
  rw [Line.down, Line.moved, Statement.operands_moved, List.forall_mem_map]
  rfl

theorem numbers_zeroOrigin :
    (∀ l ∈ startLine :: lines.map Line.down, ∀ radix value, l.statement = .datum radix value →
        radix.InRange value.text.toList) ↔
      ∀ l ∈ lines, ∀ radix value, l.statement = .datum radix value →
        radix.InRange value.text.toList := by
  have hstart : ∀ radix value, startLine.statement = .datum radix value →
      radix.InRange value.text.toList := fun _ _ hs ↦ Statement.noConfusion hs
  rw [List.forall_mem_cons, List.forall_mem_map, and_iff_right hstart]
  exact forall₂_congr fun l _ ↦ Line.numbers_moved oneDown

/-- Behind the line in front there is as much room as there is without it. -/
theorem origins_fit_zeroOrigin :
    FitsOrigins (startLine :: lines.map Line.down) ↔
      (segment lines).length ≤ memorySize ∧ FitsOrigins lines := by
  have horigin : startLine.origin? = some 0 := rfl
  rw [fitsOrigins_cons, fitsOrigins_moved, length_segment_moved, horigin]
  refine and_congr_left fun _ ↦ ⟨fun h ↦ ?_, ?_⟩
  · rw [← Nat.zero_add (segment lines).length]
    exact h 0 rfl
  · rintro h start ⟨rfl⟩
    rwa [Nat.zero_add]

theorem acceptable_zeroOrigin :
    Acceptable (startToken :: zeroToken :: tokens.map Token.down)
        (startLine :: lines.map Line.down) ↔ Acceptable tokens lines := by
  have hsegment : segment (startLine :: lines.map Line.down) = [] := rfl
  constructor
  · intro h
    exact {
      one_end := one_end_zeroOrigin.symm.trans h.one_end
      end_last := end_last_zeroOrigin.mp h.end_last
      origins := origins_zeroOrigin.mp h.origins
      labels := by rw [← labelsOf_zeroOrigin]; exact h.labels
      start_fits := (origins_fit_zeroOrigin.mp h.origins_fit).1
      origins_fit := (origins_fit_zeroOrigin.mp h.origins_fit).2
      names := names_zeroOrigin.mp h.names
      numbers := numbers_zeroOrigin.mp h.numbers }
  · intro h
    exact {
      one_end := one_end_zeroOrigin.trans h.one_end
      end_last := end_last_zeroOrigin.mpr h.end_last
      origins := origins_zeroOrigin.mpr h.origins
      labels := by rw [labelsOf_zeroOrigin]; exact h.labels
      start_fits := by rw [hsegment]; exact Nat.zero_le _
      origins_fit := origins_fit_zeroOrigin.mpr ⟨h.start_fits, h.origins_fit⟩
      names := names_zeroOrigin.mpr h.names
      numbers := numbers_zeroOrigin.mpr h.numbers }

end Acceptable

/-! ## Addresses and words -/

section Placed

variable {lines : List Line}

theorem addressAfter_cons_of_origin {l : Line} (h : l.origin? = some 0) (before : List Line) :
    addressAfter (l :: before) = addressAfter before := by
  have hbase : baseOf (l :: before) = baseOf before := by
    rw [baseOf, baseOf, List.reverse_cons, List.findSome?_append]
    cases before.reverse.findSome? Line.origin? <;> simp [h]
  -- what counts are the lines behind the last `ORG`, and this one is in front of all others
  have hsince : sinceOrigin (l :: before) = sinceOrigin before := by
    have hl : [l].takeWhile (·.origin?.isNone) = [] := by simp [h]
    rw [sinceOrigin, sinceOrigin, List.reverse_cons, List.takeWhile_append, hl, List.append_nil]
    split
    next hall => exact ((List.takeWhile_prefix _).eq_of_length hall).symm
    next => rfl
  rw [addressAfter, addressAfter, hbase, hsince]

theorem contexts_zeroOrigin (before lines : List Line) :
    contexts (startLine :: before.map Line.down) (lines.map Line.down) =
      (contexts before lines).map fun c ↦ (startLine :: c.1.map Line.down, c.2.down) := by
  rw [contexts_cons, contexts_map, List.map_map]
  rfl

/-- The addresses of lines stay what they are. -/
theorem placed_zeroOrigin (lines : List Line) :
    placed (startLine :: lines.map Line.down) =
      (0, startLine) :: (placed lines).map fun p ↦ (p.1, p.2.down) := by
  have hcontexts := contexts_zeroOrigin [] lines
  rw [placed, contexts, List.nil_append, placed, List.map_cons, List.map_map]
  rw [List.map_nil] at hcontexts
  rw [hcontexts, List.map_map]
  refine congrArg _ (List.map_congr_left fun c _ ↦ ?_)
  have haddress := addressAfter_cons_of_origin (l := startLine) rfl (c.1.map Line.down)
  rw [Function.comp_apply, Function.comp_apply, haddress, addressAfter_moved]

theorem symbolsOf_zeroOrigin (lines : List Line) :
    symbolsOf (startLine :: lines.map Line.down) = symbolsOf lines := by
  have hentries : (symbolsOf (startLine :: lines.map Line.down)).entries =
      (symbolsOf lines).entries := by
    rw [entries_symbolsOf, entries_symbolsOf, placed_zeroOrigin, List.filterMap_cons,
      List.filterMap_map]
    exact List.filterMap_congr fun p _ ↦ p.2.definition?_moved oneDown p.1
  rw [symbolsOf, symbolsOf]
  exact congrArg SymbolTable.mk hentries

/-- The lines of a kind stay at their addresses, if `ORG` lines are not of this kind. -/
theorem filter_placed_zeroOrigin {kind : Statement → Bool} (hstart : ¬kind startLine.statement)
    (hdown : ∀ s : Statement, kind s.down = kind s) (lines : List Line) :
    (placed (startLine :: lines.map Line.down)).filter (kind ·.2.statement) =
      ((placed lines).filter (kind ·.2.statement)).map fun p ↦ (p.1, p.2.down) := by
  have hfirst (ps : List (Nat × Line)) : ((0, startLine) :: ps).filter (kind ·.2.statement) =
      ps.filter (kind ·.2.statement) := List.filter_cons_of_neg hstart
  rw [placed_zeroOrigin, hfirst, List.filter_map]
  exact congrArg (List.map _) (List.filter_congr fun p _ ↦ hdown p.2.statement)

theorem instructions_zeroOrigin (lines : List Line) :
    (Program.ofEmissions (effectsOf (startLine :: lines.map Line.down))).instructions =
      (Program.ofEmissions (effectsOf lines)).instructions.map Instruction.down := by
  rw [Program.ofEmissions, Program.ofEmissions, effectsOf, effectsOf, symbolsOf_zeroOrigin,
    instructions_effects, instructions_effects,
    filter_placed_zeroOrigin Bool.false_ne_true (Statement.isOperation_moved oneDown), List.map_map,
    List.map_map]
  refine List.map_congr_left fun p _ ↦ ?_
  rw [Function.comp_apply, Function.comp_apply, Line.word_moved]
  rfl

theorem data_zeroOrigin (lines : List Line) :
    (Program.ofEmissions (effectsOf (startLine :: lines.map Line.down))).data =
      (Program.ofEmissions (effectsOf lines)).data := by
  rw [Program.ofEmissions, Program.ofEmissions, effectsOf, effectsOf, symbolsOf_zeroOrigin,
    data_effects, data_effects,
    filter_placed_zeroOrigin Bool.false_ne_true (Statement.isDatum_moved oneDown), List.map_map]
  refine List.map_congr_left fun p _ ↦ ?_
  rw [Function.comp_apply, Line.word_moved]

/-- The lines leave the same program behind, with other line numbers. -/
theorem ofEmissions_zeroOrigin (lines : List Line) :
    Program.ofEmissions (effectsOf (startLine :: lines.map Line.down)) =
      (Program.ofEmissions (effectsOf lines)).down := by
  rw [Program.down, Program.moved, ← instructions_zeroOrigin, ← data_zeroOrigin]

end Placed

/-! ## Texts that start with a number -/

section Numeral

variable {source : String}

theorem Line.kind_of_head?_tokens {l : Line} (h : l.WellFormed) {t : Token}
    (ht : t ∈ l.tokens.head?) : t.kind = .identifier ∨ t.kind = .keyword := by
  rw [tokens] at ht
  cases hlabel : l.label with
  | none =>
    rw [hlabel] at ht
    cases ht
    exact .inr (Token.kind_of_keyword? h.head)
  | some u =>
    rw [hlabel] at ht
    cases ht
    exact .inl (h.label t hlabel).1

/-- No statement starts with a number. -/
theorem kind_of_head?_of_parse {tokens : List Token} {lines : List Line}
    (h : parse tokens = .ok lines) {t : Token} (ht : t ∈ tokens.head?) :
    t.kind = .identifier ∨ t.kind = .keyword := by
  obtain ⟨rfl, hw⟩ := parse_eq_ok h
  cases lines with
  | nil => cases ht
  | cons l rest =>
    rw [List.flatMap_cons, List.head?_append, Option.or_of_isSome (by simp [Line.tokens])] at ht
    exact Line.kind_of_head?_tokens (hw l List.mem_cons_self) ht

theorem not_startsWithNumeral_of_parse {tokens : List Token} {lines : List Line}
    (ht : tokenize source = .ok tokens) (hp : parse tokens = .ok lines) :
    ¬StartsWithNumeral source := by
  rintro ⟨w, hw, hkeyword, hhex⟩
  obtain ⟨x, hx, rfl⟩ := Option.map_eq_some_iff.mp hw
  obtain ⟨xs, hxs⟩ := List.head?_eq_some_iff.mp hx
  rw [tokenize, lexemes, hxs] at ht
  split at ht
  next => cases ht
  next =>
    cases ht
    have hkind := kind_of_head?_of_parse hp (t := ⟨x, Token.kindOf none x⟩) rfl
    -- the letter that marks indirection is no digit
    have hI : x.text ≠ "I" := by
      intro hI
      rw [hI] at hhex
      revert hhex
      decide
    rw [Token.kindOf, if_neg hkeyword, if_neg hI, Token.kindByShape, if_pos hhex] at hkind
    split at hkind <;> simp at hkind

theorem not_startsWithNumeral_of_assemble {program : Program}
    (h : (assemble source).outcome = .ok program) : ¬StartsWithNumeral source := by
  obtain ⟨tokens, lines, ht, hp, -⟩ := acceptable_of_assemble h
  exact not_startsWithNumeral_of_parse ht hp

end Numeral

/-! ## The text and the line in front of it -/

section Outcome

variable {source : String}

/-- What a text is assembled to, it is assembled to behind the line `ORG 0`, but for the numbers of
the lines. -/
theorem outcome_zeroOrigin {program : Program} (h : (assemble source).outcome = .ok program) :
    (assemble (zeroOrigin source)).outcome = .ok program.down ∧
      (assemble (zeroOrigin source)).symbols = (assemble source).symbols := by
  obtain ⟨tokens, lines, ht, hp, hacceptable⟩ := acceptable_of_assemble h
  obtain ⟨houtcome, hsymbols⟩ := assemble_of_acceptable ht hp hacceptable
  rw [houtcome, Except.ok.injEq] at h
  -- a text that is assembled is no exception: it does not start with a numeral
  have htokens := tokenize_zeroOrigin (not_startsWithNumeral_of_assemble houtcome)
  have hparse := parse_zeroOrigin (line_ne_zero_of_tokenize ht)
  rw [ht] at htokens
  rw [hp] at hparse
  have hmoved := assemble_of_acceptable htokens hparse (acceptable_zeroOrigin.mpr hacceptable)
  rw [ofEmissions_zeroOrigin, symbolsOf_zeroOrigin] at hmoved
  rw [← h, hsymbols]
  exact hmoved

/-- Unless it starts with a numeral, a text that is assembled behind the line `ORG 0` is assembled
without it. -/
theorem exists_outcome_of_zeroOrigin (hnumeral : ¬StartsWithNumeral source) {program : Program}
    (h : (assemble (zeroOrigin source)).outcome = .ok program) :
    ∃ p, (assemble source).outcome = .ok p := by
  obtain ⟨tokens', lines', ht', hp', hacceptable⟩ := acceptable_of_assemble h
  -- an error of the text would be an error behind the line in front as well
  rw [tokenize_zeroOrigin hnumeral] at ht'
  rcases ht : tokenize source with e | tokens
  · rw [ht] at ht'
    cases ht'
  rw [ht] at ht'
  cases ht'
  rw [parse_zeroOrigin (line_ne_zero_of_tokenize ht)] at hp'
  rcases hp : parse tokens with e | lines
  · rw [hp] at hp'
    cases hp'
  rw [hp] at hp'
  cases hp'
  exact ⟨_, (assemble_of_acceptable ht hp (acceptable_zeroOrigin.mp hacceptable)).1⟩

theorem exists_outcome_iff_zeroOrigin (hnumeral : ¬StartsWithNumeral source) :
    (∃ p, (assemble source).outcome = .ok p) ↔
      ∃ p, (assemble (zeroOrigin source)).outcome = .ok p := by
  constructor
  · rintro ⟨p, hp⟩
    exact ⟨p.down, (outcome_zeroOrigin hp).1⟩
  · rintro ⟨p, hp⟩
    exact exists_outcome_of_zeroOrigin hnumeral hp

end Outcome

/-! ## Labels in front -/

section Label

theorem isWordChar_of_isNameStart {c : Char} (h : isNameStart c) : isWordChar c := by
  rw [isNameStart, Bool.or_eq_true] at h
  rw [isWordChar]
  rcases h with h | h <;> simp [h]

theorem isWordChar_of_isName {cs : List Char} (h : isName cs) : ∀ c ∈ cs, isWordChar c := by
  cases cs with
  | nil => cases h
  | cons c cs =>
    rw [isName, Bool.and_eq_true, List.all_eq_true] at h
    rw [List.forall_mem_cons]
    refine ⟨isWordChar_of_isNameStart h.1, fun d hd ↦ ?_⟩
    rcases Bool.or_eq_true_iff.mp (h.2 d hd) with hd | hd
    · exact isWordChar_of_isNameStart hd
    · simp [isWordChar, hd]

theorem firstWord?_name {name : String} (h : isName (Text.uppercase name)) (rest : String) :
    firstWord? (name ++ "," ++ rest) = some (String.ofList (Text.uppercase name)) := by
  have hword := isWordChar_of_isName h
  have hupper : Text.uppercase (name ++ "," ++ rest) =
      Text.uppercase name ++ ',' :: Text.uppercase rest := by
    have hcomma : Text.uppercase "," = [','] := rfl
    rw [Text.uppercase_append, Text.uppercase_append, hcomma, List.append_assoc]
    rfl
  have hnewline : '\n' ∉ Text.uppercase name := fun hmem ↦ absurd (hword _ hmem) (by decide)
  have hslash : '/' ∉ Text.uppercase name := fun hmem ↦ absurd (hword _ hmem) (by decide)
  have hline : '\n' ∉ Text.uppercase name ++ [','] := by
    rw [List.mem_append, not_or]
    exact ⟨hnewline, by decide⟩
  have hlines := Text.lines_append (by simp) hline (Text.uppercase rest)
  rw [List.append_assoc, List.singleton_append, List.append_assoc, List.singleton_append] at hlines
  have hcode (l : List Char) : beforeComment (',' :: l) = ',' :: beforeComment l := rfl
  rw [firstWord?, codeLines, hupper, hlines, List.zipIdx_cons, List.map_cons, List.flatMap_cons,
    beforeComment_append hslash, hcode, CodeLine.lexemes, Text.runs]
  cases hname : Text.uppercase name with
  | nil =>
    rw [hname] at h
    cases h
  | cons c cs =>
    rw [hname] at hword
    rw [Text.runsFrom_append_cons hword rfl]
    rfl

theorem not_startsWithNumeral_name {name : String} (h : isName (Text.uppercase name))
    (hhex : ¬Numeral.isHex (Text.uppercase name)) (rest : String) :
    ¬StartsWithNumeral (name ++ "," ++ rest) := by
  rintro ⟨w, hw, -, hnumeral⟩
  rw [firstWord?_name h] at hw
  cases hw
  rw [String.toList_ofList] at hnumeral
  exact hhex hnumeral

end Label

/-- **An initial `ORG 0` is neutral** but for texts that start with a numeral. A text that does not
is assembled exactly if it is assembled behind the line `ORG 0`, and then to the same words at the
same addresses, with the same labels and with line numbers greater by one. A text that starts with a
numeral is never assembled. So a name can be the first label of a text as it can be any other,
unless it is spelled with hexadecimal digits alone. -/
theorem assemble_zeroOrigin (source : String) :
    ((∃ p, (assemble source).outcome = .ok p) ↔
      ¬StartsWithNumeral source ∧ ∃ p, (assemble (zeroOrigin source)).outcome = .ok p) ∧
    (∀ p, (assemble source).outcome = .ok p →
      (assemble (zeroOrigin source)).outcome = .ok p.down ∧
      (assemble (zeroOrigin source)).symbols = (assemble source).symbols) ∧
    ∀ name rest, source = name ++ "," ++ rest → isName (Text.uppercase name) →
      ¬Numeral.isHex (Text.uppercase name) →
      ((∃ p, (assemble source).outcome = .ok p) ↔
        ∃ p, (assemble (zeroOrigin source)).outcome = .ok p) := by
  refine ⟨⟨?_, ?_⟩, fun p hp ↦ outcome_zeroOrigin hp, ?_⟩
  · rintro ⟨p, hp⟩
    exact ⟨not_startsWithNumeral_of_assemble hp, p.down, (outcome_zeroOrigin hp).1⟩
  · rintro ⟨hnumeral, p, hp⟩
    exact exists_outcome_of_zeroOrigin hnumeral hp
  · rintro name rest rfl hname hhex
    exact exists_outcome_iff_zeroOrigin (not_startsWithNumeral_name hname hhex rest)

/-- A text with a label in front. -/
def labelledHalt : String := "x, HLT\nBUN X\nEND"

def labelledHaltProgram : Program := ⟨[⟨0, 0x7001, "X, HLT", 1⟩, ⟨1, 0x4000, "BUN X", 2⟩], []⟩

theorem assemble_zeroOrigin_labelledHalt :
    (assemble labelledHalt).outcome = .ok labelledHaltProgram ∧
    (assemble (zeroOrigin labelledHalt)).outcome =
      .ok ⟨[⟨0, 0x7001, "X, HLT", 2⟩, ⟨1, 0x4000, "BUN X", 3⟩], []⟩ ∧
    (assemble (zeroOrigin labelledHalt)).symbols = (assemble labelledHalt).symbols ∧
    ((∃ p, (assemble labelledHalt).outcome = .ok p) ↔
      ∃ p, (assemble (zeroOrigin labelledHalt)).outcome = .ok p) := by
  have h : (assemble labelledHalt).outcome = .ok labelledHaltProgram := rfl
  obtain ⟨-, hmoved, hlabel⟩ := assemble_zeroOrigin labelledHalt
  obtain ⟨houtcome, hsymbols⟩ := hmoved labelledHaltProgram h
  have hiff := hlabel "x" " HLT\nBUN X\nEND" rfl (by decide) (by decide)
  exact ⟨h, houtcome, hsymbols, hiff⟩

/-- A text with a label in front that looks like a numeral. -/
def numeralLabel : String := "F, HLT\nEND"

/-- It is assembled behind the line `ORG 0`, but not by itself. -/
theorem assemble_zeroOrigin_numeralLabel :
    (assemble (zeroOrigin numeralLabel)).outcome = .ok ⟨[⟨0, 0x7001, "F, HLT", 2⟩], []⟩ ∧
    (assemble numeralLabel).outcome =
      .error (.grammatical ⟨⟨1, 1⟩, .noKeyword (.number .hexadecimal)⟩) ∧
    isName "F".toList ∧ Keyword.ofName? "F" = none := by
  exact ⟨rfl, rfl, by decide, by decide⟩

end BasicComputer
