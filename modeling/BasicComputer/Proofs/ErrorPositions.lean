import BasicComputer.Proofs.LineRuns
import BasicComputer.Proofs.Segmentation

/-!
# Where errors point

An error of the assembler carries a place, and a few carry a piece of the text as well. The lexer
takes both from what it is blaming. Everything behind it sees tokens only, and copies the place of
one of them; if it repeats a label or a number, it is that of the same token. So the place of an
error is always the start of what is spelled there, in the line as the lexer sees it: in upper case
and without its comment.

There is one exception. A text with nothing in it has no place to point to, and what is wrong with
it, that nothing ends it, is reported at a place that no text has.

An error behind the lexer is always about some token, and finding out which is a matter of the
functions that report it. Where a token is spelled in the text is a matter of the lexer alone. The
two parts meet in the list of tokens: an error is at one of its members, and every member is where
it says it is. So no stage has to be followed back through the ones before it.
-/

namespace BasicComputer

/-! ## What an error points at -/

/-- Whether a place is in the code of a text: on one of its lines, at a character of what this line
is in upper case and without its comment. -/
structure Position.IsIn (place : Position) (source : String) (code : List Char) : Prop where
  line : ∃ raw, 1 ≤ place.line ∧ (Text.lines source.toList)[place.line - 1]? = some raw ∧
    code = beforeComment (raw.flatMap Text.upper)
  column : 1 ≤ place.column ∧ place.column ≤ code.length

/-- Whether a token of a text starts at a place on a line, and is spelled there in full. -/
structure TokenAt (source : String) (code : List Char) (place : Position) (text : String) :
    Prop where
  run : Text.IsRun isWordChar code ⟨place.column, text.toList⟩
  token : ∃ tokens, tokenize source = .ok tokens ∧
    ∃ t ∈ tokens, t.toPosition = place ∧ t.text = text

/-- The label or the number that a fault repeats. -/
def SemanticFault.quoted? : SemanticFault → Option String
  | duplicateLabel text | undefinedLabel text | decimalOutOfRange text
  | hexadecimalOutOfRange text | originOutOfRange text => some text
  | missingEnd | multipleEnd | endNotLast | addressOverflow => none

/-- Whether what an error blames is on a line, at the place of the error: what the line offends by,
or a token, which is the one that is repeated if any is. -/
def AssemblyError.Blames (source : String) (code : List Char) : AssemblyError → Prop
  | lexical e => Offends code ⟨e.column, e.lexeme.toList⟩
  | grammatical e => ∃ text, TokenAt source code e.toPosition text
  | semantic e => ∃ text, TokenAt source code e.toPosition text ∧ ∀ s ∈ e.fault.quoted?, s = text

/-! ## Faults of tokens -/

/-- Whether an error is at one of the tokens, and repeats none but this. -/
def SemanticError.IsAtOneOf (e : SemanticError) (tokens : List Token) : Prop :=
  ∃ t ∈ tokens, e.toPosition = t.toPosition ∧ ∀ s ∈ e.fault.quoted?, s = t.text

section Faults

variable {e : SemanticError} {tokens : List Token} {lines : List Line} {l : Line}

theorem SemanticError.IsAtOneOf.mono {ts us : List Token} (h : e.IsAtOneOf ts)
    (hsub : ∀ t ∈ ts, t ∈ us) : e.IsAtOneOf us := by
  obtain ⟨t, ht, hplace⟩ := h
  exact ⟨t, hsub t ht, hplace⟩

theorem Token.isAtOneOf_faults {t : Token} {fault : SemanticFault} (ht : t ∈ tokens)
    (hquoted : fault.quoted? = none ∨ fault.quoted? = some t.text) :
    (t.faults fault).IsAtOneOf tokens := by
  refine ⟨t, ht, rfl, fun s (hs : fault.quoted? = some s) ↦ ?_⟩
  rcases hquoted with hnone | hsome
  · rw [hnone] at hs
    cases hs
  · rw [hsome] at hs
    exact (Option.some.inj hs).symm

theorem exists_lastPosition_eq (hne : tokens ≠ []) :
    ∃ t ∈ tokens, lastPosition tokens = t.toPosition := by
  refine ⟨tokens.getLast hne, List.getLast_mem hne, ?_⟩
  rw [lastPosition, List.getLast?_eq_getLast_of_ne_nil hne]
  rfl

theorem isAtOneOf_of_endFault? (hne : tokens ≠ []) (h : endFault? tokens = some e) :
    e.IsAtOneOf tokens := by
  obtain ⟨last, hlast, hplace⟩ := exists_lastPosition_eq hne
  rw [endFault?, Option.or_eq_some_iff, Option.or_eq_some_iff] at h
  rcases h with (h | ⟨-, h⟩) | ⟨-, h⟩
  · rw [missingEnd?, hplace] at h
    split at h
    · cases h
      exact Token.isAtOneOf_faults hlast (.inl rfl)
    · cases h
  · obtain ⟨t, ht, rfl⟩ := Option.map_eq_some_iff.mp h
    have hmem := List.mem_of_mem_filter (List.mem_of_getElem? ht)
    exact Token.isAtOneOf_faults hmem (.inl rfl)
  · rw [endNotLast?, hplace] at h
    split at h
    · cases h
    · cases h
      exact Token.isAtOneOf_faults hlast (.inl rfl)

namespace Line

theorem isAtOneOf_of_badOrigin? (h : l.badOrigin? = some e) : e.IsAtOneOf l.tokens := by
  unfold badOrigin? at h
  split at h
  next value hl =>
    have hvalue : value ∈ l.tokens := by simp [tokens, hl, Statement.operands]
    split at h
    · cases h
      exact Token.isAtOneOf_faults hvalue (.inr rfl)
    · cases h
  next => cases h

theorem isAtOneOf_of_repeatedLabel? {before : List Line} (h : l.repeatedLabel? before = some e) :
    e.IsAtOneOf l.tokens := by
  unfold repeatedLabel? at h
  split at h
  next t hl =>
    have ht : t ∈ l.tokens := by simp [tokens, hl]
    split at h
    · cases h
      exact Token.isAtOneOf_faults ht (.inr rfl)
    · cases h
  next => cases h

theorem isAtOneOf_of_overflow? {before : List Line} (h : l.overflow? before = some e) :
    e.IsAtOneOf l.tokens := by
  have hhead : l.head ∈ l.tokens := by simp [tokens]
  unfold overflow? at h
  split at h
  · cases h
    exact Token.isAtOneOf_faults hhead (.inl rfl)
  · cases h

theorem isAtOneOf_of_misplacement? {before : List Line} (h : l.misplacement? before = some e) :
    e.IsAtOneOf l.tokens := by
  rw [misplacement?, Option.or_eq_some_iff, Option.or_eq_some_iff] at h
  rcases h with (h | ⟨-, h⟩) | ⟨-, h⟩
  · exact isAtOneOf_of_badOrigin? h
  · exact isAtOneOf_of_repeatedLabel? h
  · exact isAtOneOf_of_overflow? h

theorem isAtOneOf_of_literalFault? (h : l.literalFault? = some e) : e.IsAtOneOf l.tokens := by
  unfold literalFault? at h
  split at h
  next radix value hl =>
    have hvalue : value ∈ l.tokens := by simp [tokens, hl, Statement.operands]
    split at h
    · cases h
    · cases h
      exact Token.isAtOneOf_faults hvalue (.inr (by cases radix <;> rfl))
  next => cases h

end Line

/-- What is wrong with the lines of a text is wrong with one of its tokens. -/
theorem isAtOneOf_of_lineFault? (h : lineFault? (lines.flatMap Line.tokens) lines = some e) :
    e.IsAtOneOf (lines.flatMap Line.tokens) := by
  have hline {l : Line} (hl : l ∈ lines) (h : e.IsAtOneOf l.tokens) :
      e.IsAtOneOf (lines.flatMap Line.tokens) :=
    h.mono fun t ht ↦ List.mem_flatMap_of_mem hl ht
  rw [lineFault?, Option.or_eq_some_iff, Option.or_eq_some_iff] at h
  rcases h with (h | ⟨-, h⟩) | ⟨-, h⟩
  · obtain ⟨c, hc, h⟩ := List.exists_of_findSome?_eq_some h
    have hmem : c.2 ∈ lines := by
      rw [← map_snd_contexts [] lines]
      exact List.mem_map_of_mem hc
    exact hline hmem (Line.isAtOneOf_of_misplacement? h)
  · obtain ⟨t, ht, rfl⟩ := Option.map_eq_some_iff.mp h
    exact Token.isAtOneOf_faults (List.mem_of_find?_eq_some ht) (.inr rfl)
  · obtain ⟨l, hl, h⟩ := List.exists_of_findSome?_eq_some h
    exact hline hl (Line.isAtOneOf_of_literalFault? h)

end Faults

/-! ## Places in a text -/

section Places

variable {source : String}

/-- Runs are in the lines that they are found on. -/
theorem Position.isIn_of_isRun {c : CodeLine} (hc : c ∈ codeLines source) {place : Position}
    (hline : c.number = place.line) {p : Char → Bool} {w : List Char}
    (hrun : Text.IsRun p c.code ⟨place.column, w⟩) : place.IsIn source c.code := by
  obtain ⟨raw, hpos, hraw, heq⟩ := exists_raw_of_mem_codeLines hc
  obtain ⟨before, after, hsplit, hcolumn, -⟩ := hrun.longest
  have hlength := List.length_pos_iff.mpr hrun.nonempty
  rw [hline] at hpos hraw
  refine ⟨⟨raw, hpos, hraw, congrArg CodeLine.code heq⟩, ?_⟩
  dsimp only at hsplit hcolumn hlength
  rw [hsplit, List.length_append, List.length_append, hcolumn]
  omega

theorem Offends.exists_isRun {code : List Char} {r : Text.Run} (h : Offends code r) :
    ∃ p, Text.IsRun p code r := by
  cases h with
  | foreign hrun => exact ⟨_, hrun⟩
  | hyphen _ hrun => exact ⟨_, hrun⟩

/-- A token is where it says it is. -/
theorem exists_tokenAt {tokens : List Token} (h : tokenize source = .ok tokens) {t : Token}
    (ht : t ∈ tokens) :
    ∃ code, t.toPosition.IsIn source code ∧ TokenAt source code t.toPosition t.text := by
  obtain ⟨-, hlexemes, -⟩ := tokenize_eq_ok_iff.mp h
  have hmem : t.toLexeme ∈ (codeLines source).flatMap CodeLine.lexemes := by
    rw [← hlexemes]
    exact List.mem_map_of_mem ht
  obtain ⟨c, hc, hmem⟩ := List.mem_flatMap.mp hmem
  obtain ⟨hline, hrun, -⟩ := CodeLine.mem_lexemes_iff.mp hmem
  exact ⟨c.code, Position.isIn_of_isRun hc hline hrun, hrun, tokens, h, t, ht, rfl, rfl⟩

theorem exists_blames_of_lexical {e : LexError} (h : tokenize source = .error e) :
    ∃ code, e.toPosition.IsIn source code ∧ (AssemblyError.lexical e).Blames source code := by
  obtain ⟨c, hc, herror, -⟩ := tokenize_eq_error_iff.mp h
  obtain ⟨hline, hoffends⟩ := CodeLine.error?_eq_some_iff.mp herror
  obtain ⟨p, hrun⟩ := hoffends.exists_isRun
  exact ⟨c.code, Position.isIn_of_isRun hc hline hrun, hoffends⟩

theorem exists_blames_of_grammatical {tokens : List Token} (h : tokenize source = .ok tokens)
    {e : SyntaxError} (he : e.IsAtOneOf tokens) :
    ∃ code, e.toPosition.IsIn source code ∧ (AssemblyError.grammatical e).Blames source code := by
  obtain ⟨t, ht, hplace⟩ := he
  obtain ⟨code, hin, hat⟩ := exists_tokenAt h ht
  rw [← hplace] at hin hat
  exact ⟨code, hin, t.text, hat⟩

theorem exists_blames_of_semantic {tokens : List Token} (h : tokenize source = .ok tokens)
    {e : SemanticError} (he : e.IsAtOneOf tokens) :
    ∃ code, e.toPosition.IsIn source code ∧ (AssemblyError.semantic e).Blames source code := by
  obtain ⟨t, ht, hplace, hquoted⟩ := he
  obtain ⟨code, hin, hat⟩ := exists_tokenAt h ht
  rw [← hplace] at hin hat
  exact ⟨code, hin, t.text, hat, hquoted⟩

/-- Nothing ends a text with nothing in it. -/
theorem outcome_of_tokenize_nil (h : tokenize source = .ok []) :
    (assemble source).outcome = .error (.semantic ⟨⟨0, 0⟩, .missingEnd⟩) := by
  have hparse : parse [] = .ok [] := rfl
  exact assemble_of_lines h hparse

theorem exists_blames {e : AssemblyError} (h : (assemble source).outcome = .error e)
    (hne : tokenize source ≠ .ok []) :
    ∃ code, e.position.IsIn source code ∧ e.Blames source code := by
  rcases ht : tokenize source with f | tokens
  · rw [outcome_of_lexError ht] at h
    cases h
    exact exists_blames_of_lexical ht
  have htokens : tokens ≠ [] := by
    rintro rfl
    exact hne ht
  rcases hp : parse tokens with f | lines
  · rw [outcome_of_syntaxError ht hp] at h
    cases h
    exact exists_blames_of_grammatical ht (isAtOneOf_of_parse hp)
  have hcases := assemble_of_lines ht hp
  obtain ⟨rfl, -⟩ := parse_eq_ok hp
  rcases hf : (endFault? (lines.flatMap Line.tokens)).or
      (lineFault? (lines.flatMap Line.tokens) lines) with _ | f
  · rw [hf] at hcases
    rw [hcases.1] at h
    cases h
  · rw [hf] at hcases
    rw [hcases] at h
    cases h
    refine exists_blames_of_semantic ht ?_
    rcases Option.or_eq_some_iff.mp hf with hend | ⟨-, hline⟩
    · exact isAtOneOf_of_endFault? htokens hend
    · exact isAtOneOf_of_lineFault? hline

/-- **Errors point at the culprit.** Where there is something in a text, an error has a place in it,
and what is there is to blame: what the line offends by, or a token. If the error repeats a label or
a number, it is this token. Only a text with nothing in it is blamed at no place. -/
theorem error_pointsAt {e : AssemblyError} (h : (assemble source).outcome = .error e) :
    (e.position = ⟨0, 0⟩ ↔ tokenize source = .ok []) ∧
    (tokenize source = .ok [] → e = .semantic ⟨⟨0, 0⟩, .missingEnd⟩) ∧
    (tokenize source ≠ .ok [] →
      ∃ code, e.position.IsIn source code ∧ e.Blames source code) := by
  have hempty (ht : tokenize source = .ok []) : e = .semantic ⟨⟨0, 0⟩, .missingEnd⟩ := by
    rw [outcome_of_tokenize_nil ht, Except.error.injEq] at h
    exact h.symm
  refine ⟨⟨fun hplace ↦ ?_, fun ht ↦ ?_⟩, hempty, exists_blames h⟩
  · by_contra hne
    obtain ⟨code, hin, -⟩ := exists_blames h hne
    obtain ⟨raw, hpos, -⟩ := hin.line
    rw [hplace] at hpos
    exact absurd hpos (by decide)
  · rw [hempty ht]
    rfl

end Places

/-- A text with a label that is wider in upper case, and a name that is no label. -/
def unknownName : String := " ß, lda x // ?\nend"

theorem error_pointsAt_unknownName :
    (assemble "").outcome = .error (.semantic ⟨⟨0, 0⟩, .missingEnd⟩) ∧ tokenize "" = .ok [] ∧
    (assemble unknownName).outcome = .error (.semantic ⟨⟨1, 10⟩, .undefinedLabel "X"⟩) ∧
    ∃ code, Position.IsIn ⟨1, 10⟩ unknownName code ∧ TokenAt unknownName code ⟨1, 10⟩ "X" := by
  have hnothing : (assemble "").outcome = .error (.semantic ⟨⟨0, 0⟩, .missingEnd⟩) := rfl
  have hunknown : (assemble unknownName).outcome =
      .error (.semantic ⟨⟨1, 10⟩, .undefinedLabel "X"⟩) := by
    decide +kernel
  have hne : tokenize unknownName ≠ .ok [] := by decide +kernel
  obtain ⟨code, hin, text, hat, hquoted⟩ := (error_pointsAt hunknown).2.2 hne
  have htext : "X" = text := hquoted "X" rfl
  rw [← htext] at hat
  exact ⟨hnothing, (error_pointsAt hnothing).1.mp rfl, hunknown, code, hin, hat⟩

end BasicComputer
