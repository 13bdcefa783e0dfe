import BasicComputer.Proofs.JoinedWords
import BasicComputer.Proofs.Placement

/-!
# A line with a number

A text that halts at once has room for a number on its second line, behind a label and one of the
directives that take a number. Whatever word stands there makes up one token, and all there is to
the text beside it is known. If the token is a number of the right kind, the text comes to a word
with its value, unless that is out of range; if it is not, the directive has no operand.

## One text for several questions

Decimal and hexadecimal numbers raise the same question, which numerals come to which words, and it
is asked by the same text. What differs is the directive, so the text has it as a parameter, and
whatever is known of the text beside the numeral is shown once for both.

The numeral is in the text as it was typed, and in the tokens in upper case. The condition on the
text says no more than that its characters come to the right ones.
-/

namespace BasicComputer

def haltToken (n : Nat) : Token := ⟨⟨⟨n, 1⟩, "HLT", "HLT"⟩, .keyword⟩

def endToken (n : Nat) : Token := ⟨⟨⟨n, 1⟩, "END", "END"⟩, .keyword⟩

/-- The label `X` on a second line. -/
def labelToken (source : String) : Token := ⟨⟨⟨2, 1⟩, "X", source⟩, .identifier⟩

namespace Radix

variable (radix : Radix)

/-- The directive behind the label. -/
def directiveToken (source : String) : Token := ⟨⟨⟨2, 4⟩, radix.directiveName, source⟩, .keyword⟩

/-- The words behind the label. -/
def dataWords (w : List Char) : List (List Char) := [radix.directiveName.toList, w]

/-- The line with the word `w`, in upper case. -/
def dataLine (w : List Char) : List Char := ['X', ',', ' '] ++ joinWords (radix.dataWords w)

/-- The line as assembly keeps it. -/
def dataSource (w : List Char) : String := String.ofList (Text.trim (radix.dataLine w))

/-- Whether a text is the one with the word `w`, in letters of either case. -/
def IsDataText (w : List Char) (source : String) : Prop :=
  Text.uppercase source =
    ['H', 'L', 'T'] ++ '\n' :: (radix.dataLine w ++ '\n' :: ['E', 'N', 'D'])

/-- The word as a token of a given kind. -/
def dataToken (w : List Char) (kind : TokenKind) : Token :=
  ⟨⟨⟨2, 8⟩, String.ofList w, radix.dataSource w⟩, kind⟩

/-- The tokens of the text, with `t` for the word. -/
def dataTokens (t : Token) : List Token :=
  [haltToken 1, labelToken t.source, radix.directiveToken t.source, t, endToken 3]

/-- The lines of the text, if `t` is a number of the right kind. -/
def dataLines (t : Token) : List Line :=
  [⟨none, haltToken 1, .register .hlt⟩,
    ⟨some (labelToken t.source), radix.directiveToken t.source, .datum radix t⟩,
    ⟨none, endToken 3, .finish⟩]

end Radix

variable {radix : Radix}

/-! ## Taking the text apart -/

section Text

variable {source : String} {w : List Char}

theorem Radix.isDataText_append (radix : Radix) {s : String} (hs : Text.uppercase s = w) :
    radix.IsDataText w ("HLT\nX, " ++ radix.directiveName ++ " " ++ s ++ "\nEND") := by
  have hname : Text.uppercase radix.directiveName = radix.directiveName.toList := by
    cases radix <;> rfl
  have hfront : Text.uppercase "HLT\nX, " = ['H', 'L', 'T'] ++ '\n' :: ['X', ',', ' '] := rfl
  have hblank : Text.uppercase " " = [' '] := rfl
  have hback : Text.uppercase "\nEND" = '\n' :: ['E', 'N', 'D'] := rfl
  have hwords : joinWords (radix.dataWords w) = radix.directiveName.toList ++ ' ' :: w := rfl
  simp only [IsDataText, dataLine, Text.uppercase_append, hfront, hname, hblank, hs, hback, hwords,
    List.append_assoc, List.cons_append, List.nil_append]

theorem isWord_of_mem_dataWords (radix : Radix) (hw : IsWord w) :
    ∀ v ∈ radix.dataWords w, IsWord v := by
  rw [Radix.dataWords, List.forall_mem_cons, List.forall_mem_singleton]
  exact ⟨(Keyword.directive (.datum radix)).isWord_name, hw⟩

theorem not_mem_dataLine (hw : IsWord w) {c : Char} (hc : isSourceChar c = false)
    (hblank : c ≠ ' ') : c ∉ radix.dataLine w := by
  rw [isSourceChar, Bool.or_eq_false_iff, beq_eq_false_iff_ne] at hc
  have hX : c ≠ 'X' := by
    rintro rfl
    exact absurd hc.1 (by decide)
  have hwords := not_mem_joinWords (isWord_of_mem_dataWords radix hw) hblank hc.1
  simp [Radix.dataLine, hX, hc.2, hblank, hwords]

theorem runs_dataLine (hw : IsWord w) : Text.runs isWordChar (radix.dataLine w) =
    ⟨1, ['X']⟩ :: wordRuns 4 (radix.dataWords w) := by
  have hfront : Text.runs isWordChar (radix.dataLine w) =
      Text.Run.cons 1 'X' (Text.runsFrom isWordChar 4 (joinWords (radix.dataWords w))) := rfl
  rw [hfront, runsFrom_joinWords (isWord_of_mem_dataWords radix hw)]
  rfl

theorem error?_dataLine (hw : IsWord w) (n : Nat) :
    (CodeLine.mk n (radix.dataLine w)).error? = none := by
  have hwords := isWord_of_mem_dataWords radix hw
  have hlabel : IsWord ['X'] :=
    ⟨List.cons_ne_nil _ _, List.all_eq_true.mp rfl, by simp⟩
  refine CodeLine.error?_eq_none_of_runs ?_ fun r hr ↦ ?_
  · rw [Radix.dataLine, List.forall_mem_append]
    exact ⟨List.all_eq_true.mp rfl, isBlank_or_isSourceChar_of_mem_joinWords hwords⟩
  · rw [runs_dataLine hw] at hr
    rcases List.mem_cons.mp hr with rfl | hr
    · exact isMisplaced_of_isWord hlabel
    · exact isMisplaced_of_isWord (hwords r.chars (mem_of_mem_wordRuns hr))

theorem codeLines_dataText (h : radix.IsDataText w source) (hw : IsWord w) :
    codeLines source =
      [⟨1, ['H', 'L', 'T']⟩, ⟨2, radix.dataLine w⟩, ⟨3, ['E', 'N', 'D']⟩] := by
  have hlines : Text.lines (Text.uppercase source) =
      [['H', 'L', 'T'], radix.dataLine w, ['E', 'N', 'D']] := by
    rw [h, Text.lines_append_newline (by simp),
      Text.lines_append_newline (not_mem_dataLine hw rfl (by decide))]
    rfl
  have hslash : '/' ∉ radix.dataLine w := not_mem_dataLine hw rfl (by decide)
  exact codeLines_eq hlines (by simp [hslash])

theorem lexemes_dataText (h : radix.IsDataText w source) (hw : IsWord w) (kind : TokenKind) :
    lexemes source = .ok ((radix.dataTokens (radix.dataToken w kind)).map Token.toLexeme) := by
  have herror : ∀ l ∈ codeLines source, l.error? = none := by
    rw [codeLines_dataText h hw]
    simp only [List.forall_mem_cons]
    exact ⟨rfl, error?_dataLine hw 2, rfl, by simp⟩
  rw [lexemes_eq_ok herror, codeLines_dataText h hw, List.flatMap_cons, List.flatMap_cons,
    CodeLine.lexemes, CodeLine.lexemes, runs_dataLine hw]
  cases radix <;> rfl

/-- The word is a token of the kind that it has behind the directive. -/
theorem tokenize_dataText (h : radix.IsDataText w source) (hw : IsWord w) {kind : TokenKind}
    (hkind : Token.kindOf (some (radix.directiveToken (radix.dataSource w)))
      (radix.dataToken w kind).toLexeme = kind) :
    tokenize source = .ok (radix.dataTokens (radix.dataToken w kind)) := by
  have hdirective (previous : Option Token) : Token.kindOf previous
      (radix.directiveToken (radix.dataSource w)).toLexeme = .keyword := by
    cases radix <;> rfl
  exact tokenize_eq_ok (lexemes_dataText h hw kind)
    ⟨rfl, rfl, hdirective _, hkind, rfl, trivial⟩

end Text

/-! ## Reading and assembling it -/

section Tokens

variable {t : Token}

theorem groupByLine_dataTokens (ht : t.line = 2) : groupByLine (radix.dataTokens t) =
    [(haltToken 1, []), (labelToken t.source, [radix.directiveToken t.source, t]),
      (endToken 3, [])] := by
  obtain ⟨⟨⟨line, column⟩, text, source⟩, kind⟩ := t
  cases ht
  rfl

theorem read_labelToken (radix : Radix) (source : String) (operands : List Token) :
    Line.read (labelToken source) (radix.directiveToken source :: operands) =
      Line.readUnlabelled (some (labelToken source)) (radix.directiveToken source) operands := by
  -- evaluation has to see the literal itself
  have hname : isName "X".toList := rfl
  have hlabel : isName (labelToken source).text.toList := hname
  rw [Line.read, if_pos (show (labelToken source).kind = .identifier from rfl), if_pos hlabel]

theorem keyword?_directiveToken (radix : Radix) (source : String) :
    (radix.directiveToken source).keyword? = some (.directive (.datum radix)) := by
  cases radix <;> rfl

/-- What is read depends on whether the word is a number of the right kind. -/
theorem parse_dataTokens (radix : Radix) (ht : t.line = 2) :
    parse (radix.dataTokens t) =
      if t.kind = .number radix then .ok (radix.dataLines t)
      else .error ⟨t.toPosition, .wrongOperand (.datum radix) radix t.kind⟩ := by
  rw [parse, groupByLine_dataTokens ht, List.mapM_cons, List.mapM_cons, read_labelToken,
    Line.readUnlabelled, keyword?_directiveToken]
  dsimp only
  rw [Statement.read, Statement.readNumber]
  by_cases hkind : t.kind = .number radix
  · rw [if_pos hkind, if_pos hkind]
    rfl
  · rw [if_neg hkind, if_neg hkind]
    rfl

theorem fault_dataLines (hkind : t.kind = .number radix) :
    (endFault? (radix.dataTokens t)).or (lineFault? (radix.dataTokens t) (radix.dataLines t)) =
      if radix.InRange t.text.toList then none
      else some (t.faults (radix.rangeFault t.text)) := by
  obtain ⟨⟨place, text, source⟩, kind⟩ := t
  cases hkind
  have hend : endFault? (radix.dataTokens ⟨⟨place, text, source⟩, .number radix⟩) = none := by
    cases radix <;> rfl
  have hplaced : misplacement? [] (radix.dataLines ⟨⟨place, text, source⟩, .number radix⟩) =
      none := rfl
  have hnames : undefined? (radix.dataLines ⟨⟨place, text, source⟩, .number radix⟩)
      (radix.dataTokens ⟨⟨place, text, source⟩, .number radix⟩) = none := by
    cases radix <;> rfl
  have hhalt : Line.literalFault? ⟨none, haltToken 1, .register .hlt⟩ = none := rfl
  have hnumber (t : Token) : Line.literalFault?
      ⟨some (labelToken t.source), radix.directiveToken t.source, .datum radix t⟩ =
        if radix.InRange t.text.toList then none
        else some (t.faults (radix.rangeFault t.text)) := rfl
  rw [lineFault?, hend, hplaced, hnames, Option.none_or, Option.none_or, Option.none_or,
    Radix.dataLines, List.findSome?_cons, hhalt, List.findSome?_cons, hnumber]
  by_cases hrange : radix.InRange text.toList
  · rw [if_pos hrange]
    rfl
  · rw [if_neg hrange]

theorem effectsOf_dataLines :
    Program.ofEmissions (effectsOf (radix.dataLines t)) =
      ⟨[⟨0, 0x7001, "HLT", 1⟩], [⟨1, radix.word t.text.toList⟩]⟩ := rfl

/-- A number stands for its value, a word that is none for nothing. -/
theorem outcome_dataTokens {source : String} (h : tokenize source = .ok (radix.dataTokens t))
    (ht : t.line = 2) :
    (assemble source).outcome =
      if t.kind = .number radix then
        if radix.InRange t.text.toList then
          .ok ⟨[⟨0, 0x7001, "HLT", 1⟩], [⟨1, radix.word t.text.toList⟩]⟩
        else .error (.semantic (t.faults (radix.rangeFault t.text)))
      else .error (.grammatical ⟨t.toPosition, .wrongOperand (.datum radix) radix t.kind⟩) := by
  have hparse := parse_dataTokens radix ht
  by_cases hkind : t.kind = .number radix
  · rw [if_pos hkind] at hparse ⊢
    have hcases := assemble_of_lines h hparse
    rw [fault_dataLines hkind, effectsOf_dataLines] at hcases
    by_cases hrange : radix.InRange t.text.toList
    · rw [if_pos hrange] at hcases ⊢
      exact hcases.1
    · rw [if_neg hrange] at hcases ⊢
      exact hcases
  · rw [if_neg hkind] at hparse ⊢
    exact outcome_of_syntaxError h hparse

end Tokens

end BasicComputer
