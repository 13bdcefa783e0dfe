import BasicComputer.Proofs.DataLines

/-!
# Hexadecimal literals

A hexadecimal numeral is a word of source text like any other, and what it is taken for depends on
the word before it only if it is not a reserved word itself. Two reserved words are made of
hexadecimal digits: `ADD` and `DEC`. These numerals, in whatever case they are written, cannot stand
behind `HEX` or `ORG`, although their values are in range. They are the only ones.

Every other numeral has its value there, in whatever case it is written and however long it is, and
is out of range only if the value is.

## What the claim is measured by

What a numeral should come to is defined beside the assembler, with its own account of digits in
either case and of their values. That no numeral is out of range but for its value can then be said
without any of the assembler's functions, and the two that fail are seen to fail for their letters.

## Two texts

Behind `HEX` a numeral is a word, and behind `ORG` it is an address. The bounds differ, and so do
the errors. One text asks for each, and in both the numeral is the only thing that is not known.
-/

namespace BasicComputer

/-! ## Numerals in either case -/

namespace Numeral

/-- The hexadecimal digits in either case. -/
def isHexLetter (c : Char) : Bool := isHexDigit c || ('a' ≤ c && c ≤ 'f')

/-- What a hexadecimal digit in either case counts for. -/
def letterValue (c : Char) : Nat :=
  if c ≤ '9' then c.toNat - '0'.toNat
  else if c ≤ 'F' then c.toNat - 'A'.toNat + 10
  else c.toNat - 'a'.toNat + 10

/-- The number that hexadecimal digits in either case stand for. -/
def hexValue (h : List Char) : Nat := Nat.ofDigits 16 (h.map letterValue).reverse

def upperDigits (h : List Char) : List Char := h.map Char.toUpper

theorem toNat_lt_of_isHexLetter {c : Char} (h : isHexLetter c) : c.toNat < 128 := by
  simp only [isHexLetter, isHexDigit, isDecimalDigit, Bool.or_eq_true, Bool.and_eq_true,
    decide_eq_true_eq, Char.le_def, UInt32.le_iff_toNat_le] at h
  change c.val.toNat < 128
  have h9 : '9'.val.toNat = 57 := rfl
  have hF : 'F'.val.toNat = 70 := rfl
  have hf : 'f'.val.toNat = 102 := rfl
  omega

/-- What there is to know about a digit can be looked up among the characters of ASCII. -/
theorem of_isHexLetter {P : Char → Prop} (hP : ∀ n : Fin 128, isHexLetter (Char.ofNat n) →
    P (Char.ofNat n)) {c : Char} (h : isHexLetter c) : P c :=
  Text.of_toNat_lt (P := fun c ↦ isHexLetter c → P c) hP (toNat_lt_of_isHexLetter h) h

theorem isHexDigit_toUpper {c : Char} (h : isHexLetter c) : isHexDigit c.toUpper :=
  of_isHexLetter (P := fun c ↦ isHexDigit c.toUpper) (by decide) h

theorem digitValue_toUpper {c : Char} (h : isHexLetter c) : digitValue c.toUpper = letterValue c :=
  of_isHexLetter (P := fun c ↦ digitValue c.toUpper = letterValue c) (by decide) h

theorem value_upperDigits {h : List Char} (hdigits : ∀ c ∈ h, isHexLetter c) :
    value 16 (upperDigits h) = hexValue h := by
  rw [hexValue, value_eq_ofDigits, upperDigits, List.map_map]
  exact congrArg (Nat.ofDigits 16 ·.reverse)
    (List.map_congr_left fun c hc ↦ digitValue_toUpper (hdigits c hc))

theorem isHex_upperDigits {h : List Char} (hne : h ≠ []) (hdigits : ∀ c ∈ h, isHexLetter c) :
    isHex (upperDigits h) := by
  rw [isHex, upperDigits, List.all_map, Bool.and_eq_true, List.all_eq_true]
  exact ⟨by simpa using hne, fun c hc ↦ isHexDigit_toUpper (hdigits c hc)⟩

end Numeral

/-! ## Reserved words made of digits -/

/-- The numerals that are reserved words. -/
def reservedNumerals : List String := ["ADD", "DEC"]

/-- No other reserved word is made of hexadecimal digits. -/
theorem isSome_ofName?_iff_of_isHex {cs : List Char} (h : Numeral.isHex cs) :
    (Keyword.ofName? (String.ofList cs)).isSome ↔ String.ofList cs ∈ reservedNumerals := by
  have hnames : ∀ name ∈ Keyword.names, Numeral.isHex name.toList → name ∈ reservedNumerals := by
    decide
  have hreserved : ∀ name ∈ reservedNumerals, name ∈ Keyword.names := by decide
  rw [Keyword.isSome_ofName?]
  exact ⟨fun hmem ↦ hnames _ hmem (by rwa [String.toList_ofList]), hreserved _⟩

/-- The kind of a numeral behind a directive that asks for one. -/
def numeralKind (cs : List Char) : TokenKind :=
  if String.ofList cs ∈ reservedNumerals then .keyword else .number .hexadecimal

/-- A numeral behind a directive that asks for one. -/
def numeralToken (place : Position) (cs : List Char) (source : String) : Token :=
  ⟨⟨place, String.ofList cs, source⟩, numeralKind cs⟩

theorem kindOf_numeral {cs : List Char} (h : Numeral.isHex cs) {p : Token} {k : Keyword}
    (hp : p.keyword? = some k)
    (hk : k = .directive (.datum .hexadecimal) ∨ k = .directive .origin) (place : Position)
    (source : String) :
    Token.kindOf (some p) (numeralToken place cs source).toLexeme =
      (numeralToken place cs source).kind := by
  rw [numeralToken, Token.kindOf, numeralKind]
  by_cases hreserved : String.ofList cs ∈ reservedNumerals
  · rw [if_pos ((isSome_ofName?_iff_of_isHex h).mpr hreserved), if_pos hreserved]
  · have hI : String.ofList cs ≠ "I" := by
      intro hI
      rw [← String.toList_inj, String.toList_ofList] at hI
      rw [hI] at h
      revert h
      decide
    rw [if_neg (fun hsome ↦ hreserved ((isSome_ofName?_iff_of_isHex h).mp hsome)),
      if_neg hreserved]
    dsimp only
    rw [if_neg hI, hp]
    dsimp only
    rcases hk with rfl | rfl <;> rw [Token.kindAfter, String.toList_ofList, if_pos h]

/-! ## A numeral as a word -/

section Word

variable {h : List Char}

theorem isWord_upperDigits (hne : h ≠ []) (hdigits : ∀ c ∈ h, Numeral.isHexLetter c) :
    IsWord (Numeral.upperDigits h) :=
  isWord_of_isHex (Numeral.isHex_upperDigits hne hdigits)

theorem uppercase_numeral (hdigits : ∀ c ∈ h, Numeral.isHexLetter c) :
    Text.uppercase (String.ofList h) = Numeral.upperDigits h :=
  Text.uppercase_ofList fun c hc ↦ Numeral.toNat_lt_of_isHexLetter (hdigits c hc)

end Word

/-- The directive at the start of a text. -/
def orgToken (source : String) : Token := ⟨⟨⟨1, 1⟩, "ORG", source⟩, .keyword⟩

/-! ## A numeral behind `HEX` -/

/-- A text that gives a word as a hexadecimal numeral. -/
def dataText (h : List Char) : String := "HLT\nX, HEX " ++ String.ofList h ++ "\nEND"

/-- What it should come to: a word with the numeral's value, if there is such a word. -/
def dataOutcome (h : List Char) : Except AssemblyError Program :=
  if Numeral.hexValue h ≤ 0xFFFF then
    .ok ⟨[⟨0, 0x7001, "HLT", 1⟩], [⟨1, BitVec.ofNat 16 (Numeral.hexValue h)⟩]⟩
  else
    .error (.semantic ⟨⟨2, 8⟩, .hexadecimalOutOfRange (String.ofList (Numeral.upperDigits h))⟩)

section Data

variable {h : List Char}

theorem isDataText_dataText (hdigits : ∀ c ∈ h, Numeral.isHexLetter c) :
    Radix.hexadecimal.IsDataText (Numeral.upperDigits h) (dataText h) :=
  Radix.hexadecimal.isDataText_append (uppercase_numeral hdigits)

/-- Behind `HEX`, a numeral that is no reserved word stands for its value. -/
theorem outcome_dataText (hne : h ≠ []) (hdigits : ∀ c ∈ h, Numeral.isHexLetter c) :
    (assemble (dataText h)).outcome =
      if String.ofList (Numeral.upperDigits h) ∈ reservedNumerals then
        .error (.grammatical ⟨⟨2, 8⟩, .wrongOperand (.datum .hexadecimal) .hexadecimal .keyword⟩)
      else dataOutcome h := by
  have hhex := Numeral.isHex_upperDigits hne hdigits
  have htokens := tokenize_dataText (isDataText_dataText hdigits) (isWord_upperDigits hne hdigits)
    (kindOf_numeral hhex (keyword?_directiveToken .hexadecimal _) (.inl rfl) ⟨2, 8⟩ _)
  have houtcome := outcome_dataTokens htokens rfl
  simp only [Radix.dataToken, Radix.InRange, Radix.word, Radix.rangeFault, String.toList_ofList,
    Numeral.value_upperDigits hdigits] at houtcome
  rw [houtcome, numeralKind, dataOutcome]
  by_cases hreserved : String.ofList (Numeral.upperDigits h) ∈ reservedNumerals
  · rw [if_pos hreserved, if_pos hreserved]
    rfl
  · rw [if_neg hreserved, if_neg hreserved]
    rfl

end Data

/-! ## A numeral behind `ORG` -/

/-- A text whose only word goes to the address that a hexadecimal numeral stands for. -/
def originText (h : List Char) : String := "ORG " ++ String.ofList h ++ "\nHLT\nEND"

/-- What it should come to: a word at the numeral's value, if there is such an address. -/
def originOutcome (h : List Char) : Except AssemblyError Program :=
  if Numeral.hexValue h ≤ 0xFFF then .ok ⟨[⟨Numeral.hexValue h, 0x7001, "HLT", 2⟩], []⟩
  else .error (.semantic ⟨⟨1, 5⟩, .originOutOfRange (String.ofList (Numeral.upperDigits h))⟩)

def originLine (cs : List Char) : List Char := ['O', 'R', 'G', ' '] ++ cs

def originTokens (source : String) (t : Token) : List Token :=
  [orgToken source, t, haltToken 2, endToken 3]

/-- Its lines. -/
def originLines (source : String) (t : Token) : List Line :=
  [⟨none, orgToken source, .origin t⟩, ⟨none, haltToken 2, .register .hlt⟩,
    ⟨none, endToken 3, .finish⟩]

section Origin

variable {h : List Char}

/-- The line with the numeral, as assembly keeps it. -/
def originSource (h : List Char) : String :=
  String.ofList (Text.trim (originLine (Numeral.upperDigits h)))

theorem originLine_eq (cs : List Char) : originLine cs = joinWords [['O', 'R', 'G'], cs] := rfl

theorem isWord_of_mem_originWords (hne : h ≠ []) (hdigits : ∀ c ∈ h, Numeral.isHexLetter c) :
    ∀ w ∈ [['O', 'R', 'G'], Numeral.upperDigits h], IsWord w := by
  rw [List.forall_mem_cons, List.forall_mem_singleton]
  exact ⟨(Keyword.directive .origin).isWord_name, isWord_upperDigits hne hdigits⟩

theorem not_mem_originLine (hne : h ≠ []) (hdigits : ∀ c ∈ h, Numeral.isHexLetter c) {c : Char}
    (hblank : c ≠ ' ') (hc : isWordChar c = false) : c ∉ originLine (Numeral.upperDigits h) := by
  rw [originLine_eq]
  exact not_mem_joinWords (isWord_of_mem_originWords hne hdigits) hblank hc

theorem uppercase_originText (hdigits : ∀ c ∈ h, Numeral.isHexLetter c) :
    Text.uppercase (originText h) =
      originLine (Numeral.upperDigits h) ++
        '\n' :: (['H', 'L', 'T'] ++ '\n' :: ['E', 'N', 'D']) := by
  have hfront : Text.uppercase "ORG " = ['O', 'R', 'G', ' '] := rfl
  have hback : Text.uppercase "\nHLT\nEND" =
      '\n' :: (['H', 'L', 'T'] ++ '\n' :: ['E', 'N', 'D']) := rfl
  rw [originText, Text.uppercase_append, Text.uppercase_append, uppercase_numeral hdigits, hfront,
    hback, originLine]

theorem codeLines_originText (hne : h ≠ []) (hdigits : ∀ c ∈ h, Numeral.isHexLetter c) :
    codeLines (originText h) =
      [⟨1, originLine (Numeral.upperDigits h)⟩, ⟨2, ['H', 'L', 'T']⟩, ⟨3, ['E', 'N', 'D']⟩] := by
  have hlines : Text.lines (Text.uppercase (originText h)) =
      [originLine (Numeral.upperDigits h), ['H', 'L', 'T'], ['E', 'N', 'D']] := by
    rw [uppercase_originText hdigits,
      Text.lines_append_newline (not_mem_originLine hne hdigits (by decide) rfl),
      Text.lines_append_newline (by simp)]
    rfl
  have hslash := not_mem_originLine hne hdigits (show '/' ≠ ' ' by decide) rfl
  exact codeLines_eq hlines (by simp [hslash])

theorem lexemes_originLine (hne : h ≠ []) (hdigits : ∀ c ∈ h, Numeral.isHexLetter c) :
    (CodeLine.mk 1 (originLine (Numeral.upperDigits h))).lexemes =
      [(orgToken (originSource h)).toLexeme,
        (numeralToken ⟨1, 5⟩ (Numeral.upperDigits h) (originSource h)).toLexeme] := by
  have hruns := runsFrom_joinWords (isWord_of_mem_originWords hne hdigits) 1
  rw [← originLine_eq] at hruns
  rw [CodeLine.lexemes, Text.runs, hruns]
  rfl

theorem lexemes_originText (hne : h ≠ []) (hdigits : ∀ c ∈ h, Numeral.isHexLetter c) :
    lexemes (originText h) = .ok ((originTokens (originSource h)
      (numeralToken ⟨1, 5⟩ (Numeral.upperDigits h) (originSource h))).map Token.toLexeme) := by
  have herror : ∀ l ∈ codeLines (originText h), l.error? = none := by
    rw [codeLines_originText hne hdigits, originLine_eq]
    simp only [List.forall_mem_cons]
    exact ⟨error?_joinWords (isWord_of_mem_originWords hne hdigits) 1, rfl, rfl, by simp⟩
  rw [lexemes_eq_ok herror, codeLines_originText hne hdigits, List.flatMap_cons,
    lexemes_originLine hne hdigits]
  rfl

theorem tokenize_originText (hne : h ≠ []) (hdigits : ∀ c ∈ h, Numeral.isHexLetter c) :
    tokenize (originText h) = .ok (originTokens (originSource h)
      (numeralToken ⟨1, 5⟩ (Numeral.upperDigits h) (originSource h))) := by
  have hnumeral := kindOf_numeral (Numeral.isHex_upperDigits hne hdigits)
    (p := orgToken (originSource h)) rfl (.inr rfl) ⟨1, 5⟩ (originSource h)
  exact tokenize_eq_ok (lexemes_originText hne hdigits) ⟨rfl, hnumeral, rfl, rfl, trivial⟩

section Tokens

variable {source : String} {t : Token}

theorem parse_originTokens_of_keyword (hplace : t.toPosition = ⟨1, 5⟩) (hkind : t.kind = .keyword) :
    parse (originTokens source t) =
      .error ⟨⟨1, 5⟩, .wrongOperand .origin .hexadecimal .keyword⟩ := by
  obtain ⟨⟨place, text, line⟩, kind⟩ := t
  cases hplace
  cases hkind
  rfl

theorem parse_originTokens_of_number (hplace : t.toPosition = ⟨1, 5⟩)
    (hkind : t.kind = .number .hexadecimal) :
    parse (originTokens source t) = .ok (originLines source t) := by
  obtain ⟨⟨place, text, line⟩, kind⟩ := t
  cases hplace
  cases hkind
  rfl

theorem misplacement?_originLines :
    misplacement? [] (originLines source t) =
      if Numeral.value 16 t.text.toList ≤ 0xFFF then none
      else some (t.faults (.originOutOfRange t.text)) := by
  have horigin : (Line.mk none (orgToken source) (.origin t)).misplacement? [] =
      if 0xFFF < Numeral.value 16 t.text.toList then some (t.faults (.originOutOfRange t.text))
      else none := by
    rw [Line.misplacement?, Line.badOrigin?_of_origin rfl, Line.overflow?_of_not_emits [] rfl,
      Option.or_none]
    exact Option.or_none
  have hend (before : List Line) :
      (Line.mk none (endToken 3) .finish).misplacement? before = none := rfl
  rw [originLines, misplacement?_cons, misplacement?_cons, misplacement?_cons, horigin, hend]
  by_cases hrange : Numeral.value 16 t.text.toList ≤ 0xFFF
  · have haddress : addressAfter ([] ++ [Line.mk none (orgToken source) (.origin t)]) =
        Numeral.value 16 t.text.toList := addressAfter_of_origin rfl
    have hhalt : (Line.mk none (haltToken 2) (.register .hlt)).misplacement?
        ([] ++ [⟨none, orgToken source, .origin t⟩]) = none := by
      rw [Line.misplacement?, Line.overflow?, if_neg]
      · rfl
      · rw [haddress, memorySize]
        omega
    rw [if_pos hrange, if_neg (by omega), hhalt]
    rfl
  · rw [if_neg hrange, if_pos (by omega)]
    rfl

theorem fault_originLines (hkind : t.kind = .number .hexadecimal) :
    (endFault? (originTokens source t)).or
        (lineFault? (originTokens source t) (originLines source t)) =
      if Numeral.value 16 t.text.toList ≤ 0xFFF then none
      else some (t.faults (.originOutOfRange t.text)) := by
  have hnumbers : (originLines source t).findSome? Line.literalFault? = none := rfl
  rw [lineFault?, misplacement?_originLines, hnumbers, Option.or_none]
  obtain ⟨⟨place, text, line⟩, kind⟩ := t
  cases hkind
  have hend : endFault? (originTokens source ⟨⟨place, text, line⟩, .number .hexadecimal⟩) =
      none := rfl
  have hnames : undefined? (originLines source ⟨⟨place, text, line⟩, .number .hexadecimal⟩)
      (originTokens source ⟨⟨place, text, line⟩, .number .hexadecimal⟩) = none := rfl
  rw [hend, hnames, Option.none_or, Option.or_none]

theorem effectsOf_originLines :
    Program.ofEmissions (effectsOf (originLines source t)) =
      ⟨[⟨Numeral.value 16 t.text.toList, 0x7001, "HLT", 2⟩], []⟩ := rfl

end Tokens

/-- Behind `ORG`, a numeral that is no reserved word sets the address that is its value. -/
theorem outcome_originText (hne : h ≠ []) (hdigits : ∀ c ∈ h, Numeral.isHexLetter c) :
    (assemble (originText h)).outcome =
      if String.ofList (Numeral.upperDigits h) ∈ reservedNumerals then
        .error (.grammatical ⟨⟨1, 5⟩, .wrongOperand .origin .hexadecimal .keyword⟩)
      else originOutcome h := by
  have htokens := tokenize_originText hne hdigits
  rw [originOutcome, ← Numeral.value_upperDigits hdigits]
  by_cases hreserved : String.ofList (Numeral.upperDigits h) ∈ reservedNumerals
  · have hkind : (numeralToken ⟨1, 5⟩ (Numeral.upperDigits h) (originSource h)).kind = .keyword :=
      if_pos hreserved
    rw [if_pos hreserved]
    exact outcome_of_syntaxError htokens (parse_originTokens_of_keyword rfl hkind)
  · have hkind : (numeralToken ⟨1, 5⟩ (Numeral.upperDigits h) (originSource h)).kind =
        .number .hexadecimal := if_neg hreserved
    have hvalue : (numeralToken ⟨1, 5⟩ (Numeral.upperDigits h) (originSource h)).text.toList =
        Numeral.upperDigits h := String.toList_ofList
    have hcases := assemble_of_lines htokens (parse_originTokens_of_number rfl hkind)
    rw [fault_originLines hkind, effectsOf_originLines, hvalue] at hcases
    rw [if_neg hreserved]
    by_cases hrange : Numeral.value 16 (Numeral.upperDigits h) ≤ 0xFFF
    · rw [if_pos hrange] at hcases ⊢
      exact hcases.1
    · rw [if_neg hrange] at hcases ⊢
      exact hcases

end Origin

/-! ## The numerals that can be used -/

theorem dataOutcome_ne (h : List Char) (e : SyntaxError) :
    dataOutcome h ≠ .error (.grammatical e) := by
  unfold dataOutcome
  split <;> simp

theorem originOutcome_ne (h : List Char) (e : SyntaxError) :
    originOutcome h ≠ .error (.grammatical e) := by
  unfold originOutcome
  split <;> simp

/-- **Which numerals are literals.** A hexadecimal numeral comes to what it should behind `HEX`, and
likewise behind `ORG`, exactly if it is not `ADD` or `DEC` in upper case. Those two are no operands
at all. -/
theorem outcome_numeral_iff {h : List Char} (hne : h ≠ [])
    (hdigits : ∀ c ∈ h, Numeral.isHexLetter c) :
    ((assemble (dataText h)).outcome = dataOutcome h ↔
      String.ofList (Numeral.upperDigits h) ∉ reservedNumerals) ∧
    ((assemble (originText h)).outcome = originOutcome h ↔
      String.ofList (Numeral.upperDigits h) ∉ reservedNumerals) ∧
    (String.ofList (Numeral.upperDigits h) ∈ reservedNumerals →
      (assemble (dataText h)).outcome = .error (.grammatical
        ⟨⟨2, 8⟩, .wrongOperand (.datum .hexadecimal) .hexadecimal .keyword⟩) ∧
      (assemble (originText h)).outcome = .error (.grammatical
        ⟨⟨1, 5⟩, .wrongOperand .origin .hexadecimal .keyword⟩)) := by
  rw [outcome_dataText hne hdigits, outcome_originText hne hdigits]
  by_cases hreserved : String.ofList (Numeral.upperDigits h) ∈ reservedNumerals
  · rw [if_pos hreserved, if_pos hreserved]
    refine ⟨iff_of_false (dataOutcome_ne h _).symm (not_not_intro hreserved),
      iff_of_false (originOutcome_ne h _).symm (not_not_intro hreserved), fun _ ↦ ⟨rfl, rfl⟩⟩
  · rw [if_neg hreserved, if_neg hreserved]
    exact ⟨iff_of_true rfl hreserved, iff_of_true rfl hreserved, fun h ↦ absurd h hreserved⟩

theorem outcome_zeroAdd :
    (['0', 'a', 'd', 'D'] ≠ [] ∧ ∀ c ∈ ['0', 'a', 'd', 'D'], Numeral.isHexLetter c) ∧
    (assemble (dataText ['0', 'a', 'd', 'D'])).outcome = dataOutcome ['0', 'a', 'd', 'D'] ∧
    (assemble (originText ['0', 'a', 'd', 'D'])).outcome = originOutcome ['0', 'a', 'd', 'D'] := by
  have hne : ['0', 'a', 'd', 'D'] ≠ [] := by decide
  have hdigits : ∀ c ∈ ['0', 'a', 'd', 'D'], Numeral.isHexLetter c := List.all_eq_true.mp rfl
  obtain ⟨hdata, horigin, -⟩ := outcome_numeral_iff hne hdigits
  exact ⟨⟨hne, hdigits⟩, hdata.mpr (by decide), horigin.mpr (by decide)⟩

/-- Without it, the value is in range, but the numeral is taken for the operation. -/
theorem outcome_dataText_add :
    (∀ c ∈ ['A', 'D', 'D'], Numeral.isHexLetter c) ∧ Numeral.hexValue ['A', 'D', 'D'] ≤ 0xFFFF ∧
    (assemble (dataText ['A', 'D', 'D'])).outcome ≠ dataOutcome ['A', 'D', 'D'] := by
  have hdigits : ∀ c ∈ ['A', 'D', 'D'], Numeral.isHexLetter c := List.all_eq_true.mp rfl
  refine ⟨hdigits, by decide, ?_⟩
  rw [outcome_dataText (List.cons_ne_nil _ _) hdigits, if_pos (by decide)]
  exact (dataOutcome_ne _ _).symm

end BasicComputer
