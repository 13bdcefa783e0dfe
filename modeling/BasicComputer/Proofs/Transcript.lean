import BasicComputer.Proofs.JoinedWords
import BasicComputer.Proofs.Literals
import BasicComputer.Proofs.Reading

/-!
# Memory as source text

A word of memory can be written as one line of source text: as an operation with its mnemonic, and
its address if it has one, or as a number. A transcript is such lines one below the other, and the
line that ends the text.

The lexer takes a transcript apart into the words it was written with. Each line starts with a
reserved word, and so what a word is taken for depends on its own line only.

For each item the tokens of its line are given outright, with columns and kinds. That the lexer
finds these tokens is then a matter of comparing. Columns are easy to give, since all reserved words
have three letters and the blanks are single ones. Kinds can be checked line by line, as a line
that starts with a reserved word does not look back.
-/

namespace BasicComputer

/-! ## Items -/

/-- A word as it is written behind the directive of a radix: in four digits if hexadecimal, with its
sign if decimal. -/
def Radix.numeral : Radix → Word → String
  | .hexadecimal, w => Numeral.hex 4 w.toNat
  | .decimal, w => toString w.toInt

/-- What can be written on a line for one word of memory. -/
inductive Item
  | memory (op : MemoryOp) (address : Address) (indirect : Bool)
  | register (op : RegisterOp)
  | io (op : IoOp)
  /-- A word as a number. -/
  | datum (radix : Radix) (word : Word)
  deriving DecidableEq, Repr

namespace Item

/-- The item as a line of source text. -/
def text : Item → String
  | memory op address indirect =>
    op.mnemonic ++ " " ++ toString address.toNat ++ if indirect then " I" else ""
  | register op => op.mnemonic
  | io op => op.mnemonic
  | datum radix w => radix.directiveName ++ " " ++ radix.numeral w

/-- The operation that the item is, unless it is a number. -/
def operation? : Item → Option Operation
  | memory op address indirect => some (.memory op (address.setWidth 16) indirect)
  | register op => some (.register op)
  | io op => some (.io op)
  | datum _ _ => none

def word : Item → Word
  | memory op address indirect => encode (.memory op (address.setWidth 16) indirect)
  | register op => encode (.register op)
  | io op => encode (.io op)
  | datum _ w => w

end Item

/-- A source text with one line for every item. -/
def transcript : List Item → String
  | [] => "END"
  | i :: items => i.text ++ "\n" ++ transcript items

/-- Whether a text has the lines of a transcript, in letters of either case. -/
def IsTranscript (items : List Item) (source : String) : Prop :=
  Text.lines (Text.uppercase source) = Text.lines (Text.uppercase (transcript items))

/-! ## The words of an item -/

/-- The characters of a word as it is written. -/
def Radix.digits : Radix → Word → List Char
  | .hexadecimal, w => Numeral.digits 16 4 w.toNat
  | .decimal, w => Numeral.signedDigits w.toInt

theorem Radix.numeral_eq (radix : Radix) (w : Word) :
    radix.numeral w = String.ofList (radix.digits w) := by
  cases radix with
  | decimal => exact Numeral.toString_eq_ofList_signedDigits w.toInt
  | hexadecimal => rfl

namespace Item

/-- The reserved word in front. -/
def keyword : Item → Keyword
  | memory op _ _ => .mnemonic (.memory op)
  | register op => .mnemonic (.register op)
  | io op => .mnemonic (.io op)
  | datum radix _ => .directive (.datum radix)

/-- The words behind it. -/
def operands : Item → List (List Char)
  | memory _ address indirect => Nat.toDigits 10 address.toNat :: if indirect then [['I']] else []
  | register _ | io _ => []
  | datum radix w => [radix.digits w]

def words (i : Item) : List (List Char) := i.keyword.name.toList :: i.operands

theorem text_eq (i : Item) : i.text = String.ofList (joinWords i.words) := by
  have hoperand (name : String) (cs : List Char) : (name ++ " " ++ String.ofList cs).toList =
      name.toList ++ ' ' :: cs := by
    rw [String.toList_append, String.toList_append, String.toList_ofList, String.toList_ofList,
      List.append_assoc]
    rfl
  rw [← String.toList_inj, String.toList_ofList]
  rcases i with ⟨op, address, _ | _⟩ | op | op | ⟨radix, w⟩
  · rw [text, if_neg Bool.false_ne_true, String.append_empty, Nat.toString_eq_ofList_toDigits,
      hoperand]
    rfl
  · rw [text, if_pos rfl, String.toList_append, Nat.toString_eq_ofList_toDigits, hoperand,
      List.append_assoc]
    rfl
  · rfl
  · rfl
  · rw [text, Radix.numeral_eq, hoperand]
    rfl

theorem isWord_digits (radix : Radix) (w : Word) : IsWord (radix.digits w) := by
  cases radix with
  | decimal => exact isWord_of_isSignedDecimal (Numeral.isSignedDecimal_signedDigits w.toInt)
  | hexadecimal => exact isWord_of_isHex (Numeral.isHex_digits 4 w.toNat)

theorem isWord_toDigits (n : Nat) : IsWord (Nat.toDigits 10 n) :=
  isWord_of_isHex (Numeral.isHex_of_isDecimal (Numeral.isDecimal_toDigits n))

theorem isWord_of_mem_words {i : Item} : ∀ w ∈ i.words, IsWord w := by
  rw [words, List.forall_mem_cons]
  refine ⟨i.keyword.isWord_name, ?_⟩
  rcases i with ⟨op, address, _ | _⟩ | op | op | ⟨radix, w⟩
  · exact List.forall_mem_singleton.mpr (isWord_toDigits address.toNat)
  · exact List.forall_mem_cons.mpr
      ⟨isWord_toDigits address.toNat, List.forall_mem_singleton.mpr isWord_mark⟩
  · exact List.forall_mem_nil _
  · exact List.forall_mem_nil _
  · exact List.forall_mem_singleton.mpr (isWord_digits radix w)

end Item

/-! ## Lines and lexemes -/

/-- The lines of a transcript, as words. -/
def transcriptWords (items : List Item) : List (List (List Char)) :=
  items.map Item.words ++ [[['E', 'N', 'D']]]

/-- The line of an item is a line of its own, whatever follows it. -/
theorem lines_text (i : Item) (rest : String) :
    Text.lines (Text.uppercase (i.text ++ "\n" ++ rest)) =
      joinWords i.words :: Text.lines (Text.uppercase rest) := by
  have hnewline : Text.uppercase "\n" = ['\n'] := rfl
  rw [Text.uppercase_append, Text.uppercase_append, hnewline, Item.text_eq,
    uppercase_joinWords Item.isWord_of_mem_words, List.append_assoc, List.singleton_append,
    Text.lines_append_newline (not_mem_joinWords Item.isWord_of_mem_words (by decide) rfl)]

theorem lines_transcript (items : List Item) :
    Text.lines (Text.uppercase (transcript items)) = (transcriptWords items).map joinWords := by
  induction items with
  | nil => rfl
  | cons i items ih =>
    rw [transcript, lines_text, ih]
    rfl

/-- The last line may end like the others. -/
theorem isTranscript_append_newline (items : List Item) :
    IsTranscript items (transcript items ++ "\n") := by
  rw [IsTranscript, lines_transcript]
  induction items with
  | nil => rfl
  | cons i items ih =>
    rw [transcript, String.append_assoc, lines_text, ih]
    rfl

theorem isWord_of_mem_transcriptWords {items : List Item} :
    ∀ ws ∈ transcriptWords items, ∀ w ∈ ws, IsWord w := by
  intro ws hws
  rcases List.mem_append.mp hws with hws | hws
  · obtain ⟨i, -, rfl⟩ := List.mem_map.mp hws
    exact Item.isWord_of_mem_words
  · rw [List.mem_singleton.mp hws, List.forall_mem_singleton]
    exact ⟨List.cons_ne_nil _ _, List.all_eq_true.mp rfl, by simp⟩

theorem codeLines_of_isTranscript {items : List Item} {source : String}
    (h : IsTranscript items source) :
    codeLines source = ((transcriptWords items).zipIdx 1).map fun l ↦ ⟨l.2, joinWords l.1⟩ := by
  have hslash : ∀ l ∈ (transcriptWords items).map joinWords, '/' ∉ l := by
    rw [List.forall_mem_map]
    intro ws hws
    exact not_mem_joinWords (isWord_of_mem_transcriptWords ws hws) (by decide) rfl
  rw [codeLines_eq (h.trans (lines_transcript items)) hslash, List.zipIdx_map, List.map_map]
  rfl

namespace Item

/-- The line of an item, as assembly keeps it. -/
def source (i : Item) : String := String.ofList (Text.trim (joinWords i.words))

/-- A token on the line of an item. -/
def token (i : Item) (n column : Nat) (text : String) (kind : TokenKind) : Token :=
  ⟨⟨⟨n, column⟩, text, i.source⟩, kind⟩

/-- The statement that an item is read as on line `n`. All reserved words are of one length, so that
operands start in the same column. -/
def statement (n : Nat) : Item → Statement
  | i@(memory op address indirect) =>
    let digits := Nat.toDigits 10 address.toNat
    let mark := i.token n (5 + digits.length + 1) "I" .indirection
    .memory op (.number (i.token n 5 (String.ofList digits) (.number .decimal)))
      (if indirect then some mark else none)
  | register op => .register op
  | io op => .io op
  | i@(datum radix w) =>
    .datum radix (i.token n 5 (String.ofList (radix.digits w)) (.number radix))

/-- The line that an item is read as. -/
def line (n : Nat) (i : Item) : Line := ⟨none, i.token n 1 i.keyword.name .keyword, i.statement n⟩

/-- The lexemes of an item's line are the tokens of the line that it is read as. -/
theorem lexemes_line (i : Item) (n : Nat) :
    CodeLine.lexemes ⟨n, joinWords i.words⟩ = (i.line n).tokens.map Token.toLexeme := by
  have hruns : Text.runs isWordChar (joinWords i.words) =
      ⟨1, i.keyword.name.toList⟩ :: wordRuns 5 i.operands := by
    rw [Text.runs, runsFrom_joinWords isWord_of_mem_words, words, wordRuns,
      i.keyword.length_name]
  have hlexemes : CodeLine.lexemes ⟨n, joinWords i.words⟩ =
      ⟨⟨n, 1⟩, i.keyword.name, i.source⟩ :: (wordRuns 5 i.operands).map fun r ↦
        ⟨⟨n, r.column⟩, String.ofList r.chars, i.source⟩ := by
    rw [CodeLine.lexemes, hruns, List.map_cons, String.ofList_toList]
    rfl
  -- from the column of the first operand on both sides can be computed
  rw [hlexemes]
  rcases i with ⟨op, address, _ | _⟩ | op | op | ⟨radix, w⟩
  all_goals rfl

end Item

def endLine (n : Nat) : Line := ⟨none, endToken n, .finish⟩

/-- The lines that a transcript is read as, if the first of them has the number `n`. -/
def transcriptLines (n : Nat) : List Item → List Line
  | [] => [endLine n]
  | i :: items => i.line n :: transcriptLines (n + 1) items

theorem flatMap_lexemes_transcript (items : List Item) (n : Nat) :
    (((transcriptWords items).zipIdx n).map fun l ↦ CodeLine.mk l.2 (joinWords l.1)).flatMap
        CodeLine.lexemes =
      ((transcriptLines n items).flatMap Line.tokens).map Token.toLexeme := by
  induction items generalizing n with
  | nil => rfl
  | cons i items ih =>
    have hwords : transcriptWords (i :: items) = i.words :: transcriptWords items := rfl
    rw [hwords, List.zipIdx_cons, List.map_cons, List.flatMap_cons, ih, i.lexemes_line,
      transcriptLines, List.flatMap_cons, List.map_append]

theorem lexemes_of_isTranscript {items : List Item} {source : String}
    (h : IsTranscript items source) :
    lexemes source = .ok (((transcriptLines 1 items).flatMap Line.tokens).map Token.toLexeme) := by
  have herror : ∀ l ∈ codeLines source, l.error? = none := by
    rw [codeLines_of_isTranscript h, List.forall_mem_map]
    intro l hl
    have hmem := List.fst_mem_of_mem_zipIdx hl
    exact error?_joinWords (isWord_of_mem_transcriptWords l.1 hmem) l.2
  rw [lexemes_eq_ok herror, codeLines_of_isTranscript h, flatMap_lexemes_transcript]

/-! ## Kinds -/

namespace Item

theorem keyword?_head (i : Item) (n : Nat) : (i.line n).head.keyword? = some i.keyword := by
  exact (if_pos rfl).trans (Keyword.ofName?_name i.keyword)

theorem isPlain_digits (radix : Radix) (w : Word) : IsPlain (String.ofList (radix.digits w)) := by
  cases radix with
  | decimal => exact isPlain_of_isSignedDecimal (Numeral.isSignedDecimal_signedDigits w.toInt)
  | hexadecimal => exact isPlain_of_length (Numeral.length_digits_word w)

theorem kindAfter_digits (radix : Radix) (w : Word) :
    Token.kindAfter (.directive (.datum radix)) (radix.digits w) = .number radix := by
  cases radix with
  | decimal => exact if_pos (Numeral.isSignedDecimal_signedDigits w.toInt)
  | hexadecimal => exact if_pos (Numeral.isHex_digits 4 w.toNat)

/-- The kinds on an item's line are the right ones, whatever is in front of it. -/
theorem classified_line (i : Item) (n : Nat) (previous : Option Token) {rest : List Token}
    (hrest : ∀ p, Token.Classified p rest) :
    Token.Classified previous ((i.line n).tokens ++ rest) := by
  have hhead : Token.kindOf previous (i.line n).head.toLexeme = .keyword :=
    kindOf_of_isSome_ofName? ((Keyword.isSome_ofName? _).mpr i.keyword.name_mem_names)
  have hkeyword := i.keyword?_head n
  refine ⟨hhead, ?_⟩
  rcases i with ⟨op, address, indirect⟩ | op | op | ⟨radix, w⟩
  · have hdecimal := Numeral.isDecimal_toDigits address.toNat
    have hplain := isPlain_of_isSignedDecimal (Numeral.isSignedDecimal_of_isDecimal hdecimal)
    refine ⟨(kindOf_of_isPlain hkeyword rfl hplain).trans (if_pos hdecimal), ?_⟩
    cases indirect with
    | false => exact hrest _
    | true => exact ⟨kindOf_mark rfl rfl rfl, hrest _⟩
  · exact hrest _
  · exact hrest _
  · have hafter := kindAfter_digits radix w
    exact ⟨(kindOf_of_isPlain hkeyword rfl (isPlain_digits radix w)).trans hafter, hrest _⟩

end Item

theorem classified_transcript (items : List Item) (n : Nat) (previous : Option Token) :
    Token.Classified previous ((transcriptLines n items).flatMap Line.tokens) := by
  induction items generalizing n previous with
  | nil =>
    have hend : Token.kindOf previous (endToken n).toLexeme = .keyword :=
      kindOf_of_isSome_ofName? (show (Keyword.ofName? "END").isSome by decide)
    exact ⟨hend, trivial⟩
  | cons i items ih =>
    rw [transcriptLines, List.flatMap_cons]
    exact i.classified_line n previous fun p ↦ ih (n + 1) p

/-- A transcript is taken apart into the tokens of its items. -/
theorem tokenize_of_isTranscript {items : List Item} {source : String}
    (h : IsTranscript items source) :
    tokenize source = .ok ((transcriptLines 1 items).flatMap Line.tokens) :=
  tokenize_eq_ok (lexemes_of_isTranscript h) (classified_transcript items 1 none)

end BasicComputer
