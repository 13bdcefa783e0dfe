import BasicComputer.Proofs.RoundTrip
import BasicComputer.Proofs.Session
import BasicComputer.Proofs.Spelling
import BasicComputer.Proofs.TimedRuns

/-!
# Writing programs down

A program that is written down line by line is read as these lines. On a line is an item, a
reference to a label, an origin or the end, and there may be a label in front; its text is the words
for this, with blanks between them and a comma behind the label. No column and no line number has to
be given, and the names and numbers on the lines may be variable. So programs can be assembled and
loaded whose text is not known to the last character.

## Programs with variables

A program that multiplies two numbers is one text for each pair of numbers. To say what it does for
all pairs, its text has to be assembled with the numbers left open. Evaluating the assembler does
not get through a text with holes. The words of the text are known all the same, and the words are
all that the assembler goes by.

## Proper lines

The conditions on a line are about its names and numbers only, and they can be decided where these
are given. What follows, that the text is read as the lines, is shown for all proper lines at once,
so a program is a list of phrases and a short check.
-/

namespace BasicComputer

/-! ## Lines as they are written -/

/-- What a line says. -/
inductive Phrase
  | item (i : Item)
  | reference (op : MemoryOp) (name : String)
  | origin (digits : String)
  | finish

/-- A line as it is written down. -/
structure Written where
  label : Option String
  phrase : Phrase

namespace Phrase

def text : Phrase → String
  | item i => i.text
  | reference op name => op.mnemonic ++ " " ++ name
  | origin digits => "ORG " ++ digits
  | finish => "END"

/-- The words of a text, the reserved one first. -/
def words : Phrase → List (List Char)
  | item i => i.words
  | reference op name => [op.mnemonic.toList, name.toList]
  | origin digits => ["ORG".toList, digits.toList]
  | finish => ["END".toList]

theorem toList_text (p : Phrase) : p.text.toList = joinWords p.words := by
  cases p with
  | item i => exact (congrArg String.toList i.text_eq).trans String.toList_ofList
  | reference _ _ | origin _ => simp [text, words, joinWords]
  | finish => rfl

/-- Whether a name could be a label, and an origin is a number. -/
def Proper : Phrase → Prop
  | reference _ name => IsSymbol name.toList
  | origin digits => Numeral.isHex digits.toList ∧ ¬IsReserved digits.toList
  | item _ | finish => True

instance : DecidablePred Proper
  | reference _ name => inferInstanceAs (Decidable (IsSymbol name.toList))
  | origin digits =>
    inferInstanceAs (Decidable (Numeral.isHex digits.toList ∧ ¬IsReserved digits.toList))
  | item _ | finish => .isTrue trivial

end Phrase

namespace Written

/-- The text of a line. -/
def text (w : Written) : String := w.label.elim w.phrase.text (· ++ ", " ++ w.phrase.text)

/-- The text of lines below each other. -/
def source (ws : List Written) : String := "\n".intercalate (ws.map text)

/-- Whether the label is a name, and what the line says is proper. -/
structure Proper (w : Written) : Prop where
  label : ∀ name ∈ w.label, IsSymbol name.toList
  phrase : w.phrase.Proper

instance : DecidablePred Proper := fun w ↦
  decidable_of_iff ((∀ name ∈ w.label, IsSymbol name.toList) ∧ w.phrase.Proper)
    ⟨fun h ↦ ⟨h.1, h.2⟩, fun h ↦ ⟨h.label, h.phrase⟩⟩

end Written

/-! ## What they are read as -/

def tokenOn (n : Nat) (kind : TokenKind) (text : String) : Token := ⟨⟨⟨n, 0⟩, text, ""⟩, kind⟩

def Phrase.statement (n : Nat) : Phrase → Statement
  | item i => i.statement n
  | reference op name => .memory op (.symbol (tokenOn n .identifier name)) none
  | origin digits => .origin (tokenOn n (.number .hexadecimal) digits)
  | finish => .finish

theorem Radix.word_toList_digits (radix : Radix) (w : Word) :
    radix.word (String.ofList (radix.digits w)).toList = w := by
  rw [String.toList_ofList, word_digits]

namespace Item

variable (i : Item) (n : Nat)

theorem keyword_statement : (i.statement n).keyword = i.keyword := by
  cases i <;> rfl

theorem map_operands_statement : (i.statement n).operands.map (·.text.toList) = i.operands := by
  rcases i with ⟨op, address, _ | _⟩ | op | op | ⟨radix, w⟩ <;>
    simp [statement, Statement.operands, token, Place.token, operands]

theorem spelled_statement : (i.statement n).Spelled := by
  rcases i with ⟨op, address, indirect⟩ | op | op | ⟨radix, w⟩
  · have hdecimal := Numeral.isDecimal_toDigits address.toNat
    rw [← String.toList_ofList (l := Nat.toDigits 10 address.toNat)] at hdecimal
    exact hdecimal
  · trivial
  · trivial
  · trivial

theorem operands_proper : Operands i.keyword i.operands := by
  rcases i with ⟨op, address, _ | _⟩ | op | op | ⟨_ | _, w⟩
  · exact .direct op (.inl (Numeral.isDecimal_toDigits address.toNat))
  · exact .indirect op (.inl (Numeral.isDecimal_toDigits address.toNat))
  · exact .register op
  · exact .io op
  · exact .decimal (Numeral.isSignedDecimal_signedDigits w.toInt)
  · refine .hexadecimal (Numeral.isHex_digits 4 w.toNat) ?_
    have hplain := (isPlain_digits .hexadecimal w).1
    rwa [← isReserved_toList, String.toList_ofList] at hplain

end Item

namespace Phrase

variable {p : Phrase} (n : Nat)

theorem wellFormed_statement (h : p.Proper) : (p.statement n).WellFormed := by
  cases p with
  | item i => exact (i.wellFormed_line n).operands
  | reference op name => exact ⟨⟨rfl, IsSymbol.name h⟩, nofun⟩
  | origin digits => exact rfl
  | finish => trivial

theorem spelled_statement : (p.statement n).Spelled := by
  cases p with
  | item i => exact i.spelled_statement n
  | reference _ _ | origin _ | finish => trivial

theorem words_statement (p : Phrase) : (p.statement n).keyword.name.toList ::
    (p.statement n).operands.map (·.text.toList) = p.words := by
  cases p with
  | item i =>
    rw [statement, i.keyword_statement, i.map_operands_statement]
    rfl
  | reference _ _ | origin _ | finish => rfl

theorem operands_proper (h : p.Proper) :
    Operands (p.statement n).keyword ((p.statement n).operands.map (·.text.toList)) := by
  cases p with
  | item i =>
    rw [statement, i.keyword_statement, i.map_operands_statement]
    exact i.operands_proper
  | reference op name => exact .direct op (.inr h)
  | origin digits => exact .origin h.1 h.2
  | finish => exact .finish

theorem line_of_mem_operands : ∀ t ∈ (p.statement n).operands, t.line = n := by
  cases p with
  | item i => exact fun t ht ↦ i.line_of_mem_tokens n t (List.mem_cons_of_mem _ ht)
  | reference _ _ | origin _ => exact List.forall_mem_singleton.mpr rfl
  | finish => exact List.forall_mem_nil _

/-- A number that is written for a word is always in range. -/
theorem inRange_statement (radix : Radix) (value : Token)
    (h : p.statement n = .datum radix value) : radix.InRange value.text.toList := by
  cases p with
  | item i => exact i.inRange_line n radix value h
  | reference _ _ | origin _ | finish => cases h

end Phrase

namespace Written

/-- The line that a written line is read as, if it is the one with number `n`. -/
def line (w : Written) (n : Nat) : Line :=
  ⟨w.label.map (tokenOn n .identifier), tokenOn n .keyword (w.phrase.statement n).keyword.name,
    w.phrase.statement n⟩

/-- The lines that written lines are read as. -/
def lines (ws : List Written) : List Line := (ws.zipIdx 1).map fun p ↦ p.1.line p.2

variable {w : Written} {ws : List Written}

theorem wellFormed_line (h : w.Proper) (n : Nat) : (w.line n).WellFormed := by
  refine ⟨?_, Keyword.ofName?_name _, Phrase.wellFormed_statement n h.phrase⟩
  intro t ht
  obtain ⟨name, hname, rfl⟩ := Option.map_eq_some_iff.mp ht
  exact ⟨rfl, (h.label name hname).name⟩

theorem spelled_line (h : w.Proper) (n : Nat) : (w.line n).Spelled := by
  refine ⟨?_, Phrase.spelled_statement n, Phrase.operands_proper n h.phrase⟩
  intro t ht
  obtain ⟨name, hname, rfl⟩ := Option.map_eq_some_iff.mp ht
  exact (h.label name hname).free

theorem line_of_mem_tokens (n : Nat) : ∀ t ∈ (w.line n).tokens, t.line = n := by
  intro t ht
  rcases List.mem_append.mp ht with hlabel | hstatement
  · obtain ⟨name, -, rfl⟩ := Option.map_eq_some_iff.mp (Option.mem_toList.mp hlabel)
    rfl
  · rcases List.mem_cons.mp hstatement with rfl | hoperand
    · rfl
    · exact Phrase.line_of_mem_operands n t hoperand

theorem forall_mem_lines {P : Line → Prop} (h : ∀ w ∈ ws, ∀ n, P (w.line n)) :
    ∀ l ∈ lines ws, P l := by
  rw [lines, List.forall_mem_map]
  intro p hp
  exact h p.1 (List.fst_mem_of_mem_zipIdx hp) p.2

theorem wellFormed_lines (h : ∀ w ∈ ws, w.Proper) : ∀ l ∈ lines ws, l.WellFormed :=
  forall_mem_lines fun w hw n ↦ wellFormed_line (h w hw) n

theorem stacked_lines (ws : List Written) : Stacked (lines ws) := by
  constructor
  · exact forall_mem_lines fun w _ n ↦ line_of_mem_tokens n
  · have hnumbers : (lines ws).map Line.number = List.range' 1 ws.length := by
      rw [lines, List.map_map, ← List.zipIdx_map_snd]
      rfl
    have hapart : ((lines ws).map Line.number).Pairwise (· < ·) := by
      rw [hnumbers]
      exact List.pairwise_lt_range'
    exact (List.pairwise_map.mp hapart).isChain.imp fun _ _ hlt ↦ Nat.ne_of_lt hlt

/-! ## The words on a line -/

/-- The words of a line, the label first. -/
def words (w : Written) : List (List Char) := w.label.toList.map String.toList ++ w.phrase.words

theorem words_line (w : Written) (n : Nat) :
    (w.line n).tokens.map (·.text.toList) = w.words := by
  rw [words, ← w.phrase.words_statement n, Line.tokens, List.map_append, List.map_cons]
  unfold line
  cases w.label <;> rfl

theorem lineWords_words (h : w.Proper) : LineWords w.words := by
  rw [← words_line w 0]
  have hspelled := spelled_line h 0
  exact Line.lineWords_of_operands (wellFormed_line h 0) hspelled.label hspelled.operands

/-- A line is its words, with a comma behind the label. -/
theorem toList_text (w : Written) :
    w.text.toList = w.label.elim (joinWords w.phrase.words) fun name ↦
      name.toList ++ ',' :: ' ' :: joinWords w.phrase.words := by
  rw [← Phrase.toList_text, text]
  cases w.label <;> simp

theorem char_of_mem_text (h : w.Proper) {c : Char} (hc : c ∈ w.text.toList) :
    isWordChar c ∨ c = ' ' ∨ c = ',' := by
  have hjoined {ws : List (List Char)} (hws : ∀ v ∈ ws, IsWord v) (hc : c ∈ joinWords ws) :
      isWordChar c ∨ c = ' ' ∨ c = ',' := by
    rcases mem_joinWords hc with rfl | ⟨v, hv, hmem⟩
    · exact .inr (.inl rfl)
    · exact .inl ((hws v hv).chars c hmem)
  have hwords := (lineWords_words h).isWord
  have hlabel := h.label
  rw [toList_text] at hc
  cases hname : w.label with
  | none =>
    rw [hname] at hc
    exact hjoined (fun v hv ↦ hwords v (List.mem_append_right _ hv)) hc
  | some name =>
    rw [hname] at hc hlabel
    rcases List.mem_append.mp hc with hmem | hmem
    · exact .inl ((isWord_of_isName (hlabel name rfl).name).chars c hmem)
    rcases List.mem_cons.mp hmem with rfl | hmem
    · exact .inr (.inr rfl)
    rcases List.mem_cons.mp hmem with rfl | hmem
    · exact .inr (.inl rfl)
    · exact hjoined (fun v hv ↦ hwords v (List.mem_append_right _ hv)) hmem

end Written

namespace Text

theorem lines_intercalate {ls : List (List Char)} (hne : ∀ l ∈ ls, l ≠ [])
    (h : ∀ l ∈ ls, '\n' ∉ l) : lines (['\n'].intercalate ls) = ls := by
  induction ls with
  | nil => rfl
  | cons l ls ih =>
    rw [List.forall_mem_cons] at hne h
    cases ls with
    | nil =>
      have hline := lines_append hne.1 h.1 []
      rw [List.append_nil] at hline
      rw [List.intercalate_singleton, hline]
      simp [lines]
    | cons l' ls =>
      rw [List.intercalate_cons_cons, List.append_assoc, List.singleton_append,
        lines_append_newline h.1, ih hne.2 h.2]

end Text

namespace CodeLine

variable {n : Nat}

theorem words_append_cons (cs ds : List Char) {c : Char} (hc : isSeparator c) :
    (CodeLine.mk n (cs ++ c :: ds)).words =
      (CodeLine.mk n cs).words ++ (CodeLine.mk n ds).words := by
  rw [words, words, words, List.splitOnP_append_cons cs ds hc, List.filter_append]

theorem words_of_isWord {w : List Char} (h : IsWord w) : (CodeLine.mk n w).words = [w] := by
  have hne := h.ne_nil
  rw [words, List.splitOnP_eq_singleton fun c hc ↦ isSeparator_of_isWordChar (h.chars c hc)]
  simp [hne]

theorem words_joinWords {ws : List (List Char)} (h : ∀ w ∈ ws, IsWord w) :
    (CodeLine.mk n (joinWords ws)).words = ws := by
  fun_induction joinWords with
  | case1 => rfl
  | case2 w => exact words_of_isWord (h w List.mem_cons_self)
  | case3 w ws _ ih =>
    obtain ⟨hw, hws⟩ := List.forall_mem_cons.mp h
    rw [words_append_cons w (joinWords ws) rfl, words_of_isWord hw, ih hws]
    rfl

end CodeLine

namespace Written

variable {w : Written} {ws : List Written}

theorem words_text (h : w.Proper) (n : Nat) : (CodeLine.mk n w.text.toList).words = w.words := by
  have hphrase : ∀ v ∈ w.phrase.words, IsWord v := fun v hv ↦
    (lineWords_words h).isWord v (List.mem_append_right _ hv)
  have hlabel := h.label
  rw [toList_text, words]
  cases hname : w.label with
  | none => exact CodeLine.words_joinWords hphrase
  | some name =>
    rw [hname] at hlabel
    have hrest : (CodeLine.mk n (' ' :: joinWords w.phrase.words)).words = w.phrase.words :=
      (CodeLine.words_append_cons [] _ rfl).trans (CodeLine.words_joinWords hphrase)
    rw [Option.elim_some, CodeLine.words_append_cons _ _ rfl, hrest,
      CodeLine.words_of_isWord (isWord_of_isName (hlabel name rfl).name)]
    rfl

/-! ## The text of a program -/

theorem text_ne_nil (h : w.Proper) : w.text.toList ≠ [] := by
  intro hnil
  have hwords := words_text h 0
  rw [hnil] at hwords
  have hhead : (w.line 0).head.text.toList ∈ w.words := by
    rw [← words_line w 0]
    exact List.mem_map_of_mem (List.mem_append_right _ List.mem_cons_self)
  rw [← hwords] at hhead
  cases hhead

theorem codeLines_source (h : ∀ w ∈ ws, w.Proper) :
    codeLines (source ws) = (ws.zipIdx 1).map fun p ↦ ⟨p.2, p.1.text.toList⟩ := by
  have hchars : ∀ l ∈ ws.map (·.text.toList), ∀ c ∈ l, isWordChar c ∨ c = ' ' ∨ c = ',' :=
    List.forall_mem_map.mpr fun w hw _ hc ↦ char_of_mem_text (h w hw) hc
  have hfree {c : Char} (hword : isWordChar c = false) (hblank : c ≠ ' ') (hcomma : c ≠ ',') :
      ∀ l ∈ ws.map (·.text.toList), c ∉ l := by
    intro l hl hc
    rcases hchars l hl c hc with hc | hc | hc
    · rw [hword] at hc
      cases hc
    · exact hblank hc
    · exact hcomma hc
  have hsource : (source ws).toList = ['\n'].intercalate (ws.map (·.text.toList)) := by
    rw [source, String.toList_intercalate, List.map_map]
    rfl
  have hraw : Text.lines (source ws).toList = ws.map (·.text.toList) := by
    rw [hsource]
    exact Text.lines_intercalate (List.forall_mem_map.mpr fun w hw ↦ text_ne_nil (h w hw))
      (hfree rfl (by decide) (by decide))
  have hlines : Text.lines (Text.uppercase (source ws)) = ws.map (·.text.toList) := by
    rw [Text.uppercase, Text.lines_flatMap_upper, hraw, List.map_map]
    refine List.map_congr_left fun w hw ↦ ?_
    have hupper : ∀ c ∈ w.text.toList, Text.upper c = [c] := by
      intro c hc
      rcases char_of_mem_text (h w hw) hc with hword | rfl | rfl
      · exact upper_of_isWordChar hword
      · rfl
      · rfl
    rw [Function.comp_apply, List.flatMap_congr hupper, List.flatMap_singleton']
  rw [codeLines, hlines, List.zipIdx_map, List.map_map]
  refine List.map_congr_left fun p hp ↦ ?_
  have hslash := hfree (c := '/') rfl (by decide) (by decide) _
    (List.mem_map_of_mem (List.fst_mem_of_mem_zipIdx hp))
  exact congrArg (CodeLine.mk p.2) (beforeComment_of_not_mem hslash)

theorem map_words_zipIdx (ws : List Written) :
    ((ws.zipIdx 1).map fun p ↦ p.1.words) = ws.map words := by
  nth_rewrite 2 [← List.zipIdx_map_fst 1 ws]
  rw [List.map_map]
  rfl

theorem map_words_codeLines (h : ∀ w ∈ ws, w.Proper) :
    (codeLines (source ws)).map CodeLine.words = ws.map words := by
  rw [codeLines_source h, List.map_map, ← map_words_zipIdx]
  refine List.map_congr_left fun p hp ↦ ?_
  exact words_text (h p.1 (List.fst_mem_of_mem_zipIdx hp)) p.2

theorem wordLines_source (h : ∀ w ∈ ws, w.Proper) :
    wordLines (source ws) = (lines ws).map fun l ↦ l.tokens.map (·.text.toList) := by
  have hlines : ((lines ws).map fun l ↦ l.tokens.map (·.text.toList)) = ws.map words := by
    rw [lines, List.map_map, ← map_words_zipIdx]
    exact List.map_congr_left fun p _ ↦ words_line p.1 p.2
  rw [wordLines, map_words_codeLines h, hlines, List.filter_eq_self, List.forall_mem_map]
  intro w hw
  have hline := lineWords_words (h w hw)
  generalize w.words = v at hline ⊢
  cases hline <;> rfl

theorem head?_words (w : Written) :
    w.words.head? = some ((w.label.getD (w.phrase.statement 0).keyword.name).toList) := by
  rw [← words_line w 0, line, Line.tokens]
  cases w.label <;> rfl

/-- The first word of a text is that of the first line. -/
theorem firstWord?_source (h : ∀ w ∈ ws, w.Proper) :
    (firstWord? (source ws)).map String.toList = (ws.flatMap words).head? := by
  have hclean : ∀ c ∈ codeLines (source ws), c.IsClean := by
    rw [codeLines_source h, List.forall_mem_map]
    intro p hp v hv
    have hw := h p.1 (List.fst_mem_of_mem_zipIdx hp)
    rw [words_text hw] at hv
    exact ((lineWords_words hw).isWord v hv).chars
  have hwords : (codeLines (source ws)).flatMap CodeLine.words = ws.flatMap words := by
    rw [List.flatMap_def, List.flatMap_def, map_words_codeLines h]
  rw [firstWord?, ← hwords, ← map_text_flatMap_lexemes hclean, List.head?_map, Option.map_map]
  rfl

theorem not_startsWithNumeral_source (h : ∀ w ∈ ws, w.Proper)
    (hlabel : ∀ w ∈ ws.head?, ∀ name ∈ w.label, ¬Numeral.isHex name.toList) :
    ¬StartsWithNumeral (source ws) := by
  rintro ⟨first, hfirst, hfree, hhex⟩
  have hwords := firstWord?_source h
  rw [show firstWord? (source ws) = some first from hfirst] at hwords
  cases ws with
  | nil => cases hwords
  | cons w ws =>
    rw [List.flatMap_cons, List.head?_append, head?_words] at hwords
    have htext : first = w.label.getD (w.phrase.statement 0).keyword.name :=
      String.toList_inj.mp (Option.some.inj hwords)
    cases hname : w.label with
    | none =>
      rw [htext, hname, Option.getD_none, Keyword.ofName?_name] at hfree
      exact hfree rfl
    | some name =>
      rw [htext, hname] at hhex
      exact hlabel w rfl name hname hhex

/-! ## Programs -/

/-- Whether lines that are written down make a program: they are proper, the first word is no
number, and the lines end, find their place and know their names. -/
structure IsProgram (ws : List Written) : Prop where
  proper : ∀ w ∈ ws, w.Proper
  first : ∀ w ∈ ws.head?, ∀ name ∈ w.label, ¬Numeral.isHex name.toList
  ends : endFault? ((lines ws).flatMap Line.tokens) = none
  places : misplacement? [] (lines ws) = none
  names : undefined? (lines ws) ((lines ws).flatMap Line.tokens) = none

theorem IsProgram.acceptable (h : IsProgram ws) :
    Acceptable ((lines ws).flatMap Line.tokens) (lines ws) := by
  have hw := wellFormed_lines h.proper
  have hnumbers : (lines ws).findSome? Line.literalFault? = none := by
    rw [List.findSome?_eq_none_iff]
    apply forall_mem_lines
    intro w _ n
    exact Line.literalFault?_eq_none_iff.mpr (Phrase.inRange_statement n)
  rw [acceptable_iff (parse_flatMap_tokens hw (stacked_lines ws)), lineFault?, h.ends, h.places,
    h.names, hnumbers]
  rfl

/-- A program that is written down is read as its lines, up to the places where they stand, and is
assembled to what they leave behind. -/
theorem IsProgram.assembled (h : IsProgram ws) :
    ∃ p, (assemble (source ws)).outcome = .ok p ∧
      (Program.ofEmissions (effectsOf (lines ws))).Alike p := by
  have hw := wellFormed_lines h.proper
  have hs : ∀ l ∈ lines ws, l.Spelled :=
    forall_mem_lines fun w hw n ↦ spelled_line (h.proper w hw) n
  have hfirst := not_startsWithNumeral_source h.proper h.first
  obtain ⟨tokens, ls, ht, hp, hmoved⟩ :=
    exists_parse_of_spelled hw hs (wordLines_source h.proper) hfirst
  exact (assemble_of_map_moved hw (stacked_lines ws) h.acceptable ht hp hmoved).1

end Written

/-! ## Loading -/

namespace Program.Alike

variable {p q : Program}

theorem words (h : p.Alike q) : p.words = q.words := by
  rw [Program.words, Program.words, h.instructions, h.data]

theorem entryPoint (h : p.Alike q) : p.entryPoint = q.entryPoint := by
  have horigins := congrArg (fun ws ↦ (ws.map Prod.fst).head?) h.instructions
  rw [List.map_map, List.map_map, List.head?_map, List.head?_map] at horigins
  exact horigins

end Program.Alike

/-- Memory after words have been put where they go, one after the other. -/
def imageOf (ws : List (Nat × Word)) (a : Address) : Word := (lastWord ws a.toNat).getD 0

theorem imageOf_concat (ws : List (Nat × Word)) (a : Address) (w : Word) :
    imageOf (ws ++ [(a.toNat, w)]) = Function.update (imageOf ws) a w := by
  funext b
  rw [imageOf, lastWord_append, lastWord, List.filter_singleton]
  by_cases hb : b = a
  · subst hb
    rw [Function.update_self, beq_self_eq_true]
    rfl
  · have hne : (a.toNat == b.toNat) = false :=
      beq_eq_false_iff_ne.mpr fun heq ↦ hb (BitVec.eq_of_toNat_eq heq).symm
    rw [Function.update_of_ne hb, hne]
    rfl

/-- The processor at power-on, but for the program counter and the memory. -/
def Processor.start (pc : Address) (memory : Address → Word) : Processor where
  ac := 0
  e := false
  pc := pc
  inpr := 0
  outr := 0
  s := true
  ien := false
  fgi := true
  fgo := true
  memory := memory
  input := []
  output := []

/-- A machine that has just been loaded is ready, as at power-on, to start with the first
instruction. -/
theorem Machine.ready_of_boot {p : Program} {m : Machine} (h : boot p = .ok m) {entry : Nat}
    (hentry : p.entryPoint = some entry) :
    m.Ready (.start (.ofNat 12 entry) (imageOf p.words)) := by
  obtain ⟨entry', hentry', hpc, hread⟩ := boot_eq_ok h
  obtain rfl : entry = entry' := Option.some.inj (hentry.symm.trans hentry')
  obtain ⟨memory, pc, rfl⟩ := boot_eq h
  obtain rfl : pc = .ofNat 12 entry := hpc
  exact ⟨rfl, rfl, rfl, congrArg (Processor.start _) (funext hread)⟩

/-- A program that is written down can be loaded once it is assembled. -/
theorem Written.IsProgram.loaded {ws : List Written} (h : IsProgram ws) {entry : Nat}
    (hentry : (Program.ofEmissions (effectsOf (lines ws))).entryPoint = some entry) {σ : Type}
    [Sink σ] (s : Simulator σ) :
    ∃ p s', (assemble (source ws)).outcome = .ok p ∧ s.load p = (.ok (), s') ∧
      s'.machine.Ready (.start (.ofNat 12 entry)
        (imageOf (Program.ofEmissions (effectsOf (lines ws))).words)) := by
  obtain ⟨p, houtcome, halike⟩ := h.assembled
  rw [halike.entryPoint] at hentry
  have hok := load_of_assemble houtcome (hentry ▸ rfl) s
  have hload : s.load p = (.ok (), (s.load p).2) := Prod.ext hok rfl
  rw [halike.words]
  exact ⟨p, _, houtcome, hload, Machine.ready_of_boot (Simulator.boot_of_load hload) hentry⟩

end BasicComputer
