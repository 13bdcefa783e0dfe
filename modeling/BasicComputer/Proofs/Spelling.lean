import BasicComputer.Proofs.LineGrammar
import BasicComputer.Proofs.WordLines

/-!
# Lines told from their words

What the lexer makes of a word depends on its spelling, on the word before it and on the line it
stands on. What makes up a line leaves no room for this. Two lines with the same words are the same
line, up to the places where they stand, whatever is in front of them.

So a text that has the words of some lines is read as these lines, and if they are acceptable it is
assembled to what they leave behind.

## Why words are enough

Kinds of tokens are given by neighbours, and a line that is moved to another text gets new ones. The
same spelling could then stand for something else. It does not, since within a line the reserved
word settles what stands behind it, and the one place that the line above reaches is the label.

## Up to places

Equality of lines would be too much to ask, because every token carries its place. What is shown is
equality after all places have been sent to one. What lines leave behind forgets places as well, so
nothing is lost for those who assemble.
-/

namespace BasicComputer

/-! ## Words of a line -/

def Place.Spelled : Place → Prop
  | number t => Numeral.isDecimal t.text.toList
  | symbol _ => True

/-- Whether a number that a statement refers to is spelled as one. -/
def Statement.Spelled : Statement → Prop
  | memory _ place _ => place.Spelled
  | register _ | io _ | origin _ | datum _ _ | finish => True

/-- What the words of a line are like if the lexer has told its tokens apart. -/
structure Line.Spelled (l : Line) : Prop where
  label : ∀ t ∈ l.label, ¬IsReserved t.text.toList
  statement : l.statement.Spelled
  operands : Operands l.statement.keyword (l.statement.operands.map (·.text.toList))

theorem Line.spelled {l : Line} (hl : l.WellFormed) {previous : Option Token}
    (h : Token.Classified previous l.tokens) : l.Spelled := by
  obtain ⟨hlabel, hoperands⟩ := classified_label_operands h
  constructor
  · exact fun t ht ↦ (isSymbol_of_kindOf (hlabel t ht) (hl.label t ht)).free
  · have hhead := hl.head
    have hw := hl.operands
    cases hs : l.statement with
    | memory op place marker =>
      rw [hs] at hhead hw hoperands
      cases place with
      | number t => exact isDecimal_of_kindOf hhead hoperands.1 hw.1
      | symbol t => trivial
    | register _ | io _ | origin _ | datum _ _ | finish => trivial
  · exact Statement.operands_words hl.operands hl.head hoperands

theorem Token.map_moved_nowhere_eq {o o' : Option Token} {kind : TokenKind}
    (h : ∀ t ∈ o, t.kind = kind) (h' : ∀ t ∈ o', t.kind = kind)
    (htext : o.map (·.text) = o'.map (·.text)) :
    o.map (moved .nowhere) = o'.map (moved .nowhere) := by
  rcases o with _ | t <;> rcases o' with _ | t'
  · rfl
  · cases htext
  · cases htext
  · exact congrArg some
      (moved_nowhere_eq (Option.some.inj htext) ((h t rfl).trans (h' t' rfl).symm))

/-- A number and a name are never the same word. -/
theorem Place.moved_eq_of_text {place place' : Place} (h : place.WellFormed)
    (h' : place'.WellFormed) (hs : place.Spelled) (hs' : place'.Spelled)
    (htext : place.token.text = place'.token.text) :
    place.moved .nowhere = place'.moved .nowhere := by
  have hne {t t' : Token} (hdecimal : Numeral.isDecimal t.text.toList)
      (hname : isName t'.text.toList) : t.text ≠ t'.text := by
    intro htext
    rw [htext] at hdecimal
    exact not_isDecimal_of_isName hname hdecimal
  cases place with
  | number t =>
    cases place' with
    | number t' => exact congrArg number (Token.moved_nowhere_eq htext (h.trans h'.symm))
    | symbol t' => exact absurd htext (hne hs h'.2)
  | symbol t =>
    cases place' with
    | number t' => exact absurd htext.symm (hne hs' h.2)
    | symbol t' => exact congrArg symbol (Token.moved_nowhere_eq htext (h.1.trans h'.1.symm))

/-- A statement can be told from its reserved word and the words behind it. -/
theorem Statement.moved_eq_of_words {s s' : Statement} (h : s.WellFormed) (h' : s'.WellFormed)
    (hs : s.Spelled) (hs' : s'.Spelled) (hkeyword : s.keyword = s'.keyword)
    (hwords : s.operands.map (·.text) = s'.operands.map (·.text)) :
    s.moved .nowhere = s'.moved .nowhere := by
  cases s with
  | memory op place marker =>
    obtain ⟨place', marker', rfl⟩ : ∃ place' marker', s' = memory op place' marker' := by
      cases s' <;> cases hkeyword
      exact ⟨_, _, rfl⟩
    obtain ⟨htext, hmarker⟩ := List.cons.inj hwords
    refine congrArg₂ (memory op) (Place.moved_eq_of_text h.1 h'.1 hs hs' htext) ?_
    rw [← Option.toList_map, ← Option.toList_map] at hmarker
    have hheads := congrArg List.head? hmarker
    rw [Option.head?_toList, Option.head?_toList] at hheads
    exact Token.map_moved_nowhere_eq h.2 h'.2 hheads
  | origin value =>
    obtain ⟨value', rfl⟩ : ∃ value', s' = origin value' := by
      cases s' <;> cases hkeyword
      exact ⟨_, rfl⟩
    exact congrArg origin (Token.moved_nowhere_eq (List.cons.inj hwords).1 (h.trans h'.symm))
  | datum radix value =>
    obtain ⟨value', rfl⟩ : ∃ value', s' = datum radix value' := by
      cases s' <;> cases hkeyword
      exact ⟨_, rfl⟩
    exact congrArg (datum radix)
      (Token.moved_nowhere_eq (List.cons.inj hwords).1 (h.trans h'.symm))
  | register op | io op | finish =>
    cases s' <;> cases hkeyword
    rfl

namespace Line

/-- Lines with the same words have them in the same places. -/
theorem parts_eq_of_words {l l' : Line} (hl : l.WellFormed) (hl' : l'.WellFormed)
    (hs : l.Spelled) (hs' : l'.Spelled) (h : l.tokens.map (·.text) = l'.tokens.map (·.text)) :
    l.label.map (·.text) = l'.label.map (·.text) ∧ l.head.text = l'.head.text ∧
      l.statement.operands.map (·.text) = l'.statement.operands.map (·.text) := by
  have hreserved {l : Line} (hl : l.WellFormed) : IsReserved l.head.text.toList := by
    rw [Token.text_of_keyword? hl.head]
    exact isReserved_name _
  rw [tokens, tokens] at h
  -- a line starts with a label exactly if its first word is not reserved
  rcases hlabel : l.label with _ | t <;> rcases hlabel' : l'.label with _ | t' <;>
    rw [hlabel, hlabel'] at h
  · exact ⟨rfl, List.cons.inj h⟩
  · have hfirst : l.head.text = t'.text := (List.cons.inj h).1
    exact absurd (hfirst ▸ hreserved hl) (hs'.label t' hlabel')
  · have hfirst : t.text = l'.head.text := (List.cons.inj h).1
    exact absurd (hfirst ▸ hreserved hl') (hs.label t hlabel)
  · obtain ⟨htext, hrest⟩ := List.cons.inj h
    exact ⟨congrArg some htext, List.cons.inj hrest⟩

/-- **A line can be told from its words**, up to the place where it stands. -/
theorem moved_eq_of_words {l l' : Line} (hl : l.WellFormed) (hl' : l'.WellFormed)
    (hs : l.Spelled) (hs' : l'.Spelled) (h : l.tokens.map (·.text) = l'.tokens.map (·.text)) :
    l.moved .nowhere = l'.moved .nowhere := by
  obtain ⟨hlabel, hhead, hoperands⟩ := parts_eq_of_words hl hl' hs hs' h
  have hkind := (Token.kind_of_keyword? hl.head).trans (Token.kind_of_keyword? hl'.head).symm
  have hmoved := Token.moved_nowhere_eq hhead hkind
  have hkeyword : l.statement.keyword = l'.statement.keyword := by
    rw [← Option.some_inj, ← hl.head, ← hl'.head]
    exact (congrArg Token.keyword? hmoved :)
  have hlabels := Token.map_moved_nowhere_eq (fun t ht ↦ (hl.label t ht).1)
    (fun t ht ↦ (hl'.label t ht).1) hlabel
  have hstatement := Statement.moved_eq_of_words hl.operands hl'.operands hs.statement
    hs'.statement hkeyword hoperands
  rw [moved, moved, hlabels, hmoved, hstatement]

end Line

theorem map_moved_eq_of_words {lines lines' : List Line} (hw : ∀ l ∈ lines, l.WellFormed)
    (hw' : ∀ l ∈ lines', l.WellFormed) (hs : ∀ l ∈ lines, l.Spelled)
    (hs' : ∀ l ∈ lines', l.Spelled)
    (h : lines.map (fun l ↦ l.tokens.map (·.text)) = lines'.map fun l ↦ l.tokens.map (·.text)) :
    lines.map (Line.moved .nowhere) = lines'.map (Line.moved .nowhere) := by
  induction lines generalizing lines' with
  | nil =>
    obtain rfl : lines' = [] := by simpa using h.symm
    rfl
  | cons l lines ih =>
    obtain ⟨l', lines', rfl, hl, hlines⟩ := List.map_eq_cons_iff.mp h.symm
    rw [List.forall_mem_cons] at hw hw' hs hs'
    rw [List.map_cons, List.map_cons,
      Line.moved_eq_of_words hw.1 hw'.1 hs.1 hs'.1 hl.symm, ih hw.2 hw'.2 hs.2 hs'.2 hlines.symm]

/-! ## Texts with the words of some lines -/

section Texts

variable {source : String} {tokens : List Token} {lines : List Line}

/-- The words of a text that can be read are those of its lines. -/
theorem map_text_of_parse (ht : tokenize source = .ok tokens) (hp : parse tokens = .ok lines) :
    lines.map (fun l ↦ l.tokens.map (·.text)) =
      (wordLines source).map (List.map String.ofList) := by
  rw [← map_map_text_occupied (tokenize_eq_ok_iff.mp ht).1, eq_comm, ← List.forall₂_eq_eq_eq,
    List.forall₂_map_left_iff, List.forall₂_map_right_iff]
  refine (standsOn_of_parse ht hp).imp fun c l (hl : l.tokens.map Token.toLexeme = c.lexemes) ↦ ?_
  rw [← hl, List.map_map]
  rfl

theorem spelled_of_parse (ht : tokenize source = .ok tokens) (hp : parse tokens = .ok lines) :
    ∀ l ∈ lines, l.Spelled := by
  intro l hl
  obtain ⟨previous, hclassified⟩ := exists_classified_of_parse ht hp hl
  exact Line.spelled ((parse_eq_ok hp).2 l hl) hclassified

/-- A text with the words of some lines is read as these lines, up to the places where they
stand. -/
theorem exists_parse_of_spelled (hw : ∀ l ∈ lines, l.WellFormed) (hs : ∀ l ∈ lines, l.Spelled)
    (hwords : wordLines source = lines.map fun l ↦ l.tokens.map (·.text.toList))
    (hfirst : ¬StartsWithNumeral source) :
    ∃ tokens' lines', tokenize source = .ok tokens' ∧ parse tokens' = .ok lines' ∧
      lines'.map (Line.moved .nowhere) = lines.map (Line.moved .nowhere) := by
  have hlines : ∀ ws ∈ wordLines source, LineWords ws := by
    rw [hwords, List.forall_mem_map]
    exact fun l hl ↦ Line.lineWords_of_operands (hw l hl) (hs l hl).label (hs l hl).operands
  have hcode : ∀ c ∈ codeLines source, c.words ≠ [] → LineWords c.words := by
    intro c hc hne
    refine hlines c.words (List.mem_filter.mpr ⟨List.mem_map_of_mem hc, ?_⟩)
    simpa using hne
  have hclean : ∀ c ∈ codeLines source, c.IsClean := by
    intro c hc w hmem
    exact ((hcode c hc (List.ne_nil_of_mem hmem)).isWord w hmem).chars
  have hnumeral : ∀ w ∈ ((codeLines source).flatMap CodeLine.words).head?,
      IsSymbol w → ¬Numeral.isHex w := by
    intro w hw hsymbol hhex
    rw [← map_text_flatMap_lexemes hclean, List.head?_map] at hw
    obtain ⟨x, hx, rfl⟩ := Option.map_eq_some_iff.mp hw
    have hfree := isReserved_toList.not.mp hsymbol.free
    exact hfirst ⟨x.text, Option.mem_map_of_mem _ hx, hfree, hhex⟩
  obtain ⟨tokens', lines', ht', hp'⟩ := exists_parse_of_lineWords hclean hcode hnumeral
  refine ⟨tokens', lines', ht', hp', ?_⟩
  apply map_moved_eq_of_words (parse_eq_ok hp').2 hw (spelled_of_parse ht' hp') hs
  rw [map_text_of_parse ht' hp', hwords, List.map_map]
  refine List.map_congr_left fun l _ ↦ ?_
  rw [Function.comp_apply, List.map_map]
  exact List.map_congr_left fun t _ ↦ String.ofList_toList

/-- A text is assembled to what acceptable lines leave behind if it is read as these lines, up to
the places where they stand. -/
theorem assemble_of_map_moved {lines' : List Line} (hw : ∀ l ∈ lines, l.WellFormed)
    (hstacked : Stacked lines) (h : Acceptable (lines.flatMap Line.tokens) lines)
    (ht : tokenize source = .ok tokens) (hp : parse tokens = .ok lines')
    (hmoved : lines'.map (Line.moved .nowhere) = lines.map (Line.moved .nowhere)) :
    (∃ q, (assemble source).outcome = .ok q ∧ (Program.ofEmissions (effectsOf lines)).Alike q) ∧
      (assemble source).symbols = symbolsOf lines := by
  obtain ⟨rfl, -⟩ := parse_eq_ok hp
  have htokens : (lines.flatMap Line.tokens).map (Token.moved .nowhere) =
      (lines'.flatMap Line.tokens).map (Token.moved .nowhere) := by
    rw [← flatMap_tokens_moved, ← flatMap_tokens_moved, hmoved]
  have hparse := parse_flatMap_tokens hw hstacked
  obtain ⟨hend, hfault⟩ := Option.or_eq_none_iff.mp ((acceptable_iff hparse).mp h)
  have hcheck : checkEnd (lines'.flatMap Line.tokens) = .ok () := by
    have hcongr := checkEnd_congr rfl htokens
    rw [checkEnd_eq_ok.mpr hend] at hcongr
    cases hresult : checkEnd (lines'.flatMap Line.tokens) with
    | ok _ => rfl
    | error e =>
      rw [hresult] at hcongr
      cases hcongr
  have hassembled := assembleLines_eq hparse hend []
  rw [hfault] at hassembled
  obtain ⟨houtcome, hsymbols⟩ := hassembled
  obtain ⟨reported, hassembly⟩ := exists_assembleText_eq ht hp hcheck
  obtain ⟨hsame, hsameOutcome⟩ := assembleLines_congr htokens hmoved.symm [] reported
  rw [hsymbols] at hsame
  rw [houtcome] at hsameOutcome
  rw [outcome_assemble, symbols_assemble, hassembly]
  refine ⟨?_, hsame.symm⟩
  generalize (assembleLines (lines'.flatMap Line.tokens) lines' reported).outcome = o
    at hsameOutcome
  cases hsameOutcome with
  | ok halike => exact ⟨_, rfl, halike⟩

end Texts

end BasicComputer
