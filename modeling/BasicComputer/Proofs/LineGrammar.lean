import BasicComputer.Proofs.Kinds
import BasicComputer.Proofs.SourceLines
import BasicComputer.Proofs.Words

/-!
# The grammar of a line

The kind of a token depends on the token before it, which may stand on another line, and the parser
goes by kinds alone. Still, which texts can be read is a matter of single lines and of the words on
them: what a line ends with leaves no mark on the line below. Only the very first word of a text,
which has no word before it, is under a condition of its own.

## Two directions

A grammar is a description of words, and it does not mention kinds or tokens. From lines that are
read to the grammar one only has to forget. The way back has to choose kinds for the words, and the
choice is forced: it is what the word in front gives. That this never goes wrong at the start of a
line is because no line ends with a reserved word that asks for something.

## The first word

At the start of a text there is nothing in front. The lexer then goes by the shape of the word, and
a label made of hexadecimal digits is taken for a number. On every other line the same label is
fine, so the condition cannot be made part of the grammar of lines.
-/

namespace BasicComputer

/-! ## Grammar -/

/-- The words that may stand behind a reserved word. -/
inductive Operands : Keyword → List (List Char) → Prop
  | direct (op : MemoryOp) {place : List Char} (h : Numeral.isDecimal place ∨ IsSymbol place) :
      Operands (.mnemonic (.memory op)) [place]
  | indirect (op : MemoryOp) {place : List Char} (h : Numeral.isDecimal place ∨ IsSymbol place) :
      Operands (.mnemonic (.memory op)) [place, ['I']]
  | register (op : RegisterOp) : Operands (.mnemonic (.register op)) []
  | io (op : IoOp) : Operands (.mnemonic (.io op)) []
  | finish : Operands (.directive .finish) []
  | origin {w : List Char} (h : Numeral.isHex w) (hfree : ¬IsReserved w) :
      Operands (.directive .origin) [w]
  | hexadecimal {w : List Char} (h : Numeral.isHex w) (hfree : ¬IsReserved w) :
      Operands (.directive (.datum .hexadecimal)) [w]
  | decimal {w : List Char} (h : Numeral.isSignedDecimal w) :
      Operands (.directive (.datum .decimal)) [w]

/-- The words that make up a line: a statement, and maybe a label in front of it. -/
inductive LineWords : List (List Char) → Prop
  | bare {k : Keyword} {operands : List (List Char)} (h : Operands k operands) :
      LineWords (k.name.toList :: operands)
  | labelled {label : List Char} (hlabel : IsSymbol label) {k : Keyword}
      {operands : List (List Char)} (h : Operands k operands) :
      LineWords (label :: k.name.toList :: operands)

/-! ## What is read is grammatical -/

section Reading

variable {previous : Option Token} {head : Token}

theorem isSymbol_of_kindOf {t : Token} (hkind : Token.kindOf previous t.toLexeme = t.kind)
    (h : t.kind = .identifier ∧ isName t.text.toList) : IsSymbol t.text.toList :=
  ⟨h.2, Token.not_isReserved_of_kindOf (hkind.trans h.1) TokenKind.noConfusion⟩

theorem isDecimal_of_kindOf {t : Token} {op : MemoryOp}
    (hhead : head.keyword? = some (.mnemonic (.memory op)))
    (hkind : Token.kindOf (some head) t.toLexeme = t.kind) (h : t.kind = .number .decimal) :
    Numeral.isDecimal t.text.toList := by
  obtain ⟨-, hnumber⟩ := Token.kindAfter_of_kindOf hhead (hkind.trans h)
  exact Token.of_ite_eq_number hnumber

theorem Place.isDecimal_or_isSymbol {place : Place} (hplace : place.WellFormed) {op : MemoryOp}
    (hhead : head.keyword? = some (.mnemonic (.memory op)))
    (hkind : Token.kindOf (some head) place.token.toLexeme = place.token.kind) :
    Numeral.isDecimal place.token.text.toList ∨ IsSymbol place.token.text.toList := by
  cases place with
  | number t => exact .inl (isDecimal_of_kindOf hhead hkind hplace)
  | symbol t => exact .inr (isSymbol_of_kindOf hkind hplace)

/-- The operands of a statement are the words that its reserved word takes. -/
theorem Statement.operands_words {s : Statement} (hs : s.WellFormed)
    (hhead : head.keyword? = some s.keyword) (h : Token.Classified (some head) s.operands) :
    Operands s.keyword (s.operands.map (·.text.toList)) := by
  cases s with
  | memory op place marker =>
    obtain ⟨hplace, hmarker⟩ := hs
    obtain ⟨hkind, hrest⟩ := h
    have hwords := Place.isDecimal_or_isSymbol hplace hhead hkind
    cases marker with
    | none => exact .direct op hwords
    | some t =>
      have hI : t.text = "I" := Token.text_eq_mark (hrest.1.trans (hmarker t rfl))
      rw [operands, Option.toList_some, List.map_cons, List.map_singleton, hI]
      exact .indirect op hwords
  | register op => exact .register op
  | io op => exact .io op
  | finish => exact .finish
  | origin value =>
    obtain ⟨hfree, hnumber⟩ := Token.kindAfter_of_kindOf hhead (h.1.trans hs)
    exact .origin (Token.of_ite_eq_number hnumber) hfree
  | datum radix value =>
    obtain ⟨hfree, hnumber⟩ := Token.kindAfter_of_kindOf hhead (h.1.trans hs)
    cases radix with
    | decimal => exact .decimal (Token.of_ite_eq_number hnumber)
    | hexadecimal => exact .hexadecimal (Token.of_ite_eq_number hnumber) hfree

theorem Keyword.name_of_ofName? {s : String} {k : Keyword} (h : ofName? s = some k) :
    k.name = s := by
  rw [ofName?, Option.or_eq_some_iff] at h
  rcases h with h | ⟨-, h⟩
  · obtain ⟨m, hm, rfl⟩ := Option.map_eq_some_iff.mp h
    have hname := List.find?_some (show Mnemonic.all.find? (·.name == s) = some m from hm)
    exact beq_iff_eq.mp hname
  · obtain ⟨d, hd, rfl⟩ := Option.map_eq_some_iff.mp h
    have hname := List.find?_some (show Directive.all.find? (·.name == s) = some d from hd)
    exact beq_iff_eq.mp hname

theorem Token.text_of_keyword? {t : Token} {k : Keyword} (h : t.keyword? = some k) :
    t.text = k.name := by
  have hkind := kind_of_keyword? h
  rw [keyword?, if_pos hkind] at h
  exact (Keyword.name_of_ofName? h).symm

/-- The label of a line has the kind that it has behind the line before, and the operands have the
kinds that they have behind the reserved word. -/
theorem Line.classified_label_operands {l : Line} (h : Token.Classified previous l.tokens) :
    (∀ t ∈ l.label, Token.kindOf previous t.toLexeme = t.kind) ∧
      Token.Classified (some l.head) l.statement.operands := by
  unfold tokens at h
  cases hlabel : l.label with
  | none =>
    rw [hlabel] at h
    exact ⟨by simp, h.2⟩
  | some t =>
    rw [hlabel] at h
    obtain ⟨hkind, -, hrest⟩ := h
    exact ⟨by simpa using hkind, hrest⟩

theorem Line.lineWords_of_operands {l : Line} (hl : l.WellFormed)
    (hfree : ∀ t ∈ l.label, ¬IsReserved t.text.toList)
    (h : Operands l.statement.keyword (l.statement.operands.map (·.text.toList))) :
    LineWords (l.tokens.map (·.text.toList)) := by
  have hhead := Token.text_of_keyword? hl.head
  unfold tokens
  cases hlabel : l.label with
  | none =>
    rw [Option.toList_none, List.nil_append, List.map_cons, hhead]
    exact .bare h
  | some t =>
    rw [Option.toList_some, List.singleton_append, List.map_cons, List.map_cons, hhead]
    exact .labelled ⟨(hl.label t hlabel).2, hfree t hlabel⟩ h

/-- A line that is read consists of words that make up a line. -/
theorem Line.lineWords {l : Line} (hl : l.WellFormed) (h : Token.Classified previous l.tokens) :
    LineWords (l.tokens.map (·.text.toList)) := by
  obtain ⟨hlabel, hoperands⟩ := classified_label_operands h
  apply lineWords_of_operands hl
  · exact fun t ht ↦ (isSymbol_of_kindOf (hlabel t ht) (hl.label t ht)).free
  · exact Statement.operands_words hl.operands hl.head hoperands

theorem Token.classified_append {ts us : List Token} :
    Classified previous (ts ++ us) ↔
      Classified previous ts ∧ Classified (ts.getLast?.or previous) us := by
  induction ts generalizing previous with
  | nil => simp [Classified]
  | cons t ts ih =>
    have hlast : (t :: ts).getLast?.or previous = ts.getLast?.or (some t) := by
      rw [List.getLast?_cons]
      cases ts.getLast? <;> rfl
    rw [List.cons_append, Classified, ih, Classified, hlast, and_assoc]

theorem Line.exists_classified {lines : List Line}
    (h : Token.Classified previous (lines.flatMap tokens)) {l : Line} (hl : l ∈ lines) :
    ∃ p, Token.Classified p l.tokens := by
  induction lines generalizing previous with
  | nil => cases hl
  | cons l' rest ih =>
    rw [List.flatMap_cons, Token.classified_append] at h
    rcases List.mem_cons.mp hl with rfl | hl
    · exact ⟨previous, h.1⟩
    · exact ih h.2 hl

end Reading

/-! ## What is grammatical is read -/

section Writing

variable {previous : Option Token} {p head : Token} {x : Lexeme} {k : Keyword} {n : Nat}
  {xs : List Lexeme}

theorem Place.isOperand_token {place : Place} (h : place.WellFormed) :
    place.token.kind.isOperand := by
  cases place with
  | number t =>
    rw [token, show t.kind = _ from h]
    rfl
  | symbol t =>
    rw [token, h.1]
    rfl

theorem exists_place (h : Numeral.isDecimal x.text.toList ∨ IsSymbol x.text.toList) :
    ∃ place : Place, place.WellFormed ∧ place.token.toLexeme = x ∧
      ∀ (op : MemoryOp) (head : Token), head.keyword? = some (.mnemonic (.memory op)) →
        Token.kindOf (some head) x = place.token.kind := by
  rcases h with h | h
  · refine ⟨.number ⟨x, .number .decimal⟩, rfl, rfl, fun op head hhead ↦ ?_⟩
    have hplain := isPlain_of_isSignedDecimal (Numeral.isSignedDecimal_of_isDecimal h)
    exact (kindOf_of_isPlain hhead String.ofList_toList.symm hplain).trans (if_pos h)
  · refine ⟨.symbol ⟨x, .identifier⟩, ⟨rfl, h.name⟩, rfl, fun op head hhead ↦ ?_⟩
    apply Token.kindOf_eq_identifier h.free
    · rw [Token.kind_of_keyword? hhead]
      exact fun hboth ↦ Bool.false_ne_true hboth.2
    · intro k hk
      rw [hhead] at hk
      cases hk
      exact if_neg (not_isDecimal_of_isName h.name)

/-- Words that a reserved word takes are the operands of a statement. -/
theorem Operands.exists_statement (hxs : ∀ x ∈ xs, x.line = n)
    (h : Operands k (xs.map (·.text.toList))) :
    ∃ s : Statement, s.keyword = k ∧ s.WellFormed ∧ s.operands.map Token.toLexeme = xs ∧
      ∀ head : Token, head.keyword? = some k → Token.Classified (some head) s.operands := by
  have hnumber {k : Keyword} {x : Lexeme} {radix : Radix} (hplain : IsPlain x.text)
      (hafter : Token.kindAfter k x.text.toList = .number radix) (head : Token)
      (hhead : head.keyword? = some k) :
      Token.Classified (some head) [⟨x, .number radix⟩] := by
    rw [← String.ofList_toList (s := x.text)] at hplain
    exact ⟨(kindOf_of_isPlain hhead String.ofList_toList.symm hplain).trans hafter, trivial⟩
  generalize hws : xs.map (·.text.toList) = ws at h
  cases h with
  | direct op hplace =>
    obtain ⟨x, rfl, rfl⟩ := List.map_eq_singleton_iff.mp hws
    obtain ⟨place, hw, rfl, hkind⟩ := exists_place hplace
    exact ⟨.memory op place none, rfl, ⟨hw, by simp⟩, rfl, fun head hhead ↦
      ⟨hkind op head hhead, trivial⟩⟩
  | indirect op hplace =>
    obtain ⟨x, ys, rfl, rfl, hys⟩ := List.map_eq_cons_iff.mp hws
    obtain ⟨y, rfl, hy⟩ := List.map_eq_singleton_iff.mp hys
    obtain ⟨place, hw, rfl, hkind⟩ := exists_place hplace
    rw [List.forall_mem_cons, List.forall_mem_singleton] at hxs
    have hI : y.text = "I" := String.toList_inj.mp hy
    refine ⟨.memory op place (some ⟨y, .indirection⟩), rfl, ⟨hw, ?_⟩, rfl, fun head hhead ↦ ?_⟩
    · rintro t ⟨rfl⟩
      rfl
    · have hmark := kindOf_mark (hxs.1.trans hxs.2.symm) (Place.isOperand_token hw) hI
      exact ⟨hkind op head hhead, hmark, trivial⟩
  | register op =>
    obtain rfl := List.map_eq_nil_iff.mp hws
    exact ⟨.register op, rfl, trivial, rfl, fun _ _ ↦ trivial⟩
  | io op =>
    obtain rfl := List.map_eq_nil_iff.mp hws
    exact ⟨.io op, rfl, trivial, rfl, fun _ _ ↦ trivial⟩
  | finish =>
    obtain rfl := List.map_eq_nil_iff.mp hws
    exact ⟨.finish, rfl, trivial, rfl, fun _ _ ↦ trivial⟩
  | origin h hfree =>
    obtain ⟨x, rfl, rfl⟩ := List.map_eq_singleton_iff.mp hws
    rw [isReserved_toList] at hfree
    exact ⟨.origin ⟨x, .number .hexadecimal⟩, rfl, rfl, rfl,
      hnumber ⟨hfree, ne_mark_of_isHex h⟩ (if_pos h)⟩
  | hexadecimal h hfree =>
    obtain ⟨x, rfl, rfl⟩ := List.map_eq_singleton_iff.mp hws
    rw [isReserved_toList] at hfree
    exact ⟨.datum .hexadecimal ⟨x, .number .hexadecimal⟩, rfl, rfl, rfl,
      hnumber ⟨hfree, ne_mark_of_isHex h⟩ (if_pos h)⟩
  | decimal h =>
    obtain ⟨x, rfl, rfl⟩ := List.map_eq_singleton_iff.mp hws
    have hplain := isPlain_of_isSignedDecimal h
    rw [String.ofList_toList] at hplain
    exact ⟨.datum .decimal ⟨x, .number .decimal⟩, rfl, rfl, rfl, hnumber hplain (if_pos h)⟩

/-- Words that make up a line are read as one, whatever is in front of it, if only the first of them
is taken for what it is. -/
theorem LineWords.exists_line (hxs : ∀ x ∈ xs, x.line = n) (h : LineWords (xs.map (·.text.toList)))
    (hfirst : ∀ x ∈ xs.head?, ¬IsReserved x.text.toList →
      Token.kindOf previous x = .identifier) :
    ∃ l : Line, l.WellFormed ∧ l.tokens.map Token.toLexeme = xs ∧
      Token.Classified previous l.tokens := by
  have hstatement {k : Keyword} {x : Lexeme} (hx : x.text.toList = k.name.toList) :
      (Token.mk x .keyword).keyword? = some k ∧ ∀ p, Token.kindOf p x = .keyword := by
    have hname := Keyword.ofName?_name k
    rw [← String.toList_inj.mp hx] at hname
    exact ⟨(if_pos rfl).trans hname, fun p ↦ kindOf_of_isSome_ofName? (by rw [hname]; rfl)⟩
  generalize hws : xs.map (·.text.toList) = ws at h
  cases h with
  | bare h =>
    obtain ⟨x, ys, rfl, hx, rfl⟩ := List.map_eq_cons_iff.mp hws
    obtain ⟨hhead, hkind⟩ := hstatement hx
    obtain ⟨s, rfl, hw, rfl, hs⟩ := h.exists_statement (List.forall_mem_cons.mp hxs).2
    exact ⟨⟨none, ⟨x, .keyword⟩, s⟩, ⟨by simp, hhead, hw⟩, rfl, hkind previous, hs _ hhead⟩
  | labelled hlabel h =>
    obtain ⟨y, zs, rfl, rfl, hzs⟩ := List.map_eq_cons_iff.mp hws
    obtain ⟨x, ys, rfl, hx, rfl⟩ := List.map_eq_cons_iff.mp hzs
    obtain ⟨hhead, hkind⟩ := hstatement hx
    have hys := (List.forall_mem_cons.mp (List.forall_mem_cons.mp hxs).2).2
    obtain ⟨s, rfl, hw, rfl, hs⟩ := h.exists_statement hys
    refine ⟨⟨some ⟨y, .identifier⟩, ⟨x, .keyword⟩, s⟩, ⟨?_, hhead, hw⟩, rfl,
      hfirst y rfl hlabel.free, hkind _, hs _ hhead⟩
    rintro t ⟨rfl⟩
    exact ⟨rfl, hlabel.name⟩

/-- No line ends with a reserved word that asks for something. -/
theorem Line.kindAfter_last {l : Line} (hl : l.WellFormed) {t : Token}
    (ht : t ∈ l.tokens.getLast?) (hk : t.keyword? = some k) (cs : List Char) :
    Token.kindAfter k cs = .identifier := by
  have hlast : l.tokens.getLast? = some (l.statement.operands.getLast?.getD l.head) := by
    rw [tokens, List.getLast?_append, List.getLast?_cons]
    rfl
  rw [hlast, Option.mem_some_iff] at ht
  cases hoperands : l.statement.operands.getLast? with
  | some u =>
    rw [hoperands] at ht
    obtain rfl : u = t := ht
    have hmem := List.mem_of_getLast? hoperands
    exact absurd (Token.kind_of_keyword? hk) (Statement.kind_of_mem_operands hl.operands hmem)
  | none =>
    rw [hoperands] at ht
    obtain rfl : l.head = t := ht
    rw [hl.head, Option.some.injEq] at hk
    rw [List.getLast?_eq_none_iff] at hoperands
    cases hs : l.statement with
    | register op | io op | finish =>
      rw [hs] at hk
      rw [← hk]
      rfl
    | memory op place marker | origin value | datum radix value =>
      rw [hs] at hoperands
      cases hoperands

/-- Lines of words are read as lines, if only the first word of the text is taken for what it is. -/
theorem exists_lines {cs : List CodeLine} (hcs : cs.Pairwise fun c c' ↦ c.number < c'.number)
    (hwords : ∀ c ∈ cs, c.lexemes ≠ [] → LineWords (c.lexemes.map (·.text.toList)))
    (hfirst : ∀ x ∈ (cs.flatMap CodeLine.lexemes).head?, ¬IsReserved x.text.toList →
      Token.kindOf previous x = .identifier) :
    ∃ lines, List.Forall₂ (fun c l ↦ l.StandsOn c) (occupied cs) lines ∧
      (∀ l ∈ lines, l.WellFormed) ∧
      Token.Classified previous (lines.flatMap Line.tokens) := by
  induction cs generalizing previous with
  | nil => exact ⟨[], .nil, List.forall_mem_nil _, trivial⟩
  | cons c cs ih =>
    rw [List.pairwise_cons] at hcs
    rw [List.forall_mem_cons] at hwords
    by_cases hempty : c.lexemes = []
    · rw [List.flatMap_cons, hempty, List.nil_append] at hfirst
      rw [occupied, List.filter_cons_of_neg (by simp [hempty])]
      exact ih hcs.2 hwords.2 hfirst
    obtain ⟨x, xs, hxs⟩ := List.exists_cons_of_ne_nil hempty
    have hline : ∀ x ∈ c.lexemes, x.line = c.number :=
      fun x hx ↦ (CodeLine.line_of_mem_lexemes hx).1
    rw [List.flatMap_cons, List.head?_append, Option.or_of_isSome (by rw [hxs]; rfl)] at hfirst
    obtain ⟨l, hl, hstands, hclassified⟩ := (hwords.1 hempty).exists_line hline hfirst
    have hbelow : ∀ y ∈ (cs.flatMap CodeLine.lexemes).head?, ¬IsReserved y.text.toList →
        Token.kindOf (l.tokens.getLast?.or previous) y = .identifier := by
      intro y hy hfree
      obtain ⟨c', hc', hy⟩ := List.mem_flatMap.mp (List.mem_of_mem_head? hy)
      obtain ⟨t, ht⟩ : ∃ t, l.tokens.getLast? = some t :=
        Option.isSome_iff_exists.mp (by simp [Line.tokens])
      have hnumber := hline t.toLexeme (hstands ▸ List.mem_map_of_mem (List.mem_of_getLast? ht))
      rw [ht]
      apply Token.kindOf_eq_identifier hfree
      · -- the word stands on a line further down
        rintro ⟨hsame, -⟩
        have hlt := hcs.1 c' hc'
        rw [← (CodeLine.line_of_mem_lexemes hy).1, ← hsame, hnumber] at hlt
        exact Nat.lt_irrefl _ hlt
      · exact fun k hk ↦ Line.kindAfter_last hl ht hk _
    obtain ⟨lines, hforall, hw, hrest⟩ := ih hcs.2 hwords.2 hbelow
    refine ⟨l :: lines, ?_, List.forall_mem_cons.mpr ⟨hl, hw⟩, ?_⟩
    · rw [occupied, List.filter_cons_of_pos (by simp [hempty])]
      exact .cons hstands hforall
    · rw [List.flatMap_cons, Token.classified_append]
      exact ⟨hclassified, hrest⟩

end Writing

/-! ## Which texts can be read -/

section Texts

variable {ws : List (List Char)}

theorem Operands.isWord {k : Keyword} (h : Operands k ws) : ∀ w ∈ ws, IsWord w := by
  have hplace {w : List Char} (hw : Numeral.isDecimal w ∨ IsSymbol w) : IsWord w := by
    rcases hw with hw | hw
    · exact isWord_of_isHex (Numeral.isHex_of_isDecimal hw)
    · exact isWord_of_isName hw.name
  cases h with
  | direct op hw => exact List.forall_mem_singleton.mpr (hplace hw)
  | indirect op hw =>
    exact List.forall_mem_cons.mpr ⟨hplace hw, List.forall_mem_singleton.mpr isWord_mark⟩
  | register op | io op | finish => exact List.forall_mem_nil _
  | origin hw | hexadecimal hw => exact List.forall_mem_singleton.mpr (isWord_of_isHex hw)
  | decimal hw => exact List.forall_mem_singleton.mpr (isWord_of_isSignedDecimal hw)

/-- The words that make up a line do not offend. -/
theorem LineWords.isWord (h : LineWords ws) : ∀ w ∈ ws, IsWord w := by
  cases h with
  | bare h => exact List.forall_mem_cons.mpr ⟨Keyword.isWord_name _, h.isWord⟩
  | labelled hlabel h =>
    refine List.forall_mem_cons.mpr ⟨isWord_of_isName hlabel.name, ?_⟩
    exact List.forall_mem_cons.mpr ⟨Keyword.isWord_name _, h.isWord⟩

theorem LineWords.isSymbol_of_head? (h : LineWords ws) {w : List Char} (hw : w ∈ ws.head?)
    (hfree : ¬IsReserved w) : IsSymbol w := by
  cases h with
  | bare h =>
    cases hw
    exact absurd (isReserved_name _) hfree
  | labelled hlabel h =>
    cases hw
    exact hlabel

theorem map_text_flatMap_lexemes {cs : List CodeLine} (h : ∀ c ∈ cs, c.IsClean) :
    (cs.flatMap CodeLine.lexemes).map (·.text.toList) = cs.flatMap CodeLine.words := by
  rw [List.map_flatMap]
  exact List.flatMap_congr fun c hc ↦ CodeLine.map_text_lexemes (h c hc)

/-- The tokens of a line are the words of the line of code that it stands on. -/
theorem Line.StandsOn.map_text_tokens {l : Line} {c : CodeLine} (h : l.StandsOn c)
    (hclean : c.IsClean) : l.tokens.map (·.text.toList) = c.words := by
  rw [← CodeLine.map_text_lexemes hclean, ← h, List.map_map]
  rfl

section Read

variable {source : String} {tokens : List Token} {lines : List Line}

theorem isClean_of_tokenize (ht : tokenize source = .ok tokens) :
    ∀ c ∈ codeLines source, c.IsClean := by
  intro c hc w hw
  have herror := (tokenize_eq_ok_iff.mp ht).1 c hc
  exact (CodeLine.error?_eq_none_iff.mp herror w hw).chars

theorem standsOn_of_parse (ht : tokenize source = .ok tokens) (hp : parse tokens = .ok lines) :
    List.Forall₂ (fun c l ↦ l.StandsOn c) (occupied (codeLines source)) lines :=
  forall₂_standsOn (pairwise_codeLines source) (tokenize_eq_ok_iff.mp ht).2.1 hp

theorem exists_classified_of_parse (ht : tokenize source = .ok tokens)
    (hp : parse tokens = .ok lines) {l : Line} (hl : l ∈ lines) :
    ∃ previous, Token.Classified previous l.tokens := by
  have hclassified := (tokenize_eq_ok_iff.mp ht).2.2
  rw [← (parse_eq_ok hp).1] at hclassified
  exact Line.exists_classified hclassified hl

theorem lineWords_of_parse (ht : tokenize source = .ok tokens) (hp : parse tokens = .ok lines)
    {c : CodeLine} (hc : c ∈ codeLines source) (hne : c.words ≠ []) : LineWords c.words := by
  have hclean := isClean_of_tokenize ht c hc
  have hoccupied : c ∈ occupied (codeLines source) := by
    rw [← CodeLine.map_text_lexemes hclean] at hne
    exact List.mem_filter.mpr ⟨hc, by simpa using hne⟩
  obtain ⟨l, hl, hline⟩ := exists_mem_of_forall₂ (standsOn_of_parse ht hp) hoccupied
  obtain ⟨previous, hclassified⟩ := exists_classified_of_parse ht hp hl
  rw [← hline.map_text_tokens hclean]
  exact Line.lineWords ((parse_eq_ok hp).2 l hl) hclassified

/-- The first word of a text that can be read does not look like a number. -/
theorem not_isHex_of_parse (ht : tokenize source = .ok tokens) (hp : parse tokens = .ok lines)
    {w : List Char} (hw : w ∈ ((codeLines source).flatMap CodeLine.words).head?)
    (hfree : ¬IsReserved w) : ¬Numeral.isHex w := by
  rw [← map_text_flatMap_lexemes (isClean_of_tokenize ht), List.head?_map] at hw
  obtain ⟨x, hx, rfl⟩ := Option.map_eq_some_iff.mp hw
  rw [isReserved_toList] at hfree
  intro hhex
  exact not_startsWithNumeral_of_parse ht hp ⟨x.text, Option.mem_map_of_mem _ hx, hfree, hhex⟩

end Read

section Write

variable {source : String} (hclean : ∀ c ∈ codeLines source, c.IsClean)
  (hwords : ∀ c ∈ codeLines source, c.words ≠ [] → LineWords c.words)
  (hfirst : ∀ w ∈ ((codeLines source).flatMap CodeLine.words).head?,
    IsSymbol w → ¬Numeral.isHex w)

include hclean hwords hfirst

/-- What stands at the start of a text is a name unless it is reserved or a label that looks like a
number. -/
theorem kindOf_head?_lexemes {x : Lexeme}
    (hx : x ∈ ((codeLines source).flatMap CodeLine.lexemes).head?)
    (hfree : ¬IsReserved x.text.toList) :
    Token.kindOf none x = .identifier := by
  apply Token.kindOf_none_eq_identifier hfree
  apply hfirst
  · rw [← map_text_flatMap_lexemes hclean, List.head?_map]
    exact Option.mem_map_of_mem _ hx
  · rw [List.head?_flatMap] at hx
    obtain ⟨c, hc, hhead⟩ := List.exists_of_findSome?_eq_some hx
    have hw : x.text.toList ∈ c.words.head? := by
      rw [← CodeLine.map_text_lexemes (hclean c hc), List.head?_map]
      exact Option.mem_map_of_mem _ hhead
    apply (hwords c hc ?_).isSymbol_of_head? hw hfree
    intro hnil
    rw [hnil] at hw
    cases hw

/-- A text whose lines consist of words that make up lines can be read. -/
theorem exists_parse_of_lineWords :
    ∃ tokens lines, tokenize source = .ok tokens ∧ parse tokens = .ok lines := by
  have herror : ∀ c ∈ codeLines source, c.error? = none := by
    intro c hc
    rw [CodeLine.error?_eq_none_iff]
    by_cases hne : c.words = []
    · rw [hne]
      exact List.forall_mem_nil _
    · exact (hwords c hc hne).isWord
  have hlines : ∀ c ∈ codeLines source, c.lexemes ≠ [] →
      LineWords (c.lexemes.map (·.text.toList)) := by
    intro c hc hne
    have htext := CodeLine.map_text_lexemes (hclean c hc)
    rw [htext]
    apply hwords c hc
    rw [← htext]
    simpa using hne
  have hpairwise := pairwise_codeLines source
  obtain ⟨lines, hstands, hw, hclassified⟩ := exists_lines hpairwise hlines
    fun x ↦ kindOf_head?_lexemes hclean hwords hfirst
  refine ⟨lines.flatMap Line.tokens, lines, ?_, ?_⟩
  · refine tokenize_eq_ok_iff.mpr ⟨herror, ?_, hclassified⟩
    rw [flatMap_tokens_of_standsOn hstands, flatMap_lexemes_occupied]
  · exact parse_flatMap_tokens hw (stacked_of_standsOn (hpairwise.filter _) hstands)

end Write

/-- **Which texts can be read.** A text can be read exactly if its lines have no other characters
than words are made of, each line that is not empty consists of words that make up a line, and the
label in front of the first one, if there is one, does not look like a number. -/
theorem exists_parse_iff (source : String) :
    (∃ tokens lines, tokenize source = .ok tokens ∧ parse tokens = .ok lines) ↔
      (∀ c ∈ codeLines source, c.IsClean) ∧
      (∀ c ∈ codeLines source, c.words ≠ [] → LineWords c.words) ∧
      ∀ w ∈ ((codeLines source).flatMap CodeLine.words).head?, IsSymbol w → ¬Numeral.isHex w := by
  constructor
  · rintro ⟨tokens, lines, ht, hp⟩
    refine ⟨isClean_of_tokenize ht, fun c hc hne ↦ lineWords_of_parse ht hp hc hne, ?_⟩
    intro w hw hsymbol
    exact not_isHex_of_parse ht hp hw hsymbol.free
  · rintro ⟨hclean, hwords, hfirst⟩
    exact exists_parse_of_lineWords hclean hwords hfirst

end Texts

end BasicComputer
