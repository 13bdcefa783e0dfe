import BasicComputer.Proofs.AddressRange
import BasicComputer.Proofs.LineGrammar
import BasicComputer.Proofs.Literals

/-!
# Other places for the same text

A text without `ORG` can be put behind any `ORG`, and the address set there is all that its words
know about their place. Every line is at the distance from the start that it is at in any case, and
every label stands for an address at its own distance. What assembly makes of one line differs
between two such places in the address of the word, and in the word itself if the line refers to a
label.

An address is carried in twelve bits, and so the difference in a word is one modulo the size of
memory. This matters to references to a label right behind the last address, and to no others.

## One text or two

Two relocated texts differ in one numeral, and they are never compared with each other token by
token. What is below the first line is read once and for all origins. The two programs are then
given by one function, of the lines below and of the address where they start.

## Distances

Either of two places may be the one further up, so distances between addresses are integers. Those
between the addresses that words carry are differences of twelve bits. The condition that no other
line has an origin is what makes every address the sum of the start and a distance from it.
-/

namespace BasicComputer

/-! ## Texts behind an `ORG` -/

/-- A text behind an `ORG` with a given numeral. -/
def behindOrigin (h : List Char) (body : String) : String :=
  "ORG " ++ String.ofList h ++ "\n" ++ body

def originNumeral (h : List Char) : Token :=
  numeralToken ⟨1, 5⟩ (Numeral.upperDigits h) (originSource h)

/-- The line of this `ORG`. -/
def originHead (h : List Char) : Line :=
  ⟨none, orgToken (originSource h), .origin (originNumeral h)⟩

section Reading

variable {h : List Char} {body : String}

theorem codeLines_behindOrigin (hne : h ≠ []) (hdigits : ∀ c ∈ h, Numeral.isHexLetter c)
    (body : String) :
    codeLines (behindOrigin h body) =
      ⟨1, originLine (Numeral.upperDigits h)⟩ :: (codeLines body).map CodeLine.down := by
  have horg : Text.uppercase "ORG " = ['O', 'R', 'G', ' '] := rfl
  have hend : Text.uppercase "\n" = ['\n'] := rfl
  have hfront : Text.uppercase ("ORG " ++ String.ofList h ++ "\n") =
      originLine (Numeral.upperDigits h) ++ ['\n'] := by
    rw [Text.uppercase_append, Text.uppercase_append, uppercase_numeral hdigits, horg, hend,
      originLine]
  have hnewline := not_mem_originLine hne hdigits (show '\n' ≠ ' ' by decide) rfl
  have hslash := not_mem_originLine hne hdigits (show '/' ≠ ' ' by decide) rfl
  rw [behindOrigin, codeLines_append hfront hnewline, beforeComment_of_not_mem hslash]

/-- What stands on another line than a token does depends only on the kind of the token and on the
reserved word that it spells. -/
theorem Token.classify_congr_of_line {p p' : Token} {xs : List Lexeme} (hkind : p.kind = p'.kind)
    (hkeyword : p.keyword? = p'.keyword?) (hline : ∀ x ∈ xs.head?, p.line ≠ x.line)
    (hline' : ∀ x ∈ xs.head?, p'.line ≠ x.line) :
    classify (some p) xs = classify (some p') xs := by
  rcases xs with _ | ⟨x, xs⟩
  · rfl
  · have hx := hline x rfl
    have hx' := hline' x rfl
    rw [classify, classify, kindOf, kindOf]
    simp only [hx, hx', hkind, hkeyword, false_and, if_false]

/-- The lexemes of a text that stands one line further down. -/
def lexemesBelow (body : String) : List Lexeme :=
  ((codeLines body).flatMap CodeLine.lexemes).map Lexeme.down

theorem line_ne_one_of_mem_lexemesBelow {x : Lexeme} (hx : x ∈ lexemesBelow body) : x.line ≠ 1 := by
  obtain ⟨y, hy, rfl⟩ := List.mem_map.mp hx
  exact fun hone ↦ line_ne_zero_of_mem hy (Nat.succ_inj.mp hone)

theorem tokenize_behindOrigin (hne : h ≠ []) (hdigits : ∀ c ∈ h, Numeral.isHexLetter c)
    {tokens : List Token} (ht : tokenize (behindOrigin h body) = .ok tokens) :
    tokens = orgToken (originSource h) :: originNumeral h ::
      Token.classify (some (originNumeral h)) (lexemesBelow body) := by
  obtain ⟨-, hlexemes, hclassified⟩ := tokenize_eq_ok_iff.mp ht
  have hnumeral : Token.kindOf (some (orgToken (originSource h))) (originNumeral h).toLexeme =
      (originNumeral h).kind :=
    kindOf_numeral (Numeral.isHex_upperDigits hne hdigits) rfl (.inr rfl) ⟨1, 5⟩ (originSource h)
  have hfront : (CodeLine.mk 1 (originLine (Numeral.upperDigits h))).lexemes =
      [(orgToken (originSource h)).toLexeme, (originNumeral h).toLexeme] :=
    lexemes_originLine hne hdigits
  rw [codeLines_behindOrigin hne hdigits, List.flatMap_cons, flatMap_lexemes_down,
    hfront] at hlexemes
  have horg : Token.kindOf none (orgToken (originSource h)).toLexeme = .keyword := rfl
  rw [← Token.classify_of_classified hclassified, hlexemes, List.cons_append, List.cons_append,
    List.nil_append, Token.classify, horg, Token.classify]
  rw [show (⟨(orgToken (originSource h)).toLexeme, .keyword⟩ : Token) = orgToken (originSource h)
    from rfl, hnumeral]
  rfl

theorem Line.eq_of_tokens_eq_orgToken {source : String} {t : Token} {l : Line} (hw : l.WellFormed)
    (htokens : l.tokens = [orgToken source, t]) :
    t.kind = .number .hexadecimal ∧ l = ⟨none, orgToken source, .origin t⟩ := by
  obtain ⟨hlabel, hhead, hoperands⟩ := hw
  obtain ⟨label, head, statement⟩ := l
  rcases label with _ | u
  · obtain ⟨rfl, hrest⟩ := List.cons.inj htokens
    have horg : (orgToken source).keyword? = some (.directive .origin) := rfl
    rw [horg, Option.some.injEq] at hhead
    cases statement with
    | origin value =>
      cases hrest
      exact ⟨hoperands, rfl⟩
    | memory _ _ _ | register _ | io _ | datum _ _ | finish => cases hhead
  · obtain ⟨rfl, -⟩ := List.cons.inj htokens
    cases (hlabel _ rfl).1

/-- An `ORG` is read as a line by itself. -/
theorem parse_orgToken {source : String} {t : Token} {rest : List Token} {lines : List Line}
    (ht : t.line = 1) (hrest : ∀ u ∈ rest, u.line ≠ 1)
    (hp : parse (orgToken source :: t :: rest) = .ok lines) :
    t.kind = .number .hexadecimal ∧
      ∃ below, parse rest = .ok below ∧ lines = ⟨none, orgToken source, .origin t⟩ :: below := by
  have hgroups : groupByLine (orgToken source :: [t] ++ rest) =
      (orgToken source, [t]) :: groupByLine rest :=
    groupByLine_append (List.forall_mem_singleton.mpr ht)
      fun u hu ↦ hrest u (List.mem_of_mem_head? hu)
  rw [parse, show orgToken source :: t :: rest = orgToken source :: [t] ++ rest from rfl, hgroups,
    List.mapM_cons] at hp
  obtain ⟨l, hl, hp⟩ := bind_eq_ok.mp hp
  obtain ⟨below, hbelow, hp⟩ := bind_eq_ok.mp hp
  cases hp
  obtain ⟨htokens, hw⟩ := Line.read_eq_ok hl
  obtain ⟨hkind, rfl⟩ := Line.eq_of_tokens_eq_orgToken hw htokens
  exact ⟨hkind, below, hbelow, rfl⟩

/-- What there is to read of a text behind an `ORG` does not depend on the numeral. -/
theorem exists_lines_behindOrigin (hne : h ≠ []) (hdigits : ∀ c ∈ h, Numeral.isHexLetter c)
    {tokens : List Token} {lines : List Line} (ht : tokenize (behindOrigin h body) = .ok tokens)
    (hp : parse tokens = .ok lines) :
    ∃ below, lines = originHead h :: below ∧
      parse (Token.classify (some zeroToken) (lexemesBelow body)) = .ok below := by
  have hbelow (p : Token) : ∀ u ∈ Token.classify (some p) (lexemesBelow body), u.line ≠ 1 := by
    intro u hu
    have hmem := List.mem_map_of_mem (f := Token.toLexeme) hu
    rw [Token.map_toLexeme_classify] at hmem
    exact line_ne_one_of_mem_lexemesBelow hmem
  rw [tokenize_behindOrigin hne hdigits ht] at hp
  obtain ⟨hkind, below, hparse, rfl⟩ := parse_orgToken rfl (hbelow _) hp
  refine ⟨below, rfl, ?_⟩
  have hkeyword : (originNumeral h).keyword? = zeroToken.keyword? := by
    rw [Token.keyword?, hkind]
    rfl
  have hline (p : Token) (hp : p.line = 1) : ∀ x ∈ (lexemesBelow body).head?, p.line ≠ x.line := by
    intro x hx
    rw [hp]
    exact (line_ne_one_of_mem_lexemesBelow (List.mem_of_mem_head? hx)).symm
  rw [← Token.classify_congr_of_line hkind hkeyword (hline _ rfl) (hline _ rfl)]
  exact hparse

/-- Behind an `ORG`, a text that does not have that word has no other line with an origin. -/
theorem origin?_eq_none_of_below {tokens : List Token} (hne : h ≠ [])
    (hdigits : ∀ c ∈ h, Numeral.isHexLetter c) (ht : tokenize (behindOrigin h body) = .ok tokens)
    (hbody : ∀ c ∈ codeLines body, "ORG".toList ∉ c.words) {below : List Line}
    (hp : parse (Token.classify (some zeroToken) (lexemesBelow body)) = .ok below) :
    ∀ l ∈ below, l.origin? = none := by
  intro l hl
  by_contra horigin
  obtain ⟨htokens, hw⟩ := parse_eq_ok hp
  have hkeyword : l.head.keyword? = some (.directive .origin) := by
    rw [(hw l hl).head]
    unfold Line.origin? at horigin
    split at horigin
    next value hs => rw [hs]; rfl
    next => exact absurd rfl horigin
  -- the word is among the words of some line of the text
  have hmem : l.head.toLexeme ∈ lexemesBelow body := by
    rw [← Token.map_toLexeme_classify (some zeroToken) (lexemesBelow body), ← htokens]
    exact List.mem_map_of_mem (List.mem_flatMap_of_mem hl (by simp [Line.tokens]))
  obtain ⟨x, hx, hdown⟩ := List.mem_map.mp hmem
  obtain ⟨c, hc, hx⟩ := List.mem_flatMap.mp hx
  have htext : x.text = "ORG" :=
    (congrArg Lexeme.text hdown).trans (Token.text_of_keyword? hkeyword)
  have hclean : c.IsClean := by
    have hdown : c.down ∈ codeLines (behindOrigin h body) := by
      rw [codeLines_behindOrigin hne hdigits]
      exact List.mem_cons_of_mem _ (List.mem_map_of_mem hc)
    exact isClean_of_tokenize ht c.down hdown
  have hword := List.mem_map_of_mem (f := fun x : Lexeme ↦ x.text.toList) hx
  rw [CodeLine.map_text_lexemes hclean, htext] at hword
  exact hbody c hc hword

end Reading

/-! ## Addresses and labels -/

/-- A symbol table whose labels all stand for addresses further up. -/
def SymbolTable.shifted (table : SymbolTable) (start : Nat) : SymbolTable :=
  ⟨table.entries.map fun e ↦ (e.1, start + e.2)⟩

theorem SymbolTable.lookup?_shifted (table : SymbolTable) (start : Nat) (label : String) :
    (table.shifted start).lookup? label = (table.lookup? label).map (start + ·) := by
  rw [lookup?, lookup?, shifted]
  induction table.entries with
  | nil => rfl
  | cons e entries ih =>
    rw [List.map_cons, List.lookup_cons, List.lookup_cons]
    rcases label == e.1 with _ | _
    · exact ih
    · rfl

section Placed

variable {first : Line} {start : Nat} {lines : List Line}

/-- Where no other line has an origin, every address is at its distance from the first one. -/
theorem addressAfter_cons (hfirst : first.origin? = some start) {before : List Line}
    (hbefore : ∀ l ∈ before, l.origin? = none) :
    addressAfter (first :: before) = start + addressAfter before := by
  induction before using List.reverseRecOn with
  | nil =>
    have hempty : addressAfter [] = 0 := rfl
    rw [← List.nil_append [first], addressAfter_of_origin hfirst, hempty, Nat.add_zero]
  | append_singleton before l ih =>
    rw [List.forall_mem_append, List.forall_mem_singleton] at hbefore
    rw [← List.cons_append, addressAfter_of_origin?_eq_none hbefore.2, ih hbefore.1,
      addressAfter_of_origin?_eq_none hbefore.2, Nat.add_assoc]

theorem placed_cons (hfirst : first.origin? = some start) (hlines : ∀ l ∈ lines, l.origin? = none) :
    placed (first :: lines) = (0, first) :: (placed lines).map fun p ↦ (start + p.1, p.2) := by
  have hempty : addressAfter [] = 0 := rfl
  rw [placed, contexts, List.map_cons, hempty, List.nil_append, contexts_cons, placed, List.map_map,
    List.map_map]
  refine congrArg _ (List.map_congr_left fun c hc ↦ ?_)
  have haddress := addressAfter_cons hfirst fun l hl ↦ hlines l (mem_of_mem_contexts hc hl)
  rw [Function.comp_apply, Function.comp_apply, haddress]

theorem symbolsOf_cons (hfirst : first.origin? = some start) (hlabel : first.label = none)
    (hlines : ∀ l ∈ lines, l.origin? = none) :
    symbolsOf (first :: lines) = (symbolsOf lines).shifted start := by
  have hentries : (symbolsOf (first :: lines)).entries =
      ((symbolsOf lines).shifted start).entries := by
    have hnone : first.definition? 0 = none := by rw [Line.definition?, hlabel]; rfl
    rw [entries_symbolsOf, placed_cons hfirst hlines, List.filterMap_cons, hnone,
      SymbolTable.shifted, entries_symbolsOf, List.filterMap_map, List.map_filterMap]
    refine List.filterMap_congr fun p hp ↦ ?_
    have horigin := hlines p.2 (mem_of_mem_placed hp)
    rw [Function.comp_apply, Line.definition?, Line.definition?, Option.map_map, Line.labelValue,
      Line.labelValue, horigin]
    rfl
  exact congrArg SymbolTable.mk hentries

end Placed

/-! ## Words -/

/-- How the words of a line differ between two places of its text, which start at `a` and at `b`.
A reference to a label has another address, and every other word is the same. -/
def Line.WordMoves (a b : Nat) (l : Line) (w w' : Word) : Prop :=
  match l.statement with
  | .memory _ (.symbol _) _ =>
    (Fields.ofWord w').opcode = (Fields.ofWord w).opcode ∧
      (Fields.ofWord w').indirect = (Fields.ofWord w).indirect ∧
      (Fields.ofWord w').address - (Fields.ofWord w).address =
        BitVec.ofNat 12 b - BitVec.ofNat 12 a
  | .memory _ (.number _) _ | .register _ | .io _ | .origin _ | .datum _ _ | .finish => w' = w

theorem lowAddress_sub_lowAddress (a b x : Nat) :
    lowAddress (BitVec.ofNat 16 (b + x)) - lowAddress (BitVec.ofNat 16 (a + x)) =
      BitVec.ofNat 12 b - BitVec.ofNat 12 a := by
  rw [← BitVec.toNat_inj]
  simp only [lowAddress, BitVec.toNat_sub, BitVec.toNat_setWidth, BitVec.toNat_ofNat]
  omega

theorem Line.wordMoves {table : SymbolTable} {l : Line} (hr : l.Resolves table) (a b : Nat) :
    l.WordMoves a b (l.word (table.shifted a)) (l.word (table.shifted b)) := by
  unfold WordMoves
  split
  next op t marker hs =>
    rw [Resolves, hs] at hr
    obtain ⟨x, hx⟩ := Option.isSome_iff_exists.mp hr
    have hword (start : Nat) : Fields.ofWord (l.word (table.shifted start)) =
        ⟨op.opcode, lowAddress (BitVec.ofNat 16 (start + x)), marker.isSome⟩ := by
      rw [word, hs]
      dsimp only
      rw [Fields.ofWord_encode_memory, Place.value, SymbolTable.lookup?_shifted, hx]
      rfl
    rw [hword, hword]
    exact ⟨rfl, rfl, lowAddress_sub_lowAddress a b x⟩
  all_goals
    next hs => simp only [word, hs, Place.value]

theorem Line.resolves_of_shifted {table : SymbolTable} {start : Nat} {l : Line}
    (h : l.Resolves (table.shifted start)) : l.Resolves table := by
  unfold Resolves at h ⊢
  split
  next op t marker hs =>
    rw [hs] at h
    dsimp only at h
    rwa [SymbolTable.contains, SymbolTable.lookup?_shifted, Option.isSome_map] at h
  next => trivial

theorem Line.word_of_isDatum {l : Line} (h : l.statement.isDatum) (table table' : SymbolTable) :
    l.word table = l.word table' := by
  cases hs : l.statement with
  | datum radix value => rw [word, word, hs]
  | memory _ _ _ | register _ | io _ | origin _ | finish =>
    rw [hs] at h
    cases h

/-! ## Programs -/

/-- How the programs of a text differ between two places, which start at `a` and at `b`. The lines
of the text with an operation have one instruction each in both of them, and all words are as far
apart as the places are. -/
structure Program.Relocated (a b : Nat) (lines : List Line) (p q : Program) : Prop where
  count : p.instructions.length = q.instructions.length
  instructions : List.Forall₂
    (fun l m ↦ (m.2.origin : Int) - m.1.origin = b - a ∧ l.WordMoves a b m.1.word m.2.word)
    (lines.filter (·.statement.isOperation)) (p.instructions.zip q.instructions)
  data : List.Forall₂ (fun d e ↦ (e.origin : Int) - d.origin = b - a ∧ e.word = d.word)
    p.data q.data

section Programs

variable {first : Line} {start : Nat} {lines : List Line}

theorem filter_placed_cons {kind : Statement → Bool} (hfirst : first.origin? = some start)
    (hkind : ¬kind first.statement) (hlines : ∀ l ∈ lines, l.origin? = none) :
    (placed (first :: lines)).filter (kind ·.2.statement) =
      ((placed lines).filter (kind ·.2.statement)).map fun p ↦ (start + p.1, p.2) := by
  have hskip (ps : List (Nat × Line)) : ((0, first) :: ps).filter (kind ·.2.statement) =
      ps.filter (kind ·.2.statement) := List.filter_cons_of_neg hkind
  rw [placed_cons hfirst hlines, hskip, List.filter_map]
  rfl

theorem instructions_cons (hfirst : first.origin? = some start) (hlabel : first.label = none)
    (hlines : ∀ l ∈ lines, l.origin? = none) :
    (Program.ofEmissions (effectsOf (first :: lines))).instructions =
      ((placed lines).filter (·.2.statement.isOperation)).map fun p ↦
        ⟨start + p.1, p.2.word ((symbolsOf lines).shifted start), p.2.source, p.2.number⟩ := by
  have hkind : ¬first.statement.isOperation := by
    intro h
    rw [Line.origin?_of_emits (by rw [Statement.emits, h]; rfl)] at hfirst
    cases hfirst
  rw [Program.ofEmissions, effectsOf, instructions_effects, filter_placed_cons hfirst hkind hlines,
    symbolsOf_cons hfirst hlabel hlines, List.map_map]
  rfl

theorem data_cons (hfirst : first.origin? = some start) (hlabel : first.label = none)
    (hlines : ∀ l ∈ lines, l.origin? = none) :
    (Program.ofEmissions (effectsOf (first :: lines))).data =
      ((placed lines).filter (·.2.statement.isDatum)).map fun p ↦
        ⟨start + p.1, p.2.word ((symbolsOf lines).shifted start)⟩ := by
  have hkind : ¬first.statement.isDatum := by
    intro h
    rw [Line.origin?_of_emits (by rw [Statement.emits, h, Bool.or_true])] at hfirst
    cases hfirst
  rw [Program.ofEmissions, effectsOf, data_effects, filter_placed_cons hfirst hkind hlines,
    symbolsOf_cons hfirst hlabel hlines, List.map_map]
  rfl

end Programs

theorem relocated_cons {first first' : Line} {a b : Nat} {lines : List Line}
    (hfirst : first.origin? = some a) (hlabel : first.label = none)
    (hfirst' : first'.origin? = some b) (hlabel' : first'.label = none)
    (hlines : ∀ l ∈ lines, l.origin? = none)
    (hresolves : ∀ l ∈ lines, l.Resolves (symbolsOf lines)) :
    Program.Relocated a b lines (.ofEmissions (effectsOf (first :: lines)))
      (.ofEmissions (effectsOf (first' :: lines))) := by
  have hapart (x : Nat) : ((b + x : Nat) : Int) - ((a + x : Nat) : Int) = b - a := by omega
  have hmoves {p : Nat × Line} (hp : p ∈ placed lines) :=
    Line.wordMoves (hresolves p.2 (mem_of_mem_placed hp)) a b
  have hoperations : lines.filter (·.statement.isOperation) =
      ((placed lines).filter (·.2.statement.isOperation)).map Prod.snd := by
    conv_lhs => rw [← map_snd_placed lines, List.filter_map]
    rfl
  constructor
  · rw [instructions_cons hfirst hlabel hlines, instructions_cons hfirst' hlabel' hlines,
      List.length_map, List.length_map]
  · rw [instructions_cons hfirst hlabel hlines, instructions_cons hfirst' hlabel' hlines,
      hoperations, List.zip_map', List.forall₂_map_left_iff, List.forall₂_map_right_iff,
      List.forall₂_same]
    exact fun p hp ↦ ⟨hapart p.1, hmoves (List.mem_filter.mp hp).1⟩
  · rw [data_cons hfirst hlabel hlines, data_cons hfirst' hlabel' hlines,
      List.forall₂_map_left_iff, List.forall₂_map_right_iff, List.forall₂_same]
    intro p hp
    obtain ⟨-, hdatum⟩ := List.mem_filter.mp hp
    exact ⟨hapart p.1, Line.word_of_isDatum hdatum _ _⟩

/-- **Relocation.** Let a text without `ORG` be assembled behind two different ones. The lines below
are then the same, and so are the numbers of instructions and of data. All words are as far apart as
the two origins are. Data, register and input-output operations and references to decimal addresses
are the same words in both places, and references to labels differ by the distance, modulo the size
of memory, in their addresses alone. -/
theorem assemble_relocated {h k : List Char} (hne : h ≠ []) (hk : k ≠ [])
    (hdigits : ∀ c ∈ h, Numeral.isHexLetter c) (kdigits : ∀ c ∈ k, Numeral.isHexLetter c)
    {body : String} (hbody : ∀ c ∈ codeLines body, "ORG".toList ∉ c.words) {p q : Program}
    (hp : (assemble (behindOrigin h body)).outcome = .ok p)
    (hq : (assemble (behindOrigin k body)).outcome = .ok q) :
    ∃ tokens tokens' lines, tokenize (behindOrigin h body) = .ok tokens ∧
      tokenize (behindOrigin k body) = .ok tokens' ∧ parse tokens = .ok (originHead h :: lines) ∧
      parse tokens' = .ok (originHead k :: lines) ∧
      Program.Relocated (Numeral.hexValue h) (Numeral.hexValue k) lines p q := by
  obtain ⟨tokens, _, ht, hparse, hconsistent, rfl, -⟩ := consistent_of_assemble hp
  obtain ⟨tokens', _, ht', hparse', -, rfl, -⟩ := consistent_of_assemble hq
  obtain ⟨lines, rfl, hbelow⟩ := exists_lines_behindOrigin hne hdigits ht hparse
  obtain ⟨lines', rfl, hbelow'⟩ := exists_lines_behindOrigin hk kdigits ht' hparse'
  obtain rfl : lines = lines' := Except.ok.inj (hbelow.symm.trans hbelow')
  refine ⟨tokens, tokens', lines, ht, ht', hparse, hparse', ?_⟩
  have horigin {h : List Char} (hdigits : ∀ c ∈ h, Numeral.isHexLetter c) :
      (originHead h).origin? = some (Numeral.hexValue h) := by
    rw [← Numeral.value_upperDigits hdigits, Line.origin?, originHead, originNumeral, numeralToken]
    dsimp only
    rw [String.toList_ofList]
  have hlines := origin?_eq_none_of_below hne hdigits ht hbody hbelow
  refine relocated_cons (horigin hdigits) rfl (horigin kdigits) rfl hlines fun l hl ↦ ?_
  -- what is in the symbol table in one place is in it in every place
  have hresolves := hconsistent.resolves l (List.mem_cons_of_mem _ hl)
  rw [symbolsOf_cons (horigin hdigits) rfl hlines] at hresolves
  exact Line.resolves_of_shifted hresolves

/-- A text with references of all kinds, one of them to a label behind its last word. -/
def relocatableText : String := "F, LDA X I\nSTA E\nBUN 5\nX, HEX aB\nE, END"

theorem assemble_relocated_relocatableText :
    ∃ p q lines, (assemble (behindOrigin ['1', '0'] relocatableText)).outcome = .ok p ∧
      (assemble (behindOrigin ['f', 'F', 'c'] relocatableText)).outcome = .ok q ∧
      p = ⟨[⟨0x10, 0xA013, "F, LDA X I", 2⟩, ⟨0x11, 0x3014, "STA E", 3⟩,
        ⟨0x12, 0x4005, "BUN 5", 4⟩], [⟨0x13, 0xAB⟩]⟩ ∧
      q = ⟨[⟨0xFFC, 0xAFFF, "F, LDA X I", 2⟩, ⟨0xFFD, 0x3000, "STA E", 3⟩,
        ⟨0xFFE, 0x4005, "BUN 5", 4⟩], [⟨0xFFF, 0xAB⟩]⟩ ∧
      Program.Relocated 0x10 0xFFC lines p q := by
  have hbody : ∀ c ∈ codeLines relocatableText, "ORG".toList ∉ c.words := by decide +kernel
  obtain ⟨-, -, lines, -, -, -, -, h⟩ := @assemble_relocated ['1', '0'] ['f', 'F', 'c']
    (by decide) (by decide) (List.all_eq_true.mp rfl) (List.all_eq_true.mp rfl) relocatableText
    hbody _ _ rfl rfl
  exact ⟨_, _, lines, rfl, rfl, rfl, rfl, h⟩

end BasicComputer
