import BasicComputer.Proofs.Reading
import Mathlib.Data.List.SplitBy

/-!
# Tokens of any origin

The parser asks nothing of where its tokens come from. Whatever list it is given, the tokens that
stand together under one line number make up a line or they do not, each run of them by itself: the
list is read if every run makes up a line, and otherwise the first run that does not is to blame.

Which tokens make up a line is said here by their kinds and spellings alone. What the parser builds
from them has room for the operands that a statement takes and for no others, so the passes behind
it never look for an operand that is not there.

## Runs instead of groups

The parser groups tokens by walking along them. A run is defined by what it is, a stretch with one
line number between others, and the library has a function that splits a list into such stretches.
It is this function that the statement mentions, and the parser's own grouping is compared with it.

## Blame

An error carries a position and says nothing about where it was found. That it belongs to the first
bad run is shown in two steps. Reading fails at the first group where it can, and whatever is wrong
with a group is at the position of one of its tokens. A run by itself is read as it is among others,
so the error is the same.
-/

namespace BasicComputer

/-! ## The grammar of tokens -/

/-- The tokens that can stand for an address. -/
inductive AddressToken (t : Token) : Prop
  | number (hkind : t.kind = .number .decimal)
  | name (hkind : t.kind = .identifier) (hname : isName t.text.toList)

/-- The tokens that may stand behind a reserved word. -/
inductive OperandTokens : Keyword → List Token → Prop
  | direct (op : MemoryOp) {address : Token} (h : AddressToken address) :
      OperandTokens (.mnemonic (.memory op)) [address]
  | indirect (op : MemoryOp) {address mark : Token} (h : AddressToken address)
      (hmark : mark.kind = .indirection) : OperandTokens (.mnemonic (.memory op)) [address, mark]
  | register (op : RegisterOp) : OperandTokens (.mnemonic (.register op)) []
  | io (op : IoOp) : OperandTokens (.mnemonic (.io op)) []
  | finish : OperandTokens (.directive .finish) []
  | origin {value : Token} (h : value.kind = .number .hexadecimal) :
      OperandTokens (.directive .origin) [value]
  | datum (radix : Radix) {value : Token} (h : value.kind = .number radix) :
      OperandTokens (.directive (.datum radix)) [value]

/-- The tokens that make up a line: a reserved word with its operands, and maybe a name in front. -/
inductive LineTokens : List Token → Prop
  | bare {head : Token} {k : Keyword} {operands : List Token} (hhead : head.keyword? = some k)
      (h : OperandTokens k operands) : LineTokens (head :: operands)
  | labelled {label : Token} (hkind : label.kind = .identifier) (hname : isName label.text.toList)
      {head : Token} {k : Keyword} {operands : List Token} (hhead : head.keyword? = some k)
      (h : OperandTokens k operands) : LineTokens (label :: head :: operands)

/-- The longest runs of tokens with one line number. -/
def lineRuns (tokens : List Token) : List (List Token) :=
  tokens.splitBy fun t u ↦ t.line == u.line

/-- Whether something has to stand behind a reserved word. -/
def Keyword.takesOperand : Keyword → Bool
  | .mnemonic (.memory _) | .directive .origin | .directive (.datum _) => true
  | .mnemonic (.register _) | .mnemonic (.io _) | .directive .finish => false

/-! ## Well-formed lines -/

theorem Place.addressToken {place : Place} (h : place.WellFormed) : AddressToken place.token := by
  cases place with
  | number t => exact .number h
  | symbol t => exact .name h.1 h.2

theorem AddressToken.exists_place {t : Token} (h : AddressToken t) :
    ∃ place : Place, place.token = t ∧ place.WellFormed := by
  cases h with
  | number hkind => exact ⟨.number t, rfl, hkind⟩
  | name hkind hname => exact ⟨.symbol t, rfl, hkind, hname⟩

theorem Statement.operandTokens {s : Statement} (h : s.WellFormed) :
    OperandTokens s.keyword s.operands := by
  cases s with
  | memory op place marker =>
    obtain ⟨hplace, hmarker⟩ := h
    cases marker with
    | none => exact .direct op (Place.addressToken hplace)
    | some t => exact .indirect op (Place.addressToken hplace) (hmarker t rfl)
  | register op => exact .register op
  | io op => exact .io op
  | origin value => exact .origin h
  | datum radix value => exact .datum radix h
  | finish => exact .finish

theorem OperandTokens.exists_statement {k : Keyword} {operands : List Token}
    (h : OperandTokens k operands) :
    ∃ s : Statement, s.keyword = k ∧ s.operands = operands ∧ s.WellFormed := by
  cases h with
  | direct op h =>
    obtain ⟨place, rfl, hplace⟩ := h.exists_place
    exact ⟨.memory op place none, rfl, rfl, hplace, by simp⟩
  | indirect op h hmark =>
    obtain ⟨place, rfl, hplace⟩ := h.exists_place
    exact ⟨.memory op place (some _), rfl, rfl, hplace, by simpa using hmark⟩
  | register op => exact ⟨.register op, rfl, rfl, trivial⟩
  | io op => exact ⟨.io op, rfl, rfl, trivial⟩
  | finish => exact ⟨.finish, rfl, rfl, trivial⟩
  | origin h => exact ⟨.origin _, rfl, rfl, h⟩
  | datum radix h => exact ⟨.datum radix _, rfl, rfl, h⟩

/-- The tokens of well-formed lines are those that make up lines. -/
theorem lineTokens_iff {tokens : List Token} :
    LineTokens tokens ↔ ∃ l : Line, l.WellFormed ∧ l.tokens = tokens := by
  constructor
  · intro h
    cases h with
    | bare hhead h =>
      obtain ⟨s, rfl, rfl, hs⟩ := h.exists_statement
      exact ⟨⟨none, _, s⟩, ⟨by simp, hhead, hs⟩, rfl⟩
    | labelled hkind hname hhead h =>
      obtain ⟨s, rfl, rfl, hs⟩ := h.exists_statement
      exact ⟨⟨some _, _, s⟩, ⟨by simp [hkind, hname], hhead, hs⟩, rfl⟩
  · rintro ⟨l, hl, rfl⟩
    have hoperands := Statement.operandTokens hl.operands
    rw [Line.tokens]
    cases hlabel : l.label with
    | none => exact .bare hl.head hoperands
    | some t =>
      obtain ⟨hkind, hname⟩ := hl.label t hlabel
      exact .labelled hkind hname hl.head hoperands

theorem exists_read_iff {first : Token} {others : List Token} :
    (∃ l, Line.read first others = .ok l) ↔ LineTokens (first :: others) := by
  rw [lineTokens_iff]
  constructor
  · rintro ⟨l, hl⟩
    obtain ⟨htokens, hw⟩ := Line.read_eq_ok hl
    exact ⟨l, hw, htokens⟩
  · rintro ⟨l, hw, htokens⟩
    obtain ⟨first', others', htokens', hread⟩ := l.exists_read_tokens hw
    rw [htokens] at htokens'
    cases htokens'
    exact ⟨l, hread⟩

/-! ## Runs of tokens -/

theorem line_of_isChain {t : Token} {ts : List Token}
    (h : (t :: ts).IsChain fun t u ↦ t.line == u.line) : ∀ u ∈ ts, u.line = t.line := by
  induction ts generalizing t with
  | nil => exact List.forall_mem_nil _
  | cons u us ih =>
    rw [List.isChain_cons_cons, beq_iff_eq] at h
    refine List.forall_mem_cons.mpr ⟨h.1.symm, fun v hv ↦ ?_⟩
    rw [ih h.2 v hv, h.1]

theorem exists_groupByLine_append {run rest : List Token} (hne : run ≠ [])
    (hrun : run.IsChain fun t u ↦ t.line == u.line)
    (hrest : ∀ u ∈ rest.head?, ∀ h : run ≠ [], ((run.getLast h).line == u.line) = false) :
    ∃ first others, run = first :: others ∧
      groupByLine (run ++ rest) = (first, others) :: groupByLine rest := by
  obtain ⟨t, ts, rfl⟩ := List.exists_cons_of_ne_nil hne
  have hsame := line_of_isChain hrun
  refine ⟨t, ts, rfl, groupByLine_append hsame fun u hu ↦ ?_⟩
  -- all tokens of the run are on the line of its last one
  have hlast : ((t :: ts).getLast hne).line = t.line := by
    rcases List.mem_cons.mp (List.getLast_mem hne) with h | h
    · rw [h]
    · exact hsame _ h
  have hne := hrest u hu hne
  rw [hlast] at hne
  exact (beq_eq_false_iff_ne.mp hne).symm

/-- The groups that the parser looks at are the runs. -/
theorem map_groupByLine (tokens : List Token) :
    (groupByLine tokens).map (fun g ↦ g.1 :: g.2) = lineRuns tokens := by
  obtain ⟨hflat, hne, hsame, hapart⟩ := List.splitBy_eq_iff.mp (rfl : lineRuns tokens = _)
  generalize lineRuns tokens = runs at hflat hne hsame hapart ⊢
  subst hflat
  induction runs with
  | nil => rfl
  | cons run rest ih =>
    rw [List.mem_cons, not_or] at hne
    rw [List.forall_mem_cons] at hsame
    have hbehind : ∀ u ∈ rest.flatten.head?, ∀ h : run ≠ [],
        ((run.getLast h).line == u.line) = false := by
      intro u hu h
      cases rest with
      | nil => cases hu
      | cons run' rest =>
        obtain ⟨_, h', hdiffer⟩ := (List.isChain_cons_cons.mp hapart).1
        rw [List.flatten_cons, List.head?_append, List.head?_eq_some_head h'] at hu
        cases hu
        exact hdiffer
    obtain ⟨first, others, rfl, hgroups⟩ :=
      exists_groupByLine_append (Ne.symm hne.1) hsame.1 hbehind
    rw [List.flatten_cons, hgroups, List.map_cons, ih hne.2 hsame.2 hapart.of_cons]

/-! ## Where errors are -/

/-- Whether an error is at one of the tokens. -/
def SyntaxError.IsAtOneOf (e : SyntaxError) (tokens : List Token) : Prop :=
  ∃ t ∈ tokens, e.toPosition = t.toPosition

theorem SyntaxError.IsAtOneOf.mono {e : SyntaxError} {ts us : List Token} (h : e.IsAtOneOf ts)
    (hsub : ∀ t ∈ ts, t ∈ us) : e.IsAtOneOf us := by
  obtain ⟨t, ht, hposition⟩ := h
  exact ⟨t, hsub t ht, hposition⟩

theorem Token.isAtOneOf_of_fails {α : Type} {t : Token} {fault : SyntaxFault} {e : SyntaxError}
    (h : (t.fails fault : Except SyntaxError α) = .error e) {tokens : List Token}
    (ht : t ∈ tokens) :
    e.IsAtOneOf tokens := by
  cases h
  exact ⟨t, ht, rfl⟩

section Errors

variable {e : SyntaxError} {head t : Token} {ts operands : List Token}

namespace Statement

theorem isAtOneOf_of_readPlace {op : MemoryOp} (h : readPlace op t = .error e) :
    e.IsAtOneOf [t] := by
  unfold readPlace at h
  split at h
  · split at h
    · cases h
    · exact Token.isAtOneOf_of_fails h List.mem_cons_self
  · cases h
  · exact Token.isAtOneOf_of_fails h List.mem_cons_self

theorem isAtOneOf_of_readMarker (h : readMarker head ts = .error e) : e.IsAtOneOf (head :: ts) := by
  unfold readMarker at h
  split at h
  · cases h
  · split at h
    · cases h
    · exact Token.isAtOneOf_of_fails h (by simp)
  · exact Token.isAtOneOf_of_fails h List.mem_cons_self

theorem isAtOneOf_of_readNumber {directive : Directive} {radix : Radix}
    (h : readNumber head directive radix ts = .error e) : e.IsAtOneOf (head :: ts) := by
  unfold readNumber at h
  split at h
  · split at h
    · cases h
    · exact Token.isAtOneOf_of_fails h (by simp)
  · exact Token.isAtOneOf_of_fails h List.mem_cons_self

theorem isAtOneOf_of_readNothing {fault : SyntaxFault} (h : readNothing head fault ts = .error e) :
    e.IsAtOneOf (head :: ts) := by
  cases ts with
  | nil => cases h
  | cons t ts => exact Token.isAtOneOf_of_fails h List.mem_cons_self

theorem isAtOneOf_of_read {k : Keyword} (h : read head operands k = .error e) :
    e.IsAtOneOf (head :: operands) := by
  -- a value that has been read is only wrapped up, which does not fail
  have hwrap {α : Type} {x : Except SyntaxError α} {f : α → Statement}
      (h : (x >>= fun a ↦ pure (f a)) = .error e) : x = .error e := by
    rcases bind_eq_error.mp h with h | ⟨a, -, h⟩
    · exact h
    · cases h
  unfold read at h
  split at h
  case h_1 op =>
    split at h
    · exact Token.isAtOneOf_of_fails h List.mem_cons_self
    · rcases bind_eq_error.mp h with h | ⟨place, -, h⟩
      · exact (isAtOneOf_of_readPlace h).mono (by simp)
      · refine (isAtOneOf_of_readMarker (hwrap h)).mono ?_
        simp only [List.mem_cons]
        tauto
  case h_2 | h_3 | h_6 => exact isAtOneOf_of_readNothing (hwrap h)
  case h_4 | h_5 => exact isAtOneOf_of_readNumber (hwrap h)

end Statement

theorem Line.isAtOneOf_of_readUnlabelled {label : Option Token}
    (h : readUnlabelled label head operands = .error e) : e.IsAtOneOf (head :: operands) := by
  unfold readUnlabelled at h
  split at h
  · exact Token.isAtOneOf_of_fails h List.mem_cons_self
  · rcases bind_eq_error.mp h with h | ⟨s, -, h⟩
    · exact Statement.isAtOneOf_of_read h
    · cases h

theorem Line.isAtOneOf_of_read {first : Token} {others : List Token}
    (h : read first others = .error e) : e.IsAtOneOf (first :: others) := by
  unfold read at h
  split at h
  · split at h
    · split at h
      · exact Token.isAtOneOf_of_fails h List.mem_cons_self
      · exact (isAtOneOf_of_readUnlabelled h).mono fun t ht ↦ List.mem_cons_of_mem first ht
    · exact Token.isAtOneOf_of_fails h List.mem_cons_self
  · exact isAtOneOf_of_readUnlabelled h

end Errors

/-! ## The parser -/

section Parse

variable {tokens : List Token} {lines : List Line}

theorem exists_parse_iff_lineRuns (tokens : List Token) :
    (∃ lines, parse tokens = .ok lines) ↔ ∀ run ∈ lineRuns tokens, LineTokens run := by
  rw [← map_groupByLine, List.forall_mem_map, parse, exists_mapM_eq_ok_iff]
  exact forall₂_congr fun g _ ↦ exists_read_iff

theorem map_tokens_of_parse (h : parse tokens = .ok lines) :
    lines.map Line.tokens = lineRuns tokens := by
  have hread := forall₂_of_mapM_eq_ok h
  rw [← map_groupByLine]
  clear h
  generalize groupByLine tokens = groups at hread
  induction hread with
  | nil => rfl
  | cons hl _ ih => rw [List.map_cons, List.map_cons, ih, (Line.read_eq_ok hl).1]

/-- A run by itself is read as its one group is. -/
theorem parse_of_mem_lineRuns {first : Token} {others : List Token}
    (hrun : first :: others ∈ lineRuns tokens) :
    parse (first :: others) = (Line.read first others).map fun l ↦ [l] := by
  have hsame := List.isChain_of_mem_splitBy hrun
  have hgroups : groupByLine (first :: others ++ []) = [(first, others)] :=
    groupByLine_append (line_of_isChain hsame) fun u hu ↦ by cases hu
  rw [List.append_nil] at hgroups
  rw [parse, hgroups, List.mapM_cons]
  cases Line.read first others <;> rfl

theorem parse_eq_error_iff {tokens : List Token} {e : SyntaxError} :
    parse tokens = .error e ↔ ∃ good bad later, lineRuns tokens = good ++ bad :: later ∧
      (∀ run ∈ good, LineTokens run) ∧ parse bad = .error e := by
  have hparse {first : Token} {others : List Token}
      (hrun : first :: others ∈ lineRuns tokens) :
      parse (first :: others) = .error e ↔ Line.read first others = .error e := by
    rw [parse_of_mem_lineRuns hrun]
    cases Line.read first others <;> simp [Except.map]
  rw [parse, mapM_eq_error_iff]
  constructor
  · rintro ⟨good, bad, later, hgroups, hgood, hbad⟩
    have hruns : lineRuns tokens = good.map (fun g ↦ g.1 :: g.2) ++
        (bad.1 :: bad.2) :: later.map fun g ↦ g.1 :: g.2 := by
      rw [← map_groupByLine, hgroups, List.map_append, List.map_cons]
    refine ⟨_, _, _, hruns, List.forall_mem_map.mpr fun g hg ↦ ?_, ?_⟩
    · exact exists_read_iff.mp (hgood g hg)
    · exact (hparse (by simp [hruns])).mpr hbad
  · rintro ⟨good, bad, later, hruns, hgood, hbad⟩
    have hmem : bad ∈ lineRuns tokens := by simp [hruns]
    rw [← map_groupByLine, List.map_eq_append_iff] at hruns
    obtain ⟨good, behind, hgroups, rfl, hbehind⟩ := hruns
    obtain ⟨⟨first, others⟩, later, rfl, rfl, rfl⟩ := List.map_eq_cons_iff.mp hbehind
    refine ⟨good, (first, others), later, hgroups, fun g hg ↦ ?_, (hparse hmem).mp hbad⟩
    exact exists_read_iff.mpr (hgood _ (List.mem_map_of_mem hg))

/-- What is wrong with a run is wrong with one of its tokens. -/
theorem isAtOneOf_of_parse {e : SyntaxError} (h : parse tokens = .error e) :
    e.IsAtOneOf tokens := by
  rw [parse, mapM_eq_error_iff] at h
  obtain ⟨good, bad, later, hgroups, -, hbad⟩ := h
  refine (Line.isAtOneOf_of_read hbad).mono fun t ht ↦ ?_
  rw [← flatMap_groupByLine tokens, hgroups]
  exact List.mem_flatMap_of_mem (by simp) ht

theorem Line.exists_operand_of_takesOperand {l : Line} (hw : l.WellFormed) {k : Keyword}
    (hk : l.head.keyword? = some k) (htakes : k.takesOperand) :
    ∃ t rest, l.statement.operands = t :: rest := by
  rw [hw.head] at hk
  cases hk
  cases hs : l.statement with
  | memory op place marker => exact ⟨_, _, rfl⟩
  | origin value => exact ⟨value, [], rfl⟩
  | datum radix value => exact ⟨value, [], rfl⟩
  | register op | io op | finish =>
    rw [hs] at htakes
    cases htakes

/-- **The parser reads any tokens run by run.** It reads them all if every run of tokens with one
line number makes up a line. Then each run is a line, no token is lost, and the operands that a
statement needs are there. Otherwise the first run that makes up no line is to blame, as it would be
by itself, at one of its tokens. -/
theorem parse_lineRuns (tokens : List Token) :
    ((∃ lines, parse tokens = .ok lines) ↔ ∀ run ∈ lineRuns tokens, LineTokens run) ∧
    (∀ lines, parse tokens = .ok lines →
      lines.map Line.tokens = lineRuns tokens ∧ lines.flatMap Line.tokens = tokens ∧
      ∀ l ∈ lines, ∀ k, l.head.keyword? = some k → k.takesOperand →
        ∃ t rest, l.statement.operands = t :: rest) ∧
    ∀ e, parse tokens = .error e ↔ ∃ good bad later, lineRuns tokens = good ++ bad :: later ∧
      (∀ run ∈ good, LineTokens run) ∧ ¬LineTokens bad ∧ parse bad = .error e ∧
      e.IsAtOneOf bad := by
  refine ⟨exists_parse_iff_lineRuns tokens, fun lines h ↦ ?_, fun e ↦ ?_⟩
  · obtain ⟨htokens, hw⟩ := parse_eq_ok h
    exact ⟨map_tokens_of_parse h, htokens,
      fun l hl k hk ↦ Line.exists_operand_of_takesOperand (hw l hl) hk⟩
  · rw [parse_eq_error_iff]
    constructor
    · rintro ⟨good, bad, later, hruns, hgood, hbad⟩
      have hmem : bad ∈ lineRuns tokens := by simp [hruns]
      refine ⟨good, bad, later, hruns, hgood, fun hline ↦ ?_, hbad, isAtOneOf_of_parse hbad⟩
      obtain ⟨first, others, rfl⟩ :=
        List.exists_cons_of_ne_nil (List.ne_nil_of_mem_splitBy hmem)
      obtain ⟨l, hl⟩ := exists_read_iff.mpr hline
      rw [parse_of_mem_lineRuns hmem, hl] at hbad
      cases hbad
    · rintro ⟨good, bad, later, hruns, hgood, -, hbad, -⟩
      exact ⟨good, bad, later, hruns, hgood, hbad⟩

end Parse

/-- Tokens whose line numbers go down and come back. -/
def scatteredTokens : List Token :=
  [⟨⟨⟨3, 1⟩, "X", ""⟩, .identifier⟩, ⟨⟨⟨3, 1⟩, "LDA", ""⟩, .keyword⟩,
    ⟨⟨⟨3, 9⟩, "5", ""⟩, .number .decimal⟩, ⟨⟨⟨1, 4⟩, "HLT", ""⟩, .keyword⟩,
    ⟨⟨⟨3, 2⟩, "END", ""⟩, .keyword⟩]

/-- The same with something behind the last line. -/
def scatteredTokensAndMark : List Token :=
  scatteredTokens ++ [⟨⟨⟨3, 7⟩, "I", ""⟩, .indirection⟩]

theorem parse_lineRuns_scattered :
    (∃ lines, parse scatteredTokens = .ok lines ∧
      lines.map (·.tokens.length) = [3, 1, 1] ∧ ∀ run ∈ lineRuns scatteredTokens, LineTokens run) ∧
    ∃ good bad later, lineRuns scatteredTokensAndMark = good ++ bad :: later ∧
      (∀ run ∈ good, LineTokens run) ∧ ¬LineTokens bad ∧
      parse bad = .error ⟨⟨3, 2⟩, .operandsOfEnd⟩ := by
  constructor
  · obtain ⟨hruns, hlines, -⟩ := parse_lineRuns scatteredTokens
    obtain ⟨lines, h⟩ : ∃ lines, parse scatteredTokens = .ok lines := ⟨_, rfl⟩
    have hlengths := congrArg (List.map List.length) (hlines lines h).1
    rw [List.map_map] at hlengths
    exact ⟨lines, h, hlengths, hruns.mp ⟨lines, h⟩⟩
  · obtain ⟨-, -, herror⟩ := parse_lineRuns scatteredTokensAndMark
    have hfails : parse scatteredTokensAndMark = .error ⟨⟨3, 2⟩, .operandsOfEnd⟩ := rfl
    obtain ⟨good, bad, later, hruns, hgood, hbad, hsame, -⟩ := (herror _).mp hfails
    exact ⟨good, bad, later, hruns, hgood, hbad, hsame⟩

end BasicComputer
