import BasicComputer.Proofs.AddressRange
import BasicComputer.Proofs.LineRuns

/-!
# The second pass over bare tokens

A pass that knows its lines only as tokens has much to rely on: that a token names each statement,
that the operands the statement takes are behind it, that a name is in the symbol table, and that a
counter of sixteen bits has a next value. Nothing in the tokens says so. Here the second pass is
written down with every such step as one that can go wrong.

None of them does once the text has been read, its end has been checked and the first pass is
through. The grammar provides the tokens, the first pass the names and the room, and the check in
front of every increment the bound on the counter. What the pass makes of the tokens is then what
emission makes of the lines, and a number out of its range is all that can stop either.

## Why tokens again

Lines, as they are read, have room for the operands that their statements take. In a pass over lines
a missing operand cannot be written down, and that the pass never misses one would hold of anything.
So the pass is defined on tokens, and asks for each of them by its place, with a failure of its own
for every request that may find nothing.

## Keeping in step

The two passes are compared as they go, and it is shown of each line that they stay in step. The
bound on the counter is part of what is kept, since it is what keeps the next increment from going
wrong. Nothing is assumed of the symbol table here. What the first pass has to say comes in only at
the end.
-/

namespace BasicComputer

/-! ## Steps that can go wrong -/

/-- What can stop a pass over bare tokens. -/
inductive Stop
  /-- A token that the pass asks for is not there, or is none that names a statement. -/
  | missing
  /-- The counter has no next value. -/
  | wraps
  /-- The pass finds something wrong with the text. -/
  | fault (error : SemanticError)
  deriving DecidableEq, Repr

/-- The token in a given place of a line. -/
def tokenAt (ts : List Token) (i : Nat) : Except Stop Token :=
  match ts[i]? with
  | some t => .ok t
  | none => .error .missing

def Token.keywordOrStop (t : Token) : Except Stop Keyword :=
  match t.keyword? with
  | some k => .ok k
  | none => .error .missing

/-- The address that a token stands for. Everything that is no decimal number is looked up. -/
def Token.address (symbols : SymbolTable) (t : Token) : Except SemanticError Nat :=
  if t.kind = .number .decimal then .ok (decimalAddress t.text.toList)
  else
    match symbols.lookup? t.text with
    | some a => .ok a
    | none => .error (t.faults (.undefinedLabel t.text))

/-- The operation that a mnemonic names, with its operand behind it. -/
def tokensOperation (symbols : SymbolTable) (statement : List Token) :
    Mnemonic → Except Stop Operation
  | .memory op => do
    let operand ← tokenAt statement 1
    let address ← (operand.address symbols).mapError .fault
    return .memory op (BitVec.ofNat 16 address) (statement[2]?.any (·.kind == .indirection))
  | .register op => return .register op
  | .io op => return .io op

/-- The effect of the tokens of a statement, the counter standing at `counter`. -/
def tokensEffect (symbols : SymbolTable) (counter : Word) (statement : List Token) :
    Except Stop Emission := do
  let head ← tokenAt statement 0
  match ← head.keywordOrStop with
  | .directive .origin =>
    let operand ← tokenAt statement 1
    return .origin (← (originValue operand).mapError .fault)
  | .directive .finish => return .finish
  | .directive (.datum radix) =>
    let operand ← tokenAt statement 1
    return .datum radix ⟨counter.toNat, ← (literalWord radix operand).mapError .fault⟩
  | .mnemonic m =>
    let operation ← tokensOperation symbols statement m
    return .instruction ⟨counter.toNat, encode operation, head.source, head.line⟩

/-- The counter behind a word emitted by the statement that `head` names. -/
def nextCounter (counter : Word) (head : Token) : Except Stop Word :=
  if memorySize ≤ counter.toNat then .error (.fault (head.faults .addressOverflow))
  else if counter.toNat = 0xFFFF then .error .wraps
  else .ok (counter + 1)

/-- What a pass leaves behind. -/
structure Walk where
  /-- The values that the counter takes. -/
  counters : List Word
  effects : List Emission
  result : Except Stop Unit

/-- A pass that stood at `counter` and had `effect` before it went on. -/
def Walk.behind (counter : Word) (effect : Emission) (later : Walk) : Walk :=
  ⟨counter :: later.counters, effect :: later.effects, later.result⟩

/-- The second pass over the tokens of statements. -/
def secondPass (symbols : SymbolTable) (counter : Word) : List (List Token) → Walk
  | [] => ⟨[counter], [], .ok ()⟩
  | statement :: rest =>
    match tokensEffect symbols counter statement with
    | .error stop => ⟨[counter], [], .error stop⟩
    | .ok .finish => ⟨[counter], [.finish], .ok ()⟩
    | .ok (.origin start) =>
      (secondPass symbols (BitVec.ofNat 16 start) rest).behind counter (.origin start)
    | .ok effect =>
      match tokenAt statement 0 >>= nextCounter counter with
      | .error stop => ⟨[counter], [effect], .error stop⟩
      | .ok next => (secondPass symbols next rest).behind counter effect

/-- The tokens of a line without its label. -/
def statementTokens : List Token → List Token
  | [] => []
  | t :: ts => if t.kind = .identifier then ts else t :: ts

/-! ## One line -/

section Step

variable {symbols : SymbolTable} {l : Line}

theorem Line.statementTokens_tokens (hw : l.WellFormed) :
    statementTokens l.tokens = l.head :: l.statement.operands := by
  rw [Line.tokens]
  rcases hlabel : l.label with _ | t
  · have hhead : l.head.kind ≠ .identifier := by
      rw [Token.kind_of_keyword? hw.head]
      decide
    exact if_neg hhead
  · exact if_pos (hw.label t hlabel).1

theorem Place.address_token {place : Place} (hplace : place.WellFormed) :
    place.token.address symbols = place.address symbols := by
  rcases place with t | t
  · exact if_pos hplace
  · have hkind : t.kind ≠ .number .decimal := by
      rw [hplace.1]
      decide
    exact if_neg hkind

theorem any_kind_marker {marker : Option Token} (h : ∀ t ∈ marker, t.kind = .indirection) :
    marker.toList[0]?.any (·.kind == .indirection) = marker.isSome := by
  rcases marker with _ | t
  · rfl
  · simp [h t rfl]

/-- Every token that the pass asks for is there, and makes what emission makes of it. -/
theorem tokensEffect_eq (hw : l.WellFormed) (counter : Word) :
    tokensEffect symbols counter (l.head :: l.statement.operands) =
      (l.emission symbols counter.toNat).mapError .fault := by
  have hkeyword : l.head.keywordOrStop = .ok l.statement.keyword := by
    rw [Token.keywordOrStop, hw.head]
  have hoperands := hw.operands
  have hhead (ts : List Token) : tokenAt (l.head :: ts) 0 = .ok l.head := rfl
  rw [tokensEffect, Line.emission, hhead]
  dsimp only [bind, Except.bind]
  rw [hkeyword]
  rcases hs : l.statement with ⟨op, place, marker⟩ | op | op | value | ⟨radix, value⟩ | _
  · rw [hs] at hoperands
    have hoperand : tokenAt (l.head :: (Statement.memory op place marker).operands) 1 =
        .ok place.token := rfl
    have hmarker : (l.head :: (Statement.memory op place marker).operands)[2]? =
        marker.toList[0]? := rfl
    simp only [Statement.keyword, tokensOperation, hoperand, hmarker, bind, Except.bind, pure,
      Except.pure, Place.address_token hoperands.1, any_kind_marker hoperands.2]
    rcases place.address symbols with e | address <;> rfl
  · rfl
  · rfl
  · have hoperand : tokenAt (l.head :: (Statement.origin value).operands) 1 = .ok value := rfl
    simp only [Statement.keyword, hoperand]
    rcases originValue value with e | start <;> rfl
  · have hoperand : tokenAt (l.head :: (Statement.datum radix value).operands) 1 = .ok value := rfl
    simp only [Statement.keyword, hoperand]
    rcases literalWord radix value with e | word <;> rfl
  · rfl

theorem nextCounter_of_lt {counter : Word} (h : counter.toNat < memorySize) (head : Token) :
    nextCounter counter head = .ok (counter + 1) ∧ (counter + 1).toNat = counter.toNat + 1 := by
  have hnext : counter.toNat + 1 < 0x10000 := by
    rw [memorySize] at h
    omega
  refine ⟨?_, ?_⟩
  · rw [nextCounter, if_neg (by omega), if_neg (by omega)]
  · rw [BitVec.toNat_add]
    exact Nat.mod_eq_of_lt hnext

theorem nextCounter_of_le {counter : Word} (h : memorySize ≤ counter.toNat) (head : Token) :
    nextCounter counter head = .error (.fault (head.faults .addressOverflow)) :=
  if_pos h

theorem Line.lt_of_emission_eq_origin {address start : Nat}
    (h : l.emission symbols address = .ok (.origin start)) : start < memorySize := by
  unfold emission at h
  split at h
  next value _ =>
    obtain ⟨n, hn, h⟩ := bind_eq_ok.mp h
    cases h
    unfold originValue at hn
    by_cases hlt : Numeral.value 16 value.text.toList < memorySize
    · rw [if_pos hlt] at hn
      cases hn
      exact hlt
    · rw [if_neg hlt] at hn
      cases hn
  next => cases h
  next =>
    obtain ⟨_, -, h⟩ := bind_eq_ok.mp h
    cases h
  next =>
    obtain ⟨_, -, h⟩ := bind_eq_ok.mp h
    cases h
  next => cases h
  next => cases h

end Step

/-! ## All lines -/

/-- A pass over tokens keeps in step with emission if both have the same effects and the same end,
and the counter never gets further than right behind the last address. -/
structure Walk.Follows (walk : Walk) (emitted : List Emission × Except SemanticError Unit) :
    Prop where
  effects : walk.effects = emitted.1
  result : walk.result = emitted.2.mapError .fault
  counters : ∀ counter ∈ walk.counters, counter.toNat ≤ memorySize

/-- The tokens of statements, line by line. -/
def statementsOf (lines : List Line) : List (List Token) :=
  lines.map fun l ↦ l.head :: l.statement.operands

theorem map_statementTokens {lines : List Line} (hw : ∀ l ∈ lines, l.WellFormed) :
    (lines.map Line.tokens).map statementTokens = statementsOf lines := by
  rw [List.map_map]
  exact List.map_congr_left fun l hl ↦ Line.statementTokens_tokens (hw l hl)

theorem Walk.Follows.behind {walk : Walk} {emitted : List Emission × Except SemanticError Unit}
    (h : walk.Follows emitted) {counter : Word} (hcounter : counter.toNat ≤ memorySize)
    (effect : Emission) :
    (walk.behind counter effect).Follows (effect :: emitted.1, emitted.2) where
  effects := congrArg (effect :: ·) h.effects
  result := h.result
  counters := List.forall_mem_cons.mpr ⟨hcounter, h.counters⟩

/-- The pass keeps in step with emission whatever the symbol table. Only the check in front of every
increment keeps the counter where it is, and so no increment goes wrong. -/
theorem secondPass_follows (symbols : SymbolTable) {lines : List Line}
    (hw : ∀ l ∈ lines, l.WellFormed) {counter : Word} (hcounter : counter.toNat ≤ memorySize) :
    (secondPass symbols counter (statementsOf lines)).Follows
      (emit symbols counter.toNat lines) := by
  induction lines generalizing counter with
  | nil => exact ⟨rfl, rfl, List.forall_mem_singleton.mpr hcounter⟩
  | cons l rest ih =>
    rw [List.forall_mem_cons] at hw
    have hhead : tokenAt (l.head :: l.statement.operands) 0 = .ok l.head := rfl
    rw [statementsOf, List.map_cons, secondPass, emit, tokensEffect_eq hw.1 counter, hhead]
    rcases heffect : l.emission symbols counter.toNat with e | effect
    · exact ⟨rfl, rfl, List.forall_mem_singleton.mpr hcounter⟩
    cases effect with
    | finish => exact ⟨rfl, rfl, List.forall_mem_singleton.mpr hcounter⟩
    | origin start =>
      have hlt := Line.lt_of_emission_eq_origin heffect
      have hstart : (BitVec.ofNat 16 start).toNat = start := by
        rw [memorySize] at hlt
        exact Nat.mod_eq_of_lt (by omega)
      have hlater := ih hw.2 (hstart.trans_le hlt.le)
      rw [hstart] at hlater
      exact hlater.behind hcounter _
    | datum _ _ | instruction _ =>
      -- a word moves the counter by one, unless there is no room for the word
      rcases Nat.lt_or_ge counter.toNat memorySize with hlt | hge
      · obtain ⟨hnext, hsucc⟩ := nextCounter_of_lt hlt l.head
        have hlater := ih hw.2 (hsucc.trans_le hlt)
        rw [hsucc] at hlater
        simp only [Except.mapError, bind, Except.bind, hnext, nextLocation, if_pos hlt]
        exact hlater.behind hcounter _
      · simp only [Except.mapError, bind, Except.bind, nextCounter_of_le hge, nextLocation,
          if_neg (Nat.not_lt.mpr hge)]
        exact ⟨rfl, rfl, List.forall_mem_singleton.mpr hcounter⟩

/-! ## Behind the first pass -/

/-- The second pass over the tokens of a text. -/
def secondPassOf (symbols : SymbolTable) (tokens : List Token) : Walk :=
  secondPass symbols 0 ((lineRuns tokens).map statementTokens)

theorem secondPassOf_follows (symbols : SymbolTable) {tokens : List Token} {lines : List Line}
    (hparse : parse tokens = .ok lines) :
    (secondPassOf symbols tokens).Follows (emit symbols 0 lines) := by
  have hw := (parse_eq_ok hparse).2
  rw [secondPassOf, ← map_tokens_of_parse hparse, map_statementTokens hw]
  exact secondPass_follows symbols hw (Nat.zero_le _)

theorem layout_eq_ok {lines : List Line} (hfinish : FinishesLast lines) {symbols : SymbolTable}
    {entries : List Entry} (h : layout 0 .empty lines = (⟨symbols, entries⟩, .ok ())) :
    misplacement? [] lines = none ∧ symbols = symbolsOf lines := by
  have hcases := layout_symbolsOf hfinish
  rcases hm : misplacement? [] lines with _ | e
  · rw [hm, h] at hcases
    exact ⟨rfl, congrArg (fun r ↦ r.1.symbols) hcases⟩
  · rw [hm, h] at hcases
    cases hcases

theorem lookup?_of_undefinedName? {symbols : SymbolTable} {tokens : List Token}
    (h : undefinedName? symbols tokens = none) {t : Token} (ht : t ∈ tokens)
    (hkind : t.kind = .identifier) : ∃ a, symbols.lookup? t.text = some a := by
  rw [undefinedName?, Option.map_eq_none_iff, List.find?_eq_none] at h
  have hdefined := h t ht
  rw [hkind] at hdefined
  exact Option.ne_none_iff_exists'.mp (by simpa [SymbolTable.contains] using hdefined)

theorem Line.exists_of_literalFault? {l : Line} (hw : l.WellFormed) {e : SemanticError}
    (h : l.literalFault? = some e) :
    ∃ t ∈ l.tokens, ∃ radix, t.kind = .number radix ∧ ¬radix.InRange t.text.toList ∧
      e = t.faults (radix.rangeFault t.text) := by
  have hoperands := hw.operands
  unfold literalFault? at h
  split at h
  next radix value hs =>
    rw [hs] at hoperands
    have hmem : value ∈ l.tokens := by simp [Line.tokens, hs, Statement.operands]
    by_cases hrange : radix.InRange value.text.toList
    · rw [if_pos hrange] at h
      cases h
    · rw [if_neg hrange, Option.some.injEq] at h
      exact ⟨value, hmem, radix, hoperands, hrange, h.symm⟩
  next => cases h

/-- **The second pass is safe behind the first.** Let a text be read, its end be all right, and the
first pass be through, with every name in the symbol table. Then the second pass finds each token it
asks for and every name it looks up, does what emission does, and leaves the counter at an address
or right behind the last one. It goes through to the end and the text is assembled to its effects,
or else it stops at a number that is out of the range of its directive, and so does assembly. -/
theorem secondPassOf_safe {source : String} {tokens : List Token} {lines : List Line}
    {symbols : SymbolTable} {entries : List Entry} (htokens : tokenize source = .ok tokens)
    (hparse : parse tokens = .ok lines) (hend : checkEnd tokens = .ok ())
    (hlayout : layout 0 .empty lines = (⟨symbols, entries⟩, .ok ()))
    (hnames : undefinedName? symbols tokens = none) :
    (secondPassOf symbols tokens).Follows (emit symbols 0 lines) ∧
    (∀ t ∈ tokens, t.kind = .identifier → ∃ a, symbols.lookup? t.text = some a) ∧
    ((secondPassOf symbols tokens).result = .ok () ∧
        (assemble source).outcome = .ok (.ofEmissions (secondPassOf symbols tokens).effects) ∨
      ∃ t ∈ tokens, ∃ radix, t.kind = .number radix ∧ ¬radix.InRange t.text.toList ∧
        (secondPassOf symbols tokens).result =
          .error (.fault (t.faults (radix.rangeFault t.text))) ∧
        (assemble source).outcome =
          .error (.semantic (t.faults (radix.rangeFault t.text)))) := by
  have hfollows := secondPassOf_follows symbols hparse
  refine ⟨hfollows, fun t ↦ lookup?_of_undefinedName? hnames, ?_⟩
  obtain ⟨hflat, hw⟩ := parse_eq_ok hparse
  have hendFault := checkEnd_eq_ok.mp hend
  have hfinish : FinishesLast lines := finishesLast_of_endFault? hw (by rw [hflat, hendFault])
  obtain ⟨hplaced, rfl⟩ := layout_eq_ok hfinish hlayout
  rw [undefinedName?_symbolsOf] at hnames
  have hemit := emit_symbolsOf hw hplaced hfinish (by rw [hflat, hnames])
  have hcases := assemble_of_lines htokens hparse
  rw [hendFault, lineFault?, hplaced, hnames, Option.none_or, Option.none_or, Option.none_or]
    at hcases
  rcases hfault : lines.findSome? Line.literalFault? with _ | e
  · rw [hfault] at hemit hcases
    left
    rw [hfollows.result, hfollows.effects, hemit]
    exact ⟨rfl, hcases.1⟩
  · rw [hfault] at hemit hcases
    right
    obtain ⟨l, hl, hfails⟩ := List.exists_of_findSome?_eq_some hfault
    obtain ⟨t, ht, radix, hkind, hrange, rfl⟩ := Line.exists_of_literalFault? (hw l hl) hfails
    refine ⟨t, ?_, radix, hkind, hrange, ?_, hcases⟩
    · rw [← hflat]
      exact List.mem_flatMap_of_mem hl ht
    · rw [hfollows.result, hemit]
      rfl

/-- A text with a word at the last address and a number that is no word. -/
def oversizedNumber : String := "LDA X I\nORG FFF\nX, HLT\nORG 10\nDEC 40000\nEND"

theorem secondPassOf_oversizedNumber :
    ∃ tokens lines symbols, tokenize oversizedNumber = .ok tokens ∧ parse tokens = .ok lines ∧
      (secondPassOf symbols tokens).Follows (emit symbols 0 lines) ∧
      (secondPassOf symbols tokens).counters = [0, 1, 0xFFF, 0x1000, 0x10] ∧
      (secondPassOf symbols tokens).result =
        .error (.fault ⟨⟨5, 5⟩, .decimalOutOfRange "40000"⟩) := by
  have hsafe := @secondPassOf_safe oversizedNumber _ _ _ _ rfl rfl rfl rfl rfl
  exact ⟨_, _, _, rfl, rfl, hsafe.1, rfl, rfl⟩

end BasicComputer
