import BasicComputer.Proofs.Placement

/-!
# Texts in other places

Tokens carry line numbers, columns and source lines, for messages and for the listing. Behind the
grouping into lines nothing looks at them any more. So each stage of assembly gives for moved tokens
what it gives for the tokens themselves, moved: errors are the same at other places, instructions
have other source lines and the same words at the same addresses, and labels do not change at all.

## Three functions

A move exchanges line numbers, columns and source lines, each by a function of its own, and nothing
is asked of columns and source lines. Grouping compares line numbers, so it is the one stage that
needs something: where it is involved, the groups are taken as given. Moving all tokens to one place
is a move as well, and equality up to places is equality after it.

## One law for each function

Every function that comes behind the grouping has its law here, next to the others of its stage. A
law has the same form in all cases: the function of moved arguments is the moved value. So they
compose as the functions do, and the law for a pass is read off the pass.
-/

namespace BasicComputer

/-! ## Moving -/

/-- What line numbers, columns and source lines are exchanged for. -/
structure Moving where
  line : Nat → Nat
  column : Nat → Nat
  source : String → String

def Moving.position (m : Moving) (p : Position) : Position := ⟨m.line p.line, m.column p.column⟩

section Definitions

variable (m : Moving)

def Token.moved (t : Token) : Token :=
  ⟨⟨m.position t.toPosition, t.text, m.source t.source⟩, t.kind⟩

def SyntaxError.moved (e : SyntaxError) : SyntaxError := ⟨m.position e.toPosition, e.fault⟩

def SemanticError.moved (e : SemanticError) : SemanticError := ⟨m.position e.toPosition, e.fault⟩

def Place.moved : Place → Place
  | number t => number (t.moved m)
  | symbol t => symbol (t.moved m)

def Statement.moved : Statement → Statement
  | memory op place marker => memory op (place.moved m) (marker.map (Token.moved m))
  | register op => register op
  | io op => io op
  | origin value => origin (value.moved m)
  | datum radix value => datum radix (value.moved m)
  | finish => finish

def Line.moved (l : Line) : Line :=
  ⟨l.label.map (Token.moved m), l.head.moved m, l.statement.moved m⟩

def Instruction.moved (i : Instruction) : Instruction :=
  { i with source := m.source i.source, line := m.line i.line }

def Emission.moved : Emission → Emission
  | instruction i => instruction (i.moved m)
  | origin start => origin start
  | datum radix d => datum radix d
  | finish => finish

/-- A program whose source is in another place. -/
def Program.moved (p : Program) : Program :=
  { p with instructions := p.instructions.map (Instruction.moved m) }

def AssemblyError.moved : AssemblyError → AssemblyError
  | lexical e => lexical ⟨m.position e.toPosition, e.lexeme⟩
  | grammatical e => grammatical (e.moved m)
  | semantic e => semantic (e.moved m)

end Definitions

theorem Line.tokens_moved (m : Moving) (l : Line) :
    (l.moved m).tokens = l.tokens.map (Token.moved m) := by
  obtain ⟨label, head, statement⟩ := l
  rcases label with _ | t <;> rcases statement with ⟨op, _ | _, _ | _⟩ | _ | _ | _ | _ | _ <;> rfl

theorem flatMap_tokens_moved (m : Moving) (lines : List Line) :
    (lines.map (Line.moved m)).flatMap Line.tokens =
      (lines.flatMap Line.tokens).map (Token.moved m) := by
  rw [List.flatMap_map, List.map_flatMap]
  exact List.flatMap_congr fun l _ ↦ l.tokens_moved m

/-! ## Reading -/

section Reading

variable (m : Moving)

namespace Statement

theorem readPlace_moved (op : MemoryOp) (t : Token) :
    readPlace op (t.moved m) =
      ((readPlace op t).map (Place.moved m)).mapError (SyntaxError.moved m) := by
  obtain ⟨x, kind⟩ := t
  rcases kind with _ | _ | ⟨_ | _⟩ | _
  · rw [readPlace, readPlace, Token.moved]
    dsimp only
    split <;> rfl
  all_goals rfl

theorem readMarker_moved (head : Token) (ts : List Token) :
    readMarker (head.moved m) (ts.map (Token.moved m)) =
      ((readMarker head ts).map (·.map (Token.moved m))).mapError (SyntaxError.moved m) := by
  rcases ts with _ | ⟨t, _ | ⟨u, us⟩⟩
  · rfl
  · have hkind : (t.moved m).kind = t.kind := rfl
    rw [List.map_singleton, readMarker, readMarker, hkind]
    split <;> rfl
  · rfl

theorem readNumber_moved (head : Token) (directive : Directive) (radix : Radix) (ts : List Token) :
    readNumber (head.moved m) directive radix (ts.map (Token.moved m)) =
      ((readNumber head directive radix ts).map (Token.moved m)).mapError
        (SyntaxError.moved m) := by
  rcases ts with _ | ⟨t, _ | ⟨u, us⟩⟩
  · rfl
  · have hkind : (t.moved m).kind = t.kind := rfl
    rw [List.map_singleton, readNumber, readNumber, hkind]
    split <;> rfl
  · -- the message names how many operands there are
    rw [List.map_cons, List.map_cons, readNumber, readNumber, List.length_cons, List.length_cons,
      List.length_map]
    · rfl
    all_goals simp

theorem readNothing_moved (head : Token) (fault : SyntaxFault) (ts : List Token) :
    readNothing (head.moved m) fault (ts.map (Token.moved m)) =
      (readNothing head fault ts).mapError (SyntaxError.moved m) := by
  cases ts <;> rfl

/-- A statement is read from moved tokens as from the tokens themselves. -/
theorem read_moved (head : Token) (operands : List Token) (k : Keyword) :
    read (head.moved m) (operands.map (Token.moved m)) k =
      ((read head operands k).map (Statement.moved m)).mapError (SyntaxError.moved m) := by
  rcases k with (op | op | op) | (_ | _ | radix)
  · rcases operands with _ | ⟨address, rest⟩
    · rfl
    · rw [List.map_cons, read, read, readPlace_moved, readMarker_moved]
      cases readPlace op address with
      | error e => rfl
      | ok place => cases readMarker head rest <;> rfl
  · rw [read, read, readNothing_moved]
    cases readNothing head _ operands <;> rfl
  · rw [read, read, readNothing_moved]
    cases readNothing head _ operands <;> rfl
  · rw [read, read, readNumber_moved]
    cases readNumber head _ _ operands <;> rfl
  · rw [read, read, readNothing_moved]
    cases readNothing head _ operands <;> rfl
  · rw [read, read, readNumber_moved]
    cases readNumber head _ _ operands <;> rfl

end Statement

namespace Line

theorem readUnlabelled_moved (label : Option Token) (head : Token) (operands : List Token) :
    readUnlabelled (label.map (Token.moved m)) (head.moved m) (operands.map (Token.moved m)) =
      ((readUnlabelled label head operands).map (moved m)).mapError (SyntaxError.moved m) := by
  have hkeyword : (head.moved m).keyword? = head.keyword? := rfl
  rw [readUnlabelled, readUnlabelled, hkeyword]
  cases head.keyword? with
  | none => rfl
  | some k =>
    dsimp only
    rw [Statement.read_moved]
    cases Statement.read head operands k <;> rfl

/-- A line is read from moved tokens as from the tokens themselves. -/
theorem read_moved (first : Token) (others : List Token) :
    read (first.moved m) (others.map (Token.moved m)) =
      ((read first others).map (moved m)).mapError (SyntaxError.moved m) := by
  have hkind : (first.moved m).kind = first.kind := rfl
  have htext : (first.moved m).text = first.text := rfl
  unfold read
  rw [hkind, htext]
  split
  next =>
    split
    next =>
      cases others with
      | nil => rfl
      | cons head operands => exact readUnlabelled_moved m (some first) head operands
    next => rfl
  next => exact readUnlabelled_moved m none first others

end Line

/-- Moved groups of tokens are read as the lines of the groups themselves, moved. -/
theorem mapM_read_moved (groups : List (Token × List Token)) :
    (groups.map (Prod.map (Token.moved m) (List.map (Token.moved m)))).mapM
        (fun g ↦ Line.read g.1 g.2) =
      ((groups.mapM fun g ↦ Line.read g.1 g.2).map (·.map (Line.moved m))).mapError
        (SyntaxError.moved m) := by
  induction groups with
  | nil => rfl
  | cons g groups ih =>
    rw [List.map_cons, List.mapM_cons, List.mapM_cons, ih, Prod.map_fst, Prod.map_snd,
      Line.read_moved]
    cases Line.read g.1 g.2 with
    | error e => rfl
    | ok l => cases groups.mapM fun g ↦ Line.read g.1 g.2 <;> rfl

end Reading

/-! ## Kinds and addresses

Where the parts of a line are has no part in what kind of line it is, in its address or in its
word. -/

section Kinds

variable (m : Moving)

namespace Statement

theorem isOperation_moved (s : Statement) : (s.moved m).isOperation = s.isOperation := by
  cases s <;> rfl

theorem isDatum_moved (s : Statement) : (s.moved m).isDatum = s.isDatum := by
  cases s <;> rfl

theorem emits_moved (s : Statement) : (s.moved m).emits = s.emits := by
  rw [emits, emits, isOperation_moved, isDatum_moved]

theorem operands_moved (s : Statement) :
    (s.moved m).operands = s.operands.map (Token.moved m) := by
  cases s with
  | memory op place marker => cases place <;> cases marker <;> rfl
  | register _ | io _ | origin _ | datum _ _ | finish => rfl

end Statement

namespace Line

theorem origin?_moved (l : Line) : (l.moved m).origin? = l.origin? := by
  rw [origin?, origin?, moved]
  cases l.statement <;> rfl

theorem labelValue_moved (l : Line) (address : Nat) :
    (l.moved m).labelValue address = l.labelValue address := by
  rw [labelValue, labelValue, origin?_moved]

theorem definition?_moved (l : Line) (address : Nat) :
    (l.moved m).definition? address = l.definition? address := by
  rw [definition?, definition?, labelValue_moved, moved, Option.map_map]
  rfl

theorem word_moved (symbols : SymbolTable) (l : Line) :
    (l.moved m).word symbols = l.word symbols := by
  rw [word, word, moved]
  cases l.statement with
  | memory op place marker => cases place <;> cases marker <;> rfl
  | register _ | io _ | origin _ | datum _ _ | finish => rfl

end Line

theorem labelsOf_moved (lines : List Line) :
    labelsOf (lines.map (Line.moved m)) = labelsOf lines := by
  rw [labelsOf, labelsOf, List.filterMap_map]
  refine List.filterMap_congr fun l _ ↦ ?_
  rw [Function.comp_apply, Line.moved, Option.map_map]
  rfl

theorem addressAfter_moved (before : List Line) :
    addressAfter (before.map (Line.moved m)) = addressAfter before :=
  addressAfter_map (Line.origin?_moved m) (fun l ↦ l.statement.emits_moved m) before

end Kinds

/-! ## The end of a text -/

theorem checkEnd_moved {m : Moving} (hm : m.position ⟨0, 0⟩ = ⟨0, 0⟩) (tokens : List Token) :
    checkEnd (tokens.map (Token.moved m)) =
      (checkEnd tokens).mapError (SemanticError.moved m) := by
  have hlast : lastPosition (tokens.map (Token.moved m)) = m.position (lastPosition tokens) := by
    rw [lastPosition, lastPosition, List.getLast?_map]
    cases tokens.getLast? with
    | none => exact hm.symm
    | some t => rfl
  have hany : (tokens.map (Token.moved m)).getLast?.any Token.isEnd =
      tokens.getLast?.any Token.isEnd := by
    rw [List.getLast?_map]
    cases tokens.getLast? <;> rfl
  have hends : (tokens.map (Token.moved m)).filter Token.isEnd =
      (tokens.filter Token.isEnd).map (Token.moved m) :=
    List.filter_map
  rw [checkEnd_eq, checkEnd_eq]
  unfold endFault? missingEnd? multipleEnd? endNotLast?
  rw [hlast, hany, List.countP_eq_length_filter, List.countP_eq_length_filter, hends]
  match tokens.filter Token.isEnd with
  | [] => rfl
  | [_] => cases tokens.getLast?.any Token.isEnd <;> rfl
  | _ :: _ :: _ => rfl

/-! ## Labels -/

section Layout

variable (m : Moving)

theorem Labelling.defineLabel_moved (labels : Labelling) (label : Option Token) (address : Nat) :
    labels.defineLabel (label.map (Token.moved m)) address =
      (labels.defineLabel label address).mapError (SemanticError.moved m) := by
  cases label with
  | none => rfl
  | some t =>
    have htext : (t.moved m).text = t.text := rfl
    rw [Option.map_some, defineLabel, defineLabel, define, define, htext]
    split <;> rfl

theorem originValue_moved (t : Token) :
    originValue (t.moved m) = (originValue t).mapError (SemanticError.moved m) := by
  have htext : (t.moved m).text = t.text := rfl
  rw [originValue, originValue, htext]
  split <;> rfl

theorem nextLocation_moved (location : Nat) (head : Token) :
    nextLocation location (head.moved m) =
      (nextLocation location head).mapError (SemanticError.moved m) := by
  rw [nextLocation, nextLocation]
  split <;> rfl

/-- Labels have their addresses wherever the lines are. -/
theorem layout_moved (location : Nat) (labels : Labelling) (lines : List Line) :
    layout location labels (lines.map (Line.moved m)) =
      ((layout location labels lines).1,
        (layout location labels lines).2.mapError (SemanticError.moved m)) := by
  induction lines generalizing location labels with
  | nil => rfl
  | cons l rest ih =>
    obtain ⟨label, head, statement⟩ := l
    rw [List.map_cons, Line.moved]
    cases statement with
    | origin value =>
      rw [Statement.moved, layout, layout]
      dsimp only
      rw [originValue_moved]
      cases originValue value with
      | error e => rfl
      | ok start =>
        dsimp only [Except.mapError]
        rw [Labelling.defineLabel_moved]
        cases labels.defineLabel label start with
        | error e => rfl
        | ok labels => exact ih start labels
    | finish =>
      rw [Statement.moved, layout, layout]
      dsimp only
      rw [Labelling.defineLabel_moved]
      cases labels.defineLabel label location <;> rfl
    | memory _ _ _ | register _ | io _ | datum _ _ =>
      rw [Statement.moved, layout, layout]
      dsimp only
      rw [Labelling.defineLabel_moved]
      cases labels.defineLabel label location with
      | error e => rfl
      | ok labels =>
        dsimp only [Except.mapError]
        rw [nextLocation_moved]
        cases nextLocation location head with
        | error e => rfl
        | ok next => exact ih next labels

theorem undefinedName?_moved (table : SymbolTable) (tokens : List Token) :
    undefinedName? table (tokens.map (Token.moved m)) =
      (undefinedName? table tokens).map (SemanticError.moved m) := by
  rw [undefinedName?, undefinedName?, List.find?_map, Option.map_map, Option.map_map]
  rfl

end Layout

/-! ## Words -/

section Emit

variable (m : Moving) (symbols : SymbolTable)

theorem Place.address_moved (place : Place) :
    (place.moved m).address symbols =
      (place.address symbols).mapError (SemanticError.moved m) := by
  cases place with
  | number t => rfl
  | symbol t =>
    have htext : (t.moved m).text = t.text := rfl
    rw [Place.moved, address, address, htext]
    cases symbols.lookup? t.text <;> rfl

theorem literalWord_moved (radix : Radix) (t : Token) :
    literalWord radix (t.moved m) = (literalWord radix t).mapError (SemanticError.moved m) := by
  have htext : (t.moved m).text = t.text := rfl
  rw [literalWord_eq, literalWord_eq, htext]
  split <;> rfl

/-- A line has its effect wherever it is. -/
theorem Line.emission_moved (location : Nat) (l : Line) :
    (l.moved m).emission symbols location =
      ((l.emission symbols location).map (Emission.moved m)).mapError (SemanticError.moved m) := by
  obtain ⟨label, head, statement⟩ := l
  cases statement with
  | memory op place marker =>
    unfold emission
    dsimp only [Line.moved, Statement.moved]
    rw [Place.address_moved, Option.isSome_map]
    cases place.address symbols <;> rfl
  | origin value =>
    unfold emission
    dsimp only [Line.moved, Statement.moved]
    rw [originValue_moved]
    cases originValue value <;> rfl
  | datum radix value =>
    unfold emission
    dsimp only [Line.moved, Statement.moved]
    rw [literalWord_moved]
    cases literalWord radix value <;> rfl
  | register op | io op | finish => rfl

/-- Lines have their effects wherever they are. -/
theorem emit_moved (location : Nat) (lines : List Line) :
    emit symbols location (lines.map (Line.moved m)) =
      ((emit symbols location lines).1.map (Emission.moved m),
        (emit symbols location lines).2.mapError (SemanticError.moved m)) := by
  induction lines generalizing location with
  | nil => rfl
  | cons l rest ih =>
    have hhead : (l.moved m).head = l.head.moved m := rfl
    rw [List.map_cons, emit, emit, Line.emission_moved, hhead]
    cases l.emission symbols location with
    | error e => rfl
    | ok effect =>
      cases effect with
      | origin start =>
        dsimp only [Except.map, Except.mapError, Emission.moved]
        rw [ih]
        rfl
      | finish => rfl
      | datum _ _ | instruction _ =>
        dsimp only [Except.map, Except.mapError, Emission.moved]
        rw [nextLocation_moved]
        cases nextLocation location l.head with
        | error e => rfl
        | ok next =>
          dsimp only [Except.mapError]
          rw [ih]
          rfl

theorem Program.ofEmissions_moved (emissions : List Emission) :
    Program.ofEmissions (emissions.map (Emission.moved m)) =
      (Program.ofEmissions emissions).moved m := by
  rw [Program.ofEmissions, Program.ofEmissions, Program.moved, List.filterMap_map,
    List.filterMap_map, List.map_filterMap]
  congr 1
  · refine congrArg (fun f ↦ emissions.filterMap f) (funext fun effect ↦ ?_)
    cases effect <;> rfl
  · refine congrArg (fun f ↦ emissions.filterMap f) (funext fun effect ↦ ?_)
    cases effect <;> rfl

end Emit

/-- Both passes give the same for moved lines, moved. -/
theorem assembleLines_moved (m : Moving) (tokens : List Token) (lines : List Line)
    (reported reported' : List Entry) :
    (assembleLines (tokens.map (Token.moved m)) (lines.map (Line.moved m)) reported').outcome =
      ((assembleLines tokens lines reported).outcome.map (Program.moved m)).mapError
        (AssemblyError.moved m) ∧
    (assembleLines (tokens.map (Token.moved m)) (lines.map (Line.moved m)) reported').symbols =
      (assembleLines tokens lines reported).symbols := by
  rw [assembleLines, assembleLines, layout_moved]
  obtain ⟨labels, placed⟩ := layout 0 .empty lines
  dsimp only
  cases placed with
  | error e => exact ⟨rfl, rfl⟩
  | ok _ =>
    dsimp only [Except.mapError]
    rw [undefinedName?_moved]
    cases undefinedName? labels.symbols tokens with
    | some e => exact ⟨rfl, rfl⟩
    | none =>
      dsimp only [Option.map_none]
      rw [emit_moved]
      obtain ⟨emissions, emitted⟩ := emit labels.symbols 0 lines
      cases emitted with
      | error e => exact ⟨rfl, rfl⟩
      | ok _ =>
        dsimp only [Except.mapError]
        rw [Program.ofEmissions_moved]
        exact ⟨rfl, rfl⟩

end BasicComputer
