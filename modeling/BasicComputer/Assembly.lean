import BasicComputer.Assembly.Emission

/-!
# Assembly

From source text to a program: tokens, lines, labels, words. Assembly stops at the first thing that
is wrong, and gives no program then; the labels defined up to that point and the report of what was
done are kept in either case.

The report closes with exactly one verdict, which says what came out.

The symbol table and the report are kept when assembly fails, the program is not. So the result of
assembly is a record, in which the program is one of the fields and may be an error in its place.
-/

namespace BasicComputer

/-- Why a text is no program. -/
inductive AssemblyError
  | lexical (error : LexError)
  | grammatical (error : SyntaxError)
  | semantic (error : SemanticError)
  deriving DecidableEq, Repr

namespace AssemblyError

def message : AssemblyError → String
  | lexical e => e.message
  | grammatical e => e.message
  | semantic e => e.message

def position : AssemblyError → Position
  | lexical e => e.toPosition
  | grammatical e => e.toPosition
  | semantic e => e.toPosition

/-- The part of the assembler that found it. -/
def context : AssemblyError → Context
  | lexical _ => .lexer
  | grammatical _ => .parser
  | semantic _ => .assembler

end AssemblyError

/-- What comes out of assembling a text. -/
structure Assembly where
  outcome : Except AssemblyError Program
  /-- The labels defined. -/
  symbols : SymbolTable
  /-- What was reported, in order. -/
  entries : List Entry

/-- The last token closes the text, and no token before it does. -/
def checkEnd (tokens : List Token) : Except SemanticError Unit :=
  let last := tokens.getLast?
  let position := (last.map fun t ↦ t.toPosition).getD ⟨0, 0⟩
  match tokens.filter Token.isEnd with
  | [] => .error ⟨position, .missingEnd⟩
  | _ :: second :: _ => .error (second.faults .multipleEnd)
  | [_] => if last.any Token.isEnd then .ok () else .error ⟨position, .endNotLast⟩

/-- Both passes over the lines of a text, after what has been reported so far. -/
def assembleLines (tokens : List Token) (lines : List Line) (reported : List Entry) : Assembly :=
  let (labels, placed) := layout 0 .empty lines
  let reported := reported ++ labels.entries
  match placed with
  | .error e => ⟨.error (.semantic e), labels.symbols, reported⟩
  | .ok () =>
    match undefinedName? labels.symbols tokens with
    | some e => ⟨.error (.semantic e), labels.symbols, reported⟩
    | none =>
      let (emissions, emitted) := emit labels.symbols 0 lines
      let reported := reported ++ emissions.map Emission.entry
      match emitted with
      | .error e => ⟨.error (.semantic e), labels.symbols, reported⟩
      | .ok () => ⟨.ok (.ofEmissions emissions), labels.symbols, reported⟩

/-- Assembly up to its verdict. -/
def assembleText (source : String) : Assembly :=
  match tokenize source with
  | .error e => ⟨.error (.lexical e), .empty, []⟩
  | .ok tokens =>
    let lexed := Entry.info .lexer s!"{tokens.length} token(s)"
    match parse tokens with
    | .error e => ⟨.error (.grammatical e), .empty, [lexed]⟩
    | .ok lines =>
      let parsed := Entry.info .parser s!"{lines.length} statement line(s)"
      match checkEnd tokens with
      | .error e => ⟨.error (.semantic e), .empty, [lexed, parsed]⟩
      | .ok () => assembleLines tokens lines [lexed, parsed]

def verdict : Except AssemblyError Program → Entry
  | .error e => .error e.context e.message
  | .ok p => .success .assembler (s!"Program compiled successfully: {p.instructions.length} "
      ++ s!"instruction(s), {p.data.length} data word(s).")

def assemble (source : String) : Assembly :=
  let a := assembleText source
  { a with entries := a.entries ++ [verdict a.outcome] }

end BasicComputer
