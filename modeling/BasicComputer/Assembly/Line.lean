import BasicComputer.Assembly.Token

/-!
# Statement lines

The tokens of one line make up a statement, which a label may lead. Every kind of statement takes
operands of its own kinds, and a `Statement` has room for exactly those: an assembler that walks
over lines never meets a missing operand.

The grammar looks at the tokens of one line only. `Line.tokens` writes a line out again, so what a
successful reading keeps is everything.

Nearly every fault quotes the statement it is about and the number of its line, and points at the
token that is wrong or, where a token is missing, at the reserved word. So the readers of operands
are handed that token along with the operands.
-/

namespace BasicComputer

/-! ## What can be wrong -/

/-- The ways in which a line is no statement. -/
inductive SyntaxFault
  /-- A name that leads a line or stands as an address is no name. -/
  | badName (text : String)
  /-- Nothing follows the label. -/
  | loneLabel (label : String)
  /-- No reserved word where the statement should be named. -/
  | noKeyword (found : TokenKind)
  /-- A memory operation without an address. -/
  | noAddress (op : MemoryOp)
  /-- A memory operation with something else in place of its address. -/
  | badAddress (op : MemoryOp) (found : TokenKind)
  /-- Something else than the indirection mark behind an address. -/
  | badMarker (text : String)
  /-- More than one token behind an address. -/
  | tooManyOperands
  /-- Operands of an operation that has none. -/
  | operandsOfOperation (m : Mnemonic)
  /-- Operands of the directive that ends the text. -/
  | operandsOfEnd
  /-- An operand of the wrong kind behind a directive. -/
  | wrongOperand (directive : Directive) (radix : Radix) (found : TokenKind)
  /-- No operand or several of them behind a directive that takes one. -/
  | operandCount (directive : Directive) (count : Nat)
  deriving DecidableEq, Repr

/-- The wording of a fault on line `n`. -/
def SyntaxFault.describe (n : Nat) : SyntaxFault → String
  | badName text => s!"invalid IDENTIFIER, found {text}"
  | loneLabel label =>
    s!"line {n} has a label '{label}' but no instruction; "
      ++ "each label must be followed by an instruction or directive"
  | noKeyword found => s!"line {n} expected KEYWORD, found {found.tag}"
  | noAddress op =>
    s!"line {n}: MRI instruction '{op.mnemonic}' requires an address operand, but none was provided"
  | badAddress op found =>
    s!"line {n}: MRI instruction '{op.mnemonic}' requires an address operand, found {found.tag}"
  | badMarker text =>
    s!"line {n}: unexpected token '{text}' after address operand; "
      ++ "only 'I' is allowed for indirect addressing"
  | tooManyOperands => s!"line {n}: too many operands"
  | operandsOfOperation m =>
    s!"line {n}: instruction '{m.name}' does not take any operands, but found extra tokens"
  | operandsOfEnd =>
    s!"line {n}: END directive does not take any operands, but found extra tokens"
  | wrongOperand directive radix found =>
    s!"line {n}: {directive.name} directive requires a {radix.adjective} operand, "
      ++ s!"found {found.tag}"
  | operandCount directive count =>
    s!"line {n}: {directive.name} directive requires exactly one operand, found {count}"

/-- A fault and where it is. -/
structure SyntaxError extends Position where
  fault : SyntaxFault
  deriving DecidableEq, Repr

namespace SyntaxError

def detail (e : SyntaxError) : String := e.fault.describe e.line

def message (e : SyntaxError) : String :=
  s!"parse error at line {e.line}, col {e.column}: {e.detail}"

end SyntaxError

/-- The error of a fault at a token. -/
def Token.fails {α : Type} (t : Token) (fault : SyntaxFault) : Except SyntaxError α :=
  .error ⟨t.toPosition, fault⟩

/-! ## Statements -/

/-- The address operand of a memory operation. -/
inductive Place
  /-- A decimal number. -/
  | number (token : Token)
  /-- The label of some line. -/
  | symbol (token : Token)
  deriving DecidableEq, Repr

def Place.token : Place → Token
  | number t => t
  | symbol t => t

/-- A reserved word with the operands it takes. -/
inductive Statement
  | memory (op : MemoryOp) (place : Place) (marker : Option Token)
  | register (op : RegisterOp)
  | io (op : IoOp)
  | origin (value : Token)
  | datum (radix : Radix) (value : Token)
  | finish
  deriving DecidableEq, Repr

namespace Statement

/-- The reserved word that names the statement. -/
def keyword : Statement → Keyword
  | memory op _ _ => .mnemonic (.memory op)
  | register op => .mnemonic (.register op)
  | io op => .mnemonic (.io op)
  | origin _ => .directive .origin
  | datum radix _ => .directive (.datum radix)
  | finish => .directive .finish

/-- The tokens behind the reserved word. -/
def operands : Statement → List Token
  | memory _ place marker => place.token :: marker.toList
  | origin value | datum _ value => [value]
  | register _ | io _ | finish => []

end Statement

/-- A statement on its line. -/
structure Line where
  /-- The label the line defines. -/
  label : Option Token
  /-- The token that names the statement. -/
  head : Token
  statement : Statement
  deriving DecidableEq, Repr

namespace Line

def number (l : Line) : Nat := l.head.line

def source (l : Line) : String := l.head.source

def tokens (l : Line) : List Token := l.label.toList ++ l.head :: l.statement.operands

end Line

/-! ## Reading -/

/-- The characters a name can start with. -/
def isNameStart (c : Char) : Bool := ('A' ≤ c && c ≤ 'Z') || c == '_'

/-- A name: letters, digits and underscores, but no digit in front. -/
def isName : List Char → Bool
  | [] => false
  | c :: cs => isNameStart c && cs.all fun c ↦ isNameStart c || Numeral.isDecimalDigit c

namespace Statement

/-- The address operand of `op`. -/
def readPlace (op : MemoryOp) (t : Token) : Except SyntaxError Place :=
  match t.kind with
  | .identifier => if isName t.text.toList then .ok (.symbol t) else t.fails (.badName t.text)
  | .number .decimal => .ok (.number t)
  | kind => t.fails (.badAddress op kind)

/-- What may follow the address: nothing, or the mark of indirection. -/
def readMarker (head : Token) : List Token → Except SyntaxError (Option Token)
  | [] => .ok none
  | [t] => if t.kind = .indirection then .ok (some t) else t.fails (.badMarker t.text)
  | _ => head.fails .tooManyOperands

/-- The one number a directive takes. -/
def readNumber (head : Token) (directive : Directive) (radix : Radix) :
    List Token → Except SyntaxError Token
  | [t] => if t.kind = .number radix then .ok t else t.fails (.wrongOperand directive radix t.kind)
  | ts => head.fails (.operandCount directive ts.length)

/-- No operands at all. -/
def readNothing (head : Token) (fault : SyntaxFault) : List Token → Except SyntaxError Unit
  | [] => .ok ()
  | _ :: _ => head.fails fault

/-- The statement that a reserved word, spelled by the token `head`, makes with its operands. -/
def read (head : Token) (operands : List Token) : Keyword → Except SyntaxError Statement
  | .mnemonic (.memory op) =>
    match operands with
    | [] => head.fails (.noAddress op)
    | address :: rest => do
      let place ← readPlace op address
      let marker ← readMarker head rest
      return .memory op place marker
  | .mnemonic (.register op) => do
    readNothing head (.operandsOfOperation (.register op)) operands
    return .register op
  | .mnemonic (.io op) => do
    readNothing head (.operandsOfOperation (.io op)) operands
    return .io op
  | .directive .origin => return .origin (← readNumber head .origin .hexadecimal operands)
  | .directive (.datum radix) =>
    return .datum radix (← readNumber head (.datum radix) radix operands)
  | .directive .finish => do
    readNothing head .operandsOfEnd operands
    return .finish

end Statement

namespace Line

/-- A line without its label. -/
def readUnlabelled (label : Option Token) (head : Token) (operands : List Token) :
    Except SyntaxError Line :=
  match head.keyword? with
  | none => head.fails (.noKeyword head.kind)
  | some k => return ⟨label, head, ← Statement.read head operands k⟩

/-- The line made up of a first token and the others. -/
def read (first : Token) (others : List Token) : Except SyntaxError Line :=
  if first.kind = .identifier then
    if isName first.text.toList then
      match others with
      | [] => first.fails (.loneLabel first.text)
      | head :: operands => readUnlabelled (some first) head operands
    else first.fails (.badName first.text)
  else readUnlabelled none first others

end Line

/-- Neighbouring tokens with the same line number, each group as its first token and the others. -/
def groupByLine (tokens : List Token) : List (Token × List Token) :=
  tokens.foldr (fun t groups ↦
    match groups with
    | [] => [(t, [])]
    | (u, us) :: rest =>
      if t.line = u.line then (t, u :: us) :: rest else (t, []) :: (u, us) :: rest) []

def parse (tokens : List Token) : Except SyntaxError (List Line) :=
  (groupByLine tokens).mapM fun g ↦ Line.read g.1 g.2

end BasicComputer
