import BasicComputer.Assembly.Keyword
import BasicComputer.Text.Blank
import BasicComputer.Text.Numeral
import BasicComputer.Text.Runs
import BasicComputer.Text.Upper

/-!
# Tokens

A source text is turned into upper case, cut into lines, and each line cut at its comment. What is
left of a line may hold white space, letters, digits, underscores, hyphens and commas. The longest
runs of the latter without the comma are the lexemes of the text; a hyphen can only be the sign of a
decimal number.

Cutting a text into lexemes can fail; giving each lexeme its kind cannot. The kind depends on the
lexeme before, even across lines: a number is one only where the reserved word before asks for
one, and `I` marks indirection only right after an address on the same line. The very first lexeme
has none before it and goes by its shape alone.

## Errors before kinds

Lines are searched for offences one after the other, before the first kind is given. A text with an
offence on any line has no tokens, and the first offence is reported whatever the lines before it
mean. On one line, foreign characters go before misplaced hyphens, even if they stand further right.
-/

namespace BasicComputer

/-- A place in a source text, both counted from one; a text with nothing in it has only the place
`(0, 0)`. -/
structure Position where
  line : Nat
  column : Nat
  deriving DecidableEq, Repr

/-- What no token can be made of: a chunk with a character that source text does not use, or a run
with a misplaced hyphen. -/
structure LexError extends Position where
  lexeme : String
  deriving DecidableEq, Repr

def LexError.message (e : LexError) : String :=
  s!"lexer error at line {e.line}, col {e.column}: invalid token '{e.lexeme}' "
    ++ "(allowed characters: A-Z, 0-9, '_', ',', '-')"

/-! ## Lexemes -/

/-- A run of characters that makes up one token. -/
structure Lexeme extends Position where
  text : String
  /-- The line it stands on, without comment and surrounding blanks. -/
  source : String
  deriving DecidableEq, Repr

/-- The characters lexemes are made of. -/
def isWordChar (c : Char) : Bool :=
  ('A' ≤ c && c ≤ 'Z') || Numeral.isDecimalDigit c || c == '_' || c == '-'

/-- The characters that may stand on a line next to blanks. -/
def isSourceChar (c : Char) : Bool := isWordChar c || c == ','

/-- A line up to its first pair of slashes. -/
def beforeComment : List Char → List Char
  | [] => []
  | '/' :: '/' :: _ => []
  | c :: cs => c :: beforeComment cs

/-- A line of a source text, in upper case and without its comment. -/
structure CodeLine where
  number : Nat
  code : List Char
  deriving DecidableEq, Repr

namespace CodeLine

/-- The line without the blanks around it. -/
def text (l : CodeLine) : String := String.ofList (Text.trim l.code)

/-- A hyphen belongs only in front of a decimal number. -/
def isMisplaced (r : Text.Run) : Bool := r.chars.contains '-' && !Numeral.isSignedDecimal r.chars

/-- The first offence on the line: a chunk between blanks with a foreign character, or, if there is
none, a run with a misplaced hyphen. -/
def offence? (l : CodeLine) : Option Text.Run :=
  ((Text.runs (!Text.isBlank ·) l.code).find? (!·.chars.all isSourceChar)).or
    ((Text.runs isWordChar l.code).find? isMisplaced)

/-- The error an offence is reported as. -/
def error? (l : CodeLine) : Option LexError :=
  l.offence?.map fun r ↦ ⟨⟨l.number, r.column⟩, String.ofList r.chars⟩

def lexemes (l : CodeLine) : List Lexeme :=
  let source := l.text
  (Text.runs isWordChar l.code).map fun r ↦
    ⟨⟨l.number, r.column⟩, String.ofList r.chars, source⟩

end CodeLine

/-- The lines of a source text. -/
def codeLines (source : String) : List CodeLine :=
  (Text.lines (Text.uppercase source)).zipIdx 1 |>.map fun l ↦ ⟨l.2, beforeComment l.1⟩

/-- The lexemes of a source text, unless a line offends. -/
def lexemes (source : String) : Except LexError (List Lexeme) :=
  match (codeLines source).findSome? CodeLine.error? with
  | some e => .error e
  | none => .ok ((codeLines source).flatMap CodeLine.lexemes)

/-! ## Kinds -/

/-- The kinds of tokens. -/
inductive TokenKind
  | identifier
  | keyword
  | number (radix : Radix)
  | indirection
  deriving DecidableEq, Repr

namespace TokenKind

def all : List TokenKind :=
  [identifier, keyword, number .decimal, number .hexadecimal, indirection]

def tag : TokenKind → String
  | identifier => "IDENTIFIER"
  | keyword => "KEYWORD"
  | number .decimal => "NUMBER_DEC"
  | number .hexadecimal => "NUMBER_HEX"
  | indirection => "INDIRECTION"

def ofTag? (s : String) : Option TokenKind := all.find? (·.tag == s)

/-- The kinds an address can have. -/
def isOperand : TokenKind → Bool
  | identifier | number _ => true
  | keyword | indirection => false

end TokenKind

/-- A lexeme and its kind. -/
structure Token extends Lexeme where
  kind : TokenKind
  deriving DecidableEq, Repr

namespace Token

/-- The reserved word a token stands for. -/
def keyword? (t : Token) : Option Keyword :=
  if t.kind = .keyword then Keyword.ofName? t.text else none

def isEnd (t : Token) : Bool := t.keyword? == some (.directive .finish)

def describe (t : Token) : String := s!"[{t.kind.tag}] {t.text} (line {t.line}, col {t.column})"

/-- The kind a lexeme has right after a reserved word, if it is none itself. -/
def kindAfter (k : Keyword) (cs : List Char) : TokenKind :=
  match k with
  | .directive (.datum .decimal) =>
    if Numeral.isSignedDecimal cs then .number .decimal else .identifier
  | .directive (.datum .hexadecimal) | .directive .origin =>
    if Numeral.isHex cs then .number .hexadecimal else .identifier
  | .directive .finish => .identifier
  | .mnemonic (.memory _) => if Numeral.isDecimal cs then .number .decimal else .identifier
  | .mnemonic _ => .identifier

/-- The kind of the first lexeme of a text, if it is no reserved word. -/
def kindByShape (cs : List Char) : TokenKind :=
  if Numeral.isDecimal cs then .number .decimal
  else if Numeral.isHex cs then .number .hexadecimal
  else .identifier

/-- The kind of a lexeme that follows the token `previous`. -/
def kindOf (previous : Option Token) (x : Lexeme) : TokenKind :=
  if (Keyword.ofName? x.text).isSome then .keyword
  else
    match previous with
    | none => if x.text = "I" then .identifier else kindByShape x.text.toList
    | some p =>
      if x.text = "I" then
        if p.line = x.line ∧ p.kind.isOperand then .indirection else .identifier
      else
        match p.keyword? with
        | some k => kindAfter k x.text.toList
        | none => .identifier

/-- Give lexemes their kinds, the first of them following the token `previous`. -/
def classify (previous : Option Token) : List Lexeme → List Token
  | [] => []
  | x :: xs =>
    let t : Token := ⟨x, kindOf previous x⟩
    t :: classify (some t) xs

end Token

def tokenize (source : String) : Except LexError (List Token) :=
  (lexemes source).map (Token.classify none)

namespace Token

/-- Giving kinds adds no token and drops none. -/
theorem map_toLexeme_classify (previous : Option Token) (xs : List Lexeme) :
    (classify previous xs).map toLexeme = xs := by
  induction xs generalizing previous with
  | nil => rfl
  | cons x xs ih => simp [classify, ih]

end Token

end BasicComputer
