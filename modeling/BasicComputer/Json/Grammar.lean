import BasicComputer.Json
import BasicComputer.Text.Numeral

/-!
# The grammar of JSON

Which texts stand for which values. A value may be written in many ways: white space may stand
around every value and every key, a character of a string may be written by an escape, and an
object may list its members in any order.

## Why a relation

Texts are related to values and not read by a function, so that nothing is said on how a reader goes
about it. A reader is right if it takes every text that stands for a value, and a writer is right if
it gives one of them.

## Numbers

A natural number is written by its decimal digits. Every other number stands for itself as it is
written, so the grammar is exact on numbers without any arithmetic.
-/

namespace BasicComputer.Json

/-! ## Characters -/

/-- The white space of JSON. -/
def isSpace (c : Char) : Bool := c == ' ' || c == '\t' || c == '\n' || c == '\r'

/-- What a hexadecimal digit in either case counts for. -/
def hexDigit? (c : Char) : Option Nat :=
  if Numeral.isHexDigit c.toUpper then some (Numeral.digitValue c.toUpper) else none

/-- The number written by four hexadecimal digits. -/
def codeUnit? (a b c d : Char) : Option Nat := do
  return 4096 * (← hexDigit? a) + 256 * (← hexDigit? b) + 16 * (← hexDigit? c) + (← hexDigit? d)

/-- The character that a letter behind a backslash stands for. -/
def unescape? : Char → Option Char
  | '"' => some '"'
  | '\\' => some '\\'
  | '/' => some '/'
  | 'b' => some '\x08'
  | 't' => some '\t'
  | 'n' => some '\n'
  | 'f' => some '\x0c'
  | 'r' => some '\r'
  | _ => none

/-! ## Numbers -/

/-- The digits of a whole number: no zero leads another digit. -/
def isWhole (cs : List Char) : Bool :=
  Numeral.isDecimal cs && (cs.length == 1 || cs.head? != some '0')

/-- An exponent, if anything. -/
def isExponent : List Char → Bool
  | [] => true
  | e :: '+' :: cs | e :: '-' :: cs => (e == 'e' || e == 'E') && Numeral.isDecimal cs
  | e :: cs => (e == 'e' || e == 'E') && Numeral.isDecimal cs

/-- A fraction and an exponent, if anything. -/
def isFraction : List Char → Bool
  | '.' :: cs =>
    Numeral.isDecimal (cs.takeWhile Numeral.isDecimalDigit)
      && isExponent (cs.dropWhile Numeral.isDecimalDigit)
  | cs => isExponent cs

/-- A number without a sign. -/
def isUnsigned (cs : List Char) : Bool :=
  isWhole (cs.takeWhile Numeral.isDecimalDigit) && isFraction (cs.dropWhile Numeral.isDecimalDigit)

/-- A number. -/
def isNumeral : List Char → Bool
  | '-' :: cs => isUnsigned cs
  | cs => isUnsigned cs

/-! ## Values -/

/-- What may stand between the quotes of a string with given characters. A character beyond the
first 65536 may be written by two numbers. -/
inductive SpellsString : List Char → List Char → Prop
  | nil : SpellsString [] []
  | plain {c : Char} {cs s : List Char} (hquote : c ≠ '"') (hslash : c ≠ '\\')
      (hc : 0x20 ≤ c.toNat) (h : SpellsString cs s) : SpellsString (c :: cs) (c :: s)
  | letter {letter c : Char} {cs s : List Char} (hletter : unescape? letter = some c)
      (h : SpellsString cs s) : SpellsString ('\\' :: letter :: cs) (c :: s)
  | code {a b c d : Char} {n : Nat} {cs s : List Char} (hcode : codeUnit? a b c d = some n)
      (hn : n < 0xD800 ∨ 0xDFFF < n) (h : SpellsString cs s) :
      SpellsString ('\\' :: 'u' :: a :: b :: c :: d :: cs) (Char.ofNat n :: s)
  | pair {a b c d a' b' c' d' : Char} {high low : Nat} {cs s : List Char}
      (hhigh : codeUnit? a b c d = some high) (hhighRange : 0xD800 ≤ high ∧ high < 0xDC00)
      (hlow : codeUnit? a' b' c' d' = some low) (hlowRange : 0xDC00 ≤ low ∧ low ≤ 0xDFFF)
      (h : SpellsString cs s) :
      SpellsString ('\\' :: 'u' :: a :: b :: c :: d :: '\\' :: 'u' :: a' :: b' :: c' :: d' :: cs)
        (Char.ofNat (0x10000 + 0x400 * (high - 0xD800) + (low - 0xDC00)) :: s)

/-- A member of an object, with the texts of its key and of its value. -/
structure SpelledMember where
  keyText : List Char
  key : String
  valueText : List Char
  value : Json

/-- The text of a member. -/
def SpelledMember.text (m : SpelledMember) : List Char := m.keyText ++ ':' :: m.valueText

/-- Whether a text stands for a value. -/
inductive Spells : List Char → Json → Prop
  | null : Spells "null".toList null
  | true : Spells "true".toList (bool true)
  | false : Spells "false".toList (bool false)
  | natural (n : Nat) : Spells (Nat.toDigits 10 n) (natural n)
  | numeral {text : String} (h : isNumeral text.toList) (hwhole : isWhole text.toList = false) :
      Spells text.toList (numeral text)
  | string {body : List Char} {s : String} (h : SpellsString body s.toList) :
      Spells ('"' :: body ++ ['"']) (string s)
  | array {blank : List Char} (hblank : blank.all isSpace) (items : List (List Char × Json))
      (h : ∀ item ∈ items, Spells item.1 item.2) :
      Spells ('[' :: [','].intercalate (items.map Prod.fst) ++ blank ++ [']'])
        (array (items.map Prod.snd))
  | object {blank : List Char} (hblank : blank.all isSpace) (members : List SpelledMember)
      (hkeys : ∀ m ∈ members, Spells m.keyText (string m.key))
      (hvalues : ∀ m ∈ members, Spells m.valueText m.value) :
      Spells ('\x7b' :: [','].intercalate (members.map SpelledMember.text) ++ blank ++ ['\x7d'])
        (object (members.map fun m ↦ (m.key, m.value)))
  /-- White space around a value, which may be a key or a part of another value. -/
  | blank {before after cs : List Char} {j : Json} (hbefore : before.all isSpace)
      (hafter : after.all isSpace) (h : Spells cs j) : Spells (before ++ cs ++ after) j

/-! ## Depth -/

/-- Whether arrays and objects lie inside of one another at most so deep. -/
def NestsWithin : Nat → Json → Prop
  | 0, array _ => False
  | 0, object _ => False
  | depth + 1, array items => ∀ j ∈ items, NestsWithin depth j
  | depth + 1, object members => ∀ m ∈ members, NestsWithin depth m.2
  | _, _ => True

end BasicComputer.Json
