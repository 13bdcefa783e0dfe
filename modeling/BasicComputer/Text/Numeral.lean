/-!
# Numerals

Numbers are written with upper-case digits, padded with zeros on the left to a fixed width. They are
read back digit by digit; a numeral may be arbitrarily long, since its range is for the reader's
caller to judge.

Reading never fails and has no largest number. Which numbers have room in a word or in an address
is another question, with different answers for different directives, and it is asked where the
directive is known. Only `valueMod` reduces on the way, as an assembler with registers would.
-/

namespace BasicComputer.Numeral

/-! ## Writing -/

/-- The digits of `n`, most significant first, at least `width` of them. -/
def digits (base width n : Nat) : List Char :=
  ((Nat.toDigits base n).map Char.toUpper).leftpad width '0'

/-- `n` in hexadecimal, at least `width` digits. -/
def hex (width n : Nat) : String := String.ofList (digits 16 width n)

/-- `n` in binary, at least `width` digits. -/
def binary (width n : Nat) : String := String.ofList (digits 2 width n)

/-- `n` in decimal, at least `width` digits. -/
def decimal (width n : Nat) : String := String.ofList (digits 10 width n)

/-! ## Reading -/

def isDecimalDigit (c : Char) : Bool := '0' ≤ c && c ≤ '9'

/-- The hexadecimal digits, in their upper-case form only. -/
def isHexDigit (c : Char) : Bool := isDecimalDigit c || ('A' ≤ c && c ≤ 'F')

/-- One or more decimal digits. -/
def isDecimal (cs : List Char) : Bool := !cs.isEmpty && cs.all isDecimalDigit

/-- One or more hexadecimal digits. -/
def isHex (cs : List Char) : Bool := !cs.isEmpty && cs.all isHexDigit

/-- A decimal numeral that one minus sign may lead. -/
def isSignedDecimal : List Char → Bool
  | '-' :: cs => isDecimal cs
  | cs => isDecimal cs

def digitValue (c : Char) : Nat := if isDecimalDigit c then c.toNat - 48 else c.toNat - 55

/-- The number a string of digits stands for. -/
def value (base : Nat) (cs : List Char) : Nat :=
  cs.foldl (fun n c ↦ base * n + digitValue c) 0

/-- The number a signed decimal numeral stands for. -/
def signedValue : List Char → Int
  | '-' :: cs => -(value 10 cs : Int)
  | cs => value 10 cs

/-- The value of a decimal numeral modulo `m`, reduced after every digit so that no intermediate
result outgrows `10 * m`. -/
def valueMod (m : Nat) (cs : List Char) : Nat :=
  cs.foldl (fun n c ↦ (10 * n + digitValue c) % m) 0

end BasicComputer.Numeral
