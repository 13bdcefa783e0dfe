import BasicComputer.Word

/-!
# Bytes as text

A stream of bytes is shown as the UTF-8 text it encodes. Where it is no such text, each longest
piece that could have begun a character, or else each single byte, is shown as one replacement
character, and decoding goes on right behind it.

How many replacement characters stand for broken bytes is a matter of convention. The one followed
here replaces each longest piece that some character begins with, so a cut-off character leaves one
mark and not one for each of its bytes. Bounds on the second byte decide where such a piece ends.
-/

namespace BasicComputer.Text

/-- The character that stands for bytes that encode none. -/
def replacement : Char := '\uFFFD'

/-- What the first byte of a character announces. -/
structure Lead where
  /-- The bits of the code point it carries itself. -/
  bits : Nat
  /-- How many more bytes belong to the character. -/
  more : Nat
  /-- The least value the second byte may have. -/
  low : Nat
  /-- The greatest value the second byte may have. -/
  high : Nat

/-- The announcement of a byte that can begin a character. The bounds on the second byte leave out
overlong forms, surrogates and numbers beyond the last code point. -/
def lead? (b : Byte) : Option Lead :=
  let n := b.toNat
  if n < 0x80 then some ⟨n, 0, 0x80, 0xBF⟩
  else if n < 0xC2 then none
  else if n < 0xE0 then some ⟨n - 0xC0, 1, 0x80, 0xBF⟩
  else if n < 0xF0 then
    some ⟨n - 0xE0, 2, if n = 0xE0 then 0xA0 else 0x80, if n = 0xED then 0x9F else 0xBF⟩
  else if n < 0xF5 then
    some ⟨n - 0xF0, 3, if n = 0xF0 then 0x90 else 0x80, if n = 0xF4 then 0x8F else 0xBF⟩
  else none

/-- Read `more` further bytes of a character, the next of them between `low` and `high`. Gives the
completed code point, or nothing where a byte does not fit, and the bytes left over. -/
def complete : (more low high code : Nat) → List Byte → Option Nat × List Byte
  | 0, _, _, code, bs => (some code, bs)
  | _ + 1, _, _, _, [] => (none, [])
  | more + 1, low, high, code, b :: bs =>
    if low ≤ b.toNat ∧ b.toNat ≤ high then
      complete more 0x80 0xBF (64 * code + b.toNat % 64) bs
    else (none, b :: bs)

theorem length_complete_le (more low high code : Nat) (bs : List Byte) :
    (complete more low high code bs).2.length ≤ bs.length := by
  fun_induction complete <;> simp_all
  omega

def decodeBytes : List Byte → List Char
  | [] => []
  | b :: bs =>
    match lead? b with
    | none => replacement :: decodeBytes bs
    | some l =>
      let read := complete l.more l.low l.high l.bits bs
      (read.1.map Char.ofNat).getD replacement :: decodeBytes read.2
  termination_by bs => bs.length
  decreasing_by
    · simp
    · exact Nat.lt_succ_of_le (length_complete_le ..)

def encodeText (s : String) : List Byte := s.toUTF8.toList.map (·.toBitVec)

end BasicComputer.Text
