import BasicComputer.Proofs.DecimalLiterals
import BasicComputer.Text.Utf8

/-!
# Decimal addresses

An address in decimal digits may be of any length. It is read modulo the size of memory, so it
always names a word, and zeros in front of it make no difference.

The number that the digits stand for may have no room in a register, but it is never formed: what
has been read is reduced after every digit. Here the same reading is told over the bytes of a text,
with every product and every sum as a result that a register of 32 bits may be too small for. None
of them is, since what is left after a digit is less than the size of memory. Without the reduction,
the tenth digit can be one too many.

## Bytes and characters

The reading in a register is one of bytes, and the text is one of characters. A character that is no
digit may take several bytes. None of them looks like a digit, so the digits among the bytes are the
digits among the characters. Of the encoding, only the highest bit of each byte matters for this.
-/

namespace BasicComputer

/-! ## The digits among the bytes -/

namespace Text

theorem toList_loop (bs : ByteArray) (i : Nat) (before : List UInt8) :
    ByteArray.toList.loop bs i before = before.reverse ++ bs.data.toList.drop i := by
  fun_induction ByteArray.toList.loop bs i before with
  | case1 i before hi ih =>
    have hlt : i < bs.data.toList.length := by simpa using hi
    rw [ih, List.drop_eq_getElem_cons hlt, List.reverse_cons, List.append_assoc]
    simp [ByteArray.get!, hi]
  | case2 i before hi =>
    rw [List.drop_eq_nil_of_le (by simpa using Nat.le_of_not_lt hi), List.append_nil]

/-- The bytes of a text are those of its characters, one after the other. -/
theorem encodeText_eq (s : String) :
    encodeText s = s.toList.flatMap fun c ↦ (String.utf8EncodeChar c).map (·.toBitVec) := by
  have hbytes : s.toUTF8.toList = s.toList.flatMap String.utf8EncodeChar := by
    rw [ByteArray.toList, toList_loop, List.reverse_nil, List.nil_append, List.drop_zero,
      String.toUTF8_eq_toByteArray]
    nth_rewrite 1 [← String.ofList_toList (s := s)]
    exact List.toList_data_toByteArray
  rw [encodeText, hbytes, List.map_flatMap]

end Text

namespace Numeral

/-- The bytes that stand for decimal digits. -/
def isDigitByte (b : Byte) : Bool := 0x30 ≤ b.toNat && b.toNat ≤ 0x39

def digitByte (c : Char) : Byte := BitVec.ofNat 8 c.toNat

theorem isDecimalDigit_iff {c : Char} : isDecimalDigit c ↔ 0x30 ≤ c.toNat ∧ c.toNat ≤ 0x39 := by
  rw [isDecimalDigit, Bool.and_eq_true, decide_eq_true_eq, decide_eq_true_eq]
  rfl

/-- The bytes of a character beyond the first 128 have their highest bit set. -/
theorem le_toNat_of_mem_encodeChar {c : Char} (h : 127 < c.toNat) :
    ∀ u ∈ String.utf8EncodeChar c, 128 ≤ u.toNat := by
  have hofNat (n : Nat) : (UInt8.ofNat n).toNat = n % 256 := rfl
  have hcode : c.val.toNat = c.toNat := rfl
  rw [String.utf8EncodeChar]
  simp only [hcode, if_neg (Nat.not_le.mpr h)]
  split_ifs <;>
    simp only [List.mem_cons, List.not_mem_nil, or_false, forall_eq_or_imp, forall_eq, hofNat] <;>
    omega

/-- A decimal digit is written as one byte, and no byte of any other character looks like one. -/
theorem filter_isDigitByte_encodeChar (c : Char) :
    ((String.utf8EncodeChar c).map (·.toBitVec)).filter isDigitByte =
      if isDecimalDigit c then [digitByte c] else [] := by
  by_cases hascii : c.toNat ≤ 127
  · have hbytes : String.utf8EncodeChar c = [UInt8.ofNat c.toNat] := if_pos hascii
    have hbyte : (digitByte c).toNat = c.toNat := Nat.mod_eq_of_lt (by omega)
    have hdigit : isDigitByte (digitByte c) = isDecimalDigit c := by
      rw [Bool.eq_iff_iff, isDecimalDigit_iff, isDigitByte, hbyte, Bool.and_eq_true,
        decide_eq_true_eq, decide_eq_true_eq]
    have hsingle : [UInt8.ofNat c.toNat].map (·.toBitVec) = [digitByte c] := rfl
    rw [hbytes, hsingle, List.filter_cons, hdigit, List.filter_nil]
  · have hdecimal : ¬isDecimalDigit c := by
      rw [isDecimalDigit_iff]
      omega
    rw [if_neg hdecimal, List.filter_eq_nil_iff, List.forall_mem_map]
    intro u hu
    have hhigh := le_toNat_of_mem_encodeChar (Nat.lt_of_not_le hascii) u hu
    have htoNat : u.toBitVec.toNat = u.toNat := rfl
    rw [isDigitByte, htoNat, Bool.and_eq_true, decide_eq_true_eq, decide_eq_true_eq]
    omega

/-- Looking for digits among the bytes of a text is looking for them among its characters. -/
theorem filter_isDigitByte_encodeText (s : String) :
    (Text.encodeText s).filter isDigitByte = (s.toList.filter isDecimalDigit).map digitByte := by
  rw [Text.encodeText_eq]
  induction s.toList with
  | nil => rfl
  | cons c cs ih =>
    rw [List.flatMap_cons, List.filter_append, ih, filter_isDigitByte_encodeChar, List.filter_cons]
    split <;> rfl

/-! ## Reading in a register -/

/-- A number, if a register of 32 bits has room for it. -/
def inRegister? (n : Nat) : Option Nat := if n < 2 ^ 32 then some n else none

/-- Append a digit to a number and reduce it modulo `m`, with no result in between that a register
has no room for. -/
def appendByte? (m n : Nat) (b : Byte) : Option Nat := do
  let product ← inRegister? (n * 10)
  let sum ← inRegister? (product + (b.toNat - 0x30))
  return sum % m

/-- Read the digits among bytes one by one, modulo `m`. -/
def readBytes? (m : Nat) (bs : List Byte) : Option Nat :=
  (bs.filter isDigitByte).foldlM (appendByte? m) 0

theorem appendByte?_digitByte {m n : Nat} (hm : 10 * m ≤ 2 ^ 32) (hn : n < m) {c : Char}
    (hc : isDecimalDigit c) :
    appendByte? m n (digitByte c) = some ((10 * n + digitValue c) % m) := by
  have hcode := isDecimalDigit_iff.mp hc
  have hbyte : (digitByte c).toNat = c.toNat := Nat.mod_eq_of_lt (by omega)
  have hdigit : digitValue c = c.toNat - 0x30 := if_pos hc
  have hproduct : inRegister? (n * 10) = some (n * 10) := if_pos (by omega)
  have hsum : inRegister? (n * 10 + (c.toNat - 0x30)) = some (n * 10 + (c.toNat - 0x30)) :=
    if_pos (by omega)
  rw [appendByte?, hbyte, hproduct, hdigit, Nat.mul_comm 10]
  simp only [bind, Option.bind_some, hsum]
  rfl

theorem foldlM_appendByte? {m : Nat} (hm : 10 * m ≤ 2 ^ 32) {cs : List Char}
    (hcs : ∀ c ∈ cs, isDecimalDigit c) {n : Nat} (hn : n < m) :
    (cs.map digitByte).foldlM (appendByte? m) n =
      some (cs.foldl (fun n c ↦ (10 * n + digitValue c) % m) n) := by
  induction cs generalizing n with
  | nil => rfl
  | cons c cs ih =>
    obtain ⟨hc, hcs⟩ := List.forall_mem_cons.mp hcs
    rw [List.map_cons, List.foldlM_cons, appendByte?_digitByte hm hn hc, List.foldl_cons,
      ← ih hcs (Nat.mod_lt _ (by omega))]
    rfl

theorem readBytes?_encodeText {m : Nat} (hpos : 0 < m) (hm : 10 * m ≤ 2 ^ 32) (s : String) :
    readBytes? m (Text.encodeText s) = some (valueMod m (s.toList.filter isDecimalDigit)) := by
  rw [readBytes?, filter_isDigitByte_encodeText]
  exact foldlM_appendByte? hm (fun c hc ↦ (List.mem_filter.mp hc).2) hpos

end Numeral

/-! ## Addresses -/

/-- Whatever a text holds, a register has room for all that is formed while it is read as an
address. -/
theorem readBytes?_eq_decimalAddress (s : String) :
    Numeral.readBytes? memorySize (Text.encodeText s) = some (decimalAddress s.toList) :=
  Numeral.readBytes?_encodeText (by decide) (by decide) s

theorem decimalAddress_eq_magnitude {ds : List Char} (h : ∀ c ∈ ds, Numeral.isDecimalDigit c) :
    decimalAddress ds = Numeral.magnitude ds % memorySize := by
  have hvalue : Numeral.value 10 ds = Numeral.magnitude ds := by
    cases ds with
    | nil => rfl
    | cons c ds => exact Numeral.value_eq_magnitude (by simpa [Numeral.isDecimal] using h)
  rw [decimalAddress, List.filter_eq_self.mpr h, Numeral.valueMod_eq, hvalue]

theorem decimalAddress_leadingZeros (k : Nat) (ds : List Char) :
    decimalAddress (List.replicate k '0' ++ ds) = decimalAddress ds := by
  have hzeros (cs : List Char) :
      Numeral.value 10 (List.replicate k '0' ++ cs) = Numeral.value 10 cs := by
    have hpad := Numeral.value_leftpad 10 (k + cs.length) cs
    rwa [List.leftpad, Nat.add_sub_cancel] at hpad
  rw [decimalAddress, List.filter_append, List.filter_replicate_of_pos rfl, Numeral.valueMod_eq,
    hzeros, decimalAddress, Numeral.valueMod_eq]

/-- **Decimal addresses.** Decimal digits, as many as there may be, name the address that their
value is modulo the size of memory. Zeros in front of them do not count. Reading the digits byte by
byte, with a remainder taken after every digit, comes to this address, and no product or sum on the
way reaches 2³². -/
theorem decimalAddress_digits {s : String} (h : ∀ c ∈ s.toList, Numeral.isDecimalDigit c) :
    decimalAddress s.toList = Numeral.magnitude s.toList % memorySize ∧
    (∀ k, decimalAddress (List.replicate k '0' ++ s.toList) = decimalAddress s.toList) ∧
    Numeral.readBytes? memorySize (Text.encodeText s) = some (decimalAddress s.toList) :=
  ⟨decimalAddress_eq_magnitude h, fun k ↦ decimalAddress_leadingZeros k s.toList,
    readBytes?_eq_decimalAddress s⟩

theorem decimalAddress_digits_beyondRegister :
    (∀ c ∈ "004294967297".toList, Numeral.isDecimalDigit c) ∧
    Numeral.magnitude "004294967297".toList = 2 ^ 32 + 1 ∧
    decimalAddress "004294967297".toList = 1 ∧
    decimalAddress (List.replicate 3 '0' ++ "004294967297".toList) = 1 ∧
    Numeral.readBytes? memorySize (Text.encodeText "004294967297") = some 1 := by
  have hdigits : ∀ c ∈ "004294967297".toList, Numeral.isDecimalDigit c :=
    List.all_eq_true.mp (by decide)
  have hmagnitude : Numeral.magnitude "004294967297".toList = 2 ^ 32 + 1 := by decide
  obtain ⟨haddress, hzeros, hread⟩ := decimalAddress_digits hdigits
  rw [hmagnitude] at haddress
  exact ⟨hdigits, hmagnitude, haddress, (hzeros 3).trans haddress,
    hread.trans (congrArg some haddress)⟩

/-- With no remainders taken, the tenth digit is one too many. -/
example : Numeral.readBytes? (2 ^ 40) ("4294967296".toList.map Numeral.digitByte) = none := by
  decide

end BasicComputer
