import BasicComputer.Proofs.DataLines

/-!
# Decimal literals

Behind `DEC` stands a decimal numeral, and a hyphen in front of it makes it negative. It comes to
its value in two's complement, or is reported as it is written if the value has no room in a word.
Nothing else about it matters: it may be of any length, have zeros in front, and be a negative zero.

Unlike hexadecimal numerals, none of these is a reserved word.

## Numerals of any length

The value of a numeral is a number of any size, but a word is read in sixteen bits. That the two
agree is not a matter of course: a reading that stops at a number too large must not stop too early.
It does not, since no further digit brings a number back that has no room in a word. The asymmetric
limits need digits to be taken off, and not added, behind a hyphen.
-/

namespace BasicComputer

namespace Numeral

/-! ## What a numeral stands for -/

/-- The number that decimal digits stand for. -/
def magnitude (ds : List Char) : Nat :=
  Nat.ofDigits 10 (ds.map fun c ↦ c.toNat - '0'.toNat).reverse

/-- The number that a decimal numeral stands for, which a hyphen in front makes negative. -/
def decimalValue : List Char → Int
  | '-' :: ds => -(magnitude ds : Int)
  | ds => magnitude ds

theorem value_eq_magnitude {ds : List Char} (h : isDecimal ds) : value 10 ds = magnitude ds := by
  rw [isDecimal, Bool.and_eq_true, List.all_eq_true] at h
  rw [value_eq_ofDigits, magnitude]
  refine congrArg (Nat.ofDigits 10 ·.reverse) (List.map_congr_left fun c hc ↦ ?_)
  rw [digitValue, if_pos (h.2 c hc)]
  rfl

theorem signedValue_eq_decimalValue {cs : List Char} (h : isSignedDecimal cs) :
    signedValue cs = decimalValue cs := by
  unfold isSignedDecimal at h
  split at h
  next ds => rw [signedValue, decimalValue, value_eq_magnitude h]
  next hsign =>
    rw [signedValue, decimalValue, value_eq_magnitude h]
    · exact hsign
    · exact hsign

/-! ## Reading within the bounds of a word -/

/-- A number, if it has room in a word. -/
def inWord? (n : Int) : Option Int := if -32768 ≤ n ∧ n ≤ 32767 then some n else none

/-- Append a digit to a number, upward or downward, with no result in between that has no room in a
word. -/
def appendDigit? (sign n : Int) (c : Char) : Option Int :=
  (inWord? (10 * n)).bind fun m ↦ inWord? (m + sign * digitValue c)

/-- Read digits one by one. -/
def readDigits? (sign : Int) (ds : List Char) : Option Int := ds.foldlM (appendDigit? sign) 0

/-- Read a decimal numeral digit by digit, up to the first that makes it too large. -/
def readDecimal? : List Char → Option Int
  | '-' :: ds => readDigits? (-1) ds
  | ds => readDigits? 1 ds

theorem readDigits?_append_singleton (sign : Int) (ds : List Char) (c : Char) :
    readDigits? sign (ds ++ [c]) = (readDigits? sign ds).bind (appendDigit? sign · c) := by
  have hlast (n : Int) : List.foldlM (appendDigit? sign) n [c] = appendDigit? sign n c := by
    simp
  rw [readDigits?, List.foldlM_append]
  exact congrArg (Option.bind _) (funext hlast)

/-- A digit brings a number that is too large no closer. -/
theorem bind_appendDigit?_eq {sign : Int} (hsign : sign = 1 ∨ sign = -1) (n : Nat) (c : Char) :
    (inWord? (sign * n)).bind (appendDigit? sign · c) =
      inWord? (sign * (10 * n + digitValue c : Nat)) := by
  have hsum : sign * (10 * n + digitValue c : Nat) = 10 * (sign * n) + sign * digitValue c := by
    push_cast
    ring
  rw [hsum]
  by_cases hproduct : -32768 ≤ 10 * (sign * n) ∧ 10 * (sign * n) ≤ 32767
  · have hn : -32768 ≤ sign * n ∧ sign * n ≤ 32767 := by omega
    rw [inWord?, if_pos hn, Option.bind_some, appendDigit?, inWord?, if_pos hproduct,
      Option.bind_some]
  · have hnone : inWord? (10 * (sign * n) + sign * digitValue c) = none := by
      apply if_neg
      rcases hsign with rfl | rfl <;> omega
    have hstop : appendDigit? sign (sign * n) c = none := by
      rw [appendDigit?, inWord?, if_neg hproduct, Option.bind_none]
    rw [hnone, inWord?]
    split
    · exact hstop
    · rfl

theorem readDigits?_eq {sign : Int} (hsign : sign = 1 ∨ sign = -1) (ds : List Char) :
    readDigits? sign ds = inWord? (sign * value 10 ds) := by
  induction ds using List.reverseRecOn with
  | nil => rcases hsign with rfl | rfl <;> rfl
  | append_singleton ds c ih =>
    rw [readDigits?_append_singleton, ih, bind_appendDigit?_eq hsign, value_append_singleton]

/-- Reading digit by digit gives the value, if that has room in a word. -/
theorem readDecimal?_eq (cs : List Char) : readDecimal? cs = inWord? (signedValue cs) := by
  unfold readDecimal?
  split
  next ds => rw [signedValue, readDigits?_eq (.inr rfl), Int.neg_one_mul]
  next hsign =>
    rw [signedValue, readDigits?_eq (.inl rfl), Int.one_mul]
    exact hsign

end Numeral

theorem decimalWord_eq (t : Token) :
    decimalWord t =
      match Numeral.readDecimal? t.text.toList with
      | some n => .ok (BitVec.ofInt 16 n)
      | none => .error (t.faults (.decimalOutOfRange t.text)) := by
  rw [Numeral.readDecimal?_eq, decimalWord, Numeral.inWord?]
  split <;> rfl

/-! ## A numeral behind `DEC` -/

/-- A text that gives a word as a decimal numeral. -/
def decimalText (d : String) : String := "HLT\nX, DEC " ++ d ++ "\nEND"

/-- What it should come to: the numeral's value modulo the number of words, if that is in range. -/
def decimalOutcome (d : String) : Except AssemblyError Program :=
  let n := Numeral.decimalValue d.toList
  if -32768 ≤ n ∧ n ≤ 32767 then
    .ok ⟨[⟨0, 0x7001, "HLT", 1⟩], [⟨1, BitVec.ofNat 16 (n % 65536).toNat⟩]⟩
  else .error (.semantic ⟨⟨2, 8⟩, .decimalOutOfRange d⟩)

/-- Two's complement is the remainder modulo the number of words. -/
theorem ofInt_eq_ofNat (n : Int) : BitVec.ofInt 16 n = BitVec.ofNat 16 (n % 65536).toNat := by
  apply BitVec.eq_of_toNat_eq
  have hlt : (n % 65536).toNat < 2 ^ 16 := by omega
  rw [BitVec.toNat_ofInt, BitVec.toNat_ofNat, Nat.mod_eq_of_lt hlt]
  rfl

section Decimal

variable {d : String}

theorem isDataText_decimalText (hd : Numeral.isSignedDecimal d.toList) :
    Radix.decimal.IsDataText d.toList (decimalText d) := by
  have hword : ∀ w ∈ [d.toList], IsWord w :=
    List.forall_mem_singleton.mpr (isWord_of_isSignedDecimal hd)
  have hjoined : joinWords [d.toList] = d.toList := rfl
  have hupper := uppercase_joinWords hword
  rw [hjoined, String.ofList_toList] at hupper
  exact Radix.decimal.isDataText_append hupper

theorem tokenize_decimalText (hd : Numeral.isSignedDecimal d.toList) :
    tokenize (decimalText d) =
      .ok (Radix.decimal.dataTokens (Radix.decimal.dataToken d.toList (.number .decimal))) := by
  apply tokenize_dataText (isDataText_decimalText hd) (isWord_of_isSignedDecimal hd)
  exact (kindOf_of_isPlain (keyword?_directiveToken .decimal _) rfl
    (isPlain_of_isSignedDecimal hd)).trans (if_pos hd)

/-- **Which numbers are words.** Behind `DEC`, a numeral with a value from -32768 to 32767 stands
for this value modulo 65536. Any other is reported with its place, and as it is written. Reading the
numeral digit by digit, with no result in between that has no room in a word, comes to the same word
and stops exactly at the numerals that are reported. -/
theorem outcome_decimalText (hd : Numeral.isSignedDecimal d.toList) :
    (assemble (decimalText d)).outcome = decimalOutcome d ∧
    ∀ t : Token, t.text = d → decimalWord t =
      match Numeral.readDecimal? d.toList with
      | some n => .ok (BitVec.ofInt 16 n)
      | none => .error (t.faults (.decimalOutOfRange d)) := by
  constructor
  · have houtcome := outcome_dataTokens (tokenize_decimalText hd) rfl
    simp only [Radix.dataToken, Radix.InRange, Radix.word, Radix.rangeFault, String.ofList_toList,
      Numeral.signedValue_eq_decimalValue hd, ofInt_eq_ofNat] at houtcome
    rw [houtcome, decimalOutcome, if_pos trivial]
    rfl
  · rintro t rfl
    exact decimalWord_eq t

/-- The least number in range, with zeros in front, and the least one beyond the other limit. -/
theorem outcome_decimalText_limits :
    Numeral.isSignedDecimal "-0032768".toList ∧
    (assemble (decimalText "-0032768")).outcome =
      .ok ⟨[⟨0, 0x7001, "HLT", 1⟩], [⟨1, 0x8000⟩]⟩ ∧
    Numeral.isSignedDecimal "32768".toList ∧
    (assemble (decimalText "32768")).outcome =
      .error (.semantic ⟨⟨2, 8⟩, .decimalOutOfRange "32768"⟩) := by
  have hleast : Numeral.isSignedDecimal "-0032768".toList := by decide
  have hbeyond : Numeral.isSignedDecimal "32768".toList := by decide
  exact ⟨hleast, (outcome_decimalText hleast).1.trans rfl, hbeyond,
    (outcome_decimalText hbeyond).1.trans rfl⟩

end Decimal

end BasicComputer
