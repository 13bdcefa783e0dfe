import BasicComputer.Proofs.Scanning
import BasicComputer.Assembly.Emission
import Mathlib.Data.List.Basic
import Mathlib.Data.List.Induction
import Mathlib.Data.Nat.Digits.Defs

/-!
# Numbers that are written out

A number that is written out in digits is read back as itself, in any base up to sixteen, with zeros
in front and with a sign. For addresses this needs no more than one remark: they are read modulo the
size of memory, reduced after every digit, and that comes to the same as reducing once at the end.

What is written is also told apart from the reserved words. These have three letters each, and no
digits.

## The last digit

Reading goes from the left and multiplies by the base at every digit, and what the last digit does
is the simplest part of it. The library writes a number as its quotient by the base, followed by the
remainder. So the induction takes the last digit off, and it is on the number and not on a list.

## Why reserved words have to be looked at

A numeral is only a number if the lexer does not find something else in it first. For hexadecimal
digits this is a real restriction. For decimal ones it never is, and that is a fact about the
reserved words and is shown by their spellings.
-/

namespace BasicComputer

namespace Numeral

/-! ## Digits -/

theorem isHexDigit_of_isDecimalDigit {c : Char} (h : isDecimalDigit c) : isHexDigit c := by
  rw [isHexDigit, h, Bool.true_or]

theorem isHex_of_isDecimal {cs : List Char} (h : isDecimal cs) : isHex cs := by
  rw [isDecimal, Bool.and_eq_true, List.all_eq_true] at h
  rw [isHex, Bool.and_eq_true, List.all_eq_true]
  exact ⟨h.1, fun c hc ↦ isHexDigit_of_isDecimalDigit (h.2 c hc)⟩

theorem isWordChar_of_isHexDigit {c : Char} (h : isHexDigit c) : isWordChar c := by
  rw [isHexDigit, Bool.or_eq_true, Bool.and_eq_true, decide_eq_true_eq, decide_eq_true_eq] at h
  rw [isWordChar]
  rcases h with hdecimal | ⟨hA, hF⟩
  · rw [hdecimal, Bool.or_true, Bool.true_or, Bool.true_or]
  · have hZ : c ≤ 'Z' := Char.le_trans hF (by decide)
    simp [hA, hZ]

/-- What holds of the digits of a base holds of all digits of a number. -/
theorem forall_mem_toDigits {base : Nat} (hbase : 1 < base) {P : Char → Prop}
    (h : ∀ d < base, P (Nat.digitChar d)) (n : Nat) : ∀ c ∈ Nat.toDigits base n, P c := by
  induction n using Nat.strong_induction_on with
  | _ n ih =>
    rw [Nat.toDigits_eq_if hbase]
    by_cases hn : n < base
    · rw [if_pos hn, List.forall_mem_singleton]
      exact h n hn
    · rw [if_neg hn, List.forall_mem_append, List.forall_mem_singleton]
      have hpos : 0 < n := by omega
      exact ⟨ih (n / base) (Nat.div_lt_self hpos hbase), h _ (Nat.mod_lt n (by omega))⟩

theorem value_append_singleton (base : Nat) (cs : List Char) (c : Char) :
    value base (cs ++ [c]) = base * value base cs + digitValue c := by
  rw [value, List.foldl_append]
  rfl

/-- What is read from left to right is a sum of powers of the base. -/
theorem value_eq_ofDigits (base : Nat) (cs : List Char) :
    value base cs = Nat.ofDigits base (cs.map digitValue).reverse := by
  rw [Nat.ofDigits_eq_foldr, List.foldr_reverse, value, List.foldl_map]
  refine List.foldl_ext _ _ 0 fun n c _ ↦ ?_
  rw [Nat.cast_id, Nat.add_comm]

theorem value_map_toDigits {base : Nat} (hbase : 1 < base) {write : Char → Char}
    (h : ∀ d < base, digitValue (write (Nat.digitChar d)) = d) (n : Nat) :
    value base ((Nat.toDigits base n).map write) = n := by
  induction n using Nat.strong_induction_on with
  | _ n ih =>
    -- the last digit is the remainder, and the ones before it write out the quotient
    rw [Nat.toDigits_eq_if hbase]
    by_cases hn : n < base
    · have hsingle := value_append_singleton base [] (write (Nat.digitChar n))
      rw [if_pos hn, List.map_singleton, ← List.nil_append [write (Nat.digitChar n)], hsingle,
        h n hn, value, List.foldl_nil, Nat.mul_zero, Nat.zero_add]
    · have hpos : 0 < n := by omega
      rw [if_neg hn, List.map_append, List.map_singleton, value_append_singleton,
        ih (n / base) (Nat.div_lt_self hpos hbase), h _ (Nat.mod_lt n (by omega)),
        Nat.div_add_mod]

theorem value_leftpad (base width : Nat) (cs : List Char) :
    value base (cs.leftpad width '0') = value base cs := by
  have hzero (cs : List Char) : value base ('0' :: cs) = value base cs := by
    rw [value, List.foldl_cons, Nat.mul_zero, Nat.zero_add]
    rfl
  rw [List.leftpad]
  induction width - cs.length with
  | zero => rfl
  | succ k ih => rw [List.replicate_succ, List.cons_append, hzero, ih]

/-! ## Decimal numerals -/

theorem isDecimalDigit_of_mem_toDigits {n : Nat} : ∀ c ∈ Nat.toDigits 10 n, isDecimalDigit c :=
  forall_mem_toDigits (by decide) (by decide) n

theorem isDecimal_toDigits (n : Nat) : isDecimal (Nat.toDigits 10 n) := by
  rw [isDecimal, Bool.and_eq_true, List.all_eq_true]
  exact ⟨by simp, isDecimalDigit_of_mem_toDigits⟩

theorem value_toDigits (n : Nat) : value 10 (Nat.toDigits 10 n) = n := by
  have h : value 10 ((Nat.toDigits 10 n).map id) = n :=
    value_map_toDigits (by decide) (by decide) n
  rwa [List.map_id] at h

theorem valueMod_eq (m : Nat) (cs : List Char) : valueMod m cs = value 10 cs % m := by
  induction cs using List.reverseRecOn with
  | nil => exact (Nat.zero_mod m).symm
  | append_singleton cs c ih =>
    have hlast : valueMod m (cs ++ [c]) = (10 * valueMod m cs + digitValue c) % m := by
      rw [valueMod, List.foldl_append]
      rfl
    -- a number that is reduced already may be reduced before it is multiplied and added to
    rw [hlast, ih, value_append_singleton, Nat.add_mod, Nat.mul_mod, Nat.mod_mod, ← Nat.mul_mod,
      ← Nat.add_mod]

/-- An address that is written out in digits is read back. -/
theorem decimalAddress_toDigits {n : Nat} (h : n < memorySize) :
    decimalAddress (Nat.toDigits 10 n) = n := by
  rw [decimalAddress, List.filter_eq_self.mpr isDecimalDigit_of_mem_toDigits, valueMod_eq,
    value_toDigits, Nat.mod_eq_of_lt h]

/-! ## Hexadecimal numerals -/

theorem isHex_digits (width n : Nat) : isHex (digits 16 width n) := by
  have hdigits : ∀ c ∈ Nat.toDigits 16 n, isHexDigit c.toUpper :=
    forall_mem_toDigits (by decide) (P := fun c ↦ isHexDigit c.toUpper) (by decide) n
  rw [isHex, Bool.and_eq_true, List.all_eq_true, digits, List.leftpad]
  refine ⟨by simp, fun c hc ↦ ?_⟩
  rcases List.mem_append.mp hc with hc | hc
  · rw [List.eq_of_mem_replicate hc]
    rfl
  · obtain ⟨d, hd, rfl⟩ := List.mem_map.mp hc
    exact hdigits d hd

theorem value_digits (width n : Nat) : value 16 (digits 16 width n) = n := by
  rw [digits, value_leftpad]
  exact value_map_toDigits (by decide) (by decide) n

theorem length_digits_word (w : Word) : (digits 16 4 w.toNat).length = 4 := by
  have hle : (Nat.toDigits 16 w.toNat).length ≤ 4 :=
    (Nat.length_toDigits_le_iff (by decide) (by decide)).mpr w.isLt
  rw [digits, List.length_leftpad, List.length_map, max_eq_left hle]

/-! ## Signed numerals -/

/-- The digits of a number behind its sign, which only negative numbers have. -/
def signedDigits : Int → List Char
  | .ofNat n => Nat.toDigits 10 n
  | .negSucc n => '-' :: Nat.toDigits 10 (n + 1)

theorem toString_eq_ofList_signedDigits (z : Int) :
    toString z = String.ofList (signedDigits z) := by
  rcases z with n | n
  · exact Nat.toString_eq_ofList_toDigits
  · have hsign : toString (Int.negSucc n) = "-" ++ toString (n + 1) := rfl
    rw [hsign, Nat.toString_eq_ofList_toDigits, signedDigits]
    exact String.ofList_append.symm

theorem signedValue_of_isDecimal {cs : List Char} (h : ∀ c ∈ cs, isDecimalDigit c) :
    signedValue cs = value 10 cs := by
  unfold signedValue
  split
  next => exact absurd (h '-' List.mem_cons_self) (by decide)
  next => rfl

theorem isSignedDecimal_of_isDecimal {cs : List Char} (h : isDecimal cs) : isSignedDecimal cs := by
  unfold isSignedDecimal
  split
  next => cases h
  next => exact h

theorem isSignedDecimal_signedDigits (z : Int) : isSignedDecimal (signedDigits z) := by
  rcases z with n | n
  · exact isSignedDecimal_of_isDecimal (isDecimal_toDigits n)
  · exact isDecimal_toDigits (n + 1)

/-- A number that is written out with its sign is read back. -/
theorem signedValue_signedDigits (z : Int) : signedValue (signedDigits z) = z := by
  rcases z with n | n
  · rw [signedDigits, signedValue_of_isDecimal isDecimalDigit_of_mem_toDigits, value_toDigits]
    rfl
  · rw [signedDigits, signedValue, value_toDigits]
    rfl

end Numeral

/-! ## Reserved words -/

namespace Keyword

/-- No two reserved words are spelled alike. -/
theorem ofName?_name (k : Keyword) : ofName? k.name = some k := by
  rcases k with (op | op | op) | (_ | _ | radix)
  · cases op <;> rfl
  · cases op <;> rfl
  · cases op <;> rfl
  · rfl
  · rfl
  · cases radix <;> rfl

theorem name_mem_names (k : Keyword) : k.name ∈ names := by
  rw [← isSome_ofName?, ofName?_name]
  rfl

theorem length_of_isSome_ofName? {s : String} (h : (ofName? s).isSome) : s.toList.length = 3 := by
  have hall : ∀ name ∈ names, name.toList.length = 3 := by decide
  exact hall s ((isSome_ofName? s).mp h)

theorem length_name (k : Keyword) : k.name.toList.length = 3 :=
  length_of_isSome_ofName? ((isSome_ofName? k.name).mpr k.name_mem_names)

theorem not_isSignedDecimal_of_isSome_ofName? {s : String} (h : (ofName? s).isSome) :
    ¬Numeral.isSignedDecimal s.toList := by
  have hall : ∀ name ∈ names, ¬Numeral.isSignedDecimal name.toList := by decide
  exact hall s ((isSome_ofName? s).mp h)

end Keyword

end BasicComputer
