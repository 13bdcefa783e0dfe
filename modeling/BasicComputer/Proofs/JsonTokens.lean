import BasicComputer.Json.Reader
import BasicComputer.Proofs.WrittenNumbers

/-!
# The tokens of a spelled value

A text that stands for a value is cut into the tokens of the value, and these do not depend on how
it is spelled.

## Ends of numbers

A number or a constant ends where a character follows that could not belong to it, so a text alone
does not settle its tokens: `1` in front of `2` is another number. What is shown of each part of a
text is therefore shown wherever it stands, provided that nothing follows that could go on with it.
Inside of a value, the grammar puts only white space, a comma, a colon or a bracket there.
-/

namespace BasicComputer.Json

/-! ## Strings -/

theorem scanString_plain {c : Char} (hquote : c ≠ '"') (hslash : c ≠ '\\') (hc : 0x20 ≤ c.toNat)
    (rest : List Char) :
    scanString (c :: rest) = (scanString rest).map fun r ↦ (.char c :: r.1, r.2) := by
  rw [scanString]
  · exact if_neg (by omega)
  all_goals simp_all

theorem scanString_letter {letter c : Char} (h : unescape? letter = some c) (rest : List Char) :
    scanString ('\\' :: letter :: rest) = (scanString rest).map fun r ↦ (.char c :: r.1, r.2) := by
  rw [scanString]
  · rw [h]
  · rintro a b c d cs rfl
    cases h

theorem scanString_code {a b c d : Char} {n : Nat} (h : codeUnit? a b c d = some n)
    (rest : List Char) :
    scanString ('\\' :: 'u' :: a :: b :: c :: d :: rest) =
      (scanString rest).map fun r ↦ (.ofCode n :: r.1, r.2) := by
  rw [scanString, h]

theorem Piece.ofCode_of_char {n : Nat} (h : n < 0xD800 ∨ 0xDFFF < n) :
    ofCode n = char (Char.ofNat n) :=
  if_pos h

theorem Piece.ofCode_of_half {n : Nat} (h : 0xD800 ≤ n ∧ n ≤ 0xDFFF) : ofCode n = half n :=
  if_neg (by omega)

/-- The characters of a string are read from whatever spells them. -/
theorem scanString_of_spells {cs s : List Char} (h : SpellsString cs s) (rest : List Char) :
    ∃ ps, scanString (cs ++ '"' :: rest) = some (ps, rest) ∧ join? ps = some s := by
  induction h with
  | nil => exact ⟨[], by rw [List.nil_append, scanString], rfl⟩
  | @plain c cs s hquote hslash hc h ih =>
    obtain ⟨ps, hscan, hjoin⟩ := ih
    refine ⟨.char c :: ps, ?_, ?_⟩
    · rw [List.cons_append, scanString_plain hquote hslash hc, hscan, Option.map_some]
    · rw [join?, hjoin, Option.map_some]
  | @letter letter c cs s hletter h ih =>
    obtain ⟨ps, hscan, hjoin⟩ := ih
    refine ⟨.char c :: ps, ?_, ?_⟩
    · simp only [List.cons_append]
      rw [scanString_letter hletter, hscan, Option.map_some]
    · rw [join?, hjoin, Option.map_some]
  | @code a b c d n cs s hcode hn h ih =>
    obtain ⟨ps, hscan, hjoin⟩ := ih
    refine ⟨.char (Char.ofNat n) :: ps, ?_, ?_⟩
    · simp only [List.cons_append]
      rw [scanString_code hcode, hscan, Option.map_some, Piece.ofCode_of_char hn]
    · rw [join?, hjoin, Option.map_some]
  | @pair a b c d a' b' c' d' high low cs s hhigh hhighRange hlow hlowRange h ih =>
    obtain ⟨ps, hscan, hjoin⟩ := ih
    refine ⟨.half high :: .half low :: ps, ?_, ?_⟩
    · simp only [List.cons_append]
      rw [scanString_code hhigh, scanString_code hlow, hscan, Option.map_some, Option.map_some,
        Piece.ofCode_of_half ⟨hhighRange.1, by omega⟩, Piece.ofCode_of_half ⟨by omega, hlowRange.2⟩]
    · rw [join?, if_pos ⟨hhighRange.2, hlowRange.1⟩, hjoin, Option.map_some]

/-! ## Cutting off a part -/

theorem scan_space {c : Char} (h : isSpace c) (rest : List Char) :
    scan (c :: rest) = scan rest := by
  rw [scan, if_pos h]

theorem scan_blank {cs : List Char} (h : cs.all isSpace) (rest : List Char) :
    scan (cs ++ rest) = scan rest := by
  induction cs with
  | nil => rfl
  | cons c cs ih =>
    rw [List.all_cons, Bool.and_eq_true] at h
    rw [List.cons_append, scan_space h.1, ih h.2]

theorem not_isSpace_of_mark? {c : Char} {t : Token} (h : mark? c = some t) : isSpace c = false := by
  unfold mark? at h
  split at h
  all_goals first | rfl | cases h

theorem scan_mark {c : Char} {t : Token} (h : mark? c = some t) (rest : List Char) :
    scan (c :: rest) = (scan rest).map (t :: ·) := by
  rw [scan, if_neg (by simp [not_isSpace_of_mark? h]), h]

theorem stringOf_of_join? {ps : List Piece} {s : String} (h : join? ps = some s.toList) :
    stringOf ps = string s := by
  rw [stringOf, h]
  exact congrArg string String.ofList_toList

theorem scan_string {body : List Char} {s : String} (h : SpellsString body s.toList)
    (rest : List Char) :
    scan ('"' :: body ++ '"' :: rest) = (scan rest).map (.scalar (.string s) :: ·) := by
  obtain ⟨ps, hstring, hjoin⟩ := scanString_of_spells h rest
  rw [List.cons_append, scan, if_neg (by decide)]
  have hmark : mark? '"' = none := rfl
  rw [hmark]
  dsimp only
  rw [if_pos rfl]
  split
  · next hnone =>
    rw [hstring] at hnone
    cases hnone
  · next hsome =>
    rw [hstring] at hsome
    cases hsome
    rw [stringOf_of_join? hjoin]

/-! ## Numbers and constants -/

/-- Whether a text cannot go on with a number or a constant. -/
def Interrupts (cs : List Char) : Prop := ∀ c ∈ cs.head?, isScalarChar c = false

theorem interrupts_cons {c : Char} (h : isScalarChar c = false) (cs : List Char) :
    Interrupts (c :: cs) := by
  rintro _ ⟨⟩
  exact h

theorem Interrupts.append {cs : List Char} (h : cs.all fun c ↦ !isScalarChar c) {rest : List Char}
    (hrest : Interrupts rest) : Interrupts (cs ++ rest) := by
  rcases cs with _ | ⟨c, cs⟩
  · exact hrest
  · rw [List.all_cons, Bool.and_eq_true, Bool.not_eq_true'] at h
    exact interrupts_cons h.1 _

theorem not_isScalarChar_of_isSpace {c : Char} (h : isSpace c) : isScalarChar c = false := by
  rw [isSpace, Bool.or_eq_true, Bool.or_eq_true, Bool.or_eq_true] at h
  simp only [beq_iff_eq] at h
  rcases h with ((rfl | rfl) | rfl) | rfl
  all_goals rfl

theorem not_isScalarChar_of_mark? {c : Char} {t : Token} (h : mark? c = some t) :
    isScalarChar c = false := by
  unfold mark? at h
  split at h
  all_goals first | rfl | cases h

theorem takeWhile_append_of_interrupts {cs rest : List Char} (h : cs.all isScalarChar)
    (hrest : Interrupts rest) : (cs ++ rest).takeWhile isScalarChar = cs := by
  rw [List.takeWhile_append_of_pos (List.all_eq_true.mp h)]
  rcases rest with _ | ⟨c, rest⟩
  · simp
  · rw [List.takeWhile_cons_of_neg (by simp [hrest c rfl]), List.append_nil]

theorem dropWhile_append_of_interrupts {cs rest : List Char} (h : cs.all isScalarChar)
    (hrest : Interrupts rest) : (cs ++ rest).dropWhile isScalarChar = rest := by
  rw [List.dropWhile_append_of_pos (List.all_eq_true.mp h)]
  rcases rest with _ | ⟨c, rest⟩
  · rfl
  · rw [List.dropWhile_cons_of_neg (by simp [hrest c rfl])]

theorem scan_scalar {cs : List Char} {j : Json} (hj : scalar? cs = some j)
    (h : cs.all isScalarChar) {rest : List Char} (hrest : Interrupts rest) :
    scan (cs ++ rest) = (scan rest).map (.scalar j :: ·) := by
  rcases cs with _ | ⟨c, cs⟩
  · cases hj
  · rw [List.all_cons, Bool.and_eq_true] at h
    have hspace : isSpace c = false := by
      by_contra hspace
      rw [Bool.not_eq_false] at hspace
      rw [not_isScalarChar_of_isSpace hspace] at h
      cases h.1
    have hmark : mark? c = none := by
      rcases hm : mark? c with _ | t
      · rfl
      · rw [not_isScalarChar_of_mark? hm] at h
        cases h.1
    have hquote : c ≠ '"' := by
      rintro rfl
      exact absurd h.1 (by decide)
    rw [List.cons_append, scan, if_neg (by simp [hspace]), hmark]
    dsimp only
    rw [if_neg hquote, takeWhile_append_of_interrupts h.2 hrest, hj]
    dsimp only
    rw [dropWhile_append_of_interrupts h.2 hrest]

theorem isScalarChar_of_isDecimalDigit {c : Char} (h : Numeral.isDecimalDigit c) :
    isScalarChar c := by
  have hdigit : c.isDigit := h
  simp [isScalarChar, Char.isAlphanum, hdigit]

theorem all_isScalarChar_of_isDecimal {cs : List Char} (h : Numeral.isDecimal cs) :
    cs.all isScalarChar := by
  rw [Numeral.isDecimal, Bool.and_eq_true, List.all_eq_true] at h
  rw [List.all_eq_true]
  exact fun c hc ↦ isScalarChar_of_isDecimalDigit (h.2 c hc)

theorem all_isScalarChar_of_isExponent {cs : List Char} (h : isExponent cs) :
    cs.all isScalarChar := by
  have hletter {e : Char} (he : (e == 'e' || e == 'E') = true) : isScalarChar e := by
    rw [Bool.or_eq_true, beq_iff_eq, beq_iff_eq] at he
    rcases he with rfl | rfl
    · rfl
    · rfl
  unfold isExponent at h
  split at h
  · rfl
  · rw [Bool.and_eq_true] at h
    rw [List.all_cons, List.all_cons, hletter h.1, all_isScalarChar_of_isDecimal h.2]
    rfl
  · rw [Bool.and_eq_true] at h
    rw [List.all_cons, List.all_cons, hletter h.1, all_isScalarChar_of_isDecimal h.2]
    rfl
  · rw [Bool.and_eq_true] at h
    rw [List.all_cons, hletter h.1, all_isScalarChar_of_isDecimal h.2]
    rfl

theorem all_isScalarChar_of_isUnsigned {cs : List Char} (h : isUnsigned cs) :
    cs.all isScalarChar := by
  have hfraction {cs : List Char} (h : isFraction cs) : cs.all isScalarChar := by
    unfold isFraction at h
    split at h
    · next cs =>
      rw [Bool.and_eq_true] at h
      rw [List.all_cons, ← List.takeWhile_append_dropWhile (l := cs), List.all_append,
        all_isScalarChar_of_isDecimal h.1, all_isScalarChar_of_isExponent h.2]
      rfl
    · exact all_isScalarChar_of_isExponent h
  rw [isUnsigned, isWhole, Bool.and_eq_true, Bool.and_eq_true] at h
  rw [← List.takeWhile_append_dropWhile (p := Numeral.isDecimalDigit) (l := cs), List.all_append,
    all_isScalarChar_of_isDecimal h.1.1, hfraction h.2]
  rfl

theorem all_isScalarChar_of_isNumeral {cs : List Char} (h : isNumeral cs) :
    cs.all isScalarChar := by
  unfold isNumeral at h
  split at h
  · rw [List.all_cons, all_isScalarChar_of_isUnsigned h]
    rfl
  · exact all_isScalarChar_of_isUnsigned h

/-- The digits of a number do not begin with a zero, unless the number is zero. -/
theorem head?_toDigits_ne {n : Nat} (hn : n ≠ 0) : (Nat.toDigits 10 n).head? ≠ some '0' := by
  induction n using Nat.strong_induction_on with
  | _ n ih =>
    rw [Nat.toDigits_eq_if (by decide)]
    by_cases hlt : n < 10
    · rw [if_pos hlt]
      have hdigit : ∀ d < 10, d ≠ 0 → Nat.digitChar d ≠ '0' := by decide
      intro h
      exact hdigit n hlt hn (Option.some.inj h)
    · rw [if_neg hlt, List.head?_append]
      have hquotient := ih (n / 10) (by omega) (by omega)
      rcases hhead : (Nat.toDigits 10 (n / 10)).head? with _ | c
      · rw [List.head?_eq_none_iff] at hhead
        exact absurd hhead (by simp)
      · rw [hhead] at hquotient
        exact hquotient

theorem isWhole_toDigits (n : Nat) : isWhole (Nat.toDigits 10 n) := by
  rw [isWhole, Numeral.isDecimal_toDigits, Bool.true_and]
  by_cases hn : n = 0
  · rw [hn]
    rfl
  · have hhead := head?_toDigits_ne hn
    simp [hhead]

theorem scalar?_toDigits (n : Nat) : scalar? (Nat.toDigits 10 n) = some (.natural n) := by
  rw [scalar?, if_pos (isWhole_toDigits n), Numeral.value_toDigits]

/-- A number that is not written as a natural number is kept as it is written. -/
theorem scalar?_numeral {text : String} (hnumeral : isNumeral text.toList)
    (hwhole : isWhole text.toList = false) : scalar? text.toList = some (.numeral text) := by
  rw [scalar?, if_neg (by simp [hwhole]), if_pos hnumeral, String.ofList_toList]

/-! ## Values -/

mutual

/-- The tokens of a value. -/
def tokens : Json → List Token
  | array items => .arrayStart :: [Token.comma].intercalate (itemTokens items) ++ [.arrayEnd]
  | object members =>
    .objectStart :: [Token.comma].intercalate (memberTokens members) ++ [.objectEnd]
  | j => [.scalar j]

/-- The tokens of the items of an array. -/
def itemTokens : List Json → List (List Token)
  | [] => []
  | item :: items => tokens item :: itemTokens items

/-- The tokens of the members of an object. -/
def memberTokens : List (String × Json) → List (List Token)
  | [] => []
  | (key, value) :: members =>
    (.scalar (.string key) :: .colon :: tokens value) :: memberTokens members

end

/-- Whether a text is cut into given tokens wherever it stands. -/
def Cuts (cs : List Char) (ts : List Token) : Prop :=
  ∀ rest, Interrupts rest → scan (cs ++ rest) = (scan rest).map (ts ++ ·)

namespace Cuts

variable {cs cs' : List Char} {ts ts' : List Token}

theorem nil : Cuts [] [] := by
  intro rest _
  exact Option.map_id'.symm

theorem append (h : Cuts cs ts) (h' : Cuts cs' ts')
    (hnext : ∀ rest, Interrupts rest → Interrupts (cs' ++ rest)) :
    Cuts (cs ++ cs') (ts ++ ts') := by
  intro rest hrest
  rw [List.append_assoc, h _ (hnext rest hrest), h' rest hrest, Option.map_map]
  simp only [Function.comp_def, List.append_assoc]

theorem mark_cons {c : Char} {t : Token} (hmark : mark? c = some t) (h : Cuts cs ts) :
    Cuts (c :: cs) (t :: ts) := by
  intro rest hrest
  rw [List.cons_append, scan_mark hmark, h rest hrest, Option.map_map]
  rfl

theorem scalar {j : Json} (hj : scalar? cs = some j) (h : cs.all isScalarChar) :
    Cuts cs [.scalar j] := by
  intro rest hrest
  exact scan_scalar hj h hrest

end Cuts

theorem Interrupts.blank_append {blank : List Char} (hblank : blank.all isSpace) {rest : List Char}
    (hrest : Interrupts rest) : Interrupts (blank ++ rest) := by
  refine Interrupts.append ?_ hrest
  rw [List.all_eq_true] at hblank ⊢
  intro c hc
  rw [not_isScalarChar_of_isSpace (hblank c hc)]
  rfl

theorem Cuts.blank {before after cs : List Char} {ts : List Token} (hbefore : before.all isSpace)
    (hafter : after.all isSpace) (h : Cuts cs ts) : Cuts (before ++ cs ++ after) ts := by
  intro rest hrest
  rw [List.append_assoc, List.append_assoc, scan_blank hbefore, h _ (hrest.blank_append hafter),
    scan_blank hafter]

section Enclosed

variable {α : Type} {items : List α} {text : α → List Char} {parts : α → List Token}

theorem cuts_intercalate (h : ∀ item ∈ items, Cuts (text item) (parts item)) :
    Cuts ([','].intercalate (items.map text)) ([Token.comma].intercalate (items.map parts)) := by
  induction items with
  | nil => exact .nil
  | cons item items ih =>
    rw [List.forall_mem_cons] at h
    rcases items with _ | ⟨next, items⟩
    · simpa using h.1
    · simp only [List.map_cons, List.intercalate_cons_cons, List.append_assoc]
      refine h.1.append ((ih h.2).mark_cons rfl) ?_
      intro rest _
      exact interrupts_cons rfl _

theorem cuts_enclosed {blank : List Char} (hblank : blank.all isSpace) {left right : Char}
    {opening closing : Token} (hleft : mark? left = some opening)
    (hright : mark? right = some closing) (h : ∀ item ∈ items, Cuts (text item) (parts item)) :
    Cuts (left :: [','].intercalate (items.map text) ++ blank ++ [right])
      (opening :: [Token.comma].intercalate (items.map parts) ++ [closing]) := by
  have hclosing : Cuts (blank ++ [right]) [closing] := by
    intro rest hrest
    rw [List.append_assoc, scan_blank hblank]
    exact Cuts.nil.mark_cons hright rest hrest
  rw [List.cons_append, List.cons_append, List.append_assoc, List.cons_append]
  refine .mark_cons hleft ((cuts_intercalate h).append hclosing ?_)
  intro rest _
  rw [List.append_assoc]
  exact (interrupts_cons (not_isScalarChar_of_mark? hright) rest).blank_append hblank

end Enclosed

theorem cuts_member {keyText valueText : List Char} {key : String} {ts : List Token}
    (hkey : Cuts keyText [.scalar (.string key)]) (hvalue : Cuts valueText ts) :
    Cuts (keyText ++ ':' :: valueText) (.scalar (.string key) :: .colon :: ts) := by
  refine hkey.append (hvalue.mark_cons rfl) ?_
  intro rest _
  exact interrupts_cons rfl _

theorem itemTokens_eq_map (items : List Json) : itemTokens items = items.map tokens := by
  induction items with
  | nil => rfl
  | cons item items ih => rw [itemTokens, ih, List.map_cons]

theorem memberTokens_eq_map (members : List (String × Json)) :
    memberTokens members =
      members.map fun m ↦ .scalar (.string m.1) :: .colon :: m.2.tokens := by
  induction members with
  | nil => rfl
  | cons m members ih => rw [memberTokens, ih, List.map_cons]

/-- **Spelled texts are cut into the tokens of their values**, by induction on the spelling. -/
theorem Spells.cuts {cs : List Char} {j : Json} (h : Spells cs j) : Cuts cs j.tokens := by
  induction h with
  | null | true | false => exact .scalar rfl rfl
  | natural n =>
    have hdigits := all_isScalarChar_of_isDecimal (Numeral.isDecimal_toDigits n)
    exact .scalar (scalar?_toDigits n) hdigits
  | numeral hnumeral hwhole =>
    exact .scalar (scalar?_numeral hnumeral hwhole) (all_isScalarChar_of_isNumeral hnumeral)
  | @string body s h =>
    intro rest _
    rw [List.append_assoc, List.singleton_append]
    exact scan_string h rest
  | array hblank items h ih =>
    rw [tokens, itemTokens_eq_map, List.map_map]
    exact cuts_enclosed hblank rfl rfl ih
  | object hblank members hkeys hvalues ihkeys ihvalues =>
    rw [tokens, memberTokens_eq_map, List.map_map]
    exact cuts_enclosed hblank rfl rfl fun m hm ↦ cuts_member (ihkeys m hm) (ihvalues m hm)
  | blank hbefore hafter h ih => exact ih.blank hbefore hafter

end BasicComputer.Json
