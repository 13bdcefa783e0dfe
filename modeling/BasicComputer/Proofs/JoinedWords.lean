import BasicComputer.Proofs.WrittenNumbers

/-!
# Words with blanks between them

A word is made of the characters that lexemes are made of, and if there is a hyphen in it, it is a
number with its sign. Words with blanks between them make up a line that does not offend, and the
lexer finds these words on it and no others.

What a word is taken for depends on the word before it, unless it is a reserved word itself.

## One blank is as good as many

Single blanks between words are all that is needed, since whatever is written out here is written
out by one function. Texts with other blanks are compared by their lexemes and not by this.

## Words that are plain

The kind of a word hangs on the one before, except for reserved words, and on its own being the
letter of indirection. A word that is neither has a kind that its neighbour alone decides. Words of
four characters are plain for the reason of their length.
-/

namespace BasicComputer

/-! ## Words -/

/-- Words on one line. -/
def joinWords : List (List Char) → List Char
  | [] => []
  | [w] => w
  | w :: ws => w ++ ' ' :: joinWords ws

/-- The runs of words on one line that starts at `column`. -/
def wordRuns (column : Nat) : List (List Char) → List Text.Run
  | [] => []
  | w :: ws => ⟨column, w⟩ :: wordRuns (column + w.length + 1) ws

/-- Whether characters make up a word, and one that does not offend. -/
structure IsWord (w : List Char) : Prop where
  ne_nil : w ≠ []
  chars : ∀ c ∈ w, isWordChar c
  hyphen : '-' ∈ w → Numeral.isSignedDecimal w

section Words

variable {w : List Char}

theorem isWord_of_isHex (h : Numeral.isHex w) : IsWord w := by
  rw [Numeral.isHex, Bool.and_eq_true, Bool.not_eq_true', List.isEmpty_eq_false_iff,
    List.all_eq_true] at h
  obtain ⟨hne, hdigits⟩ := h
  refine ⟨hne, fun c hc ↦ Numeral.isWordChar_of_isHexDigit (hdigits c hc), fun hhyphen ↦ ?_⟩
  exact absurd (hdigits '-' hhyphen) (by decide)

theorem isWord_of_isSignedDecimal (h : Numeral.isSignedDecimal w) : IsWord w := by
  have hdecimal := h
  unfold Numeral.isSignedDecimal at hdecimal
  split at hdecimal
  next cs =>
    have hdigits := (isWord_of_isHex (Numeral.isHex_of_isDecimal hdecimal)).chars
    exact ⟨List.cons_ne_nil _ _, List.forall_mem_cons.mpr ⟨rfl, hdigits⟩, fun _ ↦ h⟩
  next => exact isWord_of_isHex (Numeral.isHex_of_isDecimal hdecimal)

theorem isWord_mark : IsWord ['I'] :=
  ⟨List.cons_ne_nil _ _, List.all_eq_true.mp rfl, by simp⟩

theorem Keyword.isWord_name (k : Keyword) : IsWord k.name.toList := by
  have hchars : ∀ name ∈ Keyword.names, name.toList.all isWordChar ∧
      name.toList.contains '-' = false := by decide
  obtain ⟨hword, hhyphen⟩ := hchars k.name k.name_mem_names
  refine ⟨?_, List.all_eq_true.mp hword, fun hmem ↦ ?_⟩
  · exact List.ne_nil_of_length_pos (by rw [k.length_name]; decide)
  · rw [List.contains_iff_mem.mpr hmem] at hhyphen
    cases hhyphen

variable {ws : List (List Char)}

theorem mem_joinWords {c : Char} (h : c ∈ joinWords ws) : c = ' ' ∨ ∃ w ∈ ws, c ∈ w := by
  fun_induction joinWords with
  | case1 => cases h
  | case2 w => exact .inr ⟨w, List.mem_cons_self, h⟩
  | case3 w ws _ ih =>
    rcases List.mem_append.mp h with h | h
    · exact .inr ⟨w, List.mem_cons_self, h⟩
    rcases List.mem_cons.mp h with rfl | h
    · exact .inl rfl
    · obtain hblank | ⟨w', hw', hc⟩ := ih h
      · exact .inl hblank
      · exact .inr ⟨w', List.mem_cons_of_mem w hw', hc⟩

theorem not_mem_joinWords (h : ∀ w ∈ ws, IsWord w) {c : Char} (hblank : c ≠ ' ')
    (hc : isWordChar c = false) : c ∉ joinWords ws := by
  intro hmem
  rcases mem_joinWords hmem with rfl | ⟨w, hw, hmem⟩
  · exact hblank rfl
  · rw [(h w hw).chars c hmem] at hc
    cases hc

theorem runsFrom_joinWords (h : ∀ w ∈ ws, IsWord w) (column : Nat) :
    Text.runsFrom isWordChar column (joinWords ws) = wordRuns column ws := by
  fun_induction joinWords generalizing column with
  | case1 => rfl
  | case2 w =>
    have hw := h w List.mem_cons_self
    obtain ⟨c, cs, rfl⟩ := List.exists_cons_of_ne_nil hw.ne_nil
    exact Text.runsFrom_of_all hw.chars column
  | case3 w ws _ ih =>
    have hw := h w List.mem_cons_self
    obtain ⟨c, cs, rfl⟩ := List.exists_cons_of_ne_nil hw.ne_nil
    rw [Text.runsFrom_append_cons hw.chars rfl, wordRuns,
      ih fun w hw ↦ h w (List.mem_cons_of_mem _ hw)]
    rfl

theorem mem_of_mem_wordRuns {column : Nat} {r : Text.Run} (h : r ∈ wordRuns column ws) :
    r.chars ∈ ws := by
  induction ws generalizing column with
  | nil => cases h
  | cons w ws ih =>
    rcases List.mem_cons.mp h with rfl | h
    · exact List.mem_cons_self
    · exact List.mem_cons_of_mem w (ih h)

theorem isMisplaced_of_isWord {r : Text.Run} (h : IsWord r.chars) :
    CodeLine.isMisplaced r = false := by
  rw [CodeLine.isMisplaced, Bool.and_eq_false_iff, Bool.not_eq_false']
  by_cases hhyphen : '-' ∈ r.chars
  · exact .inr (h.hyphen hhyphen)
  · exact .inl (by simpa using hhyphen)

theorem isBlank_or_isSourceChar_of_mem_joinWords (h : ∀ w ∈ ws, IsWord w) :
    ∀ c ∈ joinWords ws, Text.isBlank c || isSourceChar c := by
  intro c hc
  rcases mem_joinWords hc with rfl | ⟨w, hw, hc⟩
  · rfl
  · rw [isSourceChar, (h w hw).chars c hc, Bool.true_or, Bool.or_true]

theorem error?_joinWords (h : ∀ w ∈ ws, IsWord w) (n : Nat) :
    (CodeLine.mk n (joinWords ws)).error? = none := by
  refine CodeLine.error?_eq_none_of_runs (isBlank_or_isSourceChar_of_mem_joinWords h) ?_
  intro r hr
  rw [Text.runs, runsFrom_joinWords h] at hr
  exact isMisplaced_of_isWord (h r.chars (mem_of_mem_wordRuns hr))

theorem toNat_lt_of_isWordChar {c : Char} (h : isWordChar c) : c.toNat < 128 := by
  simp only [isWordChar, Numeral.isDecimalDigit, Bool.or_eq_true, Bool.and_eq_true,
    decide_eq_true_eq, beq_iff_eq] at h
  rcases h with ((⟨-, h⟩ | ⟨-, h⟩) | rfl) | rfl
  · exact Nat.lt_of_le_of_lt (UInt32.le_iff_toNat_le.mp h) (by decide)
  · exact Nat.lt_of_le_of_lt (UInt32.le_iff_toNat_le.mp h) (by decide)
  · decide
  · decide

/-- Words are in upper case already. -/
theorem upper_of_isWordChar {c : Char} (h : isWordChar c) : Text.upper c = [c] := by
  have hlt := toNat_lt_of_isWordChar h
  have hupper : isWordChar c → c.toUpper = c :=
    Text.of_toNat_lt (P := fun c ↦ isWordChar c → c.toUpper = c) (by decide) hlt
  rw [Text.upper_of_lt hlt, hupper h]

theorem uppercase_joinWords {ws : List (List Char)} (h : ∀ w ∈ ws, IsWord w) :
    Text.uppercase (String.ofList (joinWords ws)) = joinWords ws := by
  have hupper : ∀ c ∈ joinWords ws, Text.upper c = [c] := by
    intro c hc
    rcases mem_joinWords hc with rfl | ⟨w, hw, hc⟩
    · rfl
    · exact upper_of_isWordChar ((h w hw).chars c hc)
  rw [Text.uppercase, String.toList_ofList, List.flatMap_congr hupper, List.flatMap_singleton']

end Words

/-! ## Kinds -/

section Kinds

variable {previous : Option Token} {p : Token} {x : Lexeme}

theorem kindOf_of_isSome_ofName? (h : (Keyword.ofName? x.text).isSome) :
    Token.kindOf previous x = .keyword := if_pos h

/-- Whether a word is neither reserved nor the letter that marks indirection. -/
def IsPlain (s : String) : Prop := ¬(Keyword.ofName? s).isSome ∧ s ≠ "I"

theorem isPlain_of_isSignedDecimal {cs : List Char} (h : Numeral.isSignedDecimal cs) :
    IsPlain (String.ofList cs) := by
  constructor
  · intro hsome
    have hnot := Keyword.not_isSignedDecimal_of_isSome_ofName? hsome
    rw [String.toList_ofList] at hnot
    exact hnot h
  · intro hI
    rw [← String.toList_inj, String.toList_ofList] at hI
    rw [hI] at h
    revert h
    decide

theorem isPlain_of_length {cs : List Char} (h : cs.length = 4) : IsPlain (String.ofList cs) := by
  constructor
  · intro hsome
    have hlength := Keyword.length_of_isSome_ofName? hsome
    rw [String.toList_ofList, h] at hlength
    cases hlength
  · intro hI
    rw [← String.toList_inj, String.toList_ofList] at hI
    rw [hI] at h
    revert h
    decide

/-- A plain word behind a reserved one has the kind that the reserved one asks for. -/
theorem kindOf_of_isPlain {k : Keyword} (hp : p.keyword? = some k) {cs : List Char}
    (hx : x.text = String.ofList cs) (hplain : IsPlain (String.ofList cs)) :
    Token.kindOf (some p) x = Token.kindAfter k cs := by
  rw [← hx] at hplain
  rw [Token.kindOf, if_neg hplain.1, if_neg hplain.2, hp, hx, String.toList_ofList]

theorem kindOf_mark (hline : p.line = x.line) (hp : p.kind.isOperand) (hI : x.text = "I") :
    Token.kindOf (some p) x = .indirection := by
  have hx : ¬(Keyword.ofName? x.text).isSome := by
    rw [hI]
    decide
  rw [Token.kindOf, if_neg hx, if_pos hI, if_pos ⟨hline, hp⟩]

end Kinds

end BasicComputer
