import BasicComputer.Proofs.Transcript

/-!
# The words of a line

The lexer finds lexemes as runs of certain characters. A reader sees words: what is left of a line
when it is cut at white space and commas. On a line that does not offend, the two are the same, and
whether a line offends can be told from its words as well.

A statement about lexemes is one about the lexer. A statement about words can be checked by someone
who has the text and no lexer: cut at white space and commas, and compare. On lines that offend, the
two come apart, since the lexer also cuts at characters that it rejects. This is harmless, as such a
line is never looked at again.
-/

namespace BasicComputer

/-! ## Runs and cuts -/

namespace Text

section Runs

variable {p q : Char → Bool}

theorem Run.flatMap_chars_cons (column : Nat) (c : Char) (rs : List Run) :
    (Run.cons column c rs).flatMap chars = c :: rs.flatMap chars := by
  cases rs with
  | nil => rfl
  | cons r rs =>
    rw [Run.cons]
    split <;> rfl

/-- The runs hold the characters with the property, in order. -/
theorem flatMap_chars_runsFrom (p : Char → Bool) (column : Nat) (cs : List Char) :
    (runsFrom p column cs).flatMap Run.chars = cs.filter p := by
  induction cs generalizing column with
  | nil => rfl
  | cons c cs ih =>
    rw [runsFrom, List.filter_cons]
    split
    · rw [Run.flatMap_chars_cons, ih]
    · exact ih (column + 1)

theorem runsFrom_congr {cs : List Char} (h : ∀ c ∈ cs, p c = q c) (column : Nat) :
    runsFrom p column cs = runsFrom q column cs := by
  induction cs generalizing column with
  | nil => rfl
  | cons c cs ih =>
    rw [List.forall_mem_cons] at h
    rw [runsFrom, runsFrom, h.1, ih h.2]

theorem exists_runsFrom_eq {cs piece : List Char} {pieces : List (List Char)}
    (h : cs.splitOnP (!p ·) = piece :: pieces) (column : Nat) :
    ∃ rs, runsFrom p column cs = (if piece.isEmpty then rs else ⟨column, piece⟩ :: rs) ∧
      rs.map Run.chars = pieces.filter (!·.isEmpty) ∧ ∀ r ∈ rs, column < r.column := by
  induction cs generalizing piece pieces column with
  | nil =>
    cases h
    exact ⟨[], rfl, rfl, List.forall_mem_nil _⟩
  | cons c cs ih =>
    obtain ⟨first, others, hcs⟩ := List.exists_cons_of_ne_nil (List.splitOnP_ne_nil (!p ·) cs)
    obtain ⟨rs, hruns, hchars, hcolumns⟩ := ih hcs (column + 1)
    rw [List.splitOnP_cons_eq_if_modifyHead, hcs] at h
    by_cases hc : p c
    · -- the character joins the piece behind it, and the run too if there is one
      rw [if_neg (by simp [hc])] at h
      cases h
      refine ⟨rs, ?_, hchars, fun r hr ↦ Nat.lt_of_succ_lt (hcolumns r hr)⟩
      rw [runsFrom, if_pos hc, hruns]
      cases first with
      | nil =>
        cases rs with
        | nil => rfl
        | cons r rs => exact if_neg (Nat.ne_of_gt (hcolumns r List.mem_cons_self))
      | cons d ds => exact if_pos rfl
    · rw [if_pos (by simp [hc])] at h
      cases h
      refine ⟨runsFrom p (column + 1) cs, by rw [runsFrom, if_neg hc]; rfl, ?_,
        fun r hr ↦ le_column_of_mem_runsFrom hr⟩
      rw [hruns, List.filter_cons, ← hchars]
      cases first <;> rfl

/-- **Runs are what is left when the other characters are cut out.** -/
theorem map_chars_runs (p : Char → Bool) (cs : List Char) :
    (runs p cs).map Run.chars = (cs.splitOnP (!p ·)).filter (!·.isEmpty) := by
  obtain ⟨piece, pieces, hcs⟩ := List.exists_cons_of_ne_nil (List.splitOnP_ne_nil (!p ·) cs)
  obtain ⟨rs, hruns, hchars, -⟩ := exists_runsFrom_eq hcs 1
  rw [runs, hruns, hcs, List.filter_cons, ← hchars]
  cases piece <;> rfl

end Runs

end Text

/-! ## Words -/

/-- What separates the words of a line. -/
def isSeparator (c : Char) : Bool := Text.isBlank c || c == ','

theorem isSeparator_of_isWordChar {c : Char} (h : isWordChar c) : isSeparator c = false :=
  Text.of_toNat_lt (P := fun c ↦ isWordChar c → isSeparator c = false) (by decide)
    (toNat_lt_of_isWordChar h) h

namespace CodeLine

/-- The words of a line. -/
def words (l : CodeLine) : List (List Char) :=
  (l.code.splitOnP isSeparator).filter (!·.isEmpty)

/-- Whether there is nothing between the separators that words are not made of. -/
def IsClean (l : CodeLine) : Prop := ∀ w ∈ l.words, ∀ c ∈ w, isWordChar c

variable {l : CodeLine}

theorem words_eq (l : CodeLine) :
    l.words = (Text.runs (!isSeparator ·) l.code).map Text.Run.chars := by
  rw [Text.map_chars_runs, words]
  simp only [Bool.not_not]

theorem flatten_words (l : CodeLine) : l.words.flatten = l.code.filter (!isSeparator ·) := by
  rw [words_eq, ← List.flatMap_def, Text.runs, Text.flatMap_chars_runsFrom]

theorem isClean_iff : l.IsClean ↔ ∀ c ∈ l.code, Text.isBlank c || isSourceChar c := by
  have hclean : l.IsClean ↔ ∀ c ∈ l.words.flatten, isWordChar c := by
    rw [List.forall_mem_flatten, IsClean]
  rw [hclean, flatten_words]
  simp only [List.mem_filter, and_imp]
  refine forall₂_congr fun c _ ↦ ?_
  rw [isSeparator, isSourceChar]
  cases Text.isBlank c <;> cases isWordChar c <;> cases c == ',' <;> decide

/-- On a clean line, the characters that words are made of are those that do not separate words. -/
theorem map_chars_runs_isWordChar (h : l.IsClean) :
    (Text.runs isWordChar l.code).map Text.Run.chars = l.words := by
  have hchars : ∀ c ∈ l.code, isWordChar c = !isSeparator c := by
    intro c hc
    cases hword : isWordChar c with
    | true => rw [isSeparator_of_isWordChar hword, Bool.not_false]
    | false =>
      have hsource := isClean_iff.mp h c hc
      rw [isSourceChar, hword, Bool.false_or] at hsource
      rw [isSeparator, hsource, Bool.not_true]
  rw [words_eq, Text.runs, Text.runs, Text.runsFrom_congr hchars]

/-- The lexemes of a clean line are its words. -/
theorem map_text_lexemes (h : l.IsClean) : l.lexemes.map (·.text.toList) = l.words := by
  rw [← map_chars_runs_isWordChar h, lexemes, List.map_map]
  exact List.map_congr_left fun r _ ↦ String.toList_ofList

theorem isClean_iff_chunks :
    l.IsClean ↔ ∀ r ∈ Text.runs (!Text.isBlank ·) l.code, r.chars.all isSourceChar := by
  have hflat : (∀ r ∈ Text.runs (!Text.isBlank ·) l.code, r.chars.all isSourceChar) ↔
      ∀ c ∈ (Text.runs (!Text.isBlank ·) l.code).flatMap Text.Run.chars, isSourceChar c := by
    simp only [List.forall_mem_flatMap, List.all_eq_true]
  rw [hflat, Text.runs, Text.flatMap_chars_runsFrom, isClean_iff]
  simp only [List.mem_filter, and_imp]
  refine forall₂_congr fun c _ ↦ ?_
  cases Text.isBlank c <;> cases isSourceChar c <;> decide

/-- A line does not offend if all its words could be lexemes. -/
theorem error?_eq_none_iff : l.error? = none ↔ ∀ w ∈ l.words, IsWord w := by
  have hoffence : l.error? = none ↔ l.IsClean ∧
      ∀ r ∈ Text.runs isWordChar l.code, isMisplaced r = false := by
    rw [error?, offence?, Option.map_eq_none_iff, Option.or_eq_none_iff, List.find?_eq_none,
      List.find?_eq_none, isClean_iff_chunks]
    simp
  have hhyphens (h : l.IsClean) : (∀ r ∈ Text.runs isWordChar l.code, isMisplaced r = false) ↔
      ∀ w ∈ l.words, '-' ∈ w → Numeral.isSignedDecimal w := by
    rw [← map_chars_runs_isWordChar h, List.forall_mem_map]
    refine forall₂_congr fun r _ ↦ ?_
    simp [isMisplaced]
  have hne : ∀ w ∈ l.words, w ≠ [] := by
    intro w hw
    simpa using (List.mem_filter.mp hw).2
  rw [hoffence]
  constructor
  · rintro ⟨hclean, hruns⟩ w hw
    exact ⟨hne w hw, hclean w hw, (hhyphens hclean).mp hruns w hw⟩
  · intro h
    have hclean : l.IsClean := fun w hw ↦ (h w hw).chars
    exact ⟨hclean, (hhyphens hclean).mpr fun w hw ↦ (h w hw).hyphen⟩

end CodeLine

end BasicComputer
