import BasicComputer.Assembly.Token

/-!
# How a text falls apart

The lexer takes a text apart in four steps: upper case, lines, comments, runs. For each step there
is a law about a text put together from pieces, as long as the pieces hold none of the characters
that the step looks for. They are for texts of which one piece is arbitrary and the others are
known.

Kinds are given to lexemes from left to right. Whether a list of tokens is what comes out of that
can be checked token by token, each against the one before.

## Pieces in front and pieces behind

A text that is half known is an append, of the known half and the other one. Taking the text apart
goes through it once, from one end, and so each law is about what is put at that end. Upper case
needs no condition, since characters are changed one by one. The other steps need to know that a
piece does not hold the character that would be looked for.

## Checking kinds instead of giving them

A token list that is claimed to be the result already has its kinds. So it is enough to compare
each of them with the kind that the lexer would give, and the proof that a list is right can follow
the list.
-/

namespace BasicComputer

/-! ## Pieces of text -/

namespace Text

theorem uppercase_append (s t : String) : uppercase (s ++ t) = uppercase s ++ uppercase t := by
  rw [uppercase, uppercase, uppercase, String.toList_append, List.flatMap_append]

theorem uppercase_ofList {cs : List Char} (h : ∀ c ∈ cs, c.toNat < 128) :
    uppercase (String.ofList cs) = cs.map Char.toUpper := by
  rw [uppercase, String.toList_ofList]
  induction cs with
  | nil => rfl
  | cons c cs ih =>
    rw [List.forall_mem_cons] at h
    rw [List.flatMap_cons, upper_of_lt h.1, ih h.2, List.map_cons, List.singleton_append]

/-- What there is to know about the characters of ASCII can be looked up. -/
theorem of_toNat_lt {P : Char → Prop} (hP : ∀ n : Fin 128, P (Char.ofNat n)) {c : Char}
    (h : c.toNat < 128) : P c := by
  -- `decide` cannot go through all characters, but through these it can
  have hc := hP ⟨c.toNat, h⟩
  rwa [Char.ofNat_toNat] at hc

theorem lines_newline (cs : List Char) : lines ('\n' :: cs) = [] :: lines cs := rfl

theorem lines_append {l : List Char} (hne : l ≠ []) (h : '\n' ∉ l) (rest : List Char) :
    lines (l ++ rest) = (l ++ (lines rest).headD []) :: (lines rest).tail := by
  induction l with
  | nil => exact absurd rfl hne
  | cons c l ih =>
    rw [List.mem_cons, not_or] at h
    have hcons (cs : List Char) : lines (c :: cs) =
        (c :: (lines cs).headD []) :: (lines cs).tail := by
      rw [lines, List.foldr_cons, if_neg (Ne.symm h.1), ← lines]
      cases lines cs <;> rfl
    rw [List.cons_append, hcons]
    by_cases hl : l = []
    · rw [hl]
      rfl
    · rw [ih hl h.2]
      rfl

/-- What stands in front of a newline is a line. -/
theorem lines_append_newline {l : List Char} (h : '\n' ∉ l) (rest : List Char) :
    lines (l ++ '\n' :: rest) = l :: lines rest := by
  by_cases hl : l = []
  · rw [hl]
    rfl
  · rw [lines_append hl h, lines_newline, List.headD_cons, List.append_nil, List.tail_cons]

section Runs

variable {p : Char → Bool}

theorem Run.mem_cons {column : Nat} {d : Char} {rs : List Run} {r : Run}
    (hr : r ∈ Run.cons column d rs) {c : Char} (hc : c ∈ r.chars) :
    c = d ∨ ∃ r' ∈ rs, c ∈ r'.chars := by
  cases rs with
  | nil =>
    rw [List.mem_singleton.mp hr] at hc
    exact .inl (List.mem_singleton.mp hc)
  | cons r' rs =>
    rw [Run.cons] at hr
    split at hr
    · rcases List.mem_cons.mp hr with rfl | hr
      · exact (List.mem_cons.mp hc).imp_right fun hc ↦ ⟨r', List.mem_cons_self, hc⟩
      · exact .inr ⟨r, List.mem_cons_of_mem r' hr, hc⟩
    · rcases List.mem_cons.mp hr with rfl | hr
      · exact .inl (List.mem_singleton.mp hc)
      · exact .inr ⟨r, hr, hc⟩

/-- The characters of a run come from the text and have the property. -/
theorem of_mem_runsFrom {cs : List Char} {column : Nat} {r : Run} (hr : r ∈ runsFrom p column cs)
    {c : Char} (hc : c ∈ r.chars) : c ∈ cs ∧ p c := by
  induction cs generalizing column r with
  | nil => cases hr
  | cons d ds ih =>
    rw [runsFrom] at hr
    split at hr
    next hd =>
      rcases Run.mem_cons hr hc with rfl | ⟨r', hr', hc⟩
      · exact ⟨List.mem_cons_self, hd⟩
      · exact (ih hr' hc).imp_left (List.mem_cons_of_mem d)
    next => exact (ih hr hc).imp_left (List.mem_cons_of_mem d)

theorem runsFrom_of_all {c : Char} {cs : List Char} (h : ∀ d ∈ c :: cs, p d) (column : Nat) :
    runsFrom p column (c :: cs) = [⟨column, c :: cs⟩] := by
  induction cs generalizing c column with
  | nil => simp [runsFrom, h c List.mem_cons_self, Run.cons]
  | cons d ds ih =>
    -- the run behind the first character starts right after it, so the two are joined
    rw [runsFrom, if_pos (h c List.mem_cons_self), ih (fun e he ↦ h e (List.mem_cons_of_mem c he))]
    exact if_pos rfl

theorem Run.le_column_of_mem_cons {column : Nat} {d : Char} {rs : List Run}
    (hrs : ∀ r ∈ rs, column + 1 ≤ r.column) {r : Run} (hr : r ∈ Run.cons column d rs) :
    column ≤ r.column := by
  have hlater : ∀ r ∈ rs, column ≤ r.column := fun r hr ↦ Nat.le_of_succ_le (hrs r hr)
  cases rs with
  | nil =>
    obtain rfl := List.mem_singleton.mp hr
    exact Nat.le_refl column
  | cons r' rs =>
    rw [Run.cons] at hr
    split at hr
    · rcases List.mem_cons.mp hr with rfl | hr
      · exact Nat.le_refl column
      · exact hlater r (List.mem_cons_of_mem r' hr)
    · rcases List.mem_cons.mp hr with rfl | hr
      · exact Nat.le_refl column
      · exact hlater r hr

theorem le_column_of_mem_runsFrom {cs : List Char} {column : Nat} {r : Run}
    (hr : r ∈ runsFrom p column cs) : column ≤ r.column := by
  induction cs generalizing column r with
  | nil => cases hr
  | cons d ds ih =>
    rw [runsFrom] at hr
    split at hr
    next => exact Run.le_column_of_mem_cons (fun r hr ↦ ih hr) hr
    next => exact Nat.le_of_succ_le (ih hr)

/-- Characters with the property are one run, if one without it follows. -/
theorem runsFrom_append_cons {c e : Char} {cs : List Char} (h : ∀ d ∈ c :: cs, p d)
    (he : p e = false) (column : Nat) (rest : List Char) :
    runsFrom p column (c :: cs ++ e :: rest) =
      ⟨column, c :: cs⟩ :: runsFrom p (column + cs.length + 2) rest := by
  have hbehind (column : Nat) : runsFrom p column (e :: rest) = runsFrom p (column + 1) rest := by
    rw [runsFrom, he]
    rfl
  induction cs generalizing c column with
  | nil =>
    rw [List.singleton_append, runsFrom, if_pos (h c List.mem_cons_self), hbehind]
    cases hruns : runsFrom p (column + 1 + 1) rest with
    | nil => rfl
    | cons r rs =>
      -- the next run leaves out at least the place of `e`
      have hle : column + 1 + 1 ≤ r.column :=
        le_column_of_mem_runsFrom (hruns ▸ List.mem_cons_self)
      exact if_neg (by omega)
  | cons d ds ih =>
    rw [List.cons_append, runsFrom, if_pos (h c List.mem_cons_self),
      ih (fun e he ↦ h e (List.mem_cons_of_mem c he)), List.length_cons]
    have hcolumn : column + 1 + ds.length + 2 = column + (ds.length + 1) + 2 := by omega
    rw [hcolumn]
    exact if_pos rfl

end Runs

end Text

theorem beforeComment_of_not_mem {cs : List Char} (h : '/' ∉ cs) : beforeComment cs = cs := by
  fun_induction beforeComment with
  | case1 => rfl
  | case2 => simp at h
  | case3 c cs _ ih =>
    rw [List.mem_cons, not_or] at h
    rw [ih h.2]

theorem beforeComment_append {cs : List Char} (h : '/' ∉ cs) (rest : List Char) :
    beforeComment (cs ++ rest) = cs ++ beforeComment rest := by
  induction cs with
  | nil => rfl
  | cons c cs ih =>
    rw [List.mem_cons, not_or] at h
    rw [List.cons_append, beforeComment, ih h.2, List.cons_append]
    exact fun _ hc _ ↦ h.1 hc.symm

theorem codeLines_eq {source : String} {ls : List (List Char)}
    (hlines : Text.lines (Text.uppercase source) = ls) (hslash : ∀ l ∈ ls, '/' ∉ l) :
    codeLines source = (ls.zipIdx 1).map fun l ↦ ⟨l.2, l.1⟩ := by
  rw [codeLines, hlines]
  refine List.map_congr_left fun l hl ↦ ?_
  rw [beforeComment_of_not_mem (hslash l.1 (List.fst_mem_of_mem_zipIdx hl))]

/-- A line does not offend if all its characters belong in source text and no hyphen is
misplaced. -/
theorem CodeLine.error?_eq_none_of_runs {l : CodeLine}
    (hchars : ∀ c ∈ l.code, Text.isBlank c || isSourceChar c)
    (hruns : ∀ r ∈ Text.runs isWordChar l.code, isMisplaced r = false) : l.error? = none := by
  rw [error?, offence?, Option.map_eq_none_iff, Option.or_eq_none_iff, List.find?_eq_none,
    List.find?_eq_none]
  constructor
  · intro r hr
    have hall : r.chars.all isSourceChar := by
      rw [List.all_eq_true]
      intro c hc
      obtain ⟨hmem, hblank⟩ := Text.of_mem_runsFrom hr hc
      rcases Bool.or_eq_true_iff.mp (hchars c hmem) with hc | hc
      · simp [hc] at hblank
      · exact hc
    simp [hall]
  · intro r hr
    simp [hruns r hr]

theorem lexemes_eq_ok {source : String} (h : ∀ l ∈ codeLines source, l.error? = none) :
    lexemes source = .ok ((codeLines source).flatMap CodeLine.lexemes) := by
  rw [lexemes, List.findSome?_eq_none_iff.mpr h]

/-! ## Reserved words -/

namespace Keyword

def names : List String := Mnemonic.all.map Mnemonic.name ++ Directive.all.map Directive.name

theorem isSome_ofName? (s : String) : (ofName? s).isSome ↔ s ∈ names := by
  simp [ofName?, Mnemonic.ofName?, Directive.ofName?, names]

end Keyword

/-! ## Kinds -/

namespace Token

/-- Whether every token has the kind that the token before gives its lexeme, the first of them
following the token `previous`. -/
def Classified (previous : Option Token) : List Token → Prop
  | [] => True
  | t :: ts => kindOf previous t.toLexeme = t.kind ∧ Classified (some t) ts

theorem classify_of_classified {previous : Option Token} {ts : List Token}
    (h : Classified previous ts) : classify previous (ts.map toLexeme) = ts := by
  induction ts generalizing previous with
  | nil => rfl
  | cons t ts ih =>
    obtain ⟨ht, hts⟩ := h
    rw [List.map_cons, classify, ht, ih hts]

end Token

theorem tokenize_eq_ok {source : String} {ts : List Token}
    (hlexemes : lexemes source = .ok (ts.map Token.toLexeme)) (h : Token.Classified none ts) :
    tokenize source = .ok ts := by
  rw [tokenize, hlexemes, Except.map, Token.classify_of_classified h]

end BasicComputer
