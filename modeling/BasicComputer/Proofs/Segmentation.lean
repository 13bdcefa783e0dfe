import BasicComputer.Proofs.SourceLines
import BasicComputer.Proofs.Words
import Mathlib.Data.List.Infix
import Mathlib.Data.List.TakeWhile

/-!
# Where tokens stand

What the lexer finds in a text, and where, is said here without it. Each line is put into upper case
and cut at its comment, and then a token is a stretch of certain characters that cannot be made any
longer on either side. Its column is one more than the number of characters in front of it, whatever
these are.

A line offends by characters that do not belong in source text, or else by hyphens that do not lead
a number. The lexer goes from top to bottom and from left to right, so the first line that offends
is blamed, and on it the first chunk or run of the kind it offends by.

## Longest runs

A run is described from outside: its characters, what stands in front of it, and what stands behind.
Any decomposition of the text that shows these three will do, and there is no mention of an order in
which the text is searched. That the lexer's runs are exactly these follows by taking a text apart
run by run, which is an induction of its own.

## First offences

To blame the first of several is to search a list from its head. The lists that are searched here
have growing keys, lines by number and runs by column, and so the head is also the smallest. This is
how the order of the search leaves the statement.
-/

namespace BasicComputer

/-! ## The first of an ordered list -/

section Ordered

variable {α β : Type} {key : α → Nat} {xs : List α}

/-- In a list with growing keys, the first is the one with the smallest key. -/
theorem findSome?_eq_some_iff_of_pairwise (h : xs.Pairwise fun a b ↦ key a < key b)
    {f : α → Option β} {b : β} :
    xs.findSome? f = some b ↔
      ∃ a ∈ xs, f a = some b ∧ ∀ a' ∈ xs, key a' < key a → f a' = none := by
  rw [List.findSome?_eq_some_iff]
  constructor
  · rintro ⟨before, a, after, rfl, hb, hbefore⟩
    obtain ⟨-, hafter, -⟩ := List.pairwise_append.mp h
    refine ⟨a, by simp, hb, fun a' ha' hlt ↦ ?_⟩
    rcases List.mem_append.mp ha' with ha' | ha'
    · exact hbefore a' ha'
    · rcases List.mem_cons.mp ha' with rfl | ha'
      · exact absurd hlt (Nat.lt_irrefl _)
      · exact absurd hlt (Nat.lt_asymm (List.rel_of_pairwise_cons hafter ha'))
  · rintro ⟨a, ha, hb, hbefore⟩
    obtain ⟨before, after, rfl⟩ := List.append_of_mem ha
    refine ⟨before, a, after, rfl, hb, fun a' ha' ↦ ?_⟩
    obtain ⟨-, -, hlt⟩ := List.pairwise_append.mp h
    exact hbefore a' (List.mem_append_left _ ha') (hlt a' ha' a List.mem_cons_self)

theorem find?_eq_some_iff_of_pairwise (h : xs.Pairwise fun a b ↦ key a < key b)
    {q : α → Bool} {a : α} :
    xs.find? q = some a ↔ a ∈ xs ∧ q a ∧ ∀ a' ∈ xs, key a' < key a → q a' = false := by
  rw [← List.findSome?_guard, findSome?_eq_some_iff_of_pairwise h]
  simp [Option.guard_eq_some_iff, Option.guard_eq_none_iff]

end Ordered

/-! ## Longest runs -/

namespace Text

/-- Whether a run is a stretch of characters with a property that cannot be made any longer, in a
text that starts at `column`. -/
structure IsRunFrom (p : Char → Bool) (column : Nat) (cs : List Char) (r : Run) : Prop where
  nonempty : r.chars ≠ []
  chars : ∀ c ∈ r.chars, p c
  longest : ∃ before after, cs = before ++ (r.chars ++ after) ∧ r.column = column + before.length ∧
    (∀ c ∈ before.getLast?, p c = false) ∧ ∀ c ∈ after.head?, p c = false

/-- The same with columns counted from one. -/
def IsRun (p : Char → Bool) (cs : List Char) (r : Run) : Prop := IsRunFrom p 1 cs r

section Runs

variable {p : Char → Bool} {column : Nat} {r : Run}

theorem takeWhile_append {w rest : List Char} (hw : ∀ c ∈ w, p c)
    (hrest : ∀ c ∈ rest.head?, p c = false) : (w ++ rest).takeWhile p = w := by
  rw [List.takeWhile_append_of_pos hw]
  cases rest with
  | nil => rw [List.takeWhile_nil, List.append_nil]
  | cons c cs => rw [List.takeWhile_cons_of_neg (by simp [hrest c rfl]), List.append_nil]

/-- A text is taken apart run by run, and character by character between them. -/
theorem runs_induction {motive : List Char → Prop} (nil : motive [])
    (skip : ∀ c cs, p c = false → motive cs → motive (c :: cs))
    (run : ∀ w rest, w ≠ [] → (∀ c ∈ w, p c) → (∀ c ∈ rest.head?, p c = false) → motive rest →
      motive (w ++ rest)) (cs : List Char) : motive cs := by
  induction hn : cs.length using Nat.strong_induction_on generalizing cs with
  | _ n ih =>
    subst hn
    cases cs with
    | nil => exact nil
    | cons c cs =>
      cases hc : p c with
      | false => exact skip c cs hc (ih cs.length (Nat.lt_succ_self _) cs rfl)
      | true =>
        have hsplit := List.takeWhile_append_dropWhile (p := p) (l := c :: cs)
        have hne : (c :: cs).takeWhile p ≠ [] := by simp [hc]
        rw [← hsplit]
        refine run _ _ hne (fun d hd ↦ List.mem_takeWhile_imp hd) (fun d hd ↦ ?_) (ih _ ?_ _ rfl)
        · have hhead := List.head?_dropWhile_not p (c :: cs)
          rwa [Option.mem_def.mp hd] at hhead
        · have hlength := congrArg List.length hsplit
          have hpos := List.length_pos_iff.mpr hne
          rw [List.length_append] at hlength
          omega

theorem runsFrom_cons_of_not {c : Char} (hc : p c = false) (cs : List Char) :
    runsFrom p column (c :: cs) = runsFrom p (column + 1) cs := by
  rw [runsFrom, hc]
  rfl

theorem runsFrom_append {w rest : List Char} (hne : w ≠ []) (hw : ∀ c ∈ w, p c)
    (hrest : ∀ c ∈ rest.head?, p c = false) :
    runsFrom p column (w ++ rest) = ⟨column, w⟩ :: runsFrom p (column + w.length) rest := by
  obtain ⟨c, cs, rfl⟩ := List.exists_cons_of_ne_nil hne
  cases rest with
  | nil => rw [List.append_nil, runsFrom_of_all hw, runsFrom]
  | cons e rest =>
    have he := hrest e rfl
    rw [runsFrom_append_cons hw he, runsFrom_cons_of_not he, List.length_cons]
    rfl

theorem forall_mem_getLast?_append {P : Char → Prop} {w before : List Char} :
    (∀ c ∈ (w ++ before).getLast?, P c) ↔
      (∀ c ∈ before.getLast?, P c) ∧ (before = [] → ∀ c ∈ w.getLast?, P c) := by
  cases before with
  | nil => simp
  | cons d ds => simp [List.getLast?_append, List.getLast?_cons]

theorem isRunFrom_cons_of_not {c : Char} (hc : p c = false) {cs : List Char} :
    IsRunFrom p column (c :: cs) r ↔ IsRunFrom p (column + 1) cs r := by
  constructor
  · rintro ⟨hne, hchars, before, after, hsplit, hcolumn, hbefore, hafter⟩
    refine ⟨hne, hchars, ?_⟩
    cases before with
    | nil =>
      -- a run cannot start with the character
      obtain ⟨d, ds, hds⟩ := List.exists_cons_of_ne_nil hne
      rw [hds] at hsplit
      cases hsplit
      have hd := hchars c (by simp [hds])
      simp [hc] at hd
    | cons d before =>
      cases hsplit
      have hlast : ∀ e ∈ ([c] ++ before).getLast?, p e = false := hbefore
      refine ⟨before, after, rfl, ?_, (forall_mem_getLast?_append.mp hlast).1, hafter⟩
      rw [hcolumn, List.length_cons]
      omega
  · rintro ⟨hne, hchars, before, after, rfl, hcolumn, hbefore, hafter⟩
    have hlast : ∀ e ∈ ([c] ++ before).getLast?, p e = false :=
      forall_mem_getLast?_append.mpr ⟨hbefore, fun _ ↦ by simp [hc]⟩
    refine ⟨hne, hchars, c :: before, after, rfl, ?_, hlast, hafter⟩
    rw [hcolumn, List.length_cons]
    omega

theorem isRunFrom_append {w rest : List Char} (hne : w ≠ []) (hw : ∀ c ∈ w, p c)
    (hrest : ∀ c ∈ rest.head?, p c = false) :
    IsRunFrom p column (w ++ rest) r ↔
      r = ⟨column, w⟩ ∨ IsRunFrom p (column + w.length) rest r := by
  constructor
  · rintro ⟨hr, hchars, before, after, hsplit, hcolumn, hbefore, hafter⟩
    cases hlast : before.getLast? with
    | none =>
      rw [List.getLast?_eq_none_iff] at hlast
      subst hlast
      have htake := congrArg (List.takeWhile p) hsplit
      rw [takeWhile_append hw hrest, List.nil_append, takeWhile_append hchars hafter] at htake
      left
      cases r
      exact congrArg₂ Run.mk hcolumn htake.symm
    | some d =>
      right
      -- the character in front of the run is none of `w`, so the run starts behind them
      rcases List.append_eq_append_iff.mp hsplit with ⟨between, rfl, rfl⟩ | ⟨bs, rfl, -⟩
      · have hbetween := (forall_mem_getLast?_append.mp hbefore).1
        refine ⟨hr, hchars, between, after, rfl, ?_, hbetween, hafter⟩
        rw [hcolumn, List.length_append, Nat.add_assoc]
      · have hd := hw d (List.mem_append_left bs (List.mem_of_getLast? hlast))
        simp [hbefore d hlast] at hd
  · rintro (rfl | ⟨hr, hchars, before, after, rfl, hcolumn, hbefore, hafter⟩)
    · exact ⟨hne, hw, [], rest, rfl, rfl, by simp, hrest⟩
    · have hapart : before ≠ [] := by
        -- otherwise the first character of the run could be added to `w`
        rintro rfl
        obtain ⟨d, ds, hds⟩ := List.exists_cons_of_ne_nil hr
        have hd := hchars d (by simp [hds])
        rw [hrest d (by simp [hds])] at hd
        cases hd
      have hlast : ∀ c ∈ (w ++ before).getLast?, p c = false :=
        forall_mem_getLast?_append.mpr ⟨hbefore, fun hnil ↦ absurd hnil hapart⟩
      refine ⟨hr, hchars, w ++ before, after, by rw [List.append_assoc], ?_, hlast, hafter⟩
      rw [hcolumn, List.length_append, Nat.add_assoc]

/-- **The runs of a text are its longest runs.** -/
theorem mem_runsFrom_iff {cs : List Char} : r ∈ runsFrom p column cs ↔ IsRunFrom p column cs r := by
  induction cs using runs_induction (p := p) generalizing column with
  | nil =>
    refine iff_of_false List.not_mem_nil ?_
    rintro ⟨hne, -, before, after, hsplit, -⟩
    simp [hne] at hsplit
  | skip c cs hc ih => rw [runsFrom_cons_of_not hc, ih, isRunFrom_cons_of_not hc]
  | run w rest hne hw hrest ih =>
    rw [runsFrom_append hne hw hrest, List.mem_cons, ih, isRunFrom_append hne hw hrest]

theorem mem_runs_iff {cs : List Char} : r ∈ runs p cs ↔ IsRun p cs r := mem_runsFrom_iff

theorem pairwise_runsFrom (p : Char → Bool) (column : Nat) (cs : List Char) :
    (runsFrom p column cs).Pairwise fun r r' ↦ r.column < r'.column := by
  induction cs using runs_induction (p := p) generalizing column with
  | nil => exact .nil
  | skip c cs hc ih =>
    rw [runsFrom_cons_of_not hc]
    exact ih (column + 1)
  | run w rest hne hw hrest ih =>
    rw [runsFrom_append hne hw hrest]
    refine .cons (fun r hr ↦ ?_) (ih _)
    have hle := le_column_of_mem_runsFrom hr
    have hpos := List.length_pos_iff.mpr hne
    exact Nat.lt_of_lt_of_le (Nat.lt_add_of_pos_right hpos) hle

theorem IsRun.prefix_drop {cs : List Char} (h : IsRun p cs r) :
    r.chars <+: cs.drop (r.column - 1) := by
  obtain ⟨before, after, rfl, hcolumn, -⟩ := h.longest
  rw [hcolumn, Nat.add_sub_cancel_left, List.drop_left]
  exact List.prefix_append _ _

end Runs

end Text

theorem prefix_beforeComment (cs : List Char) : beforeComment cs <+: cs := by
  fun_induction beforeComment with
  | case1 => exact List.nil_prefix
  | case2 => exact List.nil_prefix
  | case3 c cs _ ih => exact (List.cons_prefix_cons).mpr ⟨rfl, ih⟩

/-! ## Lines that offend -/

/-- Whether the characters of a word hold a hyphen only as the sign of a decimal number. -/
def HyphenLeads (w : List Char) : Prop :=
  '-' ∈ w → ∃ digits, w = '-' :: digits ∧ Numeral.isDecimal digits

/-- Whether nothing on a line offends: all its characters are white space or belong in source text,
and hyphens lead numbers. -/
structure IsSound (code : List Char) : Prop where
  chars : ∀ c ∈ code, Text.isBlank c ∨ isSourceChar c
  hyphens : ∀ r, Text.IsRun isWordChar code r → HyphenLeads r.chars

/-- What a line offends by: its first chunk with a foreign character or, if it has none, the first
of its runs with a misplaced hyphen. -/
inductive Offends (code : List Char) (r : Text.Run) : Prop
  | foreign (hrun : Text.IsRun (!Text.isBlank ·) code r) (hforeign : ∃ c ∈ r.chars, ¬isSourceChar c)
      (hfirst : ∀ r', Text.IsRun (!Text.isBlank ·) code r' → r'.column < r.column →
        ∀ c ∈ r'.chars, isSourceChar c)
  | hyphen (hchars : ∀ c ∈ code, Text.isBlank c ∨ isSourceChar c)
      (hrun : Text.IsRun isWordChar code r) (hhyphen : ¬HyphenLeads r.chars)
      (hfirst : ∀ r', Text.IsRun isWordChar code r' → r'.column < r.column → HyphenLeads r'.chars)

namespace CodeLine

variable {l : CodeLine} {r : Text.Run}

theorem isMisplaced_iff : isMisplaced r ↔ ¬HyphenLeads r.chars := by
  have hsigned (h : '-' ∈ r.chars) : Numeral.isSignedDecimal r.chars ↔
      ∃ digits, r.chars = '-' :: digits ∧ Numeral.isDecimal digits := by
    constructor
    · intro hs
      unfold Numeral.isSignedDecimal at hs
      split at hs
      next digits hr => exact ⟨digits, hr, hs⟩
      next =>
        -- digits alone hold no hyphen
        rw [Numeral.isDecimal, Bool.and_eq_true, List.all_eq_true] at hs
        exact absurd (hs.2 _ h) (by decide)
    · rintro ⟨digits, hr, hs⟩
      rw [hr]
      exact hs
  rw [HyphenLeads, Classical.not_imp, isMisplaced, Bool.and_eq_true, List.contains_iff_mem,
    Bool.not_eq_true', ← Bool.not_eq_true]
  exact and_congr_right fun h ↦ not_congr (hsigned h)

theorem find?_foreign_eq_none_iff :
    (Text.runs (!Text.isBlank ·) l.code).find? (!·.chars.all isSourceChar) = none ↔
      ∀ c ∈ l.code, Text.isBlank c ∨ isSourceChar c := by
  have hchunks := isClean_iff_chunks (l := l)
  rw [isClean_iff] at hchunks
  rw [List.find?_eq_none]
  simpa using hchunks.symm

theorem error?_eq_none_iff_isSound : l.error? = none ↔ IsSound l.code := by
  rw [error?, offence?, Option.map_eq_none_iff, Option.or_eq_none_iff, find?_foreign_eq_none_iff,
    List.find?_eq_none]
  simp only [isMisplaced_iff, not_not, Text.mem_runs_iff]
  exact ⟨fun h ↦ ⟨h.1, h.2⟩, fun h ↦ ⟨h.chars, h.hyphens⟩⟩

theorem offence?_eq_some_iff : l.offence? = some r ↔ Offends l.code r := by
  have hchunk := find?_eq_some_iff_of_pairwise (Text.pairwise_runsFrom (!Text.isBlank ·) 1 l.code)
    (q := (!·.chars.all isSourceChar)) (a := r)
  have hrun := find?_eq_some_iff_of_pairwise (Text.pairwise_runsFrom isWordChar 1 l.code)
    (q := isMisplaced) (a := r)
  simp only [Text.mem_runsFrom_iff, Bool.not_eq_true', Bool.not_eq_false', List.all_eq_true,
    List.all_eq_false] at hchunk
  simp only [Text.mem_runsFrom_iff, isMisplaced_iff, ← Bool.not_eq_true, not_not] at hrun
  rw [offence?, Option.or_eq_some_iff, find?_foreign_eq_none_iff, Text.runs, Text.runs, hchunk,
    hrun]
  constructor
  · rintro (⟨hrun, hforeign, hfirst⟩ | ⟨hchars, hrun, hhyphen, hfirst⟩)
    · exact .foreign hrun hforeign hfirst
    · exact .hyphen hchars hrun hhyphen hfirst
  · rintro (⟨hrun, hforeign, hfirst⟩ | ⟨hchars, hrun, hhyphen, hfirst⟩)
    · exact .inl ⟨hrun, hforeign, hfirst⟩
    · exact .inr ⟨hchars, hrun, hhyphen, hfirst⟩

theorem error?_eq_some_iff {e : LexError} :
    l.error? = some e ↔ l.number = e.line ∧ Offends l.code ⟨e.column, e.lexeme.toList⟩ := by
  rw [error?, Option.map_eq_some_iff]
  constructor
  · rintro ⟨r, hr, rfl⟩
    rw [String.toList_ofList]
    exact ⟨rfl, offence?_eq_some_iff.mp hr⟩
  · rintro ⟨hline, hoffends⟩
    refine ⟨_, offence?_eq_some_iff.mpr hoffends, ?_⟩
    rw [hline, String.ofList_toList]

end CodeLine

/-! ## Indents

The blanks around a line are part of no run. So a line may as well be trimmed before it is taken
apart, if the columns are then counted on from where the trimmed line begins. -/

namespace Text

/-- How many blanks a line begins with. -/
def indent (cs : List Char) : Nat := cs.length - (cs.dropWhile isBlank).length

/-- A run so many columns further to the right. -/
def Run.shift (k : Nat) (r : Run) : Run := { r with column := k + r.column }

section Shift

variable {p : Char → Bool} {blanks : List Char}

theorem Run.cons_shift (k column : Nat) (c : Char) (rs : List Run) :
    Run.cons (k + column) c (rs.map (shift k)) = (Run.cons column c rs).map (shift k) := by
  rcases rs with _ | ⟨r, rs⟩
  · rfl
  · have hjoins : (r.shift k).column = k + column + 1 ↔ r.column = column + 1 := by
      rw [shift, Nat.add_assoc, Nat.add_left_cancel_iff]
    rw [List.map_cons, Run.cons, Run.cons]
    by_cases h : r.column = column + 1
    · rw [if_pos h, if_pos (hjoins.mpr h)]
      rfl
    · rw [if_neg h, if_neg (mt hjoins.mp h)]
      rfl

theorem runsFrom_add (k column : Nat) (cs : List Char) :
    runsFrom p (k + column) cs = (runsFrom p column cs).map (Run.shift k) := by
  induction cs generalizing column with
  | nil => rfl
  | cons c cs ih =>
    rw [runsFrom, runsFrom, Nat.add_assoc, ih]
    split
    · exact Run.cons_shift k column c _
    · rfl

theorem runsFrom_blanks_append (h : ∀ c ∈ blanks, p c = false) (column : Nat) (cs : List Char) :
    runsFrom p column (blanks ++ cs) = runsFrom p (column + blanks.length) cs := by
  induction blanks generalizing column with
  | nil => rfl
  | cons c blanks ih =>
    rw [List.forall_mem_cons] at h
    rw [List.cons_append, runsFrom_cons_of_not h.1, ih h.2, List.length_cons]
    congr 1
    omega

theorem runsFrom_append_blanks (h : ∀ c ∈ blanks, p c = false) (column : Nat) (cs : List Char) :
    runsFrom p column (cs ++ blanks) = runsFrom p column cs := by
  induction cs generalizing column with
  | nil =>
    have hnone := runsFrom_blanks_append h column []
    rwa [List.append_nil] at hnone
  | cons c cs ih => rw [List.cons_append, runsFrom, runsFrom, ih]

end Shift

theorem exists_eq_trim (cs : List Char) : ∃ before after, cs = before ++ trim cs ++ after ∧
    before.length = indent cs ∧ (∀ c ∈ before, isBlank c) ∧ ∀ c ∈ after, isBlank c := by
  refine ⟨cs.takeWhile isBlank, ((cs.dropWhile isBlank).reverse.takeWhile isBlank).reverse,
    ?_, ?_, fun c hc ↦ List.mem_takeWhile_imp hc, fun c hc ↦ ?_⟩
  · rw [trim, List.append_assoc, ← List.reverse_append, List.takeWhile_append_dropWhile,
      List.reverse_reverse, List.takeWhile_append_dropWhile]
  · have hsplit := congrArg List.length (List.takeWhile_append_dropWhile (p := isBlank) (l := cs))
    rw [List.length_append] at hsplit
    rw [indent]
    omega
  · exact List.mem_takeWhile_imp (List.mem_reverse.mp hc)

theorem runs_eq_trim {p : Char → Bool} (hp : ∀ c, isBlank c → p c = false) (cs : List Char) :
    runs p cs = (runs p (trim cs)).map (Run.shift (indent cs)) := by
  obtain ⟨before, after, hcs, hindent, hbefore, hafter⟩ := exists_eq_trim cs
  calc runs p cs
      = runsFrom p 1 (before ++ trim cs ++ after) := by rw [← hcs, runs]
    _ = runsFrom p 1 (before ++ trim cs) :=
      runsFrom_append_blanks (fun c hc ↦ hp c (hafter c hc)) 1 _
    _ = runsFrom p (indent cs + 1) (trim cs) := by
      rw [runsFrom_blanks_append fun c hc ↦ hp c (hbefore c hc), hindent, Nat.add_comm]
    _ = (runs p (trim cs)).map (Run.shift (indent cs)) := runsFrom_add _ _ _

end Text

namespace CodeLine

theorem not_isWordChar_of_isBlank (c : Char) (h : Text.isBlank c) : isWordChar c = false := by
  by_contra hc
  have hseparator := isSeparator_of_isWordChar (Bool.eq_true_of_not_eq_false hc)
  rw [isSeparator, h] at hseparator
  cases hseparator

/-- The lexemes of a line are those of the trimmed line, behind the indent. -/
theorem lexemes_eq_trim (l : CodeLine) :
    l.lexemes = (Text.runs isWordChar (Text.trim l.code)).map fun r ↦
      ⟨⟨l.number, Text.indent l.code + r.column⟩, String.ofList r.chars, l.text⟩ := by
  rw [lexemes, Text.runs_eq_trim not_isWordChar_of_isBlank, List.map_map]
  rfl

/-- What offends on a line offends on the trimmed line, behind the indent. -/
theorem offence?_eq_trim (l : CodeLine) :
    l.offence? =
      ({ l with code := Text.trim l.code } : CodeLine).offence?.map
        (Text.Run.shift (Text.indent l.code)) := by
  have hchunks := Text.runs_eq_trim (p := (!Text.isBlank ·)) (fun c hc ↦ by simp [hc]) l.code
  have hwords := Text.runs_eq_trim not_isWordChar_of_isBlank l.code
  rw [offence?, offence?, hchunks, hwords, List.find?_map, List.find?_map, Option.map_or]
  rfl

end CodeLine

/-! ## Texts -/

/-- The line of a text with a number, in upper case. -/
def upperLine? (source : String) : Nat → Option (List Char)
  | 0 => none
  | n + 1 => (Text.lines (Text.uppercase source))[n]?

section Texts

variable {source : String}

theorem mem_codeLines_iff {c : CodeLine} : c ∈ codeLines source ↔
    ∃ line, upperLine? source c.number = some line ∧ c.code = beforeComment line := by
  obtain ⟨n, code⟩ := c
  rw [codeLines, List.mem_map]
  constructor
  · rintro ⟨⟨line, m⟩, hmem, hc⟩
    cases hc
    obtain ⟨hle, hget⟩ := List.mk_mem_zipIdx_iff_le_and_getElem?_sub.mp hmem
    obtain ⟨k, rfl⟩ := Nat.exists_eq_add_of_le' hle
    exact ⟨line, hget, rfl⟩
  · rintro ⟨line, hline, rfl⟩
    cases n with
    | zero => cases hline
    | succ n =>
      exact ⟨(line, n + 1), List.mk_mem_zipIdx_iff_le_and_getElem?_sub.mpr ⟨by omega, hline⟩, rfl⟩

theorem forall_mem_codeLines_iff {P : Nat → List Char → Prop} :
    (∀ c ∈ codeLines source, P c.number c.code) ↔
      ∀ n line, upperLine? source n = some line → P n (beforeComment line) := by
  constructor
  · intro h n line hline
    exact h ⟨n, beforeComment line⟩ (mem_codeLines_iff.mpr ⟨line, hline, rfl⟩)
  · intro h c hc
    obtain ⟨line, hline, hcode⟩ := mem_codeLines_iff.mp hc
    rw [hcode]
    exact h c.number line hline

theorem exists_mem_codeLines_iff {P : Nat → List Char → Prop} :
    (∃ c ∈ codeLines source, P c.number c.code) ↔
      ∃ n line, upperLine? source n = some line ∧ P n (beforeComment line) := by
  constructor
  · rintro ⟨c, hc, h⟩
    obtain ⟨line, hline, hcode⟩ := mem_codeLines_iff.mp hc
    exact ⟨c.number, line, hline, hcode ▸ h⟩
  · rintro ⟨n, line, hline, h⟩
    exact ⟨⟨n, beforeComment line⟩, mem_codeLines_iff.mpr ⟨line, hline, rfl⟩, h⟩

theorem CodeLine.mem_lexemes_iff {c : CodeLine} {x : Lexeme} : x ∈ c.lexemes ↔
    c.number = x.line ∧ Text.IsRun isWordChar c.code ⟨x.column, x.text.toList⟩ ∧
      x.source = c.text := by
  rw [lexemes, List.mem_map]
  constructor
  · rintro ⟨r, hr, rfl⟩
    rw [String.toList_ofList]
    exact ⟨rfl, Text.mem_runs_iff.mp hr, rfl⟩
  · rintro ⟨hline, hrun, hsource⟩
    refine ⟨_, Text.mem_runs_iff.mpr hrun, ?_⟩
    rw [hline, String.ofList_toList, ← hsource]

theorem tokenize_eq_error_iff {e : LexError} : tokenize source = .error e ↔
    ∃ c ∈ codeLines source, c.error? = some e ∧
      ∀ c' ∈ codeLines source, c'.number < c.number → c'.error? = none := by
  rw [← findSome?_eq_some_iff_of_pairwise (pairwise_codeLines source), tokenize, lexemes]
  cases (codeLines source).findSome? CodeLine.error? <;> simp [Except.map]

/-- Whether a token stands in front of another: on an earlier line, or further left on the same. -/
def Position.Precedes (a b : Position) : Prop :=
  a.line < b.line ∨ a.line = b.line ∧ a.column < b.column

theorem pairwise_precedes_lexemes (source : String) :
    ((codeLines source).flatMap CodeLine.lexemes).Pairwise
      fun x y ↦ x.toPosition.Precedes y.toPosition := by
  rw [List.pairwise_flatMap]
  refine ⟨fun c _ ↦ ?_, (pairwise_codeLines source).imp fun hlt x hx y hy ↦ .inl ?_⟩
  · rw [CodeLine.lexemes, List.pairwise_map]
    exact (Text.pairwise_runsFrom isWordChar 1 c.code).imp fun hlt ↦ .inr ⟨rfl, hlt⟩
  · rwa [(CodeLine.line_of_mem_lexemes hx).1, (CodeLine.line_of_mem_lexemes hy).1]

/-- **What the lexer finds, and where.** A text has tokens if no line offends. Then these are the
longest runs of word characters in the text, from top to bottom and from left to right, each with
the place where it is spelled and the trimmed line it stands on. Otherwise the first line that
offends is blamed, at the first thing it offends by. -/
theorem tokenize_segmentation (source : String) :
    ((∃ tokens, tokenize source = .ok tokens) ↔
      ∀ n line, upperLine? source n = some line → IsSound (beforeComment line)) ∧
    (∀ tokens, tokenize source = .ok tokens →
      (∀ x, x ∈ tokens.map Token.toLexeme ↔ ∃ line, upperLine? source x.line = some line ∧
        Text.IsRun isWordChar (beforeComment line) ⟨x.column, x.text.toList⟩ ∧
        x.source = String.ofList (Text.trim (beforeComment line))) ∧
      (∀ t ∈ tokens, ∃ line, upperLine? source t.line = some line ∧
        t.text.toList <+: line.drop (t.column - 1)) ∧
      tokens.Pairwise fun t u ↦ t.toPosition.Precedes u.toPosition) ∧
    ∀ e, tokenize source = .error e ↔ ∃ line, upperLine? source e.line = some line ∧
      Offends (beforeComment line) ⟨e.column, e.lexeme.toList⟩ ∧
      ∀ n line, upperLine? source n = some line → n < e.line → IsSound (beforeComment line) := by
  refine ⟨?_, fun tokens h ↦ ?_, fun e ↦ ?_⟩
  · rw [exists_tokenize_iff]
    simp only [CodeLine.error?_eq_none_iff_isSound]
    exact forall_mem_codeLines_iff (P := fun _ ↦ IsSound)
  · obtain ⟨-, hlexemes, -⟩ := tokenize_eq_ok_iff.mp h
    have hmem (x : Lexeme) : x ∈ tokens.map Token.toLexeme ↔
        ∃ line, upperLine? source x.line = some line ∧
          Text.IsRun isWordChar (beforeComment line) ⟨x.column, x.text.toList⟩ ∧
          x.source = String.ofList (Text.trim (beforeComment line)) := by
      rw [hlexemes, List.mem_flatMap]
      simp only [CodeLine.mem_lexemes_iff]
      refine (exists_mem_codeLines_iff (P := fun n code ↦ n = x.line ∧
        Text.IsRun isWordChar code ⟨x.column, x.text.toList⟩ ∧
        x.source = String.ofList (Text.trim code))).trans ⟨?_, ?_⟩
      · rintro ⟨n, line, hline, rfl, hrun⟩
        exact ⟨line, hline, hrun⟩
      · rintro ⟨line, hline, hrun⟩
        exact ⟨x.line, line, hline, rfl, hrun⟩
    refine ⟨hmem, fun t ht ↦ ?_, ?_⟩
    · obtain ⟨line, hline, hrun, -⟩ := (hmem t.toLexeme).mp (List.mem_map_of_mem ht)
      exact ⟨line, hline, hrun.prefix_drop.trans ((prefix_beforeComment line).drop _)⟩
    · have hpairwise := pairwise_precedes_lexemes source
      rwa [← hlexemes, List.pairwise_map] at hpairwise
  · rw [tokenize_eq_error_iff]
    simp only [CodeLine.error?_eq_some_iff, CodeLine.error?_eq_none_iff_isSound]
    have habove (m : Nat) : (∀ c ∈ codeLines source, c.number < m → IsSound c.code) ↔
        ∀ n line, upperLine? source n = some line → n < m → IsSound (beforeComment line) :=
      forall_mem_codeLines_iff (P := fun n code ↦ n < m → IsSound code)
    simp only [habove]
    refine (exists_mem_codeLines_iff (P := fun n code ↦
      (n = e.line ∧ Offends code ⟨e.column, e.lexeme.toList⟩) ∧
      ∀ m line, upperLine? source m = some line → m < n → IsSound (beforeComment line))).trans
        ⟨?_, ?_⟩
    · rintro ⟨n, line, hline, ⟨rfl, hoffends⟩, hsound⟩
      exact ⟨line, hline, hoffends, hsound⟩
    · rintro ⟨line, hline, hoffends, hsound⟩
      exact ⟨e.line, line, hline, ⟨rfl, hoffends⟩, hsound⟩

end Texts

/-- A text whose first character is two in upper case. -/
def widening : String := "ß, hlt // ?"

/-- A text with a misplaced hyphen in front of a foreign character. -/
def twoOffences : String := "hlt\n x-1 y+2"

theorem tokenize_segmentation_widening :
    (∃ tokens line, tokenize widening = .ok tokens ∧ upperLine? widening 1 = some line ∧
      Text.IsRun isWordChar (beforeComment line) ⟨5, "HLT".toList⟩ ∧
      tokens.Pairwise fun t u ↦ t.toPosition.Precedes u.toPosition) ∧
    ∃ line, upperLine? twoOffences 2 = some line ∧
      Offends (beforeComment line) ⟨6, "Y+2".toList⟩ := by
  constructor
  · obtain ⟨-, hfound, -⟩ := tokenize_segmentation widening
    have h : tokenize widening = .ok [⟨⟨⟨1, 1⟩, "SS", "SS, HLT"⟩, .identifier⟩,
        ⟨⟨⟨1, 5⟩, "HLT", "SS, HLT"⟩, .keyword⟩] := by decide +kernel
    obtain ⟨hmem, -, hpairwise⟩ := hfound _ h
    obtain ⟨line, hline, hrun, -⟩ := (hmem ⟨⟨1, 5⟩, "HLT", "SS, HLT"⟩).mp (by simp)
    exact ⟨_, line, h, hline, hrun, hpairwise⟩
  · obtain ⟨-, -, hfails⟩ := tokenize_segmentation twoOffences
    have h : tokenize twoOffences = .error ⟨⟨2, 6⟩, "Y+2"⟩ := by decide +kernel
    obtain ⟨line, hline, hoffends, -⟩ := (hfails _).mp h
    exact ⟨line, hline, hoffends⟩

end BasicComputer
