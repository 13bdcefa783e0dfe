import BasicComputer.Proofs.Reading
import BasicComputer.Proofs.Scanning

/-!
# Where lines stand

The parser never sees the lines of a source text, only tokens that carry line numbers. Still, what
it reads are those lines, in order, less the ones with nothing on them.

## Upper case first

The text is put into upper case before it is cut into lines. One character can become several, so
columns are columns of the changed text. Lines are not affected: nothing becomes a newline that is
none, and nothing vanishes.

## Empty lines

The parser sees no empty lines, and numbers are the only trace that they leave. So the lines that
are read are compared with the lines of code that have something on them, one by one and in order,
and this is a relation between two lists of one length.
-/

namespace BasicComputer

/-! ## Tokens of a text -/

theorem Token.classified_classify (previous : Option Token) (xs : List Lexeme) :
    Classified previous (classify previous xs) := by
  induction xs generalizing previous with
  | nil => trivial
  | cons x xs ih => exact ⟨rfl, ih _⟩

/-- A text has tokens if no line offends. They are its lexemes, with the kinds that go with them. -/
theorem tokenize_eq_ok_iff {source : String} {tokens : List Token} :
    tokenize source = .ok tokens ↔
      (∀ c ∈ codeLines source, c.error? = none) ∧
      tokens.map Token.toLexeme = (codeLines source).flatMap CodeLine.lexemes ∧
      Token.Classified none tokens := by
  constructor
  · intro h
    rw [tokenize, lexemes] at h
    split at h
    next => cases h
    next hnone =>
      cases h
      exact ⟨List.findSome?_eq_none_iff.mp hnone, Token.map_toLexeme_classify _ _,
        Token.classified_classify _ _⟩
  · rintro ⟨herror, hlexemes, hclassified⟩
    apply tokenize_eq_ok _ hclassified
    rw [hlexemes, lexemes_eq_ok herror]

theorem exists_tokenize_iff {source : String} : (∃ tokens, tokenize source = .ok tokens) ↔
    ∀ c ∈ codeLines source, c.error? = none := by
  constructor
  · rintro ⟨tokens, h⟩
    exact (tokenize_eq_ok_iff.mp h).1
  · intro h
    rw [tokenize, lexemes_eq_ok h]
    exact ⟨_, rfl⟩

/-! ## Lines in upper case -/

namespace Text

theorem ofNat_ne_newline {n : Nat} (h : 10 < n) : Char.ofNat n ≠ '\n' := by
  intro hnewline
  by_cases hn : n.isValidChar
  · rw [Char.ofNat, dif_pos hn] at hnewline
    have htoNat : n = 10 := congrArg Char.toNat hnewline
    omega
  · rw [Char.ofNat, dif_neg hn] at hnewline
    exact absurd hnewline (by decide)

/-- A newline is the upper case of nothing but a newline, and nothing vanishes in upper case. -/
theorem upper_of_ne_newline {c : Char} (hc : c ≠ '\n') : upper c ≠ [] ∧ '\n' ∉ upper c := by
  by_cases hlt : c.toNat < 128
  · have hupper : c.toUpper = '\n' → c = '\n' :=
      of_toNat_lt (P := fun c ↦ c.toUpper = '\n' → c = '\n') (by decide) hlt
    rw [upper_of_lt hlt, List.mem_singleton]
    exact ⟨List.cons_ne_nil _ _, fun hnewline ↦ hc (hupper hnewline.symm)⟩
  have hexpansions : ∀ e ∈ caseExpansions, e.2.map Char.ofNat ≠ [] ∧
      '\n' ∉ e.2.map Char.ofNat := by decide
  have hruns : ∀ r ∈ caseRuns, 10 < (r.first : Int) + r.shift := by decide +kernel
  rw [upper, if_neg hlt]
  split
  next codes hfind => exact hexpansions _ (List.mem_of_find?_eq_some hfind)
  next =>
    split
    next r hfind =>
      have hshift := hruns r (List.mem_of_find?_eq_some hfind)
      have hcontains := List.find?_some hfind
      rw [CaseRun.contains, Bool.and_eq_true, Bool.and_eq_true, decide_eq_true_eq] at hcontains
      refine ⟨List.cons_ne_nil _ _, ?_⟩
      rw [List.mem_singleton]
      exact (ofNat_ne_newline (by omega)).symm
    next =>
      rw [List.mem_singleton]
      exact ⟨List.cons_ne_nil _ _, Ne.symm hc⟩

/-- Upper case leaves the lines of a text in their places. -/
theorem lines_flatMap_upper (cs : List Char) :
    lines (cs.flatMap upper) = (lines cs).map (·.flatMap upper) := by
  induction cs with
  | nil => rfl
  | cons c cs ih =>
    rw [List.flatMap_cons]
    by_cases hc : c = '\n'
    · have hnewline : upper '\n' = ['\n'] := rfl
      rw [hc, hnewline, List.singleton_append, lines_newline, lines_newline, ih]
      rfl
    · obtain ⟨hne, hmem⟩ := upper_of_ne_newline hc
      have hcons := lines_append (List.cons_ne_nil c []) (by simpa using Ne.symm hc) cs
      rw [List.singleton_append] at hcons
      rw [lines_append hne hmem, hcons, ih]
      cases lines cs with
      | nil => simp
      | cons l ls => simp

end Text

/-! ## Lines of a text -/

/-- A line of code, cut from a line of the source text. -/
def CodeLine.ofRaw (n : Nat) (raw : List Char) : CodeLine :=
  ⟨n, beforeComment (raw.flatMap Text.upper)⟩

section CodeLines

variable {source : String}

theorem exists_raw_of_mem_codeLines {c : CodeLine} (h : c ∈ codeLines source) :
    ∃ raw, 1 ≤ c.number ∧ (Text.lines source.toList)[c.number - 1]? = some raw ∧
      c = .ofRaw c.number raw := by
  obtain ⟨⟨code, n⟩, hmem, rfl⟩ := List.mem_map.mp h
  have hget := (List.mk_mem_zipIdx_iff_le_and_getElem?_sub.mp hmem).2
  rw [Text.uppercase, Text.lines_flatMap_upper, List.getElem?_map] at hget
  obtain ⟨raw, hraw, rfl⟩ := Option.map_eq_some_iff.mp hget
  exact ⟨raw, List.le_snd_of_mem_zipIdx hmem, hraw, rfl⟩

/-- Lines are numbered from top to bottom. -/
theorem pairwise_codeLines (source : String) :
    (codeLines source).Pairwise fun c c' ↦ c.number < c'.number := by
  have hnumbers : (codeLines source).map CodeLine.number =
      List.range' 1 (Text.lines (Text.uppercase source)).length := by
    rw [codeLines, List.map_map, ← List.zipIdx_map_snd]
    rfl
  rw [← List.pairwise_map, hnumbers]
  exact List.pairwise_lt_range'

end CodeLines

namespace CodeLine

theorem line_of_mem_lexemes {c : CodeLine} {x : Lexeme} (h : x ∈ c.lexemes) :
    x.line = c.number ∧ x.source = c.text := by
  obtain ⟨r, -, rfl⟩ := List.mem_map.mp h
  exact ⟨rfl, rfl⟩

end CodeLine

/-- Whether a line is read from a line of code. -/
def Line.StandsOn (l : Line) (c : CodeLine) : Prop := l.tokens.map Token.toLexeme = c.lexemes

/-- The lines of code with something on them. -/
def occupied (cs : List CodeLine) : List CodeLine := cs.filter (!·.lexemes.isEmpty)

namespace Line.StandsOn

variable {l : Line} {c : CodeLine}

theorem toLexeme_mem (h : l.StandsOn c) {t : Token} (ht : t ∈ l.tokens) :
    t.toLexeme ∈ c.lexemes := by
  rw [← show l.tokens.map Token.toLexeme = c.lexemes from h]
  exact List.mem_map_of_mem ht

theorem number_eq (h : l.StandsOn c) : l.number = c.number :=
  (CodeLine.line_of_mem_lexemes (h.toLexeme_mem (List.mem_append_right _ List.mem_cons_self))).1

theorem source_eq (h : l.StandsOn c) : l.source = c.text :=
  (CodeLine.line_of_mem_lexemes (h.toLexeme_mem (List.mem_append_right _ List.mem_cons_self))).2

end Line.StandsOn

/-- The tokens of a line of code are a group, if others follow from lines below. -/
theorem groupByLine_of_lexemes {c : CodeLine} {cs : List CodeLine} {t : Token}
    {ts rest : List Token} (hts : (t :: ts).map Token.toLexeme = c.lexemes)
    (hrest : rest.map Token.toLexeme = cs.flatMap CodeLine.lexemes)
    (hbelow : ∀ d ∈ cs, c.number < d.number) :
    groupByLine (t :: ts ++ rest) = (t, ts) :: groupByLine rest := by
  have hline : ∀ u ∈ t :: ts, u.line = c.number := by
    intro u hu
    have hmem : u.toLexeme ∈ c.lexemes := hts ▸ List.mem_map_of_mem hu
    exact (CodeLine.line_of_mem_lexemes hmem).1
  have ht := hline t List.mem_cons_self
  apply groupByLine_append
  · intro u hu
    rw [hline u (List.mem_cons_of_mem t hu), ht]
  · intro u hu
    have hmem : u.toLexeme ∈ cs.flatMap CodeLine.lexemes :=
      hrest ▸ List.mem_map_of_mem (List.mem_of_mem_head? hu)
    obtain ⟨d, hd, hmem⟩ := List.mem_flatMap.mp hmem
    rw [ht, (CodeLine.line_of_mem_lexemes hmem).1]
    exact Nat.ne_of_gt (hbelow d hd)

/-- **Lines are read from the lines of code**, in order, and only empty ones are passed over. -/
theorem forall₂_standsOn {cs : List CodeLine} (hcs : cs.Pairwise fun c c' ↦ c.number < c'.number)
    {tokens : List Token} (htokens : tokens.map Token.toLexeme = cs.flatMap CodeLine.lexemes)
    {lines : List Line} (h : parse tokens = .ok lines) :
    List.Forall₂ (fun c l ↦ l.StandsOn c) (occupied cs) lines := by
  induction cs generalizing tokens lines with
  | nil =>
    rw [List.flatMap_nil, List.map_eq_nil_iff] at htokens
    subst htokens
    cases h
    exact .nil
  | cons c cs ih =>
    rw [List.pairwise_cons] at hcs
    rw [List.flatMap_cons, List.map_eq_append_iff] at htokens
    obtain ⟨ts, rest, rfl, hts, hrest⟩ := htokens
    cases ts with
    | nil =>
      have hempty : c.lexemes.isEmpty := by rw [← hts]; rfl
      rw [occupied, List.filter_cons_of_neg (by simp [hempty])]
      exact ih hcs.2 hrest h
    | cons t us =>
      have hne : c.lexemes.isEmpty = false := by rw [← hts]; rfl
      rw [parse, groupByLine_of_lexemes hts hrest hcs.1, List.mapM_cons, bind_eq_ok] at h
      obtain ⟨l, hl, h⟩ := h
      obtain ⟨lines, hlines, h⟩ := bind_eq_ok.mp h
      cases h
      rw [occupied, List.filter_cons_of_pos (by simp [hne])]
      refine .cons ?_ (ih hcs.2 hrest hlines)
      rw [Line.StandsOn, (Line.read_eq_ok hl).1, hts]

theorem exists_mem_of_forall₂ {α β : Type} {R : α → β → Prop} {xs : List α} {ys : List β}
    (h : List.Forall₂ R xs ys) {x : α} (hx : x ∈ xs) : ∃ y ∈ ys, R x y := by
  induction h with
  | nil => cases hx
  | cons hhead _ ih =>
    rcases List.mem_cons.mp hx with rfl | hx
    · exact ⟨_, List.mem_cons_self, hhead⟩
    · obtain ⟨y, hy, hR⟩ := ih hx
      exact ⟨y, List.mem_cons_of_mem _ hy, hR⟩

section Standing

variable {cs : List CodeLine} {lines : List Line}

theorem flatMap_lexemes_occupied (cs : List CodeLine) :
    (occupied cs).flatMap CodeLine.lexemes = cs.flatMap CodeLine.lexemes := by
  induction cs with
  | nil => rfl
  | cons c cs ih =>
    by_cases hempty : c.lexemes = []
    · rw [occupied, List.filter_cons_of_neg (by simp [hempty]), List.flatMap_cons, hempty]
      exact ih
    · rw [occupied, List.filter_cons_of_pos (by simp [hempty]), List.flatMap_cons,
        List.flatMap_cons]
      exact congrArg _ ih

theorem map_number_of_standsOn (h : List.Forall₂ (fun c l ↦ l.StandsOn c) cs lines) :
    lines.map Line.number = cs.map CodeLine.number := by
  induction h with
  | nil => rfl
  | cons hl _ ih => rw [List.map_cons, List.map_cons, hl.number_eq, ih]

theorem flatMap_tokens_of_standsOn (h : List.Forall₂ (fun c l ↦ l.StandsOn c) cs lines) :
    (lines.flatMap Line.tokens).map Token.toLexeme = cs.flatMap CodeLine.lexemes := by
  induction h with
  | nil => rfl
  | cons hl _ ih => rw [List.flatMap_cons, List.map_append, List.flatMap_cons, hl, ih]

theorem stacked_of_standsOn (hcs : cs.Pairwise fun c c' ↦ c.number < c'.number)
    (h : List.Forall₂ (fun c l ↦ l.StandsOn c) cs lines) : Stacked lines := by
  constructor
  · intro l hl t ht
    obtain ⟨c, -, (hstands : l.StandsOn c)⟩ := exists_mem_of_forall₂ h.flip hl
    rw [(CodeLine.line_of_mem_lexemes (hstands.toLexeme_mem ht)).1, hstands.number_eq]
  · have hnumbers : (lines.map Line.number).Pairwise (· < ·) := by
      rw [map_number_of_standsOn h, List.pairwise_map]
      exact hcs
    rw [List.pairwise_map] at hnumbers
    exact hnumbers.isChain.imp fun _ _ hlt ↦ Nat.ne_of_lt hlt

end Standing

end BasicComputer
