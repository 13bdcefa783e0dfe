import BasicComputer.Proofs.Grammar

/-!
# What can be read

Reading keeps every token, and the lines it gives are well formed. Here is the way back: well-formed
lines that are written out one below the other are read as they are.

Tokens are grouped by the numbers of their lines, and by nothing else. So the tokens of one line
have to carry one number, and neighbouring lines have to carry different ones. The numbers need not
be in any order.

The lines of a text do have ascending numbers. But the grouping never compares a token with any but
the next one, so nothing more than that neighbouring lines differ can matter, and to ask for this
alone spares those who write lines down to keep count of them.
-/

namespace BasicComputer

/-! ## Statements -/

namespace Statement

theorem readPlace_token {place : Place} (h : place.WellFormed) (op : MemoryOp) :
    readPlace op place.token = .ok place := by
  cases place with
  | number t =>
    have hk : t.kind = .number .decimal := h
    rw [readPlace, Place.token, hk]
  | symbol t =>
    obtain ⟨hk, hname⟩ := h
    rw [readPlace, Place.token, hk]
    exact if_pos hname

theorem readMarker_toList {marker : Option Token} (h : ∀ t ∈ marker, t.kind = .indirection)
    (head : Token) : readMarker head marker.toList = .ok marker := by
  cases marker with
  | none => rfl
  | some t => exact if_pos (h t rfl)

theorem readNumber_singleton {t : Token} {radix : Radix} (h : t.kind = .number radix) (head : Token)
    (directive : Directive) : readNumber head directive radix [t] = .ok t :=
  if_pos h

/-- A statement is read from its own operands. -/
theorem read_operands {s : Statement} (h : s.WellFormed) (head : Token) :
    read head s.operands s.keyword = .ok s := by
  cases s with
  | memory op place marker =>
    obtain ⟨hplace, hmarker⟩ := h
    simp only [read, operands, keyword, readPlace_token hplace, readMarker_toList hmarker]
    rfl
  | origin value =>
    simp only [read, operands, keyword, readNumber_singleton h]
    rfl
  | datum radix value =>
    simp only [read, operands, keyword, readNumber_singleton h]
    rfl
  | register op | io op | finish => rfl

end Statement

/-! ## Lines -/

theorem Line.readUnlabelled_operands {l : Line} (h : l.WellFormed) :
    readUnlabelled l.label l.head l.statement.operands = .ok l := by
  rw [readUnlabelled, h.head]
  dsimp only
  rw [Statement.read_operands h.operands]
  rfl

theorem Line.exists_read_tokens {l : Line} (h : l.WellFormed) :
    ∃ first others, l.tokens = first :: others ∧ read first others = .ok l := by
  cases hlabel : l.label with
  | none =>
    refine ⟨l.head, l.statement.operands, by rw [tokens, hlabel]; rfl, ?_⟩
    have hk : l.head.kind ≠ .identifier := by
      rw [Token.kind_of_keyword? h.head]
      exact TokenKind.noConfusion
    unfold read
    rw [if_neg hk, ← hlabel]
    exact readUnlabelled_operands h
  | some t =>
    refine ⟨t, l.head :: l.statement.operands, by rw [tokens, hlabel]; rfl, ?_⟩
    obtain ⟨hk, hname⟩ := h.label t hlabel
    rw [read, if_pos hk, if_pos hname, ← hlabel]
    exact readUnlabelled_operands h

/-! ## Whole texts -/

theorem head?_of_groupByLine {tokens : List Token} {u : Token} {us : List Token}
    {rest : List (Token × List Token)} (h : groupByLine tokens = (u, us) :: rest) :
    tokens.head? = some u := by
  have hflat := flatMap_groupByLine tokens
  rw [h, List.flatMap_cons] at hflat
  rw [← hflat]
  rfl

section Groups

variable {t u : Token} {us ts : List Token} {rest : List (Token × List Token)}

theorem groupByLine_cons_of_nil (t : Token) (h : groupByLine ts = []) :
    groupByLine (t :: ts) = [(t, [])] := by
  rw [groupByLine, List.foldr_cons, ← groupByLine, h]

theorem groupByLine_cons_of_eq (h : groupByLine ts = (u, us) :: rest) (hline : t.line = u.line) :
    groupByLine (t :: ts) = (t, u :: us) :: rest := by
  rw [groupByLine, List.foldr_cons, ← groupByLine, h]
  exact if_pos hline

theorem groupByLine_cons_of_ne (h : groupByLine ts = (u, us) :: rest) (hline : t.line ≠ u.line) :
    groupByLine (t :: ts) = (t, []) :: (u, us) :: rest := by
  rw [groupByLine, List.foldr_cons, ← groupByLine, h]
  exact if_neg hline

end Groups

/-- Tokens on one line make up one group, if another line follows. -/
theorem groupByLine_append {t : Token} {ts rest : List Token} (hts : ∀ u ∈ ts, u.line = t.line)
    (hrest : ∀ u ∈ rest.head?, u.line ≠ t.line) :
    groupByLine (t :: ts ++ rest) = (t, ts) :: groupByLine rest := by
  induction ts generalizing t with
  | nil =>
    rw [List.singleton_append]
    cases hgroups : groupByLine rest with
    | nil => exact groupByLine_cons_of_nil t hgroups
    | cons g groups =>
      have hne := hrest g.1 (head?_of_groupByLine hgroups)
      exact groupByLine_cons_of_ne hgroups hne.symm
  | cons u us ih =>
    rw [List.forall_mem_cons] at hts
    obtain ⟨hu, hus⟩ := hts
    -- the tokens behind the first one are a group by themselves, which the first one joins
    have htail : groupByLine (u :: us ++ rest) = (u, us) :: groupByLine rest := by
      apply ih
      · rwa [hu]
      · rwa [hu]
    exact groupByLine_cons_of_eq htail hu.symm

/-- Whether lines stand below each other: the tokens of each carry its number, and neighbours have
different numbers. -/
structure Stacked (lines : List Line) : Prop where
  together : ∀ l ∈ lines, ∀ t ∈ l.tokens, t.line = l.number
  apart : lines.IsChain fun l l' ↦ l.number ≠ l'.number

theorem Stacked.of_cons {l : Line} {lines : List Line} (h : Stacked (l :: lines)) :
    Stacked lines := by
  refine ⟨fun l' hl' ↦ h.together l' (List.mem_cons_of_mem l hl'), ?_⟩
  exact h.apart.of_cons

/-- **Lines are read as they were written.** -/
theorem parse_flatMap_tokens {lines : List Line} (hw : ∀ l ∈ lines, l.WellFormed)
    (hs : Stacked lines) : parse (lines.flatMap Line.tokens) = .ok lines := by
  induction lines with
  | nil => rfl
  | cons l rest ih =>
    rw [List.forall_mem_cons] at hw
    obtain ⟨first, others, htokens, hread⟩ := l.exists_read_tokens hw.1
    have htogether := hs.together l List.mem_cons_self
    rw [htokens, List.forall_mem_cons] at htogether
    obtain ⟨hfirst, hothers⟩ := htogether
    have hgroups : groupByLine ((l :: rest).flatMap Line.tokens) =
        (first, others) :: groupByLine (rest.flatMap Line.tokens) := by
      rw [List.flatMap_cons, htokens]
      refine groupByLine_append (fun u hu ↦ (hothers u hu).trans hfirst.symm) ?_
      intro u hu
      -- the next token is on the next line
      cases rest with
      | nil => cases hu
      | cons l' rest =>
        have hmem : u ∈ l'.tokens := by
          rw [List.flatMap_cons, List.head?_append, Option.or_of_isSome (by simp [Line.tokens])]
            at hu
          exact List.mem_of_mem_head? hu
        rw [hs.of_cons.together l' List.mem_cons_self u hmem, hfirst]
        exact (List.isChain_cons_cons.mp hs.apart).1.symm
    have hrest := ih hw.2 hs.of_cons
    rw [parse] at hrest ⊢
    rw [hgroups, List.mapM_cons, hread, hrest]
    rfl

end BasicComputer
