import BasicComputer.Assembly
import Mathlib.Data.List.Forall2

/-!
# What reading keeps

A successful parse keeps every token: written out again, line after line, the lines are the token
list they were read from. Each line is well formed: its label is a name, the token that names the
statement spells the statement's reserved word, and every operand is of the kind the statement asks
for.

Kinds tell the tokens apart by what they are for. A token that ends the text can only be the one
that names a statement, and a name can only be a label or the address of a memory operation.

## Why well-formedness is worth stating

The parser checks kinds and then keeps the tokens. A line can be written down that it would never
build, with a number for a label or with `HEX` in front of a decimal number. Lines are not
restricted to those that it builds, since the passes behind it do not need to know, but whoever
reasons about them often does. What the parser has checked is therefore recorded as a property.

## The end in tokens and in lines

Whether a text ends as it should is decided by tokens and before any line is looked at. Behind that
check one wants to know which lines end the text. The two agree because a token that ends the text
has a kind that neither labels nor operands have.
-/

namespace BasicComputer

/-! ## Checked computations -/

theorem bind_eq_ok {ε α β : Type} {x : Except ε α} {f : α → Except ε β} {b : β} :
    (x >>= f) = .ok b ↔ ∃ a, x = .ok a ∧ f a = .ok b := by
  constructor
  · intro h
    cases x with
    | error e => cases h
    | ok a => exact ⟨a, rfl, h⟩
  · rintro ⟨a, rfl, h⟩
    exact h

theorem bind_eq_error {ε α β : Type} {x : Except ε α} {f : α → Except ε β} {e : ε} :
    (x >>= f) = .error e ↔ x = .error e ∨ ∃ a, x = .ok a ∧ f a = .error e := by
  cases x with
  | error e' =>
    have hbind : ((.error e' : Except ε α) >>= f) = .error e' := rfl
    simp [hbind]
  | ok a =>
    have hbind : ((.ok a : Except ε α) >>= f) = f a := rfl
    simp [hbind]

/-- Two results that are the same once their values and errors are exchanged are of one kind. -/
theorem eq_cases_of_map {ε ε' α β : Type} {f : α → β} {g : ε → ε'} {x y : Except ε α}
    (h : (x.map f).mapError g = (y.map f).mapError g) :
    (∃ e e', x = .error e ∧ y = .error e' ∧ g e = g e') ∨
      ∃ a a', x = .ok a ∧ y = .ok a' ∧ f a = f a' := by
  cases x with
  | error e =>
    cases y with
    | error e' => exact .inl ⟨e, e', rfl, rfl, Except.error.inj h⟩
    | ok a' => cases h
  | ok a =>
    cases y with
    | error e' => cases h
    | ok a' => exact .inr ⟨a, a', rfl, rfl, Except.ok.inj h⟩

theorem forall₂_of_mapM_eq_ok {ε α β : Type} {f : α → Except ε β} {xs : List α} {ys : List β}
    (h : xs.mapM f = .ok ys) : List.Forall₂ (fun x y ↦ f x = .ok y) xs ys := by
  induction xs generalizing ys with
  | nil =>
    cases h
    exact .nil
  | cons x xs ih =>
    rw [List.mapM_cons, bind_eq_ok] at h
    obtain ⟨y, hy, h⟩ := h
    rw [bind_eq_ok] at h
    obtain ⟨ys', hys, h⟩ := h
    cases h
    exact .cons hy (ih hys)

section Traversal

variable {ε α β : Type} {f : α → Except ε β} {xs : List α}

/-- A checked traversal succeeds if it does so at every element. -/
theorem exists_mapM_eq_ok_iff : (∃ ys, xs.mapM f = .ok ys) ↔ ∀ x ∈ xs, ∃ y, f x = .ok y := by
  induction xs with
  | nil => exact ⟨fun _ ↦ List.forall_mem_nil _, fun _ ↦ ⟨[], rfl⟩⟩
  | cons x xs ih =>
    rw [List.forall_mem_cons, ← ih, List.mapM_cons]
    constructor
    · rintro ⟨ys, h⟩
      obtain ⟨y, hy, h⟩ := bind_eq_ok.mp h
      obtain ⟨ys', hys, -⟩ := bind_eq_ok.mp h
      exact ⟨⟨y, hy⟩, ys', hys⟩
    · rintro ⟨⟨y, hy⟩, ys, hys⟩
      rw [hy, hys]
      exact ⟨y :: ys, rfl⟩

/-- A checked traversal fails at the first element where it can. -/
theorem mapM_eq_error_iff {e : ε} :
    xs.mapM f = .error e ↔ ∃ good bad later, xs = good ++ bad :: later ∧
      (∀ x ∈ good, ∃ y, f x = .ok y) ∧ f bad = .error e := by
  induction xs with
  | nil =>
    refine iff_of_false (fun h ↦ ?_) ?_
    · cases h
    · rintro ⟨good, bad, later, h, -⟩
      simp at h
  | cons x xs ih =>
    have hcons : (x :: xs).mapM f = .error e ↔
        f x = .error e ∨ (∃ y, f x = .ok y) ∧ xs.mapM f = .error e := by
      rw [List.mapM_cons, bind_eq_error]
      refine or_congr_right ⟨?_, ?_⟩
      · rintro ⟨y, hy, h⟩
        rcases bind_eq_error.mp h with h | ⟨ys, -, h⟩
        · exact ⟨⟨y, hy⟩, h⟩
        · cases h
      · rintro ⟨⟨y, hy⟩, h⟩
        exact ⟨y, hy, bind_eq_error.mpr (.inl h)⟩
    rw [hcons, ih]
    constructor
    · rintro (h | ⟨hx, good, bad, later, rfl, hgood, hbad⟩)
      · exact ⟨[], x, xs, rfl, List.forall_mem_nil _, h⟩
      · exact ⟨x :: good, bad, later, rfl, List.forall_mem_cons.mpr ⟨hx, hgood⟩, hbad⟩
    · rintro ⟨good, bad, later, hsplit, hgood, hbad⟩
      rcases good with _ | ⟨x', good⟩
      · cases hsplit
        exact .inl hbad
      · cases hsplit
        rw [List.forall_mem_cons] at hgood
        exact .inr ⟨hgood.1, good, bad, later, rfl, hgood.2, hbad⟩

end Traversal

/-! ## Well-formed lines -/

/-- An address is a decimal number or a name. -/
def Place.WellFormed : Place → Prop
  | number t => t.kind = .number .decimal
  | symbol t => t.kind = .identifier ∧ isName t.text.toList

/-- The operands are of the kinds the statement takes. -/
def Statement.WellFormed : Statement → Prop
  | memory _ place marker => place.WellFormed ∧ ∀ t ∈ marker, t.kind = .indirection
  | origin value => value.kind = .number .hexadecimal
  | datum radix value => value.kind = .number radix
  | register _ | io _ | finish => True

/-- The tokens of a line are of the kinds that belong in their places. -/
structure Line.WellFormed (l : Line) : Prop where
  label : ∀ t ∈ l.label, t.kind = .identifier ∧ isName t.text.toList
  head : l.head.keyword? = some l.statement.keyword
  operands : l.statement.WellFormed

theorem Token.kind_of_keyword? {t : Token} {k : Keyword} (h : t.keyword? = some k) :
    t.kind = .keyword := by
  by_contra hk
  rw [keyword?, if_neg hk] at h
  cases h

namespace Statement

theorem readPlace_eq_ok {op : MemoryOp} {t : Token} {place : Place}
    (h : readPlace op t = .ok place) : place.token = t ∧ place.WellFormed := by
  unfold readPlace at h
  split at h
  next hk =>
    split at h
    next hn =>
      cases h
      exact ⟨rfl, hk, hn⟩
    next => cases h
  next hk =>
    cases h
    exact ⟨rfl, hk⟩
  next => cases h

theorem readMarker_eq_ok {head : Token} {ts : List Token} {marker : Option Token}
    (h : readMarker head ts = .ok marker) :
    marker.toList = ts ∧ ∀ t ∈ marker, t.kind = .indirection := by
  unfold readMarker at h
  split at h
  next =>
    cases h
    exact ⟨rfl, by simp⟩
  next =>
    split at h
    next hk =>
      cases h
      exact ⟨rfl, by simpa using hk⟩
    next => cases h
  next => cases h

theorem readNumber_eq_ok {head : Token} {directive : Directive} {radix : Radix} {ts : List Token}
    {t : Token} (h : readNumber head directive radix ts = .ok t) :
    ts = [t] ∧ t.kind = .number radix := by
  unfold readNumber at h
  split at h
  next =>
    split at h
    next hk =>
      cases h
      exact ⟨rfl, hk⟩
    next => cases h
  next => cases h

theorem readNothing_eq_ok {head : Token} {fault : SyntaxFault} {ts : List Token}
    (h : readNothing head fault ts = .ok ()) : ts = [] := by
  cases ts with
  | nil => rfl
  | cons t ts => cases h

/-- Reading a statement keeps the reserved word and the operands. -/
theorem read_eq_ok {head : Token} {operands : List Token} {k : Keyword} {s : Statement}
    (h : read head operands k = .ok s) :
    s.keyword = k ∧ s.operands = operands ∧ s.WellFormed := by
  unfold read at h
  split at h
  case h_1 op =>
    split at h
    next => cases h
    next address rest =>
      obtain ⟨place, hplace, h⟩ := bind_eq_ok.mp h
      obtain ⟨marker, hmarker, h⟩ := bind_eq_ok.mp h
      cases h
      obtain ⟨hp, hpk⟩ := readPlace_eq_ok hplace
      obtain ⟨hm, hmk⟩ := readMarker_eq_ok hmarker
      refine ⟨rfl, ?_, hpk, hmk⟩
      rw [Statement.operands, hp, hm]
  case h_2 | h_3 | h_6 =>
    obtain ⟨_, hn, h⟩ := bind_eq_ok.mp h
    cases h
    exact ⟨rfl, (readNothing_eq_ok hn).symm, trivial⟩
  case h_4 | h_5 =>
    obtain ⟨t, ht, h⟩ := bind_eq_ok.mp h
    cases h
    obtain ⟨hts, hk⟩ := readNumber_eq_ok ht
    exact ⟨rfl, hts.symm, hk⟩

end Statement

/-! ## Lines -/

theorem Line.readUnlabelled_eq_ok {label : Option Token} {head : Token} {operands : List Token}
    {l : Line} (hlabel : ∀ t ∈ label, t.kind = .identifier ∧ isName t.text.toList)
    (h : readUnlabelled label head operands = .ok l) :
    l.tokens = label.toList ++ head :: operands ∧ l.WellFormed := by
  unfold readUnlabelled at h
  split at h
  next => cases h
  next k hk =>
    obtain ⟨s, hs, h⟩ := bind_eq_ok.mp h
    cases h
    obtain ⟨rfl, rfl, hw⟩ := Statement.read_eq_ok hs
    exact ⟨rfl, hlabel, hk, hw⟩

/-- Reading a line keeps its tokens. -/
theorem Line.read_eq_ok {first : Token} {others : List Token} {l : Line}
    (h : read first others = .ok l) : l.tokens = first :: others ∧ l.WellFormed := by
  unfold read at h
  split at h
  next hk =>
    split at h
    next hn =>
      split at h
      next => cases h
      next => exact readUnlabelled_eq_ok (by simp [hk, hn]) h
    next => cases h
  next => exact readUnlabelled_eq_ok (by simp) h

/-! ## Whole texts -/

theorem flatMap_groupByLine (tokens : List Token) :
    (groupByLine tokens).flatMap (fun g ↦ g.1 :: g.2) = tokens := by
  induction tokens with
  | nil => rfl
  | cons t ts ih =>
    rw [groupByLine, List.foldr_cons, ← groupByLine]
    split
    next hg =>
      rw [hg] at ih
      rw [← ih]
      rfl
    next u us rest hg =>
      rw [hg, List.flatMap_cons] at ih
      split
      next => rw [List.flatMap_cons, ← ih]; rfl
      next => rw [List.flatMap_cons, List.flatMap_cons, ← ih]; rfl

/-- Reading a text keeps its tokens, and every line read is well formed. -/
theorem parse_eq_ok {tokens : List Token} {lines : List Line} (h : parse tokens = .ok lines) :
    lines.flatMap Line.tokens = tokens ∧ ∀ l ∈ lines, l.WellFormed := by
  have hread := forall₂_of_mapM_eq_ok h
  rw [← flatMap_groupByLine tokens]
  -- how the tokens were grouped no longer matters, only what was read from the groups
  clear h
  generalize groupByLine tokens = groups at hread
  induction hread with
  | nil => exact ⟨rfl, by simp⟩
  | cons hl _ ih =>
    obtain ⟨ht, hw⟩ := Line.read_eq_ok hl
    obtain ⟨ihT, ihW⟩ := ih
    refine ⟨?_, List.forall_mem_cons.mpr ⟨hw, ihW⟩⟩
    rw [List.flatMap_cons, List.flatMap_cons, ht, ihT]

/-! ## The token that ends a text -/

theorem Token.isEnd_of_kind_ne {t : Token} (h : t.kind ≠ .keyword) : t.isEnd = false := by
  rw [isEnd, keyword?, if_neg h]
  rfl

namespace Statement

/-- The statement that ends a text. -/
def isFinish : Statement → Bool
  | finish => true
  | _ => false

theorem kind_of_mem_operands {s : Statement} (hs : s.WellFormed) {t : Token}
    (ht : t ∈ s.operands) : t.kind ≠ .keyword := by
  cases s with
  | memory op place marker =>
    obtain ⟨hp, hm⟩ := hs
    rcases List.mem_cons.mp ht with rfl | ht
    · cases place with
      | number t => rw [Place.token, show t.kind = _ from hp]; decide
      | symbol t => rw [Place.token, show t.kind = _ from hp.1]; decide
    · rw [hm t (Option.mem_toList.mp ht)]
      decide
  | origin value =>
    rw [List.mem_singleton.mp ht, show value.kind = _ from hs]
    decide
  | datum radix value =>
    rw [List.mem_singleton.mp ht, show value.kind = _ from hs]
    exact TokenKind.noConfusion
  | register _ => cases ht
  | io _ => cases ht
  | finish => cases ht

end Statement

/-- Only the token that names a statement can end the text, and does so if the statement does. -/
theorem Line.filter_isEnd_tokens {l : Line} (hl : l.WellFormed) :
    l.tokens.filter Token.isEnd = if l.statement.isFinish then [l.head] else [] := by
  have hlabel : l.label.toList.filter Token.isEnd = [] := by
    rw [List.filter_eq_nil_iff]
    intro t ht
    rw [Token.isEnd_of_kind_ne (by rw [(hl.label t (Option.mem_toList.mp ht)).1]; decide)]
    decide
  have hoperands : l.statement.operands.filter Token.isEnd = [] := by
    rw [List.filter_eq_nil_iff]
    intro t ht
    rw [Token.isEnd_of_kind_ne (Statement.kind_of_mem_operands hl.operands ht)]
    decide
  have hhead : l.head.isEnd = l.statement.isFinish := by
    rw [Token.isEnd, hl.head]
    cases l.statement <;> rfl
  rw [tokens, List.filter_append, List.filter_cons, hlabel, hoperands, hhead]
  rfl

theorem filter_isEnd_flatMap {lines : List Line} (h : ∀ l ∈ lines, l.WellFormed) :
    (lines.flatMap Line.tokens).filter Token.isEnd =
      (lines.filter (·.statement.isFinish)).map Line.head := by
  induction lines with
  | nil => rfl
  | cons l lines ih =>
    rw [List.forall_mem_cons] at h
    rw [List.flatMap_cons, List.filter_append, Line.filter_isEnd_tokens h.1, ih h.2,
      List.filter_cons]
    split <;> rfl

/-- Where a text stops: at its last token, or nowhere. -/
def lastPosition (tokens : List Token) : Position :=
  (tokens.getLast?.map fun t ↦ t.toPosition).getD ⟨0, 0⟩

def missingEnd? (tokens : List Token) : Option SemanticError :=
  if tokens.countP Token.isEnd = 0 then some ⟨lastPosition tokens, .missingEnd⟩ else none

/-- A second token ends the text. -/
def multipleEnd? (tokens : List Token) : Option SemanticError :=
  (tokens.filter Token.isEnd)[1]?.map (·.faults .multipleEnd)

/-- The last token does not end the text. -/
def endNotLast? (tokens : List Token) : Option SemanticError :=
  if tokens.getLast?.any Token.isEnd then none else some ⟨lastPosition tokens, .endNotLast⟩

/-- What is wrong with the end of a text. -/
def endFault? (tokens : List Token) : Option SemanticError :=
  ((missingEnd? tokens).or (multipleEnd? tokens)).or (endNotLast? tokens)

theorem checkEnd_eq (tokens : List Token) :
    checkEnd tokens =
      match endFault? tokens with
      | some e => .error e
      | none => .ok () := by
  rw [checkEnd, endFault?, missingEnd?, multipleEnd?, endNotLast?, List.countP_eq_length_filter]
  match tokens.filter Token.isEnd with
  | [] => rfl
  | [_] => cases tokens.getLast?.any Token.isEnd <;> rfl
  | _ :: _ :: _ => rfl

theorem checkEnd_eq_ok {tokens : List Token} :
    checkEnd tokens = .ok () ↔ endFault? tokens = none := by
  rw [checkEnd_eq]
  rcases endFault? tokens with _ | e <;> simp

theorem endFault?_eq_none {tokens : List Token} :
    endFault? tokens = none ↔
      tokens.countP Token.isEnd = 1 ∧ ∃ t, tokens.getLast? = some t ∧ t.isEnd := by
  rw [endFault?, missingEnd?, multipleEnd?, endNotLast?, List.countP_eq_length_filter,
    ← Option.any_eq_true]
  match tokens.filter Token.isEnd with
  | [] => simp
  | [_] => cases tokens.getLast?.any Token.isEnd <;> simp
  | _ :: _ :: _ => simp

/-- Whether no line but the last ends the text. -/
def FinishesLast (lines : List Line) : Prop := ∀ l ∈ lines.dropLast, l.statement ≠ .finish

namespace FinishesLast

variable {l : Line} {rest : List Line}

theorem eq_nil (h : FinishesLast (l :: rest)) (hl : l.statement = .finish) : rest = [] := by
  cases rest with
  | nil => rfl
  | cons r rs => exact absurd hl (h l List.mem_cons_self)

theorem of_cons (h : FinishesLast (l :: rest)) : FinishesLast rest := by
  cases rest with
  | nil => exact fun _ hm ↦ absurd hm List.not_mem_nil
  | cons r rs => exact fun l' hl' ↦ h l' (List.mem_cons_of_mem l hl')

end FinishesLast

/-- Where the end of the tokens is all right, no line but the last ends the text. -/
theorem finishesLast_of_endFault? {lines : List Line} (hw : ∀ l ∈ lines, l.WellFormed)
    (h : endFault? (lines.flatMap Line.tokens) = none) : FinishesLast lines := by
  obtain ⟨hone, t, hlast, ht⟩ := endFault?_eq_none.mp h
  rw [List.countP_eq_length_filter, filter_isEnd_flatMap hw, List.length_map] at hone
  rcases List.eq_nil_or_concat lines with rfl | ⟨body, last, rfl⟩
  · cases hlast
  · rw [List.concat_eq_append] at *
    -- the only token that ends the text is in the last line, so there is none for the others
    have hmem : t ∈ last.tokens := by
      rw [List.flatMap_append, List.flatMap_singleton, List.getLast?_append,
        Option.or_eq_left_of_isSome (by simp [Line.tokens])] at hlast
      exact List.mem_of_getLast? hlast
    have hfinish : last.statement.isFinish := by
      by_contra hn
      have hnone := Line.filter_isEnd_tokens (hw last (by simp))
      rw [if_neg hn, List.filter_eq_nil_iff] at hnone
      exact hnone t hmem ht
    have hbody : body.filter (·.statement.isFinish) = [] := by
      rw [List.filter_append, List.length_append, List.filter_singleton, hfinish] at hone
      exact List.eq_nil_of_length_eq_zero (Nat.succ.inj hone)
    intro l hl hs
    rw [List.dropLast_concat] at hl
    rw [List.filter_eq_nil_iff] at hbody
    exact hbody l hl (by rw [hs]; rfl)

end BasicComputer
