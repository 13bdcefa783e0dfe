import BasicComputer.Proofs.Grammar
import Mathlib.Data.List.Nodup

/-!
# Where words go

The address of a line can be said without a counter. It is the value of the nearest `ORG` above it,
or zero if there is none, plus the number of lines since then that emit a word. Nothing else above
the line matters.

The first pass over the lines keeps a counter all the same. As long as it refuses no line, the
counter in front of a line is the line's address, and the symbol table gets what the label of the
line should stand for. The line it refuses, if it refuses one, is the first that cannot be placed
behind the lines before it; whether a line can be is again a matter of addresses and labels, not of
the counter.

## Contexts

What can be said of a line often depends on the lines above it. So a text is taken as the list of
its lines, each together with all lines above, and properties of a text are properties of members of
this list. The induction over a text is on what is left of it, with what has been passed as a
parameter, and every statement about contexts is made for an arbitrary start.

## What a refusal leaves

A pass that fails has done something before, and has reported it. Labels are reported as they are
defined, so a refused text leaves the labels in front of the refused line, and this is part of what
is shown of the first pass.
-/

namespace BasicComputer

/-! ## Addresses -/

namespace Statement

def isOperation : Statement → Bool
  | memory _ _ _ | register _ | io _ => true
  | origin _ | datum _ _ | finish => false

/-- Whether a statement gives a word as a number. -/
def isDatum : Statement → Bool
  | datum _ _ => true
  | memory _ _ _ | register _ | io _ | origin _ | finish => false

/-- Whether a statement emits a word. -/
def emits (s : Statement) : Bool := s.isOperation || s.isDatum

end Statement

/-- The value that an `ORG` sets. -/
def Line.origin? (l : Line) : Option Nat :=
  match l.statement with
  | .origin value => some (Numeral.value 16 value.text.toList)
  | _ => none

/-- The value of the last `ORG` among lines, or zero if there is none. -/
def baseOf (before : List Line) : Nat := (before.reverse.findSome? Line.origin?).getD 0

/-- The lines behind the last `ORG` among lines, the nearest first. -/
def sinceOrigin (before : List Line) : List Line :=
  before.reverse.takeWhile (·.origin?.isNone)

/-- The address of a line, given the lines before it. -/
def addressAfter (before : List Line) : Nat :=
  baseOf before + (sinceOrigin before).countP (·.statement.emits)

/-- Lines, each with all lines before it. The first of them come after `before`. -/
def contexts (before : List Line) : List Line → List (List Line × Line)
  | [] => []
  | l :: rest => (before, l) :: contexts (before ++ [l]) rest

/-- The lines of a text with their addresses. -/
def placed (lines : List Line) : List (Nat × Line) :=
  (contexts [] lines).map fun c ↦ (addressAfter c.1, c.2)

/-- What a label on a line at `address` stands for: an `ORG` names the address it sets. -/
def Line.labelValue (l : Line) (address : Nat) : Nat := l.origin?.getD address

/-- The label of a line and what it stands for. -/
def Line.definition? (l : Line) (address : Nat) : Option (String × Nat) :=
  l.label.map fun t ↦ (t.text, l.labelValue address)

/-- The labels of lines. -/
def labelsOf (lines : List Line) : List String := lines.filterMap fun l ↦ l.label.map (·.text)

/-! ## Walking down a text -/

theorem map_snd_contexts (before lines : List Line) :
    (contexts before lines).map Prod.snd = lines := by
  induction lines generalizing before with
  | nil => rfl
  | cons l rest ih => rw [contexts, List.map_cons, ih]

theorem mem_of_mem_contexts {before lines : List Line} {c : List Line × Line}
    (hc : c ∈ contexts before lines) {l : Line} (hl : l ∈ c.1) : l ∈ before ++ lines := by
  induction lines generalizing before with
  | nil => exact absurd hc List.not_mem_nil
  | cons l' rest ih =>
    rcases List.mem_cons.mp hc with rfl | hc
    · exact List.mem_append_left _ hl
    · rw [List.append_cons]
      exact ih hc

theorem contexts_cons (first : Line) (before lines : List Line) :
    contexts (first :: before) lines =
      (contexts before lines).map fun c ↦ (first :: c.1, c.2) := by
  induction lines generalizing before with
  | nil => rfl
  | cons l rest ih => rw [contexts, contexts, List.map_cons, ← ih, List.cons_append]

theorem contexts_map (f : Line → Line) (before lines : List Line) :
    contexts (before.map f) (lines.map f) =
      (contexts before lines).map fun c ↦ (c.1.map f, f c.2) := by
  induction lines generalizing before with
  | nil => rfl
  | cons l rest ih =>
    rw [List.map_cons, contexts, contexts, List.map_cons, ← ih, List.map_append, List.map_singleton]

theorem contexts_append (before lines more : List Line) :
    contexts before (lines ++ more) = contexts before lines ++ contexts (before ++ lines) more := by
  induction lines generalizing before with
  | nil => rw [List.nil_append, List.append_nil]; rfl
  | cons l rest ih =>
    rw [List.cons_append, contexts, contexts, ih, List.append_assoc, List.singleton_append]
    rfl

/-- What comes before a line with its context are the lines of that context. -/
theorem eq_of_contexts_eq_append {before lines : List Line}
    {earlier later : List (List Line × Line)} {c : List Line × Line}
    (h : contexts before lines = earlier ++ c :: later) :
    ∃ head, c.1 = before ++ head ∧ earlier = contexts before head := by
  induction earlier generalizing before lines with
  | nil =>
    rcases lines with _ | ⟨l, rest⟩
    · cases h
    · cases h
      exact ⟨[], (List.append_nil before).symm, rfl⟩
  | cons d earlier ih =>
    rcases lines with _ | ⟨l, rest⟩
    · cases h
    · rw [contexts, List.cons_append, List.cons.injEq] at h
      obtain ⟨head, hcontext, hearlier⟩ := ih h.2
      refine ⟨l :: head, ?_, ?_⟩
      · rw [hcontext, List.append_assoc, List.singleton_append]
      · rw [contexts, ← h.1, hearlier]

theorem map_snd_placed (lines : List Line) : (placed lines).map Prod.snd = lines := by
  rw [placed, List.map_map]
  exact map_snd_contexts [] lines

theorem addressAfter_of_origin {before : List Line} {l : Line} {start : Nat}
    (h : l.origin? = some start) : addressAfter (before ++ [l]) = start := by
  simp [addressAfter, baseOf, sinceOrigin, h]

theorem Line.origin?_of_emits {l : Line} (h : l.statement.emits) : l.origin? = none := by
  unfold origin?
  split
  next heq =>
    rw [heq] at h
    cases h
  next => rfl

theorem addressAfter_of_origin?_eq_none {before : List Line} {l : Line} (h : l.origin? = none) :
    addressAfter (before ++ [l]) = addressAfter before + if l.statement.emits then 1 else 0 := by
  have hbase : baseOf (before ++ [l]) = baseOf before := by simp [baseOf, h]
  have hsince : sinceOrigin (before ++ [l]) = l :: sinceOrigin before := by simp [sinceOrigin, h]
  rw [addressAfter, hbase, hsince, List.countP_cons, addressAfter, Nat.add_assoc]

theorem addressAfter_of_emits {before : List Line} {l : Line} (h : l.statement.emits) :
    addressAfter (before ++ [l]) = addressAfter before + 1 := by
  rw [addressAfter_of_origin?_eq_none (Line.origin?_of_emits h), if_pos h]

section Map

variable {f : Line → Line} (horigin : ∀ l, (f l).origin? = l.origin?)
  (hemits : ∀ l, (f l).statement.emits = l.statement.emits)

include horigin hemits

theorem addressAfter_map (before : List Line) :
    addressAfter (before.map f) = addressAfter before := by
  rw [addressAfter, baseOf, sinceOrigin, ← List.map_reverse, List.findSome?_map,
    List.takeWhile_map, List.countP_map]
  have hbase : Line.origin? ∘ f = Line.origin? := funext horigin
  have hsince : (fun l : Line ↦ l.origin?.isNone) ∘ f = fun l ↦ l.origin?.isNone :=
    funext fun l ↦ congrArg Option.isNone (horigin l)
  have hwords : (fun l : Line ↦ l.statement.emits) ∘ f = fun l ↦ l.statement.emits :=
    funext hemits
  rw [hbase, hsince, hwords, addressAfter, baseOf, sinceOrigin]

theorem placed_map (lines : List Line) :
    placed (lines.map f) = (placed lines).map fun p ↦ (p.1, f p.2) := by
  have hcontexts := contexts_map f [] lines
  rw [List.map_nil] at hcontexts
  rw [placed, placed, hcontexts, List.map_map, List.map_map]
  refine List.map_congr_left fun c _ ↦ ?_
  rw [Function.comp_apply, Function.comp_apply, addressAfter_map horigin hemits]

end Map

theorem labelsOf_append_singleton (before : List Line) (l : Line) :
    labelsOf (before ++ [l]) = labelsOf before ++ l.label.toList.map (·.text) := by
  rw [labelsOf, List.filterMap_append, ← labelsOf]
  cases h : l.label <;> simp [h]

/-- A line moves the counter to a given value, ends the text, or emits a word. -/
theorem Line.origin_or_finish_or_emits (l : Line) :
    (∃ value, l.statement = .origin value) ∨ l.statement = .finish ∨ l.statement.emits := by
  cases l.statement with
  | origin value => exact .inl ⟨value, rfl⟩
  | finish => exact .inr (.inl rfl)
  | memory _ _ _ => exact .inr (.inr rfl)
  | register _ => exact .inr (.inr rfl)
  | io _ => exact .inr (.inr rfl)
  | datum _ _ => exact .inr (.inr rfl)

/-! ## Lines that cannot be placed -/

namespace Line

/-- An `ORG` beyond the end of memory. -/
def badOrigin? (l : Line) : Option SemanticError :=
  match l.statement with
  | .origin value =>
    if 0xFFF < Numeral.value 16 value.text.toList then
      some (value.faults (.originOutOfRange value.text))
    else none
  | _ => none

/-- A label that an earlier line has already. -/
def repeatedLabel? (before : List Line) (l : Line) : Option SemanticError :=
  match l.label with
  | some t => if t.text ∈ labelsOf before then some (t.faults (.duplicateLabel t.text)) else none
  | none => none

def overflow? (before : List Line) (l : Line) : Option SemanticError :=
  if l.statement.emits ∧ memorySize ≤ addressAfter before then
    some (l.head.faults .addressOverflow)
  else none

/-- Why a line cannot be placed behind the lines before it. The address that an `ORG` sets comes
before its label, and a label before the word that the line emits. -/
def misplacement? (before : List Line) (l : Line) : Option SemanticError :=
  (l.badOrigin?.or (l.repeatedLabel? before)).or (l.overflow? before)

end Line

namespace Line

variable {l : Line} {value : Token}

theorem badOrigin?_of_origin (h : l.statement = .origin value) :
    l.badOrigin? =
      if 0xFFF < Numeral.value 16 value.text.toList then
        some (value.faults (.originOutOfRange value.text))
      else none := by
  rw [badOrigin?, h]

theorem badOrigin?_of_origin?_eq_none (h : l.origin? = none) : l.badOrigin? = none := by
  unfold origin? at h
  unfold badOrigin?
  split at h
  next => cases h
  next => rfl

theorem overflow?_of_not_emits (before : List Line) (h : l.statement.emits = false) :
    l.overflow? before = none := by
  rw [overflow?, h]
  simp

end Line

/-- What is wrong with the first line that cannot be placed. -/
def misplacement? (before lines : List Line) : Option SemanticError :=
  (contexts before lines).findSome? fun c ↦ c.2.misplacement? c.1

/-! ## The first pass -/

theorem lookup_of_mem {α β : Type} [BEq α] [LawfulBEq α] {table : List (α × β)}
    (hnodup : (table.map Prod.fst).Nodup) {key : α} {value : β} (h : (key, value) ∈ table) :
    table.lookup key = some value := by
  obtain ⟨earlier, later, rfl⟩ := List.append_of_mem h
  rw [List.map_append, List.nodup_append] at hnodup
  rw [List.lookup_eq_some_iff]
  refine ⟨earlier, later, rfl, ?_⟩
  -- nothing in front of the entry has the same key, so the lookup gets this far
  intro entry hentry
  have hne := hnodup.2.2 entry.1 (List.mem_map_of_mem hentry) key (by simp)
  rw [bne_iff_ne]
  exact hne.symm

namespace SymbolTable

theorem contains_iff (table : SymbolTable) (label : String) :
    table.contains label ↔ label ∈ table.entries.map Prod.fst := by
  rw [contains, lookup?, List.lookup_isSome_iff]
  simp only [List.mem_map, beq_iff_eq]
  exact exists_congr fun _ ↦ and_congr_right fun _ ↦ eq_comm

end SymbolTable

namespace Labelling

/-- What is left when further labels have been defined and reported. -/
def append (labels : Labelling) (definitions : List (String × Nat)) : Labelling where
  symbols := ⟨labels.symbols.entries ++ definitions⟩
  entries := labels.entries ++ definitions.map labelEntry

theorem append_nil (labels : Labelling) : labels.append [] = labels := by
  rw [append, List.append_nil, List.map_nil, List.append_nil]

theorem append_append (labels : Labelling) (ds ds' : List (String × Nat)) :
    (labels.append ds).append ds' = labels.append (ds ++ ds') := by
  simp only [append, List.append_assoc, List.map_append]

/-- A label is defined and reported in one go, or not at all. -/
theorem define_eq (labels : Labelling) (label : Token) (address : Nat) :
    labels.define label address =
      if labels.symbols.contains label.text then
        .error (label.faults (.duplicateLabel label.text))
      else .ok (labels.append [(label.text, address)]) := rfl

theorem defineLabel_eq {labels : Labelling} {before : List Line} (l : Line) (address : Nat)
    (h : labels.symbols.entries.map Prod.fst = labelsOf before) :
    labels.defineLabel l.label address =
      match l.repeatedLabel? before with
      | some e => .error e
      | none => .ok (labels.append (l.label.toList.map fun t ↦ (t.text, address))) := by
  cases hl : l.label with
  | none => simp [defineLabel, append_nil, Line.repeatedLabel?, hl]
  | some t =>
    have hiff : labels.symbols.contains t.text ↔ t.text ∈ labelsOf before := by
      rw [← h, SymbolTable.contains_iff]
    by_cases ht : t.text ∈ labelsOf before
    · simp [defineLabel, define_eq, Line.repeatedLabel?, hl, ht, hiff.mpr ht]
    · have hc : ¬labels.symbols.contains t.text := fun hc ↦ ht (hiff.mp hc)
      simp [defineLabel, define_eq, Line.repeatedLabel?, hl, ht, hc]

end Labelling

/-- What the labels of a text stand for, in order. -/
def definitions (before lines : List Line) : List (String × Nat) :=
  (contexts before lines).filterMap fun c ↦ c.2.definition? (addressAfter c.1)

theorem misplacement?_cons (before : List Line) (l : Line) (rest : List Line) :
    misplacement? before (l :: rest) =
      (l.misplacement? before).or (misplacement? (before ++ [l]) rest) := by
  rw [misplacement?, contexts, List.findSome?_cons]
  cases l.misplacement? before <;> rfl

theorem definitions_cons (before : List Line) (l : Line) (rest : List Line) :
    definitions before (l :: rest) =
      (l.label.toList.map fun t ↦ (t.text, l.labelValue (addressAfter before))) ++
        definitions (before ++ [l]) rest := by
  rw [definitions, contexts, List.filterMap_cons]
  cases h : l.label <;> simp [Line.definition?, h, definitions]

theorem map_fst_definitions (before lines : List Line) :
    (definitions before lines).map Prod.fst = labelsOf lines := by
  induction lines generalizing before with
  | nil => rfl
  | cons l rest ih =>
    rw [definitions_cons, List.map_append, ih, labelsOf, labelsOf, List.filterMap_cons]
    cases l.label <;> rfl

theorem originValue_eq (t : Token) :
    originValue t =
      if 0xFFF < Numeral.value 16 t.text.toList then .error (t.faults (.originOutOfRange t.text))
      else .ok (Numeral.value 16 t.text.toList) := by
  rw [originValue, memorySize]
  by_cases h : 0xFFF < Numeral.value 16 t.text.toList
  · rw [if_pos h]
    exact if_neg (by omega)
  · rw [if_neg h]
    exact if_pos (by omega)

section Layout

variable {l : Line} {rest : List Line} {labels : Labelling} {location : Nat}

theorem layout_of_emits (h : l.statement.emits) :
    layout location labels (l :: rest) =
      match labels.defineLabel l.label location with
      | .error e => (labels, .error e)
      | .ok labels =>
        match nextLocation location l.head with
        | .error e => (labels, .error e)
        | .ok next => layout next labels rest := by
  rw [layout]
  split
  next heq =>
    rw [heq] at h
    cases h
  next heq =>
    rw [heq] at h
    cases h
  next => rfl

/-- The first pass fails at the first line that cannot be placed, and gives every label its address
if there is no such line. -/
theorem layout_eq {before : List Line}
    (hlabels : labels.symbols.entries.map Prod.fst = labelsOf before)
    (hfinish : FinishesLast rest) :
    match misplacement? before rest with
    | some e => (layout (addressAfter before) labels rest).2 = .error e
    | none => layout (addressAfter before) labels rest =
        (labels.append (definitions before rest), .ok ()) := by
  induction rest generalizing before labels with
  | nil => simp [misplacement?, definitions, contexts, layout, Labelling.append_nil]
  | cons l rest ih =>
    have hlabels' (address : Nat) :
        (labels.append (l.label.toList.map fun t ↦ (t.text, address))).symbols.entries.map Prod.fst
          = labelsOf (before ++ [l]) := by
      rw [Labelling.append, List.map_append, hlabels, labelsOf_append_singleton, List.map_map]
      rfl
    rw [misplacement?_cons, Line.misplacement?, definitions_cons, ← Labelling.append_append]
    -- the counter is the address in front of the line; what is left is that it is behind it, too
    rcases l.origin_or_finish_or_emits with ⟨value, hl⟩ | hl | hl
    · have ho : l.origin? = some (Numeral.value 16 value.text.toList) := by rw [Line.origin?, hl]
      rw [Line.overflow?_of_not_emits before (by rw [hl]; rfl), Line.badOrigin?_of_origin hl,
        layout, hl]
      dsimp only
      by_cases hb : 0xFFF < Numeral.value 16 value.text.toList
      · rw [if_pos hb, originValue_eq, if_pos hb]
        rfl
      · rw [if_neg hb, originValue_eq, if_neg hb]
        dsimp only
        rw [Labelling.defineLabel_eq l _ hlabels]
        cases hr : l.repeatedLabel? before with
        | some e => rfl
        | none =>
          have h := ih (hlabels' (l.labelValue (addressAfter before))) hfinish.of_cons
          rw [addressAfter_of_origin ho, Line.labelValue, ho] at h
          rw [Line.labelValue, ho]
          exact h
    · have ho : l.origin? = none := by rw [Line.origin?, hl]
      rw [Line.overflow?_of_not_emits before (by rw [hl]; rfl),
        Line.badOrigin?_of_origin?_eq_none ho, layout, hl]
      dsimp only
      rw [Labelling.defineLabel_eq l _ hlabels, hfinish.eq_nil hl,
        Line.labelValue, ho]
      cases hr : l.repeatedLabel? before with
      | some e => rfl
      | none => simp [misplacement?, definitions, contexts, Labelling.append_nil]
    · have ho : l.origin? = none := Line.origin?_of_emits hl
      rw [Line.badOrigin?_of_origin?_eq_none ho, layout_of_emits hl,
        Labelling.defineLabel_eq l _ hlabels]
      cases hr : l.repeatedLabel? before with
      | some e => rfl
      | none =>
        dsimp only
        by_cases hov : memorySize ≤ addressAfter before
        · rw [Line.overflow?, if_pos ⟨hl, hov⟩, nextLocation, if_neg (by omega)]
          rfl
        · have h := ih (hlabels' (l.labelValue (addressAfter before))) hfinish.of_cons
          rw [Line.overflow?, if_neg (fun h ↦ hov h.2), nextLocation, if_pos (by omega)]
          rw [addressAfter_of_emits hl, Line.labelValue, ho] at h
          rw [Line.labelValue, ho]
          exact h

end Layout

/-! ## Texts whose lines can be placed -/

theorem misplacement?_eq_none_iff {before lines : List Line} :
    misplacement? before lines = none ↔
      (∀ l ∈ lines, l.badOrigin? = none) ∧
      (∀ c ∈ contexts before lines, c.2.repeatedLabel? c.1 = none) ∧
      ∀ c ∈ contexts before lines, c.2.overflow? c.1 = none := by
  induction lines generalizing before with
  | nil => simp [misplacement?, contexts]
  | cons l rest ih =>
    rw [misplacement?_cons, Option.or_eq_none_iff, ih, Line.misplacement?, Option.or_eq_none_iff,
      Option.or_eq_none_iff, contexts]
    simp only [List.forall_mem_cons]
    tauto

theorem Line.repeatedLabel?_eq_none_iff {before : List Line} (l : Line)
    (h : (labelsOf before).Nodup) :
    l.repeatedLabel? before = none ↔ (labelsOf (before ++ [l])).Nodup := by
  rw [labelsOf_append_singleton]
  unfold repeatedLabel?
  cases l.label with
  | none => simp [h]
  | some t =>
    have hiff : (labelsOf before ++ [t.text]).Nodup ↔ t.text ∉ labelsOf before := by
      rw [← List.concat_eq_append, List.nodup_concat]
      exact and_iff_left h
    simpa using hiff.symm

/-- No line has the label of an earlier one if all labels are different. -/
theorem repeatedLabel?_eq_none_iff {before lines : List Line} (h : (labelsOf before).Nodup) :
    (∀ c ∈ contexts before lines, c.2.repeatedLabel? c.1 = none) ↔
      (labelsOf (before ++ lines)).Nodup := by
  induction lines generalizing before with
  | nil => simpa [contexts] using h
  | cons l rest ih =>
    have hcons : before ++ l :: rest = before ++ [l] ++ rest := by simp
    rw [contexts, List.forall_mem_cons, l.repeatedLabel?_eq_none_iff h, hcons]
    by_cases hl : (labelsOf (before ++ [l])).Nodup
    · rw [ih hl]
      exact and_iff_right hl
    · -- a label repeated here is still repeated in the whole text
      refine iff_of_false (fun hall ↦ hl hall.1) fun hnodup ↦ hl ?_
      rw [labelsOf, List.filterMap_append] at hnodup
      exact (List.nodup_append.mp hnodup).1

end BasicComputer
