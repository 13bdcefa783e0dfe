import BasicComputer.Proofs.Placement

/-!
# Which texts are assembled

A text is assembled if it can be read, if one token ends it and that token is the last one, and if
its lines meet six conditions. None of them mentions an address counter: what has to fit into memory
are the words in front of the next `ORG` or the end, once from the start of the text and once from
every `ORG`.

Every other text is rejected. Where several conditions fail, the error is the one of the condition
that comes first in a fixed order. The conditions of the first pass are an exception: there the
first line that breaks any of them decides, and only then the order.

## Counting words instead of running a counter

Whether everything fits is said by lengths of lists: of the words up to the next `ORG`, and of those
from each `ORG` on. This can be checked by hand on a text, and it does not depend on where a pass
would stop. A counter that is never beyond the end of memory in front of a word comes to the same.

## Precedence as a list

The faults that a text can have are listed in the order in which they win, and the one that is
reported is the first in the list that is there. That the text is accepted if there is none, and the
error otherwise, are then two readings of one equation.
-/

namespace BasicComputer

/-! ## Room -/

/-- The lines with words in front of the next `ORG` or the end. -/
def segment (lines : List Line) : List Line := lines.takeWhile (·.statement.emits)

theorem segment_of_emits {l : Line} (h : l.statement.emits) (rest : List Line) :
    segment (l :: rest) = l :: segment rest := by
  rw [segment, List.takeWhile_cons, h]
  rfl

theorem segment_of_not_emits {l : Line} (h : l.statement.emits = false) (rest : List Line) :
    segment (l :: rest) = [] := by
  rw [segment, List.takeWhile_cons, h]
  rfl

/-- Whether the words behind every `ORG` fit into memory. -/
def FitsOrigins (lines : List Line) : Prop :=
  ∀ before l after, lines = before ++ l :: after →
    ∀ start, l.origin? = some start → start + (segment after).length ≤ memorySize

theorem fitsOrigins_cons {l : Line} {rest : List Line} :
    FitsOrigins (l :: rest) ↔
      (∀ start, l.origin? = some start → start + (segment rest).length ≤ memorySize) ∧
        FitsOrigins rest := by
  constructor
  · intro h
    refine ⟨h [] l rest rfl, fun before l' after hsplit ↦ h (l :: before) l' after ?_⟩
    rw [hsplit, List.cons_append]
  · rintro ⟨hl, hrest⟩ before l' after hsplit
    rcases List.cons_eq_append_iff.mp hsplit with ⟨rfl, hcons⟩ | ⟨before', rfl, hrest'⟩
    · cases hcons
      exact hl
    · exact hrest before' l' after hrest'

section Map

variable {f : Line → Line} (hemits : ∀ l, (f l).statement.emits = l.statement.emits)

include hemits

theorem length_segment_map (lines : List Line) :
    (segment (lines.map f)).length = (segment lines).length := by
  rw [segment, List.takeWhile_map, List.length_map, segment]
  exact congrArg (fun p ↦ (lines.takeWhile p).length) (funext hemits)

theorem fitsOrigins_map (horigin : ∀ l, (f l).origin? = l.origin?) {lines : List Line} :
    FitsOrigins (lines.map f) ↔ FitsOrigins lines := by
  induction lines with
  | nil => rfl
  | cons l rest ih =>
    rw [List.map_cons, fitsOrigins_cons, fitsOrigins_cons, ih, horigin, length_segment_map hemits]

end Map

theorem Line.overflow?_eq_none_iff {before : List Line} {l : Line} (h : l.statement.emits) :
    l.overflow? before = none ↔ addressAfter before < memorySize := by
  rw [overflow?]
  by_cases hover : memorySize ≤ addressAfter before
  · rw [if_pos ⟨h, hover⟩]
    exact iff_of_false (Option.some_ne_none _) (by omega)
  · rw [if_neg fun hboth ↦ hover hboth.2]
    exact iff_of_true rfl (by omega)

/-- No word is beyond the end of memory if the words in front of the first `ORG` fit behind the
address where the text starts, and the others behind theirs. -/
theorem overflow?_eq_none_iff {before lines : List Line} (hstart : addressAfter before ≤ memorySize)
    (horigins : ∀ l ∈ lines, l.badOrigin? = none) (hfinish : FinishesLast lines) :
    (∀ c ∈ contexts before lines, c.2.overflow? c.1 = none) ↔
      addressAfter before + (segment lines).length ≤ memorySize ∧ FitsOrigins lines := by
  induction lines generalizing before with
  | nil => simpa [contexts, segment, FitsOrigins] using hstart
  | cons l rest ih =>
    rw [List.forall_mem_cons] at horigins
    rw [contexts, List.forall_mem_cons, fitsOrigins_cons]
    rcases l.origin_or_finish_or_emits with ⟨value, hl⟩ | hl | hl
    · -- the segment in front of an `ORG` is over, and the one behind it starts in memory
      have ho : l.origin? = some (Numeral.value 16 value.text.toList) := by rw [Line.origin?, hl]
      have hvalue : Numeral.value 16 value.text.toList ≤ 0xFFF := by
        by_contra hge
        rw [Line.badOrigin?_of_origin hl, if_pos (by omega)] at horigins
        cases horigins.1
      have hbehind : addressAfter (before ++ [l]) ≤ memorySize := by
        rw [addressAfter_of_origin ho, memorySize]
        omega
      have hemits : l.statement.emits = false := by rw [hl]; rfl
      rw [l.overflow?_of_not_emits before hemits, segment_of_not_emits hemits,
        ih hbehind horigins.2 hfinish.of_cons, addressAfter_of_origin ho, ho]
      simpa using fun _ _ ↦ hstart
    · obtain rfl := hfinish.eq_nil hl
      have ho : l.origin? = none := by rw [Line.origin?, hl]
      have hemits : l.statement.emits = false := by rw [hl]; rfl
      rw [l.overflow?_of_not_emits before hemits, segment_of_not_emits hemits, ho]
      simpa [contexts, FitsOrigins] using hstart
    · have ho : l.origin? = none := Line.origin?_of_emits hl
      rw [Line.overflow?_eq_none_iff hl, segment_of_emits hl, List.length_cons]
      -- one word less has to fit behind an address that is one greater
      by_cases hover : addressAfter before < memorySize
      · have hbehind : addressAfter (before ++ [l]) ≤ memorySize := by
          rw [addressAfter_of_emits hl]
          omega
        have hnone : ∀ start, l.origin? = some start →
            start + (segment rest).length ≤ memorySize := by
          intro start hstart'
          rw [ho] at hstart'
          cases hstart'
        rw [ih hbehind horigins.2 hfinish.of_cons, addressAfter_of_emits hl]
        constructor
        · rintro ⟨-, hroom, hfits⟩
          exact ⟨by omega, hnone, hfits⟩
        · rintro ⟨hroom, -, hfits⟩
          exact ⟨hover, by omega, hfits⟩
      · refine iff_of_false (fun h ↦ hover h.1) fun h ↦ hover ?_
        omega

/-! ## Names and numbers -/

theorem Line.mem_labelsOf {lines : List Line} {l : Line} (hl : l ∈ lines) {t : Token}
    (ht : t ∈ l.label) : t.text ∈ labelsOf lines := by
  refine List.mem_filterMap.mpr ⟨l, hl, ?_⟩
  rw [show l.label = some t from ht]
  rfl

/-- A name on a line is its label or stands in an operand. -/
theorem Line.mem_labelsOf_of_mem_tokens {lines : List Line} {l : Line} (hl : l ∈ lines)
    (hw : l.WellFormed)
    (h : ∀ t ∈ l.statement.operands, t.kind = .identifier → t.text ∈ labelsOf lines)
    {t : Token} (ht : t ∈ l.tokens) (hk : t.kind = .identifier) : t.text ∈ labelsOf lines := by
  rcases List.mem_append.mp ht with ht | ht
  · exact mem_labelsOf hl (Option.mem_toList.mp ht)
  · rcases List.mem_cons.mp ht with rfl | ht
    · have hhead := Token.kind_of_keyword? hw.head
      rw [hk] at hhead
      cases hhead
    · exact h t ht hk

/-- Labels need no label to refer to, so only operands can be undefined. -/
theorem undefined?_eq_none_iff {lines : List Line} (hw : ∀ l ∈ lines, l.WellFormed) :
    undefined? lines (lines.flatMap Line.tokens) = none ↔
      ∀ l ∈ lines, ∀ t ∈ l.statement.operands, t.kind = .identifier → t.text ∈ labelsOf lines := by
  have htokens : undefined? lines (lines.flatMap Line.tokens) = none ↔
      ∀ l ∈ lines, ∀ t ∈ l.tokens, t.kind = .identifier → t.text ∈ labelsOf lines := by
    rw [undefined?, Option.map_eq_none_iff, List.find?_eq_none]
    constructor
    · intro h l hl t ht hk
      simpa [hk] using h t (List.mem_flatMap.mpr ⟨l, hl, ht⟩)
    · intro h t ht
      obtain ⟨l, hl, ht⟩ := List.mem_flatMap.mp ht
      simpa using h l hl t ht
  rw [htokens]
  refine forall₂_congr fun l hl ↦ ⟨fun h t ht ↦ h t ?_, fun h t ↦ ?_⟩
  · exact List.mem_append_right _ (List.mem_cons_of_mem _ ht)
  · exact Line.mem_labelsOf_of_mem_tokens hl (hw l hl) h

theorem Line.literalFault?_eq_none_iff {l : Line} :
    l.literalFault? = none ↔
      ∀ radix value, l.statement = .datum radix value → radix.InRange value.text.toList := by
  unfold literalFault?
  cases l.statement with
  | datum radix value => simp
  | _ => simp

theorem Line.badOrigin?_eq_none_iff {l : Line} :
    l.badOrigin? = none ↔ ∀ start, l.origin? = some start → start ≤ 0xFFF := by
  unfold badOrigin? origin?
  cases l.statement with
  | origin value => simp
  | _ => simp

/-! ## Acceptance -/

/-- The conditions under which a text that can be read is assembled. -/
structure Acceptable (tokens : List Token) (lines : List Line) : Prop where
  /-- One token ends the text. -/
  one_end : tokens.countP Token.isEnd = 1
  /-- The last token does. -/
  end_last : ∃ t, tokens.getLast? = some t ∧ t.isEnd
  /-- Every `ORG` sets an address. -/
  origins : ∀ l ∈ lines, ∀ start, l.origin? = some start → start ≤ 0xFFF
  /-- No two lines have the same label. -/
  labels : (labelsOf lines).Nodup
  /-- The words in front of the first `ORG` fit into memory. -/
  start_fits : (segment lines).length ≤ memorySize
  /-- So do the words behind each `ORG`, from the address that it sets. -/
  origins_fit : FitsOrigins lines
  /-- Every name in an operand is a label, of a line before or after. -/
  names : ∀ l ∈ lines, ∀ t ∈ l.statement.operands, t.kind = .identifier → t.text ∈ labelsOf lines
  /-- Every number is in the range of its directive. -/
  numbers : ∀ l ∈ lines, ∀ radix value, l.statement = .datum radix value →
    radix.InRange value.text.toList

/-- What can be wrong with a text that can be read, in the order of precedence. -/
def faults (tokens : List Token) (lines : List Line) : List (Option SemanticError) :=
  [missingEnd? tokens, multipleEnd? tokens, endNotLast? tokens, misplacement? [] lines,
    undefined? lines tokens, lines.findSome? Line.literalFault?]

/-- The first thing that is wrong with a text. -/
def firstFault? (source : String) : Option AssemblyError :=
  match tokenize source with
  | .error e => some (.lexical e)
  | .ok tokens =>
    match parse tokens with
    | .error e => some (.grammatical e)
    | .ok lines => ((faults tokens lines).findSome? id).map .semantic

theorem findSome?_faults (tokens : List Token) (lines : List Line) :
    (faults tokens lines).findSome? id = (endFault? tokens).or (lineFault? tokens lines) := by
  have hcons (f : Option SemanticError) (fs : List (Option SemanticError)) :
      (f :: fs).findSome? id = f.or (fs.findSome? id) := by
    cases f <;> rfl
  rw [faults, hcons, hcons, hcons, hcons, hcons, hcons, List.findSome?_nil, endFault?, lineFault?]
  simp only [Option.or_assoc, Option.or_none]

/-- A text that can be read has no fault exactly if it meets all the conditions. -/
theorem acceptable_iff {tokens : List Token} {lines : List Line}
    (hparse : parse tokens = .ok lines) :
    Acceptable tokens lines ↔ (endFault? tokens).or (lineFault? tokens lines) = none := by
  obtain ⟨rfl, hw⟩ := parse_eq_ok hparse
  have hnil : (labelsOf []).Nodup := List.nodup_nil
  rw [Option.or_eq_none_iff, lineFault?, Option.or_eq_none_iff, Option.or_eq_none_iff,
    misplacement?_eq_none_iff, repeatedLabel?_eq_none_iff hnil, undefined?_eq_none_iff hw,
    List.findSome?_eq_none_iff]
  have hroom (hend : endFault? (lines.flatMap Line.tokens) = none)
      (horigins : ∀ l ∈ lines, l.badOrigin? = none) :
      (∀ c ∈ contexts [] lines, c.2.overflow? c.1 = none) ↔
        (segment lines).length ≤ memorySize ∧ FitsOrigins lines := by
    have hstart : addressAfter [] + (segment lines).length = (segment lines).length :=
      Nat.zero_add _
    rw [overflow?_eq_none_iff (Nat.zero_le _) horigins (finishesLast_of_endFault? hw hend), hstart]
  simp only [Line.literalFault?_eq_none_iff, List.nil_append]
  constructor
  · intro h
    have hend : endFault? (lines.flatMap Line.tokens) = none :=
      endFault?_eq_none.mpr ⟨h.one_end, h.end_last⟩
    have horigins : ∀ l ∈ lines, l.badOrigin? = none :=
      fun l hl ↦ Line.badOrigin?_eq_none_iff.mpr (h.origins l hl)
    have hover := (hroom hend horigins).mpr ⟨h.start_fits, h.origins_fit⟩
    exact ⟨hend, ⟨⟨horigins, h.labels, hover⟩, h.names⟩, h.numbers⟩
  · rintro ⟨hend, ⟨⟨horigins, hlabels, hover⟩, hnames⟩, hnumbers⟩
    obtain ⟨hone, hlast⟩ := endFault?_eq_none.mp hend
    obtain ⟨hstart, hfits⟩ := (hroom hend horigins).mp hover
    exact {
      one_end := hone
      end_last := hlast
      origins := fun l hl ↦ Line.badOrigin?_eq_none_iff.mp (horigins l hl)
      labels := hlabels
      start_fits := hstart
      origins_fit := hfits
      names := hnames
      numbers := hnumbers }

/-- A text that is read as acceptable lines is assembled, to what the lines leave behind. -/
theorem assemble_of_acceptable {source : String} {tokens : List Token} {lines : List Line}
    (htokens : tokenize source = .ok tokens) (hparse : parse tokens = .ok lines)
    (h : Acceptable tokens lines) :
    (assemble source).outcome = .ok (.ofEmissions (effectsOf lines)) ∧
      (assemble source).symbols = symbolsOf lines := by
  have hcases := assemble_of_lines htokens hparse
  rw [(acceptable_iff hparse).mp h] at hcases
  exact hcases

theorem acceptable_of_assemble {source : String} {program : Program}
    (h : (assemble source).outcome = .ok program) :
    ∃ tokens lines, tokenize source = .ok tokens ∧ parse tokens = .ok lines ∧
      Acceptable tokens lines := by
  obtain ⟨tokens, lines, ht, hp, hend, hfault, -⟩ := assemble_eq_ok h
  refine ⟨tokens, lines, ht, hp, (acceptable_iff hp).mpr ?_⟩
  rw [hend, hfault]
  rfl

theorem firstFault?_eq_none_iff {source : String} :
    firstFault? source = none ↔
      ∃ tokens lines, tokenize source = .ok tokens ∧ parse tokens = .ok lines ∧
        Acceptable tokens lines := by
  rw [firstFault?]
  rcases ht : tokenize source with e | tokens
  · simp
  dsimp only
  rcases hp : parse tokens with e | lines
  · simp [hp]
  dsimp only
  rw [Option.map_eq_none_iff, findSome?_faults, ← acceptable_iff hp]
  constructor
  · exact fun h ↦ ⟨tokens, lines, rfl, hp, h⟩
  · rintro ⟨tokens', lines', ht', hp', h⟩
    cases ht'
    rw [hp] at hp'
    cases hp'
    exact h

/-- Assembly reports the first thing that is wrong with a text, and gives a program if there is no
such thing. -/
theorem outcome_eq (source : String) :
    match firstFault? source with
    | some e => (assemble source).outcome = .error e
    | none => ∃ p, (assemble source).outcome = .ok p := by
  rw [firstFault?]
  rcases ht : tokenize source with e | tokens
  · exact outcome_of_lexError ht
  dsimp only
  rcases hp : parse tokens with e | lines
  · exact outcome_of_syntaxError ht hp
  have hcases := assemble_of_lines ht hp
  dsimp only
  rw [findSome?_faults]
  rcases hf : (endFault? tokens).or (lineFault? tokens lines) with _ | e
  · rw [hf] at hcases
    exact ⟨_, hcases.1⟩
  · rw [hf] at hcases
    exact hcases

/-- **Acceptance and rejection.** A text is assembled exactly if it can be read and is acceptable,
and the error for any other text is the first thing that is wrong with it. -/
theorem assemble_accepts_iff (source : String) :
    ((∃ p, (assemble source).outcome = .ok p) ↔
      ∃ tokens lines, tokenize source = .ok tokens ∧ parse tokens = .ok lines ∧
        Acceptable tokens lines) ∧
    ∀ e, (assemble source).outcome = .error e ↔ firstFault? source = some e := by
  rw [← firstFault?_eq_none_iff]
  have houtcome := outcome_eq source
  cases hf : firstFault? source with
  | none =>
    rw [hf] at houtcome
    obtain ⟨p, hp⟩ := houtcome
    rw [hp]
    exact ⟨⟨fun _ ↦ rfl, fun _ ↦ ⟨p, rfl⟩⟩, fun e ↦ by simp⟩
  | some fault =>
    rw [hf] at houtcome
    dsimp only at houtcome
    rw [houtcome]
    exact ⟨by simp, fun e ↦ by simp⟩

end BasicComputer
