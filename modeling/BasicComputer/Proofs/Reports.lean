import BasicComputer.Proofs.Placement
import BasicComputer.Proofs.WrittenNumbers

/-!
# Reports of assembly

Assembly stops at the first thing that is wrong, so how much of a text it reports on depends on the
text. What is reported has the same shape all the same: how many tokens and lines there are, then
the labels, then the effects of the lines, then a verdict. Where assembly stops early, what would
come later is missing, and only the verdict is always there.

The parts can be told apart by looking at the entries alone. This makes the report a source of its
own: the labels it tells of are the symbol table, also after a failure, and it tells of an effect
only where every label has been given an address and every name is a label.

## One entry with each definition

The first pass tells of a label in the same step in which it puts it into the table. So what has
been told and what is in the table are two records of one sequence of events, and what is preserved
from step to step is that they agree. One step either adds a label to both or to neither. Nothing
has to be said of where the pass stops, as this holds at any point, and a text that is refused has
told of its labels up to there.

## Telling entries apart

Entries are text, with a sender and a severity. That one tells of a label can be seen from how its
text begins, and that no other entry begins like this has to be shown for each of the others. It is
done once for each kind, and a report is then sorted by filters.
-/

namespace BasicComputer

/-! ## Kinds of entries -/

namespace Entry

/-- Whether an entry says what came out. -/
def isVerdict (e : Entry) : Bool := e.level == .success || e.level == .error

/-- Whether an entry tells of the definition of a label. -/
def tellsLabel (e : Entry) : Bool :=
  e.context == .assembler && e.level == .info && "label ".toList.isPrefixOf e.message.toList

/-- Whether an entry tells of the effect of a line. -/
def tellsEffect (e : Entry) : Bool :=
  e.level == .info && (e.context == .directive || e.context == .assembler && !e.tellsLabel)

/-- Whether an entry tells how a text was read. -/
def tellsReading (e : Entry) : Bool :=
  e.level == .info && (e.context == .lexer || e.context == .parser)

variable {e : Entry}

theorem not_isVerdict_of_tellsReading (h : e.tellsReading) : e.isVerdict = false := by
  rcases e with ⟨context, level, message⟩
  cases level <;> simp_all [tellsReading, isVerdict]

theorem not_tellsLabel_of_tellsReading (h : e.tellsReading) : e.tellsLabel = false := by
  rcases e with ⟨context, level, message⟩
  cases context <;> simp_all [tellsReading, tellsLabel]

theorem not_tellsEffect_of_tellsReading (h : e.tellsReading) : e.tellsEffect = false := by
  rcases e with ⟨context, level, message⟩
  cases context <;> simp_all [tellsReading, tellsEffect]

end Entry

theorem tellsLabel_labelEntry (definition : String × Nat) : (labelEntry definition).tellsLabel := by
  have hmessage : (labelEntry definition).message =
      "label " ++ (definition.1 ++ (" = " ++ Numeral.hex 3 definition.2)) := by
    simp [labelEntry, Entry.info, String.append_assoc, toString]
  have hstart : "label ".toList.isPrefixOf (labelEntry definition).message.toList := by
    rw [hmessage, String.toList_append, List.isPrefixOf_iff_prefix]
    exact List.prefix_append _ _
  exact hstart

/-- What is told of an instruction begins with its address, and so with an upper-case digit. -/
theorem not_tellsLabel_instruction (i : Instruction) :
    (Emission.instruction i).entry.tellsLabel = false := by
  have hmessage : (Emission.instruction i).entry.message =
      Numeral.hex 3 i.origin ++ (": " ++ Numeral.hex 4 i.word.toNat ++ "  " ++ i.source) := by
    simp [Emission.entry, Entry.info, String.append_assoc, toString]
  have hdigits := Numeral.isHex_digits 3 i.origin
  have hstart :
      "label ".toList.isPrefixOf (Emission.instruction i).entry.message.toList = false := by
    rw [hmessage, String.toList_append, Numeral.hex, String.toList_ofList]
    rcases hcs : Numeral.digits 16 3 i.origin with _ | ⟨c, cs⟩
    · rw [hcs] at hdigits
      cases hdigits
    · rw [hcs, Numeral.isHex, Bool.and_eq_true, List.all_cons, Bool.and_eq_true] at hdigits
      have hc : c ≠ 'l' := by
        rintro rfl
        exact absurd hdigits.2.1 (by decide)
      have hne : ('l' == c) = false := beq_false_of_ne hc.symm
      simp [List.isPrefixOf, hne]
  rw [Entry.tellsLabel, hstart, Bool.and_false]

theorem Emission.tellsEffect_entry (effect : Emission) : effect.entry.tellsEffect := by
  rcases effect with location | _ | ⟨radix, d⟩ | i
  · rfl
  · rfl
  · rfl
  · have hlabel := not_tellsLabel_instruction i
    rw [Entry.tellsEffect, hlabel]
    rfl

theorem Emission.not_tellsLabel_entry (effect : Emission) : effect.entry.tellsLabel = false := by
  rcases effect with location | _ | ⟨radix, d⟩ | i
  · rfl
  · rfl
  · rfl
  · exact not_tellsLabel_instruction i

theorem Emission.not_isVerdict_entry (effect : Emission) : effect.entry.isVerdict = false := by
  rcases effect with location | _ | ⟨radix, d⟩ | i
  · rfl
  · rfl
  · rfl
  · rfl

theorem not_tellsEffect_labelEntry (definition : String × Nat) :
    (labelEntry definition).tellsEffect = false := by
  rw [Entry.tellsEffect, tellsLabel_labelEntry]
  rfl

/-! ## The labels that are left -/

namespace Labelling

variable {labels labels' : Labelling} {label : Option Token} {address : Nat}

theorem eq_append_of_defineLabel (h : labels.defineLabel label address = .ok labels') :
    labels' = labels.append (label.toList.map fun t ↦ (t.text, address)) := by
  rcases label with _ | t
  · cases h
    exact (append_nil labels).symm
  · rw [defineLabel, define_eq] at h
    split at h
    · cases h
    · cases h
      rfl

theorem nodup_of_defineLabel (hnodup : (labels.symbols.entries.map Prod.fst).Nodup)
    (h : labels.defineLabel label address = .ok labels') :
    (labels'.symbols.entries.map Prod.fst).Nodup := by
  rw [eq_append_of_defineLabel h, append]
  rcases label with _ | t
  · simpa using hnodup
  · rw [defineLabel, define] at h
    split at h
    · cases h
    · next hfree =>
      rw [SymbolTable.contains_iff] at hfree
      rw [List.map_append, Option.toList_some, List.map_singleton, List.map_singleton,
        ← List.concat_eq_append]
      exact List.nodup_concat _ _ |>.mpr ⟨hfree, hnodup⟩

end Labelling

section Layout

variable {before rest : List Line} {l : Line} {labels : Labelling}

/-- What the first pass makes of one line: it stops, with the label of the line or without, or it
goes on behind the line. -/
theorem layout_cons (before : List Line) (l : Line) (rest : List Line) (labels : Labelling) :
    (layout (addressAfter before) labels (l :: rest)).1 = labels ∨
    ∃ labels', labels.defineLabel l.label (l.labelValue (addressAfter before)) = .ok labels' ∧
      ((layout (addressAfter before) labels (l :: rest)).1 = labels' ∨
        layout (addressAfter before) labels (l :: rest) =
          layout (addressAfter (before ++ [l])) labels' rest) := by
  rcases l.origin_or_finish_or_emits with ⟨value, hl⟩ | hl | hl
  · have ho : l.origin? = some (Numeral.value 16 value.text.toList) := by rw [Line.origin?, hl]
    rw [layout, hl, Line.labelValue, ho, addressAfter_of_origin ho]
    dsimp only
    rw [originValue_eq]
    split
    · exact .inl rfl
    · next start hstart =>
      split at hstart
      · cases hstart
      · cases hstart
        rw [Option.getD_some]
        rcases labels.defineLabel l.label (Numeral.value 16 value.text.toList) with e | labels'
        · exact .inl rfl
        · exact .inr ⟨labels', rfl, .inr rfl⟩
  · have ho : l.origin? = none := by rw [Line.origin?, hl]
    rw [layout, hl, Line.labelValue, ho, Option.getD_none]
    dsimp only
    rcases labels.defineLabel l.label (addressAfter before) with e | labels'
    · exact .inl rfl
    · exact .inr ⟨labels', rfl, .inl rfl⟩
  · have ho : l.origin? = none := Line.origin?_of_emits hl
    rw [layout_of_emits hl, Line.labelValue, ho, Option.getD_none, addressAfter_of_emits hl]
    rcases labels.defineLabel l.label (addressAfter before) with e | labels'
    · exact .inl rfl
    · refine .inr ⟨labels', rfl, ?_⟩
      dsimp only
      rw [nextLocation]
      split
      · next e he =>
        exact .inl rfl
      · next next hnext =>
        split at hnext
        · cases hnext
          exact .inr rfl
        · cases hnext

/-- However far the first pass gets, it has defined the labels at the beginning of the lines, and
has reported each of them. -/
theorem exists_layout_eq_append (before rest : List Line) (labels : Labelling) :
    ∃ defined, (layout (addressAfter before) labels rest).1 = labels.append defined ∧
      defined <+: definitions before rest := by
  induction rest generalizing before labels with
  | nil => exact ⟨[], labels.append_nil.symm, List.nil_prefix⟩
  | cons l rest ih =>
    rw [definitions_cons]
    rcases layout_cons before l rest labels with h | ⟨labels', hdefine, h | h⟩
    · exact ⟨[], h.trans labels.append_nil.symm, List.nil_prefix⟩
    · rw [h]
      exact ⟨_, Labelling.eq_append_of_defineLabel hdefine, List.prefix_append _ _⟩
    · obtain ⟨defined, hdefined, hprefix⟩ := ih (before ++ [l]) labels'
      rw [h, hdefined, Labelling.eq_append_of_defineLabel hdefine, Labelling.append_append]
      exact ⟨_, rfl, (List.prefix_append_right_inj _).mpr hprefix⟩

theorem nodup_layout (before rest : List Line)
    (hnodup : (labels.symbols.entries.map Prod.fst).Nodup) :
    ((layout (addressAfter before) labels rest).1.symbols.entries.map Prod.fst).Nodup := by
  induction rest generalizing before labels with
  | nil => exact hnodup
  | cons l rest ih =>
    rcases layout_cons before l rest labels with h | ⟨labels', hdefine, h | h⟩
    · rw [h]
      exact hnodup
    · rw [h]
      exact Labelling.nodup_of_defineLabel hnodup hdefine
    · rw [h]
      exact ih (before ++ [l]) (Labelling.nodup_of_defineLabel hnodup hdefine)

/-- From the first line on, what has been reported are the labels in the table, also where a line
could not be placed. -/
theorem entries_layout (lines : List Line) :
    (layout 0 .empty lines).1.entries =
      (layout 0 .empty lines).1.symbols.entries.map labelEntry := by
  obtain ⟨defined, hdefined, -⟩ := exists_layout_eq_append [] lines .empty
  have hall : (layout 0 .empty lines).1 = Labelling.empty.append defined := hdefined
  rw [hall]
  rfl

end Layout

theorem symbols_assembleLines (tokens : List Token) (lines : List Line) (reported : List Entry) :
    (assembleLines tokens lines reported).symbols = (layout 0 .empty lines).1.symbols := by
  rw [assembleLines]
  rcases layout 0 .empty lines with ⟨labels, e | ⟨⟩⟩
  · rfl
  · dsimp only
    split
    · rfl
    · rcases emit labels.symbols 0 lines with ⟨emissions, e | ⟨⟩⟩
      · rfl
      · rfl

theorem symbols_prefix {source : String} {tokens : List Token} {lines : List Line}
    (htokens : tokenize source = .ok tokens) (hparse : parse tokens = .ok lines) :
    (assemble source).symbols.entries <+: definitions [] lines := by
  rw [symbols_assemble, assembleText, htokens]
  dsimp only
  rw [hparse]
  dsimp only
  split
  · exact List.nil_prefix
  · obtain ⟨defined, hdefined, hprefix⟩ := exists_layout_eq_append [] lines .empty
    have hall : (layout 0 .empty lines).1 = Labelling.empty.append defined := hdefined
    rw [symbols_assembleLines, hall]
    exact hprefix

theorem nodup_symbols (source : String) :
    ((assemble source).symbols.entries.map Prod.fst).Nodup := by
  rw [symbols_assemble, assembleText]
  split
  · exact List.nodup_nil
  · dsimp only
    split
    · exact List.nodup_nil
    · next lines _ =>
      split
      · exact List.nodup_nil
      · rw [symbols_assembleLines]
        exact nodup_layout [] lines List.nodup_nil

/-! ## The shape of a report -/

/-- Whether an error is found before any line has its effect. -/
def AssemblyError.precedesEffects : AssemblyError → Bool
  | lexical _ | grammatical _ => true
  | semantic e =>
    match e.fault with
    | .missingEnd | .multipleEnd | .endNotLast | .originOutOfRange _ | .duplicateLabel _
    | .addressOverflow | .undefinedLabel _ => true
    | .decimalOutOfRange _ | .hexadecimalOutOfRange _ => false

theorem not_precedesEffects_of_literalFault? {l : Line} {e : SemanticError}
    (h : l.literalFault? = some e) : (AssemblyError.semantic e).precedesEffects = false := by
  rw [Line.literalFault?] at h
  split at h
  · next radix value _ =>
    split at h
    · cases h
    · cases h
      cases radix
      · rfl
      · rfl
  · cases h

/-- What is reported up to the verdict is how the text was read, then the labels, then the effects
of lines. Effects are told of only if nothing else was wrong before, and of all lines if the text is
assembled. -/
structure Assembly.Tells (a : Assembly) (source : String) (reading : List Entry)
    (effects : List Emission) : Prop where
  entries : a.entries = reading ++ a.symbols.entries.map labelEntry ++ effects.map Emission.entry
  reading : ∀ e ∈ reading, e.tellsReading
  of_error : ∀ e, a.outcome = .error e → e.precedesEffects → effects = []
  of_ok : ∀ p, a.outcome = .ok p → ∃ tokens lines, tokenize source = .ok tokens ∧
    parse tokens = .ok lines ∧
    effects = (placed lines).map fun q ↦ q.2.effect a.symbols q.1

/-- A report that goes no further than the labels. -/
theorem Assembly.Tells.of_failure {a : Assembly} {source : String} {reading : List Entry}
    {e : AssemblyError} (houtcome : a.outcome = .error e)
    (hentries : a.entries = reading ++ a.symbols.entries.map labelEntry)
    (hreading : ∀ e ∈ reading, e.tellsReading) : a.Tells source reading [] where
  entries := by rw [hentries, List.map_nil, List.append_nil]
  reading := hreading
  of_error := fun _ _ _ ↦ rfl
  of_ok := by
    intro p hp
    rw [houtcome] at hp
    cases hp

theorem tells_assembleLines {source : String} {tokens : List Token} {lines : List Line}
    (htokens : tokenize source = .ok tokens) (hparse : parse tokens = .ok lines)
    (hend : endFault? tokens = none) {reading : List Entry}
    (hreading : ∀ e ∈ reading, e.tellsReading) :
    ∃ effects, (assembleLines tokens lines reading).Tells source reading effects := by
  obtain ⟨rfl, hw⟩ := parse_eq_ok hparse
  have hfinish := finishesLast_of_endFault? hw hend
  have hlayout := layout_symbolsOf hfinish
  rw [assembleLines]
  rcases hm : misplacement? [] lines with _ | e
  · rw [hm] at hlayout
    rw [hlayout]
    dsimp only
    rw [undefinedName?_symbolsOf]
    rcases hu : undefined? lines (lines.flatMap Line.tokens) with _ | e
    · have hemit := emit_symbolsOf hw hm hfinish hu
      dsimp only
      rcases hf : lines.findSome? Line.literalFault? with _ | e
      · rw [hf] at hemit
        rw [hemit]
        refine ⟨effectsOf lines, rfl, hreading, ?_, ?_⟩
        · intro e he
          cases he
        · rintro p -
          exact ⟨_, lines, htokens, hparse, rfl⟩
      · rw [hf] at hemit
        rcases he : emit (symbolsOf lines) 0 lines with ⟨effects, result⟩
        rw [he] at hemit
        obtain rfl : result = .error e := hemit
        -- some lines may have had their effects, but what stops the rest is a number out of range
        obtain ⟨l, -, hl⟩ := List.exists_of_findSome?_eq_some hf
        refine ⟨effects, rfl, hreading, ?_, ?_⟩
        · rintro _ ⟨⟩ hprecedes
          rw [not_precedesEffects_of_literalFault? hl] at hprecedes
          cases hprecedes
        · intro p hp
          cases hp
    · exact ⟨[], .of_failure rfl rfl hreading⟩
  · rw [hm] at hlayout
    have hlabelled := entries_layout lines
    rcases hl : layout 0 .empty lines with ⟨labels, result⟩
    rw [hl] at hlayout hlabelled
    obtain rfl : result = .error e := hlayout
    exact ⟨[], .of_failure rfl (congrArg (reading ++ ·) hlabelled) hreading⟩

theorem tells_assembleText (source : String) :
    ∃ reading effects, (assembleText source).Tells source reading effects := by
  rw [assembleText]
  rcases htokens : tokenize source with e | tokens
  · exact ⟨[], [], .of_failure rfl rfl (by simp)⟩
  dsimp only
  rcases hparse : parse tokens with e | lines
  · refine ⟨_, [], .of_failure rfl (List.append_nil _).symm ?_⟩
    simp [Entry.tellsReading, Entry.info]
  dsimp only
  rw [checkEnd_eq]
  rcases hend : endFault? tokens with _ | e
  · exact ⟨_, tells_assembleLines htokens hparse hend (by simp [Entry.tellsReading, Entry.info])⟩
  · refine ⟨_, [], .of_failure rfl (List.append_nil _).symm ?_⟩
    simp [Entry.tellsReading, Entry.info]

/-! ## Sorting the entries -/

namespace Assembly.Tells

variable {a : Assembly} {source : String} {reading : List Entry} {effects : List Emission}

theorem filter_isVerdict (h : a.Tells source reading effects) :
    a.entries.filter Entry.isVerdict = [] := by
  rw [h.entries, List.filter_eq_nil_iff]
  intro e he
  rw [List.mem_append, List.mem_append, List.mem_map, List.mem_map] at he
  rw [Bool.not_eq_true]
  rcases he with (he | ⟨definition, -, rfl⟩) | ⟨effect, -, rfl⟩
  · exact Entry.not_isVerdict_of_tellsReading (h.reading e he)
  · rfl
  · exact effect.not_isVerdict_entry

theorem filter_tellsLabel (h : a.Tells source reading effects) :
    a.entries.filter Entry.tellsLabel = a.symbols.entries.map labelEntry := by
  have hreading : reading.filter Entry.tellsLabel = [] :=
    List.filter_eq_nil_iff.mpr fun e he ↦ by
      simp [Entry.not_tellsLabel_of_tellsReading (h.reading e he)]
  have hlabels : (a.symbols.entries.map labelEntry).filter Entry.tellsLabel =
      a.symbols.entries.map labelEntry :=
    List.filter_eq_self.mpr (List.forall_mem_map.mpr fun d _ ↦ tellsLabel_labelEntry d)
  have heffects : (effects.map Emission.entry).filter Entry.tellsLabel = [] :=
    List.filter_eq_nil_iff.mpr (List.forall_mem_map.mpr fun effect _ ↦ by
      simp [effect.not_tellsLabel_entry])
  rw [h.entries, List.filter_append, List.filter_append, hreading, hlabels, heffects,
    List.nil_append, List.append_nil]

theorem filter_tellsEffect (h : a.Tells source reading effects) :
    a.entries.filter Entry.tellsEffect = effects.map Emission.entry := by
  have hreading : reading.filter Entry.tellsEffect = [] :=
    List.filter_eq_nil_iff.mpr fun e he ↦ by
      simp [Entry.not_tellsEffect_of_tellsReading (h.reading e he)]
  have hlabels : (a.symbols.entries.map labelEntry).filter Entry.tellsEffect = [] :=
    List.filter_eq_nil_iff.mpr (List.forall_mem_map.mpr fun d _ ↦ by
      simp [not_tellsEffect_labelEntry d])
  have heffects : (effects.map Emission.entry).filter Entry.tellsEffect =
      effects.map Emission.entry :=
    List.filter_eq_self.mpr (List.forall_mem_map.mpr fun effect _ ↦ effect.tellsEffect_entry)
  rw [h.entries, List.filter_append, List.filter_append, hreading, hlabels, heffects,
    List.nil_append, List.nil_append]

end Assembly.Tells

section Verdict

variable (outcome : Except AssemblyError Program)

theorem isVerdict_verdict : (verdict outcome).isVerdict := by
  rcases outcome with e | p
  · rfl
  · rfl

theorem not_tellsLabel_verdict : (verdict outcome).tellsLabel = false := by
  rcases outcome with (e | e | e) | p
  · rfl
  · rfl
  · rfl
  · rfl

theorem not_tellsEffect_verdict : (verdict outcome).tellsEffect = false := by
  rcases outcome with (e | e | e) | p
  · rfl
  · rfl
  · rfl
  · rfl

theorem verdict_spec :
    match outcome with
    | .ok _ => (verdict outcome).context = .assembler ∧ (verdict outcome).level = .success
    | .error (.lexical e) => verdict outcome = ⟨.lexer, .error, e.message⟩
    | .error (.grammatical e) => verdict outcome = ⟨.parser, .error, e.message⟩
    | .error (.semantic e) => verdict outcome = ⟨.assembler, .error, e.message⟩ := by
  rcases outcome with (e | e | e) | p
  · rfl
  · rfl
  · rfl
  · exact ⟨rfl, rfl⟩

end Verdict

section Assemble

variable {source : String} {reading : List Entry} {effects : List Emission}

theorem entries_assemble (source : String) :
    (assemble source).entries =
      (assembleText source).entries ++ [verdict (assemble source).outcome] := by
  rw [assemble]

theorem filter_isVerdict_assemble (h : (assembleText source).Tells source reading effects) :
    (assemble source).entries.filter Entry.isVerdict = [verdict (assemble source).outcome] := by
  rw [entries_assemble, List.filter_append, h.filter_isVerdict, List.filter_singleton,
    isVerdict_verdict]
  rfl

theorem filter_tellsLabel_assemble (h : (assembleText source).Tells source reading effects) :
    (assemble source).entries.filter Entry.tellsLabel =
      (assemble source).symbols.entries.map labelEntry := by
  rw [entries_assemble, List.filter_append, h.filter_tellsLabel, List.filter_singleton,
    not_tellsLabel_verdict, symbols_assemble]
  exact List.append_nil _

theorem filter_tellsEffect_assemble (h : (assembleText source).Tells source reading effects) :
    (assemble source).entries.filter Entry.tellsEffect = effects.map Emission.entry := by
  rw [entries_assemble, List.filter_append, h.filter_tellsEffect, List.filter_singleton,
    not_tellsEffect_verdict]
  exact List.append_nil _

theorem filter_tellsEffect_of_error {e : AssemblyError} (h : (assemble source).outcome = .error e)
    (hprecedes : e.precedesEffects) : (assemble source).entries.filter Entry.tellsEffect = [] := by
  obtain ⟨reading, effects, htells⟩ := tells_assembleText source
  rw [outcome_assemble] at h
  rw [filter_tellsEffect_assemble htells, htells.of_error e h hprecedes, List.map_nil]

theorem filter_tellsEffect_of_ok {p : Program} (h : (assemble source).outcome = .ok p) :
    ∃ tokens lines, tokenize source = .ok tokens ∧ parse tokens = .ok lines ∧
      (assemble source).entries.filter Entry.tellsEffect =
        (placed lines).map fun q ↦ (q.2.effect (assemble source).symbols q.1).entry := by
  obtain ⟨reading, effects, htells⟩ := tells_assembleText source
  rw [outcome_assemble] at h
  obtain ⟨tokens, lines, htokens, hparse, heffects⟩ := htells.of_ok p h
  refine ⟨tokens, lines, htokens, hparse, ?_⟩
  rw [filter_tellsEffect_assemble htells, heffects, List.map_map, symbols_assemble]
  rfl

end Assemble

/-- **A report says what happened, and no more.** Whatever the text, exactly one entry is a verdict,
and it closes the report: a success of the assembler if there is a program, and otherwise an error
with the full message, of the part of the assembler that found it.

The entries on labels are those of the symbol table that is left, no label twice. If the text can be
read at all, they are the definitions at its beginning, from the first line on.

No entry tells of an effect if anything else than a number out of range is wrong. If the text is
assembled, one does for every line, in the order of the lines. -/
theorem assemble_report (source : String) :
    let a := assemble source
    (∃ closing, a.entries.getLast? = some closing ∧ a.entries.filter Entry.isVerdict = [closing] ∧
      match a.outcome with
      | .ok _ => closing.context = .assembler ∧ closing.level = .success
      | .error (.lexical e) => closing = ⟨.lexer, .error, e.message⟩
      | .error (.grammatical e) => closing = ⟨.parser, .error, e.message⟩
      | .error (.semantic e) => closing = ⟨.assembler, .error, e.message⟩) ∧
    a.entries.filter Entry.tellsLabel = a.symbols.entries.map labelEntry ∧
    (a.symbols.entries.map Prod.fst).Nodup ∧
    (∀ tokens lines, tokenize source = .ok tokens → parse tokens = .ok lines →
      a.symbols.entries <+: definitions [] lines) ∧
    (∀ e, a.outcome = .error e → e.precedesEffects → a.entries.filter Entry.tellsEffect = []) ∧
    ∀ p, a.outcome = .ok p → ∃ tokens lines, tokenize source = .ok tokens ∧
      parse tokens = .ok lines ∧
      a.entries.filter Entry.tellsEffect =
        ((placed lines).map fun q ↦ (q.2.effect a.symbols q.1).entry) ∧
      (a.entries.filter Entry.tellsEffect).length = lines.length := by
  obtain ⟨reading, effects, htells⟩ := tells_assembleText source
  refine ⟨⟨verdict (assemble source).outcome, ?_, filter_isVerdict_assemble htells,
    verdict_spec (assemble source).outcome⟩, filter_tellsLabel_assemble htells,
    nodup_symbols source, ?_, ?_, ?_⟩
  · rw [entries_assemble, List.getLast?_concat]
  · intro tokens lines htokens hparse
    exact symbols_prefix htokens hparse
  · intro e he hprecedes
    exact filter_tellsEffect_of_error he hprecedes
  · intro p hp
    obtain ⟨tokens, lines, htokens, hparse, heffects⟩ := filter_tellsEffect_of_ok hp
    refine ⟨tokens, lines, htokens, hparse, heffects, ?_⟩
    rw [heffects, List.length_map, ← List.length_map Prod.snd, map_snd_placed]

/-- A text with one label on two lines. -/
def repeatedLabel : String := "L, CLA\nL, HLT\nEND"

/-- A text of two lines. -/
def labelledClear : String := "L, CLA\nEND"

def labelledClearProgram : Program := ⟨[⟨0, 0x7800, "L, CLA", 1⟩], []⟩

theorem assemble_report_repeatedLabel :
    (∃ e, (assemble repeatedLabel).outcome = .error e ∧ e.precedesEffects) ∧
      (assemble repeatedLabel).entries.filter Entry.tellsEffect = [] ∧
      (assemble repeatedLabel).symbols.entries <+: [("L", 0), ("L", 1)] ∧
      (assemble labelledClear).outcome = .ok labelledClearProgram ∧
      ((assemble labelledClear).entries.filter Entry.tellsEffect).length = 2 := by
  have houtcome : (assemble repeatedLabel).outcome =
      .error (.semantic ⟨⟨2, 1⟩, .duplicateLabel "L"⟩) := rfl
  have hprogram : (assemble labelledClear).outcome = .ok labelledClearProgram := rfl
  obtain ⟨-, -, -, hsymbols, herror, -⟩ := assemble_report repeatedLabel
  obtain ⟨-, -, -, -, -, hok⟩ := assemble_report labelledClear
  obtain ⟨tokens, lines, htokens, hparse, -, hlength⟩ := hok _ hprogram
  have hlines : (tokenize labelledClear).map (fun ts ↦ (parse ts).map List.length) = .ok (.ok 2) :=
    rfl
  have htwo : lines.length = 2 := by
    rw [htokens, Except.map, hparse] at hlines
    exact Except.ok.inj (Except.ok.inj hlines)
  exact ⟨⟨_, houtcome, rfl⟩, herror _ houtcome rfl, hsymbols _ _ rfl rfl, hprogram,
    hlength.trans htwo⟩

end BasicComputer
