import BasicComputer.Proofs.Acceptance
import BasicComputer.Proofs.Coding

/-!
# Addresses of an assembled text

A text is only assembled if its words fit into memory, so in front of every line the counter stands
at an address or right behind the last one. It can stand there only behind a word at the last
address of all, and then no line but the one that ends the text may follow.

That line emits no word, and so nothing keeps it from having a label. The label then stands for a
number that is no address: the one exception to the rule that labels stand for addresses. A memory
reference to such a label carries the twelve bits of the number that fit, which are all zero, and
refers to the first word of memory.

The counter is a natural number, and the bound on it is the size of memory and not the last address:
it has to be allowed where the next word would go if there were one. Every check asks whether a word
has room at the counter, not whether the counter is an address. So the two questions differ at one
place only, and the only line that may stand there emits nothing.

What is shown of assembled texts is collected in one structure. Later developments take it from
there, without going back to the two passes.
-/

namespace BasicComputer

/-! ## The counter -/

theorem Line.origin?_lt {l : Line} {before : List Line} (h : l.misplacement? before = none)
    {start : Nat} (hstart : l.origin? = some start) : start < memorySize := by
  rw [misplacement?, Option.or_eq_none_iff, Option.or_eq_none_iff, badOrigin?_eq_none_iff] at h
  have hle := h.1.1 start hstart
  rw [memorySize]
  omega

theorem Line.addressAfter_lt {l : Line} {before : List Line} (h : l.misplacement? before = none)
    (hl : l.statement.emits) : addressAfter before < memorySize := by
  rw [misplacement?, Option.or_eq_none_iff] at h
  exact (Line.overflow?_eq_none_iff hl).mp h.2

theorem addressAfter_append_le {before : List Line} {l : Line} (h : l.misplacement? before = none)
    (hl : l.statement ≠ .finish) : addressAfter (before ++ [l]) ≤ memorySize := by
  rcases l.origin_or_finish_or_emits with ⟨value, hvalue⟩ | hfinish | hemits
  · have horigin : l.origin? = some (Numeral.value 16 value.text.toList) := by
      rw [Line.origin?, hvalue]
    rw [addressAfter_of_origin horigin]
    exact Nat.le_of_lt (Line.origin?_lt h horigin)
  · exact absurd hfinish hl
  · rw [addressAfter_of_emits hemits]
    exact Line.addressAfter_lt h hemits

/-- In front of every line that can be placed the counter stands at an address or right behind the
last one. -/
theorem addressAfter_le_of_mem {before lines : List Line}
    (hplaced : misplacement? before lines = none) (hfinish : FinishesLast lines)
    (hstart : addressAfter before ≤ memorySize) :
    ∀ c ∈ contexts before lines, c.2.misplacement? c.1 = none ∧ addressAfter c.1 ≤ memorySize := by
  induction lines generalizing before with
  | nil => exact fun c hc ↦ absurd hc List.not_mem_nil
  | cons l rest ih =>
    rw [misplacement?_cons, Option.or_eq_none_iff] at hplaced
    obtain ⟨hl, hrest⟩ := hplaced
    rw [contexts, List.forall_mem_cons]
    refine ⟨⟨hl, hstart⟩, ?_⟩
    -- the line that ends the text leaves the counter where it is, but no line follows it
    by_cases hend : l.statement = .finish
    · rw [hfinish.eq_nil hend]
      exact fun c hc ↦ absurd hc List.not_mem_nil
    · exact ih hrest hfinish.of_cons (addressAfter_append_le hl hend)

/-! ## The lines of an assembled text -/

theorem mem_of_mem_placed {lines : List Line} {p : Nat × Line} (hp : p ∈ placed lines) :
    p.2 ∈ lines := by
  rw [← map_snd_placed lines]
  exact List.mem_map_of_mem hp

/-- What holds of the lines of a text that is assembled. -/
structure Consistent (lines : List Line) : Prop where
  wellFormed : ∀ l ∈ lines, l.WellFormed
  finishesLast : FinishesLast lines
  fits : misplacement? [] lines = none
  labels : (labelsOf lines).Nodup
  resolves : ∀ l ∈ lines, l.Resolves (symbolsOf lines)

/-- A text that is assembled has consistent lines, and the program is what they leave behind. -/
theorem consistent_of_assemble {source : String} {program : Program}
    (h : (assemble source).outcome = .ok program) :
    ∃ tokens lines, tokenize source = .ok tokens ∧ parse tokens = .ok lines ∧ Consistent lines ∧
      program = .ofEmissions (effectsOf lines) ∧ (assemble source).symbols = symbolsOf lines := by
  obtain ⟨tokens, lines, ht, hp, hend, hfault, hprogram, hsymbols⟩ := assemble_eq_ok h
  obtain ⟨hflat, hw⟩ := parse_eq_ok hp
  rw [lineFault?, Option.or_eq_none_iff, Option.or_eq_none_iff] at hfault
  obtain ⟨⟨hplaced, hnames⟩, -⟩ := hfault
  have hlabels := (misplacement?_eq_none_iff.mp hplaced).2.1
  have hnil : (labelsOf []).Nodup := List.nodup_nil
  rw [← hflat] at hend hnames
  have hconsistent : Consistent lines := {
    wellFormed := hw
    finishesLast := finishesLast_of_endFault? hw hend
    fits := hplaced
    labels := (repeatedLabel?_eq_none_iff hnil).mp hlabels
    resolves := resolves_of_undefined? hw hnames }
  exact ⟨tokens, lines, ht, hp, hconsistent, hprogram, hsymbols⟩

namespace Consistent

variable {lines : List Line} {p : Nat × Line}

theorem exists_context (h : Consistent lines) (hp : p ∈ placed lines) :
    ∃ before, p.2.misplacement? before = none ∧ p.1 = addressAfter before ∧ p.1 ≤ memorySize := by
  obtain ⟨c, hc, rfl⟩ := List.mem_map.mp hp
  obtain ⟨hmisplaced, hle⟩ :=
    addressAfter_le_of_mem h.fits h.finishesLast (Nat.zero_le _) c hc
  exact ⟨c.1, hmisplaced, rfl, hle⟩

/-- Every word goes to an address. -/
theorem lt_of_emits (h : Consistent lines) (hp : p ∈ placed lines) (hemits : p.2.statement.emits) :
    p.1 < memorySize := by
  obtain ⟨before, hmisplaced, haddress, -⟩ := h.exists_context hp
  rw [haddress]
  exact Line.addressAfter_lt hmisplaced hemits

/-- A label stands for an address, or for the place right behind the last one if its line ends the
text there. -/
theorem labelValue_lt_or (h : Consistent lines) (hp : p ∈ placed lines) :
    p.2.labelValue p.1 < memorySize ∨
      p.2.statement = .finish ∧ p.1 = memorySize ∧ p.2.labelValue p.1 = memorySize := by
  obtain ⟨before, hmisplaced, -, hle⟩ := h.exists_context hp
  rcases p.2.origin_or_finish_or_emits with ⟨value, hvalue⟩ | hfinish | hemits
  · have horigin : p.2.origin? = some (Numeral.value 16 value.text.toList) := by
      rw [Line.origin?, hvalue]
    left
    rw [Line.labelValue, horigin]
    exact Line.origin?_lt hmisplaced horigin
  · have hvalue : p.2.labelValue p.1 = p.1 := by
      rw [Line.labelValue, Line.origin?, hfinish]
      rfl
    rw [hvalue]
    rcases Nat.lt_or_eq_of_le hle with hlt | heq
    · exact .inl hlt
    · exact .inr ⟨hfinish, heq, heq⟩
  · left
    rw [Line.labelValue, Line.origin?_of_emits hemits]
    exact h.lt_of_emits hp hemits

end Consistent

/-! ## What labels stand for -/

/-- Whether the line that ends a text has a label and stands right behind the last address. -/
def EndsBeyond (lines : List Line) : Prop :=
  ∃ p ∈ placed lines, p.2.statement = .finish ∧ p.2.label.isSome ∧ p.1 = memorySize

section Symbols

variable {lines : List Line}

theorem mem_entries_symbolsOf {e : String × Nat} :
    e ∈ (symbolsOf lines).entries ↔
      ∃ p ∈ placed lines, ∃ t ∈ p.2.label, e = (t.text, p.2.labelValue p.1) := by
  rw [entries_symbolsOf, List.mem_filterMap]
  refine exists_congr fun p ↦ and_congr_right fun _ ↦ ?_
  rw [Line.definition?, Option.map_eq_some_iff]
  exact exists_congr fun t ↦ and_congr_right fun _ ↦ eq_comm

theorem Consistent.entries_le (h : Consistent lines) :
    ∀ e ∈ (symbolsOf lines).entries, e.2 ≤ memorySize := by
  intro e he
  obtain ⟨p, hp, t, -, rfl⟩ := mem_entries_symbolsOf.mp he
  rcases h.labelValue_lt_or hp with hlt | ⟨-, -, heq⟩
  · exact Nat.le_of_lt hlt
  · exact Nat.le_of_eq heq

/-- Labels stand for addresses unless the text ends right behind the last one with a label. -/
theorem Consistent.entries_lt_iff (h : Consistent lines) :
    (∀ e ∈ (symbolsOf lines).entries, e.2 < memorySize) ↔ ¬EndsBeyond lines := by
  constructor
  · rintro hall ⟨p, hp, hfinish, hlabel, haddress⟩
    obtain ⟨t, ht⟩ := Option.isSome_iff_exists.mp hlabel
    have hlt := hall _ (mem_entries_symbolsOf.mpr ⟨p, hp, t, ht, rfl⟩)
    have hvalue : p.2.labelValue p.1 = p.1 := by
      rw [Line.labelValue, Line.origin?, hfinish]
      rfl
    rw [hvalue, haddress] at hlt
    exact absurd hlt (Nat.lt_irrefl _)
  · intro hends e he
    obtain ⟨p, hp, t, ht, rfl⟩ := mem_entries_symbolsOf.mp he
    rcases h.labelValue_lt_or hp with hlt | ⟨hfinish, haddress, -⟩
    · exact hlt
    · exact absurd ⟨p, hp, hfinish, Option.isSome_of_mem ht, haddress⟩ hends

theorem SymbolTable.mem_entries_of_lookup? {table : SymbolTable} {label : String} {a : Nat}
    (h : table.lookup? label = some a) : (label, a) ∈ table.entries := by
  obtain ⟨earlier, later, hentries, -⟩ := List.lookup_eq_some_iff.mp h
  rw [hentries]
  exact List.mem_append_right _ List.mem_cons_self

/-- A memory reference to a label carries what the label stands for, or zero in place of what is no
address. -/
theorem Consistent.toNat_lowAddress_word (h : Consistent lines) {l : Line} (hl : l ∈ lines)
    {op : MemoryOp} {t : Token} {marker : Option Token}
    (hs : l.statement = .memory op (.symbol t) marker) :
    ∃ a, (symbolsOf lines).lookup? t.text = some a ∧
      (lowAddress (l.word (symbolsOf lines))).toNat = if a = memorySize then 0 else a := by
  have hresolves := h.resolves l hl
  rw [Line.Resolves, hs] at hresolves
  obtain ⟨a, ha⟩ := Option.isSome_iff_exists.mp hresolves
  have hle := h.entries_le _ (SymbolTable.mem_entries_of_lookup? ha)
  have hvalue : Place.value (symbolsOf lines) (.symbol t) = a := by
    rw [Place.value, ha]
    rfl
  refine ⟨a, ha, ?_⟩
  -- twelve bits are enough for every value but the one right behind the last address
  rw [Line.word, hs]
  dsimp only
  rw [hvalue, lowAddress_encode_memory, lowAddress, BitVec.toNat_setWidth, BitVec.toNat_ofNat]
  dsimp only [memorySize] at hle ⊢
  split <;> omega

end Symbols

/-- **Labels stand for addresses.** In a text that is assembled the only label that does not stand
for an address is one on the line that ends the text, if that line stands right behind the last
address. Every memory reference to a label carries the address that the label stands for, or zero
in place of what is no address. -/
theorem assemble_symbols_lt_iff {source : String} {program : Program}
    (h : (assemble source).outcome = .ok program) :
    ∃ tokens lines, tokenize source = .ok tokens ∧ parse tokens = .ok lines ∧
      program.instructions =
        ((placed lines).filter (·.2.statement.isOperation)).map (fun p ↦
          ⟨p.1, p.2.word (assemble source).symbols, p.2.source, p.2.number⟩) ∧
      ((∀ e ∈ (assemble source).symbols.entries, e.2 < memorySize) ↔ ¬EndsBeyond lines) ∧
      (∀ e ∈ (assemble source).symbols.entries, e.2 ≤ memorySize) ∧
      ∀ p ∈ placed lines, ∀ op t marker, p.2.statement = .memory op (.symbol t) marker →
        ∃ a, (assemble source).symbols.lookup? t.text = some a ∧
          (lowAddress (p.2.word (assemble source).symbols)).toNat =
            if a = memorySize then 0 else a := by
  obtain ⟨tokens, lines, ht, hp, hconsistent, rfl, hsymbols⟩ := consistent_of_assemble h
  rw [hsymbols]
  refine ⟨tokens, lines, ht, hp, instructions_effects (symbolsOf lines) (placed lines),
    hconsistent.entries_lt_iff, hconsistent.entries_le, ?_⟩
  intro p hp op t marker hs
  exact hconsistent.toNat_lowAddress_word (mem_of_mem_placed hp) hs

/-- A text that ends at the last address, with a label there. -/
def endsAtLast : String := "BUN X\nORG FFE\nHLT\nX, END"

def endsAtLastProgram : Program := ⟨[⟨0, 0x4FFF, "BUN X", 1⟩, ⟨0xFFE, 0x7001, "HLT", 3⟩], []⟩

theorem symbols_endsAtLast :
    (assemble endsAtLast).outcome = .ok endsAtLastProgram ∧
    (∀ e ∈ (assemble endsAtLast).symbols.entries, e.2 ≤ memorySize) ∧
    (assemble endsAtLast).symbols.lookup? "X" = some 0xFFF := by
  have h : (assemble endsAtLast).outcome = .ok endsAtLastProgram := rfl
  obtain ⟨-, -, -, -, -, -, hle, -⟩ := assemble_symbols_lt_iff h
  exact ⟨h, hle, rfl⟩

/-- A text that ends one word later. -/
def endsBeyondLast : String := "BUN X\nORG FFF\nHLT\nX, END"

def endsBeyondLastProgram : Program :=
  ⟨[⟨0, 0x4000, "BUN X", 1⟩, ⟨0xFFF, 0x7001, "HLT", 3⟩], []⟩

theorem symbols_endsBeyondLast :
    (assemble endsBeyondLast).outcome = .ok endsBeyondLastProgram ∧
    (assemble endsBeyondLast).symbols.lookup? "X" = some 0x1000 ∧
    ¬(∀ e ∈ (assemble endsBeyondLast).symbols.entries, e.2 < memorySize) ∧
    (lowAddress 0x4000).toNat ≠ 0x1000 := by
  have hentries : (assemble endsBeyondLast).symbols.entries = [("X", 0x1000)] := rfl
  refine ⟨rfl, rfl, ?_, by decide⟩
  rw [hentries]
  decide

end BasicComputer
