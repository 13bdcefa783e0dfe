import BasicComputer.Proofs.Image
import BasicComputer.Proofs.Transcript

/-!
# There and back

A transcript has no labels and no `ORG`, so its lines are at the addresses that count them from zero
on. It is assembled if it fits into memory, and loaded if there is an operation to start from. Then
memory holds what the transcript was written from, word for word, and what was an operation is
decoded as that operation.

## Why not evaluate

A transcript is a text of any length with any numbers in it. What is known of it is the line of each
item, and that the lines follow each other. So the proof goes through the conditions of acceptance
and through the addresses of lines, which are made for lines and not for characters, and there is
one lemma on the line of an item for each condition.

An item has an index and its word has an address, and without `ORG` they are the same number.
-/

namespace BasicComputer

/-! ## Numbers -/

namespace Radix

theorem inRange_digits (radix : Radix) (w : Word) : radix.InRange (radix.digits w) := by
  cases radix with
  | decimal =>
    have hlt := BitVec.toInt_lt (x := w)
    have hle := BitVec.le_toInt w
    rw [InRange, digits, Numeral.signedValue_signedDigits]
    omega
  | hexadecimal =>
    have hlt := w.isLt
    rw [InRange, digits, Numeral.value_digits]
    omega

theorem word_digits (radix : Radix) (w : Word) : radix.word (radix.digits w) = w := by
  cases radix with
  | decimal => rw [word, digits, Numeral.signedValue_signedDigits, BitVec.ofInt_toInt]
  | hexadecimal => rw [word, digits, Numeral.value_digits, BitVec.ofNat_toNat, BitVec.setWidth_eq]

end Radix

/-! ## The line of an item -/

namespace Item

variable (i : Item) (n : Nat)

theorem wellFormed_line : (i.line n).WellFormed where
  label := fun t ht ↦ by cases ht
  head := by
    rw [i.keyword?_head n]
    cases i <;> rfl
  operands := by
    rcases i with ⟨op, address, _ | _⟩ | op | op | ⟨radix, w⟩
    · exact ⟨rfl, fun t ht ↦ by cases ht⟩
    · exact ⟨rfl, fun t ht ↦ by cases ht; rfl⟩
    · trivial
    · trivial
    · exact rfl

theorem line_of_mem_tokens : ∀ t ∈ (i.line n).tokens, t.line = n := by
  rcases i with ⟨op, address, _ | _⟩ | op | op | ⟨radix, w⟩ <;>
    simp [line, Line.tokens, statement, Statement.operands, token, Place.token]

theorem isOperation_line : (i.line n).statement.isOperation = i.operation?.isSome := by
  cases i <;> rfl

theorem emits_line : (i.line n).statement.emits := by
  cases i <;> rfl

theorem kind_of_mem_operands : ∀ t ∈ (i.line n).statement.operands, t.kind ≠ .identifier := by
  rcases i with ⟨op, address, _ | _⟩ | op | op | ⟨radix, w⟩ <;>
    simp [line, statement, Statement.operands, token, Place.token]

theorem inRange_line (radix : Radix) (value : Token)
    (h : (i.line n).statement = .datum radix value) : radix.InRange value.text.toList := by
  cases i with
  | datum radix w =>
    cases h
    rw [token, String.toList_ofList]
    exact radix.inRange_digits w
  | memory _ _ _ | register _ | io _ => cases h

theorem word_line (symbols : SymbolTable) : (i.line n).word symbols = i.word := by
  have haddress (a : Address) : BitVec.ofNat 16
      (decimalAddress (String.ofList (Nat.toDigits 10 a.toNat)).toList) = a.setWidth 16 := by
    rw [String.toList_ofList, Numeral.decimalAddress_toDigits a.isLt, BitVec.ofNat_toNat]
  rcases i with ⟨op, address, _ | _⟩ | op | op | ⟨radix, w⟩
  · exact congrArg (fun a ↦ encode (.memory op a false)) (haddress address)
  · exact congrArg (fun a ↦ encode (.memory op a true)) (haddress address)
  · rfl
  · rfl
  · have hvalue : (line n (datum radix w)).word symbols =
        radix.word (String.ofList (radix.digits w)).toList := rfl
    rw [hvalue, String.toList_ofList, Radix.word_digits]
    rfl

theorem decode_word {operation : Operation} (h : i.operation? = some operation) :
    decode i.word = operation := by
  rcases i with ⟨op, address, indirect⟩ | op | op | ⟨radix, w⟩
  · cases h
    have hlow : lowAddress (address.setWidth 16) = address := by
      rw [lowAddress, BitVec.setWidth_setWidth_of_le _ (by decide), BitVec.setWidth_eq]
    rw [word, decode_encode_memory, hlow]
  · cases h
    exact decode_encode_register op
  · cases h
    exact decode_encode_io op
  · cases h

end Item

/-! ## The lines of a transcript -/

section Lines

variable {n : Nat} {items : List Item}

theorem forall_mem_transcriptLines {P : Line → Prop} (hitem : ∀ i ∈ items, ∀ n, P (i.line n))
    (hend : ∀ n, P (endLine n)) : ∀ l ∈ transcriptLines n items, P l := by
  induction items generalizing n with
  | nil => exact List.forall_mem_singleton.mpr (hend n)
  | cons i items ih =>
    rw [List.forall_mem_cons] at hitem
    exact List.forall_mem_cons.mpr ⟨hitem.1 n, ih hitem.2⟩

theorem wellFormed_transcriptLines : ∀ l ∈ transcriptLines n items, l.WellFormed := by
  refine forall_mem_transcriptLines (fun i _ n ↦ i.wellFormed_line n) fun n ↦ ?_
  exact ⟨fun t ht ↦ (by cases ht), rfl, trivial⟩

theorem stacked_transcriptLines : Stacked (transcriptLines n items) := by
  constructor
  · refine forall_mem_transcriptLines (fun i _ n ↦ i.line_of_mem_tokens n) fun n ↦ ?_
    exact List.forall_mem_singleton.mpr rfl
  · induction items generalizing n with
    | nil => exact .singleton _
    | cons i items ih =>
      rw [transcriptLines]
      cases items with
      | nil => exact List.isChain_cons_cons.mpr ⟨Nat.ne_of_lt (Nat.lt_succ_self n), ih⟩
      | cons j items => exact List.isChain_cons_cons.mpr ⟨Nat.ne_of_lt (Nat.lt_succ_self n), ih⟩

/-- A transcript is read as the lines of its items. -/
theorem parse_transcript (items : List Item) :
    parse ((transcriptLines 1 items).flatMap Line.tokens) = .ok (transcriptLines 1 items) :=
  parse_flatMap_tokens wellFormed_transcriptLines stacked_transcriptLines

theorem transcriptLines_eq_concat (n : Nat) (items : List Item) :
    ∃ body, transcriptLines n items = body ++ [endLine (n + items.length)] ∧
      body.length = items.length ∧ ∀ l ∈ body, l.statement.emits := by
  induction items generalizing n with
  | nil => exact ⟨[], rfl, rfl, List.forall_mem_nil _⟩
  | cons i items ih =>
    obtain ⟨body, hlines, hlength, hemits⟩ := ih (n + 1)
    refine ⟨i.line n :: body, ?_, ?_, List.forall_mem_cons.mpr ⟨i.emits_line n, hemits⟩⟩
    · rw [transcriptLines, hlines, List.length_cons, List.cons_append, Nat.add_assoc,
        Nat.add_comm 1]
    · rw [List.length_cons, List.length_cons, hlength]

theorem origin?_transcriptLines : ∀ l ∈ transcriptLines n items, l.origin? = none :=
  forall_mem_transcriptLines (fun i _ n ↦ Line.origin?_of_emits (i.emits_line n)) fun _ ↦ rfl

theorem length_segment_transcriptLines :
    (segment (transcriptLines n items)).length = items.length := by
  induction items generalizing n with
  | nil => rfl
  | cons i items ih =>
    rw [transcriptLines, segment_of_emits (i.emits_line n), List.length_cons, ih, List.length_cons]

theorem filter_isEnd_transcriptLines :
    ((transcriptLines n items).flatMap Line.tokens).filter Token.isEnd =
      [endToken (n + items.length)] := by
  rw [filter_isEnd_flatMap wellFormed_transcriptLines]
  induction items generalizing n with
  | nil => rfl
  | cons i items ih =>
    have hfinish : ¬(i.line n).statement.isFinish := by
      cases i <;> exact Bool.false_ne_true
    rw [transcriptLines, List.filter_cons, if_neg hfinish, ih, List.length_cons, Nat.add_assoc,
      Nat.add_comm 1]

theorem getLast?_transcriptLines :
    ((transcriptLines n items).flatMap Line.tokens).getLast? =
      some (endToken (n + items.length)) := by
  induction items generalizing n with
  | nil => rfl
  | cons i items ih =>
    rw [transcriptLines, List.flatMap_cons, List.getLast?_append, ih, List.length_cons,
      Nat.add_assoc, Nat.add_comm 1]
    rfl

/-- A transcript that fits into memory is acceptable. -/
theorem acceptable_transcript (h : items.length ≤ memorySize) :
    Acceptable ((transcriptLines n items).flatMap Line.tokens) (transcriptLines n items) where
  one_end := by
    rw [List.countP_eq_length_filter, filter_isEnd_transcriptLines]
    rfl
  end_last := ⟨endToken (n + items.length), getLast?_transcriptLines, rfl⟩
  origins := fun l hl start hstart ↦ by
    rw [origin?_transcriptLines l hl] at hstart
    cases hstart
  labels := by
    have hnil : labelsOf (transcriptLines n items) = [] := by
      rw [labelsOf, List.filterMap_eq_nil_iff]
      exact forall_mem_transcriptLines (fun _ _ _ ↦ rfl) fun _ ↦ rfl
    rw [hnil]
    exact List.nodup_nil
  start_fits := by rwa [length_segment_transcriptLines]
  origins_fit := fun before l after hsplit start hstart ↦ by
    have hl : l ∈ transcriptLines n items := hsplit ▸ List.mem_append_right _ List.mem_cons_self
    rw [origin?_transcriptLines l hl] at hstart
    cases hstart
  names := by
    refine forall_mem_transcriptLines (fun i _ n t ht hk ↦ ?_) fun _ _ ht ↦
      absurd ht List.not_mem_nil
    exact absurd hk (i.kind_of_mem_operands n t ht)
  numbers := by
    refine forall_mem_transcriptLines (fun i _ n ↦ i.inRange_line n) fun _ _ _ hs ↦ ?_
    cases hs

end Lines

/-! ## Addresses that count lines -/

/-- Where all lines but the last emit words, addresses count up. -/
theorem map_contexts_of_emits {before lines : List Line}
    (h : ∀ l ∈ lines.dropLast, l.statement.emits) :
    (contexts before lines).map (fun c ↦ (addressAfter c.1, c.2)) =
      (lines.zipIdx (addressAfter before)).map Prod.swap := by
  induction lines generalizing before with
  | nil => rfl
  | cons l rest ih =>
    rw [contexts, List.map_cons, List.zipIdx_cons, List.map_cons]
    cases rest with
    | nil => rfl
    | cons l' rest =>
      rw [List.dropLast_cons_cons, List.forall_mem_cons] at h
      rw [ih h.2, addressAfter_of_emits h.1]
      rfl

section Placed

variable {items : List Item}

theorem placed_transcriptLines (n : Nat) (items : List Item) :
    placed (transcriptLines n items) = (transcriptLines n items).zipIdx.map Prod.swap := by
  obtain ⟨body, hlines, -, hemits⟩ := transcriptLines_eq_concat n items
  have hbody : ∀ l ∈ (transcriptLines n items).dropLast, l.statement.emits := by
    rwa [hlines, List.dropLast_concat]
  exact map_contexts_of_emits hbody

theorem nodup_placed_transcriptLines (n : Nat) (items : List Item) :
    ((placed (transcriptLines n items)).map Prod.fst).Nodup := by
  have hsnd : Prod.fst ∘ Prod.swap = (Prod.snd : Line × Nat → Nat) := rfl
  rw [placed_transcriptLines, List.map_map, hsnd, List.zipIdx_map_snd]
  exact List.nodup_range'

theorem mem_placed_transcriptLines {n : Nat} {p : Nat × Line} :
    p ∈ placed (transcriptLines n items) ↔ (transcriptLines n items)[p.1]? = some p.2 := by
  have hswap := List.mem_map_of_injective Prod.swap_injective (a := p.swap)
    (l := (transcriptLines n items).zipIdx)
  rw [Prod.swap_swap, List.mem_zipIdx_iff_getElem?] at hswap
  rw [placed_transcriptLines]
  exact hswap

theorem getElem?_transcriptLines {n k : Nat} {i : Item} (h : items[k]? = some i) :
    (transcriptLines n items)[k]? = some (i.line (n + k)) := by
  induction items generalizing n k with
  | nil => cases h
  | cons j items ih =>
    cases k with
    | zero =>
      cases h
      rfl
    | succ k =>
      rw [List.getElem?_cons_succ] at h
      rw [transcriptLines, List.getElem?_cons_succ, ih h, Nat.add_assoc, Nat.add_comm 1]

theorem not_emits_of_getElem?_transcriptLines {n k : Nat} {l : Line} (h : items[k]? = none)
    (hl : (transcriptLines n items)[k]? = some l) : l.statement.emits = false := by
  obtain ⟨body, hlines, hlength, -⟩ := transcriptLines_eq_concat n items
  rw [List.getElem?_eq_none_iff, ← hlength] at h
  rw [hlines, List.getElem?_append_right h] at hl
  have hmem := List.mem_of_getElem? hl
  rw [List.mem_singleton.mp hmem]
  rfl

/-- The line that decides on what is at `a` is the one of the item with this index. -/
theorem decisiveLine_transcriptLines (items : List Item) (n a : Nat) (symbols : SymbolTable) :
    (decisiveLine (placed (transcriptLines n items)) a).elim 0 (·.2.word symbols) =
      (items[a]?.map Item.word).getD 0 := by
  cases h : items[a]? with
  | some i =>
    have hmem : (a, i.line (n + a)) ∈ placed (transcriptLines n items) :=
      mem_placed_transcriptLines.mpr (getElem?_transcriptLines h)
    rw [decisiveLine_of_nodup (nodup_placed_transcriptLines n items) hmem (i.emits_line _)]
    exact i.word_line (n + a) symbols
  | none =>
    -- the only line behind the items is the last one, which has no word
    have hlast : lastLine Statement.emits (placed (transcriptLines n items)) a = none := by
      rw [lastLine_eq_none_iff]
      rintro p hp hemits rfl
      rw [not_emits_of_getElem?_transcriptLines h (mem_placed_transcriptLines.mp hp)] at hemits
      cases hemits
    rw [decisiveLine_eq_none hlast]
    rfl

/-- The first line with an operation is the one of the first item that is an operation. -/
theorem find?_zipIdx_transcriptLines (h : ∃ i ∈ items, i.operation?.isSome) (n a : Nat) :
    (((transcriptLines n items).zipIdx a).find? (·.1.statement.isOperation)).map Prod.snd =
      some (a + items.findIdx (·.operation?.isSome)) := by
  induction items generalizing n a with
  | nil =>
    obtain ⟨i, hi, -⟩ := h
    cases hi
  | cons j items ih =>
    rw [transcriptLines, List.zipIdx_cons, List.find?_cons, List.findIdx_cons, j.isOperation_line]
    by_cases hj : j.operation?.isSome
    · rw [hj]
      rfl
    · rw [Bool.not_eq_true] at hj
      obtain ⟨i, hi, hoperation⟩ := h
      rcases List.mem_cons.mp hi with rfl | hi
      · rw [hoperation] at hj
        cases hj
      · rw [hj]
        dsimp only
        rw [ih ⟨i, hi, hoperation⟩, cond_false, Nat.add_assoc, Nat.add_comm 1]

/-- A transcript starts at its first operation. -/
theorem entryPoint_transcript (h : ∃ i ∈ items, i.operation?.isSome) (n : Nat) :
    (Program.ofEmissions (effectsOf (transcriptLines n items))).entryPoint =
      some (items.findIdx (·.operation?.isSome)) := by
  have hfind := find?_zipIdx_transcriptLines h n 0
  rw [Program.entryPoint, Program.ofEmissions, effectsOf, instructions_effects, List.head?_map,
    List.head?_filter, placed_transcriptLines, List.find?_map, Option.map_map, Option.map_map]
  rw [Nat.zero_add] at hfind
  exact hfind

end Placed

/-! ## The round trip -/

/-- **What is written is read back.** A transcript of at most as many items as memory has words, at
least one of them an operation, is assembled, and what it is assembled to is loaded into any
simulator. Afterwards every address holds the word of the item with that index, or zero where there
is none, the program counter is at the first operation, and every operation is decoded from where it
is. -/
theorem assemble_transcript {items : List Item} (hlength : items.length ≤ memorySize)
    (hoperation : ∃ i ∈ items, i.operation?.isSome) {source : String}
    (hsource : IsTranscript items source) :
    ∃ program, (assemble source).outcome = .ok program ∧
      ∀ {σ : Type} [Sink σ] (s : Simulator σ), (s.load program).1 = .ok () ∧
        (∀ a : Address, (s.load program).2.machine.memory.read a =
          (items[a.toNat]?.map Item.word).getD 0) ∧
        (s.load program).2.machine.registers.pc.toNat =
          items.findIdx (·.operation?.isSome) ∧
        ∀ (a : Address) (i : Item) (operation : Operation), items[a.toNat]? = some i →
          i.operation? = some operation →
          decode ((s.load program).2.machine.memory.read a) = operation := by
  have htokens := tokenize_of_isTranscript hsource
  obtain ⟨houtcome, -⟩ :=
    assemble_of_acceptable htokens (parse_transcript items) (acceptable_transcript hlength)
  refine ⟨_, houtcome, fun s ↦ ?_⟩
  have hentry := entryPoint_transcript hoperation 1
  have hload := load_of_assemble houtcome (Option.isSome_of_eq_some hentry) s
  have hread (a : Address) := (read_load_lines hload a).trans
    (decisiveLine_transcriptLines items 1 a.toNat _)
  refine ⟨hload, hread, ?_, fun a i operation hi ho ↦ ?_⟩
  · obtain ⟨entry, hentry', hpc, -⟩ := Simulator.load_eq_ok hload
    rw [hentry, Option.some.injEq] at hentry'
    -- the index of an item fits into the program counter
    have hlt : items.findIdx (·.operation?.isSome) < items.length :=
      List.findIdx_lt_length_of_exists hoperation
    rw [hpc, ← hentry', BitVec.toNat_ofNat]
    exact Nat.mod_eq_of_lt (Nat.lt_of_lt_of_le hlt hlength)
  · rw [hread, hi]
    exact i.decode_word ho

/-- A number, operations of all kinds, and the number at the other end of its range. -/
def mixedItems : List Item :=
  [.datum .hexadecimal 0x0ADD, .memory .add 4095 true, .register .hlt, .io .out,
    .datum .decimal 0x8000]

/-- They are written in small letters here. -/
def mixedText : String := "hex 0add\nadd 4095 i\nhlt\nout\ndec -32768\nend\n"

theorem assemble_transcript_mixedItems :
    transcript mixedItems = "HEX 0ADD\nADD 4095 I\nHLT\nOUT\nDEC -32768\nEND" ∧
    mixedItems.length ≤ memorySize ∧ (∃ i ∈ mixedItems, i.operation?.isSome) ∧
    IsTranscript mixedItems mixedText ∧
    ∃ program, (assemble mixedText).outcome = .ok program ∧
      ((Simulator.withSink EventLog.empty).load program).1 = .ok () ∧
      ((Simulator.withSink EventLog.empty).load program).2.machine.registers.pc.toNat = 1 ∧
      ((Simulator.withSink EventLog.empty).load program).2.machine.memory.read 4 = 0x8000 ∧
      decode (((Simulator.withSink EventLog.empty).load program).2.machine.memory.read 1) =
        .memory .add 0x0FFF true := by
  have htext : transcript mixedItems = "HEX 0ADD\nADD 4095 I\nHLT\nOUT\nDEC -32768\nEND" := by
    decide
  have hlength : mixedItems.length ≤ memorySize := by decide
  have hoperation : ∃ i ∈ mixedItems, i.operation?.isSome := by decide
  have hsource : IsTranscript mixedItems mixedText := by
    rw [IsTranscript, htext]
    decide
  obtain ⟨program, houtcome, hall⟩ := assemble_transcript hlength hoperation hsource
  obtain ⟨hload, hread, hpc, hdecode⟩ := hall (Simulator.withSink EventLog.empty)
  exact ⟨htext, hlength, hoperation, hsource, program, houtcome, hload, hpc, hread 4,
    hdecode 1 _ _ rfl rfl⟩

end BasicComputer
