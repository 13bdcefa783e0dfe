import BasicComputer.Proofs.Acceptance

/-!
# The first word too many

Every `ORG` starts a new segment of the text, and so does the top. A segment has a base, the address
its first word goes to, and room for as many words as there are addresses from there to the end of
memory. A text whose segments all keep within their room never runs over the end.

Where one does not, the first pass gets as far as the first word too many of the first such segment,
unless something else is wrong on the way there, and blames the line of that word. So it can be said
beforehand, from the bases and from the number of words behind each, whether a text overflows and
which line is at fault.

## Segments and lines above

The definitions of this module go by segments, each with a base and its lines. The first pass goes
by single lines and the lines above them. The segments of a text are therefore defined with what has
been gathered so far as a parameter, so that the induction can follow the pass, line by line, and
the segment at hand grows by one line or is closed.

## What else can be wrong

Another error above the line at fault would be reported first. It cannot be excluded by saying that
the pass gets there, since this is what is to be shown, and so the conditions on the lines above are
spelled out. Lines below are under no condition at all.
-/

namespace BasicComputer

/-! ## Segments -/

/-- Lines that are placed one behind the other. -/
structure Segment where
  /-- All lines of the text above the segment. -/
  above : List Line
  /-- The address of the first word. -/
  base : Nat
  lines : List Line

/-- The segments of a text of which some lines are left. The segment before them is at `base` and
has some lines already. -/
def segmentsFrom (above : List Line) (base : Nat) (lines : List Line) : List Line → List Segment
  | [] => [⟨above, base, lines⟩]
  | l :: rest =>
    match l.origin? with
    | none => segmentsFrom above base (lines ++ [l]) rest
    | some start => ⟨above, base, lines⟩ :: segmentsFrom (above ++ lines ++ [l]) start [] rest

/-- The segments of a text: one from the top, at address zero, and one behind every `ORG`, at the
address that it sets. -/
def segments (lines : List Line) : List Segment := segmentsFrom [] 0 [] lines

namespace Segment

/-- The number of words that fit between the base and the end of memory. There is none if the base
is beyond it. -/
def room (s : Segment) : Nat := memorySize - s.base

/-- Whether a segment has more words than fit. -/
def Overfull (s : Segment) : Prop := s.room < s.lines.countP (·.statement.emits)

instance (s : Segment) : Decidable s.Overfull :=
  inferInstanceAs (Decidable (s.room < s.lines.countP (·.statement.emits)))

/-- The lines of a segment that emit words, each with all lines of the text above it. -/
def emitting (s : Segment) : List (List Line × Line) :=
  (contexts s.above s.lines).filter (·.2.statement.emits)

/-- The line of the first word that does not fit, with all lines of the text above it. -/
def surplus? (s : Segment) : Option (List Line × Line) := s.emitting[s.room]?

end Segment

/-- The first segment of a text with more words than fit. -/
def firstOverfull? (lines : List Line) : Option Segment := (segments lines).find? (·.Overfull)

/-- Whether the lines above a given one and the label of that line itself are all right: every `ORG`
above sets an address, and no label is repeated up to and including that line. -/
structure ClearUpTo (c : List Line × Line) : Prop where
  origins : ∀ l ∈ c.1, ∀ start, l.origin? = some start → start ≤ 0xFFF
  labels : (labelsOf (c.1 ++ [c.2])).Nodup

/-! ## Lines beyond the end of memory -/

def overflows (c : List Line × Line) : Bool :=
  c.2.statement.emits && decide (memorySize ≤ addressAfter c.1)

theorem overflow?_eq (c : List Line × Line) :
    c.2.overflow? c.1 = if overflows c then some (c.2.head.faults .addressOverflow) else none := by
  rw [Line.overflow?, overflows]
  simp

theorem Segment.length_emitting (s : Segment) :
    s.emitting.length = s.lines.countP (·.statement.emits) := by
  rw [emitting, ← List.countP_eq_length_filter]
  calc (contexts s.above s.lines).countP (·.2.statement.emits)
      = ((contexts s.above s.lines).map Prod.snd).countP (·.statement.emits) := by
        rw [List.countP_map]
        rfl
    _ = s.lines.countP (·.statement.emits) := by rw [map_snd_contexts]

theorem Segment.overfull_iff {s : Segment} : s.Overfull ↔ ∃ c, s.surplus? = some c := by
  rw [Overfull, ← s.length_emitting, surplus?]
  constructor
  · exact fun h ↦ ⟨_, List.getElem?_eq_getElem h⟩
  · rintro ⟨c, hc⟩
    exact (List.getElem?_eq_some_iff.mp hc).1

theorem Segment.surplus?_eq_none {s : Segment} (h : ¬s.Overfull) : s.surplus? = none := by
  rw [Option.eq_none_iff_forall_ne_some]
  exact fun c hc ↦ h (overfull_iff.mpr ⟨c, hc⟩)

theorem Segment.surplus?_append {above kept more : List Line} {base : Nat} {l : Line}
    (hl : l.statement.emits) (hkept : kept.countP (·.statement.emits) = memorySize - base) :
    (⟨above, base, kept ++ l :: more⟩ : Segment).surplus? = some (above ++ kept, l) := by
  have hlength := (⟨above, base, kept⟩ : Segment).length_emitting
  have hroom : (⟨above, base, kept ++ l :: more⟩ : Segment).room = memorySize - base := rfl
  rw [emitting, hkept] at hlength
  rw [surplus?, emitting, hroom, contexts_append, List.filter_append, contexts, List.filter_cons,
    if_pos hl, List.getElem?_append_right (Nat.le_of_eq hlength), hlength, Nat.sub_self]
  rfl

theorem exists_segmentsFrom_eq (above : List Line) (base : Nat) (lines rest : List Line) :
    ∃ more later, segmentsFrom above base lines rest = ⟨above, base, lines ++ more⟩ :: later := by
  induction rest generalizing lines with
  | nil => exact ⟨[], [], by rw [List.append_nil]; rfl⟩
  | cons l rest ih =>
    rw [segmentsFrom]
    rcases l.origin? with _ | start
    · obtain ⟨more, later, h⟩ := ih (lines ++ [l])
      exact ⟨l :: more, later, by rw [h, List.append_assoc, List.singleton_append]⟩
    · exact ⟨[], _, by rw [List.append_nil]⟩

/-- The first line beyond the end of memory is the first word too many of some segment, and no
segment before that has a word too many. The lines of the segment at hand are within its room, and
the address behind them is the base plus the number of their words. -/
theorem find?_overflows {above : List Line} {base : Nat} {lines rest : List Line}
    (hroom : lines.countP (·.statement.emits) ≤ memorySize - base)
    (haddress : addressAfter (above ++ lines) = base + lines.countP (·.statement.emits)) :
    (contexts (above ++ lines) rest).find? overflows =
      (segmentsFrom above base lines rest).findSome? Segment.surplus? := by
  induction rest generalizing above base lines with
  | nil =>
    rw [segmentsFrom, List.findSome?_singleton, Segment.surplus?_eq_none (Nat.not_lt.mpr hroom)]
    rfl
  | cons l rest ih =>
    rw [contexts, List.find?_cons, segmentsFrom]
    rcases ho : l.origin? with _ | start
    · have hcount : (lines ++ [l]).countP (·.statement.emits) =
          lines.countP (·.statement.emits) + if l.statement.emits then 1 else 0 := by
        rw [List.countP_append, List.countP_singleton]
      have haddress' : addressAfter (above ++ (lines ++ [l])) =
          base + (lines ++ [l]).countP (·.statement.emits) := by
        rw [← List.append_assoc, addressAfter_of_origin?_eq_none ho, haddress, hcount,
          Nat.add_assoc]
      rcases hover : overflows (above ++ lines, l) with _ | _
      · -- one more line is within the room, with its word if it has one
        have hroom' : (lines ++ [l]).countP (·.statement.emits) ≤ memorySize - base := by
          rw [overflows, Bool.and_eq_false_iff, decide_eq_false_iff_not] at hover
          dsimp only at hover
          rcases hover with hsilent | hfits
          · rw [hcount, hsilent]
            exact hroom
          · rw [hcount]
            split <;> omega
        rw [List.append_assoc]
        exact ih hroom' haddress'
      · obtain ⟨more, later, hsegments⟩ := exists_segmentsFrom_eq above base (lines ++ [l]) rest
        rw [overflows, Bool.and_eq_true, decide_eq_true_iff] at hover
        dsimp only at hover
        have hkept : lines.countP (·.statement.emits) = memorySize - base := by omega
        dsimp only
        rw [hsegments, List.append_assoc lines, List.singleton_append, List.findSome?_cons,
          Segment.surplus?_append hover.1 hkept]
    · have hemits : l.statement.emits = false := by
        by_contra h
        rw [Line.origin?_of_emits (by simpa using h)] at ho
        cases ho
      have hover : overflows (above ++ lines, l) = false := by rw [overflows, hemits]; rfl
      have hstart : addressAfter (above ++ lines ++ [l] ++ []) =
          start + ([] : List Line).countP (·.statement.emits) := by
        rw [List.append_nil, addressAfter_of_origin ho]
        rfl
      have hlater := ih (Nat.zero_le _) hstart
      rw [List.append_nil] at hlater
      rw [hover, List.findSome?_cons, Segment.surplus?_eq_none (Nat.not_lt.mpr hroom)]
      exact hlater

/-- The first line beyond the end of memory is the first word too many of the first segment with
more words than fit. -/
theorem find?_overflows_eq (lines : List Line) :
    (contexts [] lines).find? overflows = (firstOverfull? lines).bind Segment.surplus? := by
  have hfind : (contexts ([] ++ []) lines).find? overflows =
      (segmentsFrom [] 0 [] lines).findSome? Segment.surplus? := find?_overflows (Nat.zero_le _) rfl
  rw [List.append_nil] at hfind
  rw [hfind, firstOverfull?, segments]
  generalize segmentsFrom [] 0 [] lines = found
  induction found with
  | nil => rfl
  | cons s rest ih =>
    rw [List.findSome?_cons, List.find?_cons]
    by_cases hs : s.Overfull
    · obtain ⟨c, hc⟩ := Segment.overfull_iff.mp hs
      simp [hs, hc]
    · rw [Segment.surplus?_eq_none hs, ih]
      simp [hs]

/-! ## The line at fault -/

theorem Line.fault_ne_of_badOrigin? {l : Line} {e : SemanticError} (h : l.badOrigin? = some e) :
    e.fault ≠ .addressOverflow := by
  unfold badOrigin? at h
  split at h
  next =>
    split at h
    next =>
      cases h
      exact SemanticFault.noConfusion
    next => cases h
  next => cases h

theorem Line.fault_ne_of_repeatedLabel? {before : List Line} {l : Line} {e : SemanticError}
    (h : l.repeatedLabel? before = some e) : e.fault ≠ .addressOverflow := by
  unfold repeatedLabel? at h
  split at h
  next =>
    split at h
    next =>
      cases h
      exact SemanticFault.noConfusion
    next => cases h
  next => cases h

theorem fault_ne_of_undefined? {lines : List Line} {tokens : List Token} {e : SemanticError}
    (h : undefined? lines tokens = some e) : e.fault ≠ .addressOverflow := by
  obtain ⟨t, -, rfl⟩ := Option.map_eq_some_iff.mp h
  exact SemanticFault.noConfusion

theorem Line.fault_ne_of_literalFault? {l : Line} {e : SemanticError}
    (h : l.literalFault? = some e) : e.fault ≠ .addressOverflow := by
  unfold literalFault? at h
  split at h
  next radix value _ =>
    split at h
    next => cases h
    next =>
      cases h
      cases radix <;> exact SemanticFault.noConfusion
  next => cases h

/-- Only a line that emits a word beyond the end of memory is reported as such a line. -/
theorem exists_overflows_of_lineFault? {tokens : List Token} {lines : List Line}
    {e : SemanticError} (h : lineFault? tokens lines = some e) (he : e.fault = .addressOverflow) :
    ∃ c ∈ contexts [] lines, overflows c := by
  rw [lineFault?, Option.or_eq_some_iff, Option.or_eq_some_iff] at h
  rcases h with (h | ⟨-, h⟩) | ⟨-, h⟩
  · obtain ⟨c, hc, hfault⟩ := List.exists_of_findSome?_eq_some h
    refine ⟨c, hc, ?_⟩
    rw [Line.misplacement?, Option.or_eq_some_iff, Option.or_eq_some_iff, overflow?_eq] at hfault
    rcases hfault with (hbad | ⟨-, hrepeated⟩) | ⟨-, hover⟩
    · exact absurd he (Line.fault_ne_of_badOrigin? hbad)
    · exact absurd he (Line.fault_ne_of_repeatedLabel? hrepeated)
    · by_contra hnot
      rw [if_neg hnot] at hover
      cases hover
  · exact absurd he (fault_ne_of_undefined? h)
  · obtain ⟨l, -, hfault⟩ := List.exists_of_findSome?_eq_some h
    exact absurd he (Line.fault_ne_of_literalFault? hfault)

/-- The first pass gets as far as the first line beyond the end of memory if nothing else is wrong
up to there. -/
theorem misplacement?_of_find?_overflows {lines : List Line} {c : List Line × Line}
    (h : (contexts [] lines).find? overflows = some c) (hclear : ClearUpTo c) :
    misplacement? [] lines = some (c.2.head.faults .addressOverflow) := by
  obtain ⟨hover, earlier, later, hsplit, hearlier⟩ := List.find?_eq_some_iff_append.mp h
  obtain ⟨head, hhead, rfl⟩ := eq_of_contexts_eq_append hsplit
  rw [List.nil_append] at hhead
  subst hhead
  have hlabels : (labelsOf c.1).Nodup := by
    have hboth := hclear.labels
    rw [labelsOf, List.filterMap_append, List.nodup_append] at hboth
    exact hboth.1
  have hnil : (labelsOf []).Nodup := List.nodup_nil
  have hbefore : misplacement? [] c.1 = none := by
    rw [misplacement?_eq_none_iff, repeatedLabel?_eq_none_iff hnil]
    refine ⟨fun l hl ↦ Line.badOrigin?_eq_none_iff.mpr (hclear.origins l hl), hlabels, ?_⟩
    intro d hd
    rw [overflow?_eq, if_neg (by simpa using hearlier d hd)]
  have hemits : c.2.statement.emits := (Bool.and_eq_true_iff.mp hover).1
  have hline : c.2.misplacement? c.1 = some (c.2.head.faults .addressOverflow) := by
    rw [Line.misplacement?, Line.badOrigin?_of_origin?_eq_none (Line.origin?_of_emits hemits),
      (c.2.repeatedLabel?_eq_none_iff hlabels).mpr hclear.labels, overflow?_eq, if_pos hover]
    rfl
  rw [misplacement?] at hbefore ⊢
  rw [hsplit, List.findSome?_append, hbefore, List.findSome?_cons, hline]
  rfl

theorem mem_of_firstOverfull? {lines : List Line} {s : Segment} (h : s ∈ firstOverfull? lines) :
    s ∈ segments lines ∧ s.Overfull := by
  have hfind : (segments lines).find? (·.Overfull) = some s := h
  have hfull := List.find?_some hfind
  exact ⟨List.mem_of_find?_eq_some hfind, by simpa using hfull⟩

/-- **A text overflows exactly if a segment does.** Let a text be read and its end be all right.
Unless something else is wrong above the first word too many of its first overfull segment, or the
label there is repeated, assembly reports an overflow exactly if some segment has more words than
fit between its base and the end of memory. What it reports then is the token that names the
statement of that very word. -/
theorem overflow_iff {source : String} {tokens : List Token} {lines : List Line}
    (htokens : tokenize source = .ok tokens) (hparse : parse tokens = .ok lines)
    (hend : checkEnd tokens = .ok ())
    (hclear : ∀ s ∈ firstOverfull? lines, ∀ c ∈ s.surplus?, ClearUpTo c) :
    ((∃ e, (assemble source).outcome = .error (.semantic e) ∧ e.fault = .addressOverflow) ↔
      ∃ s ∈ segments lines, s.Overfull) ∧
    ∀ s ∈ firstOverfull? lines, ∃ c, s.surplus? = some c ∧
      (assemble source).outcome = .error (.semantic (c.2.head.faults .addressOverflow)) := by
  have hcases := assemble_of_lines htokens hparse
  rw [checkEnd_eq_ok.mp hend, Option.none_or] at hcases
  have hfirst : ∀ s ∈ firstOverfull? lines, ∃ c, s.surplus? = some c ∧
      (assemble source).outcome = .error (.semantic (c.2.head.faults .addressOverflow)) := by
    intro s hs
    obtain ⟨c, hc⟩ := Segment.overfull_iff.mp (mem_of_firstOverfull? hs).2
    have hfind : (contexts [] lines).find? overflows = some c := by
      rw [find?_overflows_eq, show firstOverfull? lines = some s from hs, Option.bind_some, hc]
    have hfault : lineFault? tokens lines = some (c.2.head.faults .addressOverflow) := by
      rw [lineFault?, misplacement?_of_find?_overflows hfind (hclear s hs c hc)]
      rfl
    rw [hfault] at hcases
    exact ⟨c, hc, hcases⟩
  refine ⟨⟨?_, ?_⟩, hfirst⟩
  · rintro ⟨e, he, hfault⟩
    rcases hline : lineFault? tokens lines with _ | e'
    · rw [hline, he] at hcases
      cases hcases.1
    rw [hline, he] at hcases
    cases hcases
    obtain ⟨c, hc, hover⟩ := exists_overflows_of_lineFault? hline hfault
    have hsome : ((contexts [] lines).find? overflows).isSome :=
      List.find?_isSome.mpr ⟨c, hc, hover⟩
    rw [find?_overflows_eq, Option.isSome_bind, Option.any_eq_true] at hsome
    obtain ⟨s, hs, -⟩ := hsome
    exact ⟨s, mem_of_firstOverfull? hs⟩
  · rintro ⟨s, hs, hfull⟩
    have hsome : (firstOverfull? lines).isSome :=
      List.find?_isSome.mpr ⟨s, hs, decide_eq_true hfull⟩
    obtain ⟨first, hfirst'⟩ := Option.isSome_iff_exists.mp hsome
    obtain ⟨c, -, hc⟩ := hfirst first hfirst'
    exact ⟨_, hc, rfl⟩

/-- A text with one word more than fit behind its second `ORG`, and one `ORG` more behind that. -/
def wordTooMany : String := "HLT\nORG FFF\nHLT\nX, DEC 1\nORG FFFF\nEND"

theorem overflow_wordTooMany :
    ∃ tokens lines, tokenize wordTooMany = .ok tokens ∧ parse tokens = .ok lines ∧
      (segments lines).map (fun s ↦ (s.base, s.lines.countP (·.statement.emits))) =
        [(0, 1), (0xFFF, 2), (0xFFFF, 0)] ∧
      (∃ s ∈ segments lines, s.Overfull) ∧
      (assemble wordTooMany).outcome = .error (.semantic ⟨⟨4, 4⟩, .addressOverflow⟩) := by
  have h := @overflow_iff wordTooMany _ _ rfl rfl rfl ?_
  · exact ⟨_, _, rfl, rfl, rfl, h.1.mp ⟨_, rfl, rfl⟩, rfl⟩
  · intro s hs c hc
    cases hs
    cases hc
    exact ⟨by decide, by decide⟩

end BasicComputer
