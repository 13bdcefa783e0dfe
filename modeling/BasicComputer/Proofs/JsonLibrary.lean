import BasicComputer.Json.Library
import BasicComputer.Proofs.JsonText

/-!
# What libraries write and read

A library that meets the assumptions writes standard JSON, by induction on the value: every part of
a text stands for its part of the value, and white space does not matter. So a value is read back by
one such library from what another has written, provided that its type makes the same value of its
JSON again.

## The library in use

The library that this program runs with meets all assumptions. Its writer spells strings by escapes
and puts the white space of a layout where the assumptions leave it open, and its reader takes every
spelled text. It reads a record exactly from those members that name each value once: a name that is
missing or repeated is refused.
-/

namespace BasicComputer.Json

/-! ## Texts that are written -/

theorem Spells.blank_append {before cs : List Char} {j : Json} (hbefore : before.all isSpace)
    (h : Spells cs j) : Spells (before ++ cs) j := by
  have hafter : ([] : List Char).all isSpace := rfl
  have hblank := Spells.blank hbefore hafter h
  rwa [List.append_nil] at hblank

namespace Library.Standard

variable {lib : Library}

/-- **A library writes standard JSON**, in either style and at every depth. -/
theorem spells_write (hlib : lib.Standard) {j : Json} (h : Writable j) (style : Style)
    (depth : Nat) : Spells (lib.write style depth j) j := by
  induction h generalizing depth with
  | bool b =>
    rw [hlib.write_bool]
    cases b
    · exact .false
    · exact .true
  | natural n =>
    rw [hlib.write_natural]
    exact .natural n
  | string s => exact hlib.write_string style depth s
  | @array items _ ih =>
    obtain ⟨before, after, hbefore, hafter, hwrite⟩ := hlib.write_array style depth items
    have hitems : ∀ item ∈ items.map fun j ↦ (before ++ lib.write style (depth + 1) j, j),
        Spells item.1 item.2 := by
      rw [List.forall_mem_map]
      exact fun j hj ↦ (ih j hj (depth + 1)).blank_append hbefore
    have hspells := Spells.array hafter _ hitems
    rw [List.map_map, List.map_map] at hspells
    rw [hwrite]
    simpa [Function.comp_def] using hspells
  | @object members _ ih =>
    obtain ⟨before, gap, after, hbefore, hgap, hafter, hwrite⟩ :=
      hlib.write_object style depth members
    have hspells := Spells.object hafter (members.map fun m ↦
      { keyText := before ++ lib.write style (depth + 1) (.string m.1), key := m.1,
        valueText := gap ++ lib.write style (depth + 1) m.2, value := m.2 }) (by
          rw [List.forall_mem_map]
          exact fun m _ ↦ (hlib.write_string style (depth + 1) m.1).blank_append hbefore) (by
          rw [List.forall_mem_map]
          exact fun m hm ↦ (ih m hm (depth + 1)).blank_append hgap)
    rw [List.map_map, List.map_map] at hspells
    rw [hwrite]
    simpa [Function.comp_def, SpelledMember.text] using hspells

/-- A value is read back from its text, if the type makes the same value of its JSON again. -/
theorem exists_text (hlib : lib.Standard) {α : Type} {codec : Codec α} {a : α} {j : Json}
    (hwritable : Writable j) (hnests : NestsWithin nestingLimit j) (ha : codec.ofJson? j = some a)
    (style : Style) : ∃ text, lib.text? style j = some text ∧ lib.parse? codec text = some a := by
  refine ⟨_, hlib.text?_eq hwritable style, hlib.parse?_eq ?_ hnests ha⟩
  rw [String.toList_ofList]
  exact hlib.spells_write hwritable style 0

end Library.Standard

/-! ## Records -/

theorem lookup_eq_head?_filter (members : List (String × Json)) (name : String) :
    members.lookup name = (members.filter (·.1 == name)).head?.map Prod.snd := by
  induction members with
  | nil => rfl
  | cons m members ih =>
    rw [List.lookup_cons, List.filter_cons, Bool.beq_comm]
    by_cases h : m.1 == name
    · rw [h, if_pos rfl]
      rfl
    · rw [if_neg h, Bool.eq_false_iff.mpr h, ih]

/-- A name that is there at most once is there with a value if it is nowhere else. -/
theorem member?_eq_some_iff (members : List (String × Json)) (m : String × Json) :
    members.countP (·.1 == m.1) ≤ 1 ∧ (object members).member? m.1 = some m.2 ↔
      members.filter (·.1 == m.1) = [m] := by
  rw [member?, lookup_eq_head?_filter, List.filter_reverse, List.countP_eq_length_filter]
  rcases hfilter : members.filter (·.1 == m.1) with _ | ⟨n, ns⟩
  · rw [hfilter]
    simp
  · have hn : n ∈ members.filter (·.1 == m.1) := hfilter ▸ List.mem_cons_self
    have hkey : n.1 = m.1 := by simpa using (List.mem_filter.mp hn).2
    rw [hfilter]
    rcases ns with _ | ⟨n', ns⟩
    · simp [Prod.ext_iff, hkey]
    · simp

theorem mapM_eq_some_iff {f : String → Option Json} {names : List String} {values : List Json}
    (h : names.length = values.length) :
    names.mapM f = some values ↔ ∀ m ∈ names.zip values, f m.1 = some m.2 := by
  induction names generalizing values with
  | nil =>
    rw [List.length_nil, eq_comm, List.length_eq_zero_iff] at h
    simp [h]
  | cons name names ih =>
    rcases values with _ | ⟨value, values⟩
    · cases h
    · have hlength : names.length = values.length := Nat.succ.inj h
      rw [List.zip_cons_cons, List.forall_mem_cons, ← ih hlength, List.mapM_cons]
      rcases f name with _ | j
      · simp
      · rcases names.mapM f with _ | js
        · simp
        · simp

/-- **A record is read from the members that name each of its values once**, whatever their order
and whatever other members there are. -/
theorem ofMembers?_eq_some_iff {names : List String} {values : List Json}
    {members : List (String × Json)} (h : names.length = values.length) :
    ofMembers? names members = some values ↔
      ∀ m ∈ names.zip values, members.filter (·.1 == m.1) = [m] := by
  have honce : (names.all fun name ↦ members.countP (·.1 == name) ≤ 1) ↔
      ∀ m ∈ names.zip values, members.countP (·.1 == m.1) ≤ 1 := by
    rw [List.all_eq_true]
    simp only [decide_eq_true_eq]
    conv_lhs => rw [← List.map_fst_zip (Nat.le_of_eq h), List.forall_mem_map]
  simp only [← member?_eq_some_iff, forall_and]
  rw [← honce, ← mapM_eq_some_iff (f := fun name ↦ (object members).member? name) h, ofMembers?]
  split
  · next hall => exact (and_iff_right hall).symm
  · next hall => exact iff_of_false (Option.some_ne_none values).symm fun hboth ↦ hall hboth.1

/-! ## The library in use -/

section Writer

variable {cs s : List Char}

theorem codeUnit?_digitChar : ∀ n < 0x20,
    codeUnit? '0' '0' (Nat.digitChar (n / 16)) (Nat.digitChar (n % 16)) = some n := by
  decide

theorem spellsString_escape (c : Char) (h : SpellsString cs s) :
    SpellsString (escape c ++ cs) (c :: s) := by
  unfold escape
  split
  -- seven characters have a letter of their own; the others are told apart by their number
  iterate 7 exact .letter rfl h
  next hquote hslash _ _ _ _ _ =>
    split
    · next hc =>
      have hcode := SpellsString.code (codeUnit?_digitChar c.toNat hc) (.inl (by omega)) h
      rwa [Char.ofNat_toNat] at hcode
    · next hc => exact .plain hquote hslash (by omega) h

theorem spells_writeString (s : String) : Spells (writeString s) (string s) := by
  refine .string ?_
  induction s.toList with
  | nil => exact .nil
  | cons c cs ih => exact spellsString_escape c ih

theorem writeItems_eq_map (l : Layout) (depth : Nat) (items : List Json) :
    writeItems l depth items = items.map (Json.write l depth) := by
  induction items with
  | nil => rfl
  | cons item items ih => rw [writeItems, ih, List.map_cons]

theorem writeMembers_eq_map (l : Layout) (depth : Nat) (members : List (String × Json)) :
    writeMembers l depth members =
      members.map fun m ↦ writeString m.1 ++ ':' :: l.gap ++ m.2.write l depth := by
  induction members with
  | nil => rfl
  | cons m members ih => rw [writeMembers, ih, List.map_cons]

theorem Style.isBlank_lineBreak (style : Style) (depth : Nat) :
    (style.layout.lineBreak depth).all isSpace := by
  cases style with
  | compact => rfl
  | indented => simp [layout, Json.indented, isSpace]

theorem Style.isBlank_gap (style : Style) : style.layout.gap.all isSpace := by
  cases style with
  | compact => rfl
  | indented => rfl

/-- In front of a bracket that closes nothing there is no white space. -/
theorem exists_enclose (style : Style) (depth : Nat) (left right : Char)
    (texts : List (List Char)) :
    ∃ after : List Char, after.all isSpace ∧
      enclose style.layout depth left right texts =
        left :: [','].intercalate (texts.map (style.layout.lineBreak (depth + 1) ++ ·))
          ++ after ++ [right] := by
  rw [enclose]
  rcases texts with _ | ⟨text, texts⟩
  · exact ⟨[], rfl, rfl⟩
  · exact ⟨_, style.isBlank_lineBreak depth, rfl⟩

end Writer

/-- **The library in use meets the assumptions.** -/
theorem standard_library : library.Standard where
  toJson_bool _ := rfl
  ofJson?_bool _ := rfl
  toJson_bits _ := rfl
  ofJson?_bits := by
    intro width b
    have hfits : bits? width (natural b.toNat) = some b := by
      rw [bits?, BitVec.ofNat_toNat, BitVec.setWidth_eq, if_pos rfl]
    exact hfits
  toJson_list _ _ := rfl
  ofJson?_list _ _ := rfl
  toJson_record _ := rfl
  ofJson?_record := by
    intro names values members _ h hmembers
    exact (ofMembers?_eq_some_iff h).mpr hmembers
  write_bool _ _ b := by cases b <;> rfl
  write_natural _ _ _ := rfl
  write_string _ _ s := spells_writeString s
  write_array := by
    intro style depth items
    obtain ⟨after, hafter, henclose⟩ := exists_enclose style depth '[' ']'
      (writeItems style.layout (depth + 1) items)
    refine ⟨_, after, style.isBlank_lineBreak (depth + 1), hafter, henclose.trans ?_⟩
    rw [writeItems_eq_map, List.map_map]
    rfl
  write_object := by
    intro style depth members
    obtain ⟨after, hafter, henclose⟩ := exists_enclose style depth '\x7b' '\x7d'
      (writeMembers style.layout (depth + 1) members)
    refine ⟨_, _, after, style.isBlank_lineBreak (depth + 1), style.isBlank_gap, hafter,
      henclose.trans ?_⟩
    rw [writeMembers_eq_map, List.map_map]
    simp only [Function.comp_def, ← List.append_assoc]
    rfl
  text?_eq _ _ := rfl
  parse?_eq := by
    intro α codec text j a htext _ ha
    have hparse : library.parse? codec text = (Json.parse? text).bind codec.ofJson? := rfl
    rw [hparse, parse?_of_spells htext, Option.bind_some, ha]

end BasicComputer.Json
