import BasicComputer.Proofs.Image

/-!
# The last write stays

Into a memory that holds anything at all, a program is loaded whole or not at all. It is refused if
one of its words goes to no address, on account of the first such word in the order of loading:
instructions, then data. Otherwise every address holds the last of the words that go to it, and what
it held before if there are none; and it is listed with the last of the instructions that go to it,
or with what it was listed with before. So the number that replaces an instruction's word leaves the
instruction in the list.

Loading can also be told as what is done to the memory: one write after the other, each of which
would come to a stop at an address that there is not, with the writes before it done already. That
all words are looked at before the first is written is why it never comes to this.

## What is kept beside the words

Memory holds a word at each address and, for the listing, the instruction that was loaded there.
Data change the first and leave the second alone. So the two are told by different lists: all words
of the program for one, and its instructions for the other. That they can disagree is not hidden,
and the text at the end of this module shows it.
-/

namespace BasicComputer

/-- The last of the instructions that go to `a`. -/
def lastInstruction (is : List Instruction) (a : Nat) : Option Instruction :=
  (is.filter (·.origin == a)).getLast?

/-- A word with no address to go to, and none like it among the words loaded before it. -/
def Program.StraysAt (p : Program) (origin : Nat) : Prop :=
  ∃ before w after, p.words = before ++ w :: after ∧ (∀ v ∈ before, v.1 < memorySize) ∧
    memorySize ≤ w.1 ∧ w.1 = origin

namespace Memory

variable {m m' : Memory} {p : Program}

/-! ## One write after the other -/

/-- Put one thing after the other in its place, up to the first that goes to no address. Those
before it stay where they were put. -/
def placeAll {α : Type} (place : Memory → α → Memory) (origin : α → Nat) :
    Memory → List α → Except MemoryError Unit × Memory
  | m, [] => (.ok (), m)
  | m, x :: xs =>
    if memorySize ≤ origin x then (.error (.addressOutOfRange (origin x)), m)
    else placeAll place origin (place m x) xs

theorem placeAll_eq {α : Type} {place : Memory → α → Memory} {origin : α → Nat} {xs : List α}
    (h : ∀ x ∈ xs, origin x < memorySize) (m : Memory) :
    placeAll place origin m xs = (.ok (), xs.foldl place m) := by
  induction xs generalizing m with
  | nil => rfl
  | cons x xs ih =>
    obtain ⟨hx, hxs⟩ := List.forall_mem_cons.mp h
    rw [placeAll, if_neg (Nat.not_le.mpr hx), ih hxs, List.foldl_cons]

/-- Look at all words of a program, then write them into memory one by one. -/
def loadInPlace (m : Memory) (p : Program) : Except MemoryError Unit × Memory :=
  match check p with
  | .error e => (.error e, m)
  | .ok () =>
    match placeAll placeInstruction (·.origin) m p.instructions with
    | (.error e, m) => (.error e, m)
    | (.ok (), m) => placeAll placeDatum (·.origin) m p.data

/-- Loading word by word gives the memory that is loaded whole, or leaves memory as it was. -/
theorem loadInPlace_eq (m : Memory) (p : Program) :
    m.loadInPlace p =
      match m.load p with
      | .error e => (.error e, m)
      | .ok m' => (.ok (), m') := by
  rw [loadInPlace, load, check]
  cases hp : p.words.find? (memorySize ≤ ·.1) with
  | some w => rfl
  | none =>
    -- what has been looked at goes to an address, so no write comes to a stop
    have hwords := find?_words_eq_none_iff.mp hp
    rw [Program.words, List.forall_mem_append, List.forall_mem_map, List.forall_mem_map] at hwords
    dsimp only
    rw [placeAll_eq hwords.1]
    exact placeAll_eq hwords.2 _

/-! ## What keeps a program out -/

theorem check_eq_ok_iff : check p = .ok () ↔ ∀ w ∈ p.words, w.1 < memorySize := by
  refine ⟨fun h ↦ ?_, check_of_forall_lt⟩
  rw [check] at h
  split at h
  next => cases h
  next hp => exact find?_words_eq_none_iff.mp hp

theorem check_eq_error_iff {e : MemoryError} :
    check p = .error e ↔ ∃ origin, p.StraysAt origin ∧ e = .addressOutOfRange origin := by
  rw [check]
  constructor
  · intro h
    split at h
    next w hw =>
      cases h
      obtain ⟨hstray, before, after, hsplit, hbefore⟩ := List.find?_eq_some_iff_append.mp hw
      refine ⟨w.1, ⟨before, w, after, hsplit, fun v hv ↦ ?_, of_decide_eq_true hstray, rfl⟩, rfl⟩
      simpa using hbefore v hv
    next => cases h
  · rintro ⟨-, ⟨before, w, after, hsplit, hbefore, hstray, rfl⟩, rfl⟩
    have hw : p.words.find? (memorySize ≤ ·.1) = some w := by
      rw [List.find?_eq_some_iff_append]
      refine ⟨decide_eq_true hstray, before, after, hsplit, fun v hv ↦ ?_⟩
      simpa using hbefore v hv
    rw [hw]

theorem forall_lt_of_load (h : m.load p = .ok m') : ∀ w ∈ p.words, w.1 < memorySize := by
  obtain ⟨_, hcheck, -⟩ := bind_eq_ok.mp h
  exact check_eq_ok_iff.mp hcheck

theorem exists_load_eq_error_iff :
    (∃ e, m.load p = .error e) ↔ ∃ w ∈ p.words, memorySize ≤ w.1 := by
  constructor
  · rintro ⟨e, h⟩
    obtain ⟨-, ⟨before, w, after, hsplit, -, hstray, -⟩, -⟩ :=
      check_eq_error_iff.mp (load_eq_error_iff.mp h)
    rw [hsplit]
    exact ⟨w, List.mem_append_right before List.mem_cons_self, hstray⟩
  · rintro ⟨w, hw, hstray⟩
    cases h : m.load p with
    | error e => exact ⟨e, rfl⟩
    | ok m' => exact absurd (forall_lt_of_load h w hw) (Nat.not_lt.mpr hstray)

/-! ## What is left behind -/

theorem sourceAt_placeInstruction (m : Memory) (i : Instruction) (a : Address) :
    (m.placeInstruction i).sourceAt a = if i.origin = a.toNat then some i else m.sourceAt a := by
  simp [placeInstruction, sourceAt, Vector.getElem_setIfInBounds]

theorem sourceAt_foldl_placeInstruction (is : List Instruction) (m : Memory) (a : Address) :
    (is.foldl placeInstruction m).sourceAt a =
      (lastInstruction is a.toNat).or (m.sourceAt a) := by
  have hview (m : Memory) (i : Instruction) : (m.placeInstruction i).sourceAt a =
      if (i.origin == a.toNat) = true then some i else m.sourceAt a := by
    simp only [sourceAt_placeInstruction, beq_iff_eq]
  rw [foldl_eq_getLast? (sourceAt · a) hview, ← lastInstruction]
  cases lastInstruction is a.toNat <;> rfl

/-- A datum leaves no trace in the list of what was loaded. -/
theorem sourceAt_foldl_placeDatum (ds : List Datum) (m : Memory) (a : Address) :
    (ds.foldl placeDatum m).sourceAt a = m.sourceAt a := by
  induction ds generalizing m with
  | nil => rfl
  | cons d ds ih => exact ih (m.placeDatum d)

theorem sourceAt_of_load (h : m.load p = .ok m') (a : Address) :
    m'.sourceAt a = (lastInstruction p.instructions a.toNat).or (m.sourceAt a) := by
  obtain ⟨-, -, h⟩ := bind_eq_ok.mp h
  cases h
  rw [sourceAt_foldl_placeDatum, sourceAt_foldl_placeInstruction]

theorem eq_of_forall_read_eq (hread : ∀ a, m.read a = m'.read a)
    (hsource : ∀ a, m.sourceAt a = m'.sourceAt a) : m = m' := by
  have haddress {i : Nat} (hi : i < memorySize) : (BitVec.ofNat 12 i).toNat = i := by
    rw [BitVec.toNat_ofNat]
    exact Nat.mod_eq_of_lt hi
  have hwords : m.words = m'.words := by
    ext1 i hi
    simpa only [read, haddress hi] using hread (.ofNat 12 i)
  have hsources : m.sources = m'.sources := by
    ext1 i hi
    simpa only [sourceAt, haddress hi] using hsource (.ofNat 12 i)
  cases m
  cases m'
  cases hwords
  cases hsources
  rfl

theorem load_eq_ok_iff :
    m.load p = .ok m' ↔ (∀ w ∈ p.words, w.1 < memorySize) ∧ ∀ a : Address,
      m'.read a = (lastWord p.words a.toNat).getD (m.read a) ∧
      m'.sourceAt a = (lastInstruction p.instructions a.toNat).or (m.sourceAt a) := by
  constructor
  · intro h
    exact ⟨forall_lt_of_load h, fun a ↦ ⟨read_of_load h a, sourceAt_of_load h a⟩⟩
  · rintro ⟨hwords, h⟩
    obtain ⟨loaded, hloaded⟩ := exists_load_eq_ok hwords m
    -- what is said of `m'` leaves no choice
    have heq : loaded = m' := eq_of_forall_read_eq
      (fun a ↦ (read_of_load hloaded a).trans (h a).1.symm)
      (fun a ↦ (sourceAt_of_load hloaded a).trans (h a).2.symm)
    rw [hloaded, heq]

/-- **The image of a program.** A program is refused exactly if one of its words goes to no address,
and the error names the first of those. If it is not refused, an address holds the last of the
program's words that goes there and is listed with the last of its instructions there, and keeps
what it had where there are none. Loading word by word comes to the same, and if the program is
refused it leaves the memory as it was. -/
theorem load_image (m : Memory) (p : Program) :
    ((∃ e, m.load p = .error e) ↔ ∃ w ∈ p.words, memorySize ≤ w.1) ∧
    (∀ e, m.load p = .error e ↔
      ∃ origin, p.StraysAt origin ∧ e = .addressOutOfRange origin) ∧
    (∀ m', m.load p = .ok m' ↔ (∀ w ∈ p.words, w.1 < memorySize) ∧ ∀ a : Address,
      m'.read a = (lastWord p.words a.toNat).getD (m.read a) ∧
      m'.sourceAt a = (lastInstruction p.instructions a.toNat).or (m.sourceAt a)) ∧
    m.loadInPlace p =
      match m.load p with
      | .error e => (.error e, m)
      | .ok m' => (.ok (), m') :=
  ⟨exists_load_eq_error_iff, fun _ ↦ load_eq_error_iff.trans check_eq_error_iff,
    fun _ ↦ load_eq_ok_iff, m.loadInPlace_eq p⟩

theorem sourceAt_empty (a : Address) : empty.sourceAt a = none := by
  simp [empty, sourceAt]

end Memory

/-! ## What a simulator lists -/

theorem lastWord_instructions (is : List Instruction) (a : Nat) :
    lastWord (is.map fun i ↦ (i.origin, i.word)) a = (lastInstruction is a).map (·.word) := by
  rw [lastWord, lastInstruction, List.filter_map, List.getLast?_map, Option.map_map]
  rfl

theorem origin_of_lastInstruction {is : List Instruction} {a : Nat} {i : Instruction}
    (h : lastInstruction is a = some i) : i.origin = a :=
  beq_iff_eq.mp (List.mem_filter.mp (List.mem_of_getLast? h)).2

theorem lastWord_eq_none {ws : List (Nat × Word)} {a : Nat} (h : ∀ w ∈ ws, w.1 ≠ a) :
    lastWord ws a = none := by
  have hfilter : ws.filter (·.1 == a) = [] := by
    rw [List.filter_eq_nil_iff]
    intro w hw
    rw [beq_iff_eq]
    exact h w hw
  rw [lastWord, hfilter]
  rfl

/-- A word that is the only one to go to an address is the last one. -/
theorem lastWord_eq_some {ws : List (Nat × Word)} {a : Nat} {w : Word} (hw : (a, w) ∈ ws)
    (honly : ∀ v, (a, v) ∈ ws → v = w) : lastWord ws a = some w := by
  have hne : ws.filter (·.1 == a) ≠ [] := List.ne_nil_of_mem (List.mem_filter.mpr ⟨hw, by simp⟩)
  have hlast := List.getLast?_eq_some_getLast hne
  obtain ⟨hmem, hplace⟩ := List.mem_filter.mp (List.mem_of_getLast? hlast)
  generalize (ws.filter (·.1 == a)).getLast hne = e at hlast hmem hplace
  obtain ⟨place, v⟩ := e
  obtain rfl : place = a := beq_iff_eq.mp hplace
  rw [lastWord, hlast, Option.map_some, honly v hmem]

theorem Machine.load_of_boot {p : Program} {m : Machine} (h : boot p = .ok m) :
    Memory.empty.load p = .ok m.memory := by
  rw [boot] at h
  split at h
  next => cases h
  next =>
    split at h
    next => cases h
    next memory hmemory =>
      cases h
      exact hmemory

namespace Simulator

/-- **What is listed.** In a simulator that a program has just been loaded into, an address is
listed with the last of the program's instructions that go there. The address of an instruction that
is listed is the one it goes to, and it holds the instruction's word, unless numbers of the program
go there as well: then it holds the last of these. -/
theorem listed_as_loaded {σ : Type} [Sink σ] {s s' : Simulator σ} {p : Program}
    (h : s.load p = (.ok (), s')) (a : Address) :
    s'.machine.memory.sourceAt a = lastInstruction p.instructions a.toNat ∧
    ∀ i, s'.machine.memory.sourceAt a = some i →
      i.origin = a.toNat ∧
      s'.machine.memory.read a =
        (lastWord (p.data.map fun d ↦ (d.origin, d.word)) a.toNat).getD i.word ∧
      ((∀ d ∈ p.data, d.origin ≠ a.toNat) → s'.machine.memory.read a = i.word) := by
  have hload := Machine.load_of_boot (boot_of_load h)
  have hsource : s'.machine.memory.sourceAt a = lastInstruction p.instructions a.toNat := by
    rw [Memory.sourceAt_of_load hload, Memory.sourceAt_empty, Option.or_none]
  refine ⟨hsource, ?_⟩
  intro i hi
  have hlast : lastInstruction p.instructions a.toNat = some i := hsource.symm.trans hi
  have hread : s'.machine.memory.read a =
      (lastWord (p.data.map fun d ↦ (d.origin, d.word)) a.toNat).getD i.word := by
    rw [Memory.read_of_load hload, Program.words, lastWord_append, lastWord_instructions, hlast,
      Option.map_some, Option.getD_or, Option.getD_some]
  refine ⟨origin_of_lastInstruction hlast, hread, ?_⟩
  intro hdata
  have hnone : lastWord (p.data.map fun d ↦ (d.origin, d.word)) a.toNat = none := by
    apply lastWord_eq_none
    rw [List.forall_mem_map]
    exact hdata
  rw [hread, hnone, Option.getD_none]

/-- Two instructions for one address, and a number for another. -/
def rewritten : Program :=
  ⟨[⟨0x100, 0x7800, "CLA", 2⟩, ⟨0x100, 0x7001, "HLT", 4⟩], [⟨0x101, 42⟩]⟩

theorem listed_as_loaded_rewritten :
    ∃ s', (withSink EventLog.empty).load rewritten = (.ok (), s') ∧
      s'.machine.memory.sourceAt 0x100 = some ⟨0x100, 0x7001, "HLT", 4⟩ ∧
      (∀ d ∈ rewritten.data, d.origin ≠ (0x100 : Address).toNat) ∧
      s'.machine.memory.read 0x100 = 0x7001 := by
  obtain ⟨s', h⟩ : ∃ s', (withSink EventLog.empty).load rewritten = (.ok (), s') := ⟨_, rfl⟩
  obtain ⟨hsource, hlisted⟩ := listed_as_loaded h 0x100
  have hlast : s'.machine.memory.sourceAt 0x100 = some ⟨0x100, 0x7001, "HLT", 4⟩ := hsource
  have hdata : ∀ d ∈ rewritten.data, d.origin ≠ (0x100 : Address).toNat := by decide
  obtain ⟨-, -, hread⟩ := hlisted _ hlast
  exact ⟨s', h, hlast, hdata, hread hdata⟩

/-- A text with an operation and, further down, a number for one address. -/
def operationThenNumber : String := "ORG 100\nHLT\nORG 100\nDEC 42\nEND"

def operationThenNumberProgram : Program := ⟨[⟨0x100, 0x7001, "HLT", 2⟩], [⟨0x100, 42⟩]⟩

/-- The operation is listed, although its word is no longer there. -/
theorem listed_under_number :
    (BasicComputer.assemble operationThenNumber).outcome = .ok operationThenNumberProgram ∧
    ∃ s', (withSink EventLog.empty).load operationThenNumberProgram = (.ok (), s') ∧
      s'.machine.memory.sourceAt 0x100 = some ⟨0x100, 0x7001, "HLT", 2⟩ ∧
      s'.machine.memory.read 0x100 = 42 ∧
      ¬∀ a i, s'.machine.memory.sourceAt a = some i →
        i.origin = a.toNat ∧ s'.machine.memory.read a = i.word := by
  obtain ⟨s', h⟩ : ∃ s', (withSink EventLog.empty).load operationThenNumberProgram = (.ok (), s') :=
    ⟨_, rfl⟩
  have hload := Machine.load_of_boot (boot_of_load h)
  have hsource : s'.machine.memory.sourceAt 0x100 = some ⟨0x100, 0x7001, "HLT", 2⟩ :=
    Memory.sourceAt_of_load hload 0x100
  have hread : s'.machine.memory.read 0x100 = 42 := Memory.read_of_load hload 0x100
  refine ⟨rfl, s', h, hsource, hread, ?_⟩
  intro hclaim
  obtain ⟨-, hword⟩ := hclaim 0x100 _ hsource
  rw [hread] at hword
  exact absurd hword (by decide)

end Simulator

end BasicComputer
