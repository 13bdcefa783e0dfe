import BasicComputer.Command
import BasicComputer.Proofs.JsonLibrary

/-!
# Snapshots read back from their texts

A snapshot is read back from its text: from the compact one, from the indented one that a run shows
at its end, and from any text of an object that holds the same members in some order. Nothing is
assumed of the snapshot, so this goes for the snapshot of whatever state a machine gets into.

## Which library

The library is any that meets the assumptions, and what is shown by a run is read back by each of
them, whichever library has written it. This is possible because the members of a snapshot are of
types whose JSON is settled by the assumptions, so all libraries agree on the object.
-/

namespace BasicComputer

namespace Snapshot

variable {lib : Json.Library} {s : Snapshot}

/-! ## Values -/

section Values

variable {width : Nat}

theorem toJson_bitsList (hlib : lib.Standard) (bs : List (BitVec width)) :
    (lib.list (lib.bits width)).toJson bs = .array (bs.map fun b ↦ .natural b.toNat) := by
  rw [hlib.toJson_list, funext hlib.toJson_bits]

theorem ofJson?_bitsList (hlib : lib.Standard) (bs : List (BitVec width)) :
    (lib.list (lib.bits width)).ofJson? (.array (bs.map fun b ↦ .natural b.toNat)) = some bs := by
  rw [hlib.ofJson?_list]
  induction bs with
  | nil => rfl
  | cons b bs ih =>
    rw [List.map_cons, List.mapM_cons, hlib.ofJson?_bits, ih]
    rfl

end Values

theorem values_eq (hlib : lib.Standard) (s : Snapshot) : s.values lib =
    [.natural s.ac.toNat, .natural s.dr.toNat, .natural s.ir.toNat, .natural s.tr.toNat,
      .natural s.ar.toNat, .natural s.pc.toNat, .natural s.inpr.toNat, .natural s.outr.toNat,
      .natural s.sc.toNat, .bool s.e, .bool s.s, .bool s.ien, .bool s.fgi, .bool s.fgo,
      .array (s.memory.map fun w ↦ .natural w.toNat),
      .array (s.input.map fun b ↦ .natural b.toNat),
      .array (s.output.map fun b ↦ .natural b.toNat)] := by
  simp only [values, hlib.toJson_bits, hlib.toJson_bool, toJson_bitsList hlib]

theorem ofValues?_values (hlib : lib.Standard) (s : Snapshot) :
    ofValues? lib (s.values lib) = some s := by
  rw [values_eq hlib, ofValues?]
  simp only [hlib.ofJson?_bits, hlib.ofJson?_bool, ofJson?_bitsList hlib]
  rfl

/-- The values of the members are numbers, truth values, and arrays of numbers. -/
theorem forall_mem_values {P : Json → Prop} (hlib : lib.Standard)
    (hnatural : ∀ n, P (.natural n)) (hbool : ∀ b, P (.bool b))
    (harray : ∀ ns : List Nat, P (.array (ns.map .natural))) : ∀ j ∈ s.values lib, P j := by
  have hbits {width : Nat} (bs : List (BitVec width)) :
      P (.array (bs.map fun b ↦ .natural b.toNat)) := by
    have h := harray (bs.map BitVec.toNat)
    rwa [List.map_map] at h
  rw [values_eq hlib]
  simp only [List.forall_mem_cons, hnatural, hbool, hbits, true_and]
  exact fun _ h ↦ absurd h List.not_mem_nil

/-! ## Members -/

theorem length_names (lib : Json.Library) (s : Snapshot) : names.length = (s.values lib).length :=
  rfl

theorem nodup_names : names.Nodup := by decide

section Members

variable {members : List (String × Json)}

theorem mem_values_of_perm (h : members.Perm (names.zip (s.values lib))) :
    ∀ m ∈ members, m.2 ∈ s.values lib := by
  intro m hm
  have hmem : (m.1, m.2) ∈ names.zip (s.values lib) := h.mem_iff.mp hm
  exact (List.of_mem_zip hmem).2

theorem writable_of_perm (hlib : lib.Standard) (h : members.Perm (names.zip (s.values lib))) :
    (Json.object members).Writable := by
  refine .object fun m hm ↦ ?_
  refine forall_mem_values hlib .natural .bool ?_ m.2 (mem_values_of_perm h m hm)
  exact fun ns ↦ .array (List.forall_mem_map.mpr fun n _ ↦ .natural n)

theorem nestsWithin_of_perm (hlib : lib.Standard) (h : members.Perm (names.zip (s.values lib))) :
    (Json.object members).NestsWithin Json.nestingLimit := by
  intro m hm
  refine forall_mem_values hlib (fun _ ↦ trivial) (fun _ ↦ trivial) ?_ m.2
    (mem_values_of_perm h m hm)
  exact fun ns ↦ List.forall_mem_map.mpr fun _ _ ↦ trivial

theorem filter_eq_singleton (hnodup : (members.map Prod.fst).Nodup) {m : String × Json}
    (hm : m ∈ members) : members.filter (·.1 == m.1) = [m] := by
  induction members with
  | nil => cases hm
  | cons n members ih =>
    rw [List.map_cons, List.nodup_cons] at hnodup
    rw [List.filter_cons]
    rcases List.mem_cons.mp hm with rfl | hm
    · have hothers : members.filter (·.1 == m.1) = [] := by
        rw [List.filter_eq_nil_iff]
        intro n hn heq
        exact hnodup.1 (beq_iff_eq.mp heq ▸ List.mem_map_of_mem hn)
      rw [if_pos (beq_self_eq_true m.1), hothers]
    · have hne : ¬(n.1 == m.1) := by
        intro heq
        exact hnodup.1 (beq_iff_eq.mp heq ▸ List.mem_map_of_mem hm)
      rw [if_neg hne, ih hnodup.2 hm]

/-- In whatever order the members stand, each is the only one of its name. -/
theorem filter_of_perm (h : members.Perm (names.zip (s.values lib))) {m : String × Json}
    (hm : m ∈ names.zip (s.values lib)) : members.filter (·.1 == m.1) = [m] := by
  refine filter_eq_singleton ?_ (h.mem_iff.mpr hm)
  have hnames : (members.map Prod.fst).Perm names := by
    rw [← List.map_fst_zip (Nat.le_of_eq (length_names lib s))]
    exact h.map Prod.fst
  exact hnames.nodup_iff.mpr nodup_names

theorem ofJson?_of_perm (hlib : lib.Standard) (h : members.Perm (names.zip (s.values lib))) :
    (codec lib).ofJson? (.object members) = some s := by
  have hrecord : (lib.record names).ofJson? (.object members) = some (s.values lib) :=
    hlib.ofJson?_record nodup_names (length_names lib s) fun m hm ↦ filter_of_perm h hm
  rw [codec]
  dsimp only
  rw [hrecord]
  exact ofValues?_values hlib s

end Members

/-! ## Texts -/

theorem toJson_codec (hlib : lib.Standard) (s : Snapshot) :
    (codec lib).toJson s = .object (names.zip (s.values lib)) :=
  hlib.toJson_record (length_names lib s)

/-- All libraries agree on the object. -/
theorem toJson_eq (hlib : lib.Standard) (s : Snapshot) :
    s.toJson = .object (names.zip (s.values lib)) := by
  rw [toJson, toJson_codec Json.standard_library, values_eq Json.standard_library, values_eq hlib]

/-- **A snapshot is read back from its text.** Let a library meet the assumptions. Then any snapshot
can be written, and is read back from its compact text and from its indented one, whatever its words
and however long its memory and streams are. It is also read from every text of an object with the
same members, in whatever order they stand and however they are spelled.

So this is true of the snapshot of any machine, and what a run shows as data at its end is a text
from which the library reads the snapshot of the machine. -/
theorem read_back {lib : Json.Library} (hlib : lib.Standard) :
    (∀ (style : Json.Style) (s : Snapshot), ∃ text,
      lib.text? style ((codec lib).toJson s) = some text ∧
        lib.parse? (codec lib) text = some s) ∧
    (∀ (s : Snapshot) (members : List (String × Json)) (text : String),
      members.Perm (names.zip (s.values lib)) → Json.Spells text.toList (.object members) →
        lib.parse? (codec lib) text = some s) ∧
    ∀ (options : Command.RunOptions) (steps : Nat) (m : Machine), options.json →
      ∃ text, Command.finalLines options steps m = [text] ∧
        lib.parse? (codec lib) text = some m.snapshot := by
  have hread (s : Snapshot) (members : List (String × Json)) (text : String)
      (h : members.Perm (names.zip (s.values lib)))
      (htext : Json.Spells text.toList (.object members)) :
      lib.parse? (codec lib) text = some s :=
    hlib.parse?_eq htext (nestsWithin_of_perm hlib h) (ofJson?_of_perm hlib h)
  refine ⟨?_, hread, ?_⟩
  · intro style s
    rw [toJson_codec hlib]
    exact hlib.exists_text (writable_of_perm hlib (.refl _)) (nestsWithin_of_perm hlib (.refl _))
      (ofJson?_of_perm hlib (.refl _)) style
  · intro options steps m hjson
    refine ⟨m.snapshot.toJson.text Json.indented, ?_, hread m.snapshot _ _ (.refl _) ?_⟩
    · rw [Command.finalLines, if_pos hjson]
    · rw [toJson_eq hlib, Json.text, String.toList_ofList]
      exact Json.standard_library.spells_write (writable_of_perm hlib (.refl _)) .indented 0

/-- A run of at most ten micro-steps that shows its final state as data. -/
def dataRun : Command.RunOptions := ⟨none, 10, false, true⟩

theorem read_back_initial :
    (∃ text, Json.library.text? .compact Machine.initial.snapshot.toJson = some text ∧
      parse? text = some Machine.initial.snapshot) ∧
    parse? ((Json.object (names.zip Machine.initial.snapshot.values).reverse).text Json.indented) =
      some Machine.initial.snapshot ∧
    ∃ text, Command.finalLines dataRun 0 Machine.initial = [text] ∧
      parse? text = some Machine.initial.snapshot := by
  obtain ⟨hwritten, hreordered, hshown⟩ := read_back Json.standard_library
  refine ⟨hwritten .compact _, hreordered _ _ _ (List.reverse_perm _) ?_, hshown dataRun 0 _ rfl⟩
  rw [Json.text, String.toList_ofList]
  exact Json.standard_library.spells_write
    (writable_of_perm Json.standard_library (List.reverse_perm _)) .indented 0

end Snapshot

end BasicComputer
