import BasicComputer.Listing
import BasicComputer.Proofs.LastWrite
import BasicComputer.Proofs.WrittenNumbers

/-!
# Listings

A listing is made to be looked at, but it can also be read. A line of it begins with a place in
hexadecimal, behind the colon are the four digits of a word, and what follows says no more than
these two. No text in a line contains the end of a line, so the lines of a listing are the ones that
it was put together from.

The lines of a program are sorted by place. That the sort is stable is what makes the last line for
a place the right one: it shows the word that is loaded last, and this is the word that memory
holds.

## Reading a listing

What a listing shows is defined by functions on its text, which cut a line at its colon and read the
digits. They know nothing of how the line was put together. A statement about the lines alone, as
they were put together, would say the same of a listing whose lines cannot be told apart.

## Stability

Words for one place are loaded one over the other, so among lines with one place the order decides.
Sorting must keep it. The library's sort is stable, and here this is used for filters: what has one
key is in the same order before and after.
-/

namespace BasicComputer

/-! ## Text without newlines -/

theorem newline_notMem_digits (width n : Nat) : '\n' ∉ Numeral.digits 16 width n := by
  intro h
  have hdigits := Numeral.isHex_digits width n
  rw [Numeral.isHex, Bool.and_eq_true, List.all_eq_true] at hdigits
  exact absurd (hdigits.2 _ h) (by decide)

theorem newline_notMem_hex (width n : Nat) : '\n' ∉ (Numeral.hex width n).toList := by
  rw [Numeral.hex, String.toList_ofList]
  exact newline_notMem_digits width n

theorem Operation.newline_notMem_text (o : Operation) : '\n' ∉ o.text.toList := by
  cases o with
  | memory op address indirect =>
    have hname : '\n' ∉ op.mnemonic.toList := by cases op <;> decide
    cases indirect <;> simp [text, toString, hname, newline_notMem_hex]
  | register op => cases op <;> decide
  | io op => cases op <;> decide
  | unknown w => simp [text, toString, newline_notMem_hex]

namespace Listing

/-! ## Lines -/

/-- What a row consists of, up to the end of its line. -/
def line (origin : Nat) (w : Word) (text : String) : List Char :=
  Numeral.digits 16 3 origin ++
    ':' :: ' ' :: (Numeral.digits 16 4 w.toNat ++ ' ' :: ' ' :: text.toList)

theorem toList_row (origin : Nat) (w : Word) (text : String) :
    (row origin w text).toList = line origin w text ++ ['\n'] := by
  simp [row, line, Numeral.hex, toString]

/-- The place that a line begins with, in front of the colon. -/
def placeIn (l : List Char) : Nat := Numeral.value 16 (l.takeWhile (· != ':'))

/-- The word that a line shows, in four digits behind the colon. -/
def wordIn (l : List Char) : Word :=
  .ofNat 16 (Numeral.value 16 (((l.dropWhile (· != ':')).drop 2).take 4))

section Line

variable (origin : Nat) (w : Word) (text : String)

theorem ne_colon_of_mem_digits {width n : Nat} :
    ∀ c ∈ Numeral.digits 16 width n, (c != ':') = true := by
  intro c hc
  have hdigits := Numeral.isHex_digits width n
  rw [Numeral.isHex, Bool.and_eq_true, List.all_eq_true] at hdigits
  rw [bne_iff_ne]
  rintro rfl
  exact absurd (hdigits.2 _ hc) (by decide)

theorem placeIn_line : placeIn (line origin w text) = origin := by
  rw [placeIn, line, List.takeWhile_append_of_pos ne_colon_of_mem_digits,
    List.takeWhile_cons_of_neg (by decide), List.append_nil, Numeral.value_digits]

theorem wordIn_line : wordIn (line origin w text) = w := by
  rw [wordIn, line, List.dropWhile_append_of_pos ne_colon_of_mem_digits,
    List.dropWhile_cons_of_neg (by decide), List.drop_succ_cons, List.drop_succ_cons,
    List.drop_zero, List.take_left' (Numeral.length_digits_word w), Numeral.value_digits,
    BitVec.ofNat_toNat, BitVec.setWidth_eq]

theorem newline_notMem_line (h : '\n' ∉ text.toList) : '\n' ∉ line origin w text := by
  simp [line, newline_notMem_digits, h]

end Line

theorem lines_flatMap {ls : List (List Char)} (h : ∀ l ∈ ls, '\n' ∉ l) :
    Text.lines (ls.flatMap (· ++ ['\n'])) = ls := by
  induction ls with
  | nil => rfl
  | cons l ls ih =>
    obtain ⟨hl, hls⟩ := List.forall_mem_cons.mp h
    rw [List.flatMap_cons, List.append_assoc, List.singleton_append, Text.lines_append_newline hl,
      ih hls]

/-! ## Programs -/

/-- The words of a program with their places, each marked if it is an instruction, in the order they
are loaded. -/
def entries (p : Program) : List (Nat × Word × Bool) :=
  p.instructions.map (fun i ↦ (i.origin, i.word, true)) ++
    p.data.map fun d ↦ (d.origin, d.word, false)

/-- The line that shows a word: an instruction as its operation, a datum as a number. -/
def entryLine (e : Nat × Word × Bool) : List Char :=
  line e.1 e.2.1 (if e.2.2 then ofWord e.2.1 else s!"HEX {Numeral.hex 1 e.2.1.toNat}")

theorem map_entries (p : Program) : ((entries p).map fun e ↦ (e.1, e.2.1)) = p.words := by
  rw [entries, List.map_append, List.map_map, List.map_map]
  rfl

theorem lastWord_words (p : Program) (a : Nat) :
    lastWord p.words a = ((entries p).filter (·.1 == a)).getLast?.map (·.2.1) := by
  rw [← map_entries, lastWord, List.filter_map, List.getLast?_map, Option.map_map]
  rfl

theorem newline_notMem_entryLine (e : Nat × Word × Bool) : '\n' ∉ entryLine e := by
  apply newline_notMem_line
  split
  · exact (decode e.2.1).newline_notMem_text
  · simp [toString, newline_notMem_hex]

theorem lines_ofProgram (p : Program) :
    Text.lines (ofProgram p).toList =
      Text.lines header.toList ++ (sortedWords p).map entryLine := by
  have hheader : header.toList = (Text.lines header.toList).flatMap (· ++ ['\n']) := by decide
  have hrows : (rows p).flatMap String.toList =
      ((sortedWords p).map entryLine).flatMap (· ++ ['\n']) := by
    rw [rows, List.flatMap_map, List.flatMap_map]
    refine List.flatMap_congr fun e _ ↦ ?_
    exact toList_row e.1 e.2.1 _
  rw [ofProgram, String.toList_join, List.flatMap_cons, hrows]
  nth_rewrite 1 [hheader]
  rw [← List.flatMap_append, lines_flatMap]
  rw [List.forall_mem_append, List.forall_mem_map]
  exact ⟨by decide, fun e _ ↦ newline_notMem_entryLine e⟩

/-! ## The order of the lines -/

section Sorting

variable {α : Type} (key : α → Nat)

theorem decide_le_trans (x y z : α) (hxy : decide (key x ≤ key y)) (hyz : decide (key y ≤ key z)) :
    decide (key x ≤ key z) :=
  decide_eq_true ((of_decide_eq_true hxy).trans (of_decide_eq_true hyz))

theorem decide_le_total (x y : α) : decide (key x ≤ key y) || decide (key y ≤ key x) := by
  simpa using le_total (key x) (key y)

theorem pairwise_mergeSort (xs : List α) :
    (xs.mergeSort fun x y ↦ decide (key x ≤ key y)).Pairwise fun x y ↦ key x ≤ key y :=
  (List.pairwise_mergeSort (decide_le_trans key) (decide_le_total key) xs).imp of_decide_eq_true

/-- Sorting by a key does not change the order of things that have the same key. -/
theorem filter_mergeSort (xs : List α) (k : Nat) :
    (xs.mergeSort fun x y ↦ decide (key x ≤ key y)).filter (key · == k) =
      xs.filter (key · == k) := by
  have hpairwise : (xs.filter (key · == k)).Pairwise fun x y ↦ decide (key x ≤ key y) := by
    refine List.pairwise_of_forall_mem_list fun x hx y hy ↦ ?_
    rw [beq_iff_eq.mp (List.mem_filter.mp hx).2, beq_iff_eq.mp (List.mem_filter.mp hy).2]
    exact decide_eq_true le_rfl
  have hsublist := List.sublist_mergeSort (decide_le_trans key) (decide_le_total key) hpairwise
    List.filter_sublist
  have hkept := hsublist.filter (key · == k)
  rw [List.filter_filter] at hkept
  simp only [Bool.and_self] at hkept
  refine (hkept.eq_of_length ?_).symm
  exact ((List.mergeSort_perm xs _).filter _).length_eq.symm

end Sorting

/-- The word that the last of the lines for a place shows. -/
def lastShown (ls : List (List Char)) (a : Nat) : Option Word :=
  ((ls.filter (placeIn · == a)).getLast?).map wordIn

theorem lastShown_map_line {α : Type} (es : List α) (place : α → Nat) (word : α → Word)
    (text : α → String) (a : Nat) :
    lastShown (es.map fun e ↦ line (place e) (word e) (text e)) a =
      lastWord (es.map fun e ↦ (place e, word e)) a := by
  have hplace : (placeIn · == a) ∘ (fun e ↦ line (place e) (word e) (text e)) =
      fun e ↦ place e == a := funext fun e ↦ congrArg (· == a) (placeIn_line _ _ _)
  have hword : wordIn ∘ (fun e ↦ line (place e) (word e) (text e)) = word :=
    funext fun e ↦ wordIn_line _ _ _
  have hpair : (fun w : Nat × Word ↦ w.1 == a) ∘ (fun e ↦ (place e, word e)) =
      fun e ↦ place e == a := rfl
  rw [lastShown, List.filter_map, hplace, List.getLast?_map, Option.map_map, hword, lastWord,
    List.filter_map, hpair, List.getLast?_map, Option.map_map]
  rfl

/-- The last line for a place shows the word that is loaded last. -/
theorem lastShown_sortedWords (p : Program) (a : Nat) :
    lastShown ((sortedWords p).map entryLine) a = lastWord p.words a := by
  have hkept : (sortedWords p).filter (·.1 == a) = (entries p).filter (·.1 == a) :=
    filter_mergeSort (·.1) (entries p) a
  have hshown : lastShown ((sortedWords p).map entryLine) a =
      lastWord ((sortedWords p).map fun e ↦ (e.1, e.2.1)) a :=
    lastShown_map_line (sortedWords p) (·.1) (·.2.1) _ a
  rw [hshown, lastWord_words, ← hkept, lastWord, List.filter_map, List.getLast?_map,
    Option.map_map]
  rfl

/-- **Listings.** Below its header, the listing of a program has one line for each of the program's
words, sorted by place, and words with the same place are in the order they are loaded. Once the
program is loaded into empty memory, an address holds the word that the last line for it shows, and
zero if there is none. -/
theorem listing_faithful (p : Program) :
    ∃ es : List (Nat × Word × Bool),
      Text.lines (ofProgram p).toList = Text.lines header.toList ++ es.map entryLine ∧
      es.Perm (entries p) ∧ (es.Pairwise fun e f ↦ e.1 ≤ f.1) ∧
      (∀ a, es.filter (·.1 == a) = (entries p).filter (·.1 == a)) ∧
      (Memory.check p = .ok () → ∃ m, Memory.empty.load p = .ok m ∧
        ∀ a : Address, m.read a = (lastShown (es.map entryLine) a.toNat).getD 0) := by
  refine ⟨sortedWords p, lines_ofProgram p, List.mergeSort_perm _ _,
    pairwise_mergeSort (·.1) (entries p), filter_mergeSort (·.1) (entries p), ?_⟩
  intro hcheck
  obtain ⟨m, hload⟩ := Memory.exists_load_eq_ok (Memory.check_eq_ok_iff.mp hcheck) .empty
  refine ⟨m, hload, fun a ↦ ?_⟩
  rw [lastShown_sortedWords, Memory.read_of_load hload, Memory.read_empty]

/-- An instruction and a number are for one address, and the place in front of it comes last. -/
def contested : Program :=
  ⟨[⟨0x101, 0x7001, "HLT", 1⟩, ⟨0x100, 0x7800, "CLA", 3⟩], [⟨0x100, 42⟩, ⟨0xFF, 7⟩]⟩

theorem listing_faithful_contested :
    Memory.check contested = .ok () ∧
    ∃ (es : List (Nat × Word × Bool)) (m : Memory),
      Text.lines (ofProgram contested).toList = Text.lines header.toList ++ es.map entryLine ∧
      es.filter (·.1 == 0x100) = [(0x100, 0x7800, true), (0x100, 42, false)] ∧
      Memory.empty.load contested = .ok m ∧
      lastShown (es.map entryLine) 0x100 = some 42 ∧ m.read 0x100 = 42 := by
  have hcheck : Memory.check contested = .ok () := rfl
  obtain ⟨es, hlines, -, -, hplaces, hloads⟩ := listing_faithful contested
  obtain ⟨m, hload, hread⟩ := hloads hcheck
  have hword : m.read 0x100 = 42 := Memory.read_of_load hload 0x100
  have hshown := (hread 0x100).symm.trans hword
  refine ⟨hcheck, es, m, hlines, hplaces 0x100, hload, ?_, hword⟩
  -- what is shown is not zero, so there is a line that shows it
  cases hlast : lastShown (es.map entryLine) (0x100 : Address).toNat with
  | none =>
    rw [hlast] at hshown
    exact absurd hshown (by decide)
  | some w =>
    rw [hlast] at hshown
    exact hlast.trans (congrArg some hshown)

end Listing

end BasicComputer
