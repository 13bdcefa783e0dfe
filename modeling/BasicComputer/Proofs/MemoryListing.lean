import BasicComputer.Proofs.Listings

/-!
# What a listing of memory keeps

The listing of a memory leaves out the words that are zero, and yet nothing is lost. Its lines can
be told apart whatever operations they show: a line ends where its newline is, its place is what
stands in front of the first colon, and its word has four digits. So each line gives back one word
with its address, and an address without a line holds zero.

What was loaded where is not a part of the listing. Two memories with the same words have the same
listing, even if the words got there in different ways.

The listing is a function of the words, so equal words give equal listings. For the other direction
it is enough to have a function that gives the words back. That it ignores everything in a line but
the place and the digits makes the statement stronger, since the operation shown beside them could
be spelled in any way.
-/

namespace BasicComputer

namespace Memory

variable {m : Memory}

/-! ## The words that are not zero -/

theorem mem_nonZero {a : Nat} {w : Word} :
    (a, w) ∈ m.nonZero ↔ m.words.toList[a]? = some w ∧ w ≠ 0 := by
  rw [nonZero, List.mem_map]
  constructor
  · rintro ⟨e, he, heq⟩
    obtain ⟨hmem, hne⟩ := List.mem_filter.mp he
    cases heq
    exact ⟨List.mem_zipIdx_iff_getElem?.mp hmem, bne_iff_ne.mp hne⟩
  · rintro ⟨hget, hne⟩
    exact ⟨(w, a), List.mem_filter.mpr ⟨List.mem_zipIdx_iff_getElem?.mpr hget, bne_iff_ne.mpr hne⟩,
      rfl⟩

theorem mem_nonZero_toNat {a : Address} {w : Word} :
    (a.toNat, w) ∈ m.nonZero ↔ m.read a = w ∧ w ≠ 0 := by
  have hlt : a.toNat < m.words.toList.length := by simpa using a.isLt
  rw [mem_nonZero, List.getElem?_eq_getElem hlt, Option.some_inj]
  rfl

/-- The words are in the order of their addresses. -/
theorem pairwise_nonZero (m : Memory) : m.nonZero.Pairwise fun v w ↦ v.1 < w.1 := by
  have hplaces : (m.words.toList.zipIdx.map (·.2)).Pairwise (· < ·) := by
    rw [List.zipIdx_map_snd]
    exact List.pairwise_lt_range'
  rw [nonZero, List.pairwise_map]
  exact (List.pairwise_map.mp hplaces).filter _

theorem lastWord_nonZero (m : Memory) (a : Address) :
    (lastWord m.nonZero a.toNat).getD 0 = m.read a := by
  by_cases hzero : m.read a = 0
  · have hnone : lastWord m.nonZero a.toNat = none := by
      apply lastWord_eq_none
      rintro ⟨place, w⟩ hw rfl
      obtain ⟨hread, hne⟩ := mem_nonZero_toNat.mp hw
      exact hne (hread.symm.trans hzero)
    rw [hnone, hzero, Option.getD_none]
  · have hmem : (a.toNat, m.read a) ∈ m.nonZero := mem_nonZero_toNat.mpr ⟨rfl, hzero⟩
    have honly : ∀ v, (a.toNat, v) ∈ m.nonZero → v = m.read a :=
      fun v hv ↦ (mem_nonZero_toNat.mp hv).1.symm
    rw [lastWord_eq_some hmem honly, Option.getD_some]

end Memory

namespace Listing

/-! ## The lines and what they show -/

/-- The words that a listing of memory shows, and zero at every address that it has no line for. -/
def wordsIn (text : String) : Vector Word memorySize :=
  .ofFn fun a ↦ (lastShown (Text.lines text.toList) a).getD 0

theorem lines_ofMemory (m : Memory) :
    Text.lines (ofMemory m).toList = m.nonZero.map fun w ↦ line w.1 w.2 (ofWord w.2) := by
  have hrows : (m.nonZero.map fun w ↦ row w.1 w.2 (ofWord w.2)).flatMap String.toList =
      (m.nonZero.map fun w ↦ line w.1 w.2 (ofWord w.2)).flatMap (· ++ ['\n']) := by
    rw [List.flatMap_map, List.flatMap_map]
    exact List.flatMap_congr fun w _ ↦ toList_row w.1 w.2 _
  rw [ofMemory, String.toList_join, hrows, lines_flatMap]
  rw [List.forall_mem_map]
  exact fun w _ ↦ newline_notMem_line w.1 w.2 _ (decode w.2).newline_notMem_text

theorem wordsIn_ofMemory (m : Memory) : wordsIn (ofMemory m) = m.words := by
  ext1 a ha
  have haddress : (BitVec.ofNat 12 a).toNat = a := Nat.mod_eq_of_lt ha
  have hread := m.lastWord_nonZero (.ofNat 12 a)
  rw [haddress] at hread
  have hword : m.read (.ofNat 12 a) = m.words[a] := by simp only [Memory.read, haddress]
  rw [wordsIn, Vector.getElem_ofFn, lines_ofMemory, lastShown_map_line, ← hword, ← hread]
  simp

/-- **Nothing is lost in a listing of memory.** It has one line for each word that is not zero, in
the order of their addresses, and all words of the memory can be read off these lines. So two
memories have the same listing exactly if they hold the same words. -/
theorem memoryListing_lossless (m : Memory) :
    (∃ es : List (Nat × Word),
      Text.lines (ofMemory m).toList = es.map (fun e ↦ line e.1 e.2 (ofWord e.2)) ∧
      (es.Pairwise fun e f ↦ e.1 < f.1) ∧
      ∀ a w, (a, w) ∈ es ↔ ∃ h : a < memorySize, m.words[a] = w ∧ w ≠ 0) ∧
    wordsIn (ofMemory m) = m.words ∧
    ∀ m' : Memory, ofMemory m = ofMemory m' ↔ m.words = m'.words := by
  refine ⟨⟨m.nonZero, lines_ofMemory m, m.pairwise_nonZero, fun a w ↦ ?_⟩, wordsIn_ofMemory m,
    fun m' ↦ ⟨fun h ↦ ?_, fun h ↦ ?_⟩⟩
  · rw [Memory.mem_nonZero, Vector.getElem?_toList, Vector.getElem?_eq_some_iff, exists_and_right]
  · rw [← wordsIn_ofMemory m, ← wordsIn_ofMemory m', h]
  · rw [ofMemory, ofMemory, Memory.nonZero, Memory.nonZero, h]

end Listing

end BasicComputer
