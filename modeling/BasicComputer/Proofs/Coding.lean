import BasicComputer.Operation

/-!
# Reading words back

Every operation that the machine can carry out has a word, and decoding that word gives the
operation back. For memory references this is so because the three fields of a word do not overlap;
of the address only the twelve bits that fit come back. Register and input-output operations all
have opcode seven, which no memory reference has, and are told apart by their whole word.

Nor is there anything in a word but its three fields, so every word is what the operation it is
decoded as is encoded as. No two words stand for one operation, and the operations that come back
from their words are those that some word is decoded as: not the ones with an address beyond the end
of memory, and not the words that are called unknown but are the code of an operation.

A word of a memory reference is a concatenation of its fields, and decoding takes slices of a word.
Lengths of vectors are part of their types, so the fields are joined at the sum of their widths,
where a slice of a concatenation is all there is to compute. The codes of the other operations are a
short table, and going through it is the shorter way.
-/

namespace BasicComputer

/-! ## Tables -/

theorem MemoryOp.ofOpcode?_opcode (op : MemoryOp) : ofOpcode? op.opcode = some op := by
  cases op <;> rfl

theorem MemoryOp.opcode_of_ofOpcode? {c : BitVec 3} {op : MemoryOp} (h : ofOpcode? c = some op) :
    op.opcode = c := by
  simpa using List.find?_some h

theorem RegisterOp.code_of_ofCode? {w : Word} {op : RegisterOp} (h : ofCode? w = some op) :
    op.code = w := by
  simpa using List.find?_some h

theorem IoOp.code_of_ofCode? {w : Word} {op : IoOp} (h : ofCode? w = some op) :
    op.code = w := by
  simpa using List.find?_some h

/-! ## Fields -/

section Fields

/-- A word put together from the fields of a memory reference, at the sum of their widths. -/
def joinFields (indirect : Bool) (opcode : BitVec 3) (address : Address) : BitVec (1 + 3 + 12) :=
  BitVec.ofBool indirect ++ opcode ++ address

variable (indirect : Bool) (opcode : BitVec 3) (address : Address)

theorem extractLsb'_joinFields :
    (joinFields indirect opcode address).extractLsb' 12 3 = opcode := by
  ext i hi
  rw [BitVec.getElem_extractLsb', joinFields, BitVec.getLsbD_append, if_neg (by omega),
    Nat.add_sub_cancel_left, BitVec.getLsbD_append, if_pos hi, BitVec.getLsbD_eq_getElem hi]

theorem lowAddress_joinFields : lowAddress (joinFields indirect opcode address) = address := by
  ext i hi
  rw [lowAddress, BitVec.getElem_setWidth, joinFields, BitVec.getLsbD_append, if_pos hi,
    BitVec.getLsbD_eq_getElem hi]

theorem msb_joinFields : (joinFields indirect opcode address).msb = indirect := by
  rw [joinFields, BitVec.msb_append, BitVec.msb_append]
  cases indirect <;> rfl

/-- Every bit of a word is in one of the fields. -/
theorem joinFields_ofWord (w : Word) :
    joinFields (Fields.ofWord w).indirect (Fields.ofWord w).opcode (Fields.ofWord w).address =
      w := by
  ext i hi
  simp only [joinFields, Fields.ofWord, lowAddress, BitVec.getElem_append, BitVec.getElem_setWidth,
    BitVec.getElem_extractLsb', BitVec.getElem_ofBool]
  by_cases haddress : i < 12
  · rw [dif_pos haddress, BitVec.getLsbD_eq_getElem hi]
  by_cases hopcode : i - 12 < 3
  · rw [dif_neg haddress, dif_pos hopcode, Nat.add_sub_cancel' (by omega),
      BitVec.getLsbD_eq_getElem hi]
  · obtain rfl : i = 15 := by omega
    rw [dif_neg haddress, dif_neg hopcode, BitVec.msb_eq_getLsbD_last, BitVec.getLsbD_eq_getElem hi]

end Fields

/-! ## From an operation to its word and back -/

/-- The fields of a memory reference are the ones it was put together from. -/
theorem Fields.ofWord_encode_memory (op : MemoryOp) (a : Word) (indirect : Bool) :
    ofWord (encode (.memory op a indirect)) = ⟨op.opcode, lowAddress a, indirect⟩ := by
  have hword : encode (.memory op a indirect) = joinFields indirect op.opcode (lowAddress a) := rfl
  rw [hword, ofWord, extractLsb'_joinFields, lowAddress_joinFields]
  exact congrArg (Fields.mk op.opcode (lowAddress a)) (msb_joinFields _ _ _)

theorem lowAddress_encode_memory (op : MemoryOp) (a : Word) (indirect : Bool) :
    lowAddress (encode (.memory op a indirect)) = lowAddress a :=
  congrArg Fields.address (Fields.ofWord_encode_memory op a indirect)

theorem decode_encode_memory (op : MemoryOp) (a : Word) (indirect : Bool) :
    decode (encode (.memory op a indirect)) =
      .memory op ((lowAddress a).setWidth 16) indirect := by
  rw [decode, Fields.ofWord_encode_memory]
  dsimp only
  rw [MemoryOp.ofOpcode?_opcode]

theorem decode_encode_register (op : RegisterOp) :
    decode (encode (.register op)) = .register op := by
  cases op <;> decide

theorem decode_encode_io (op : IoOp) : decode (encode (.io op)) = .io op := by
  cases op <;> decide

/-! ## From a word to its operation and back -/

/-- An address taken from a word has room in one. -/
theorem lowAddress_setWidth (a : Address) : lowAddress (a.setWidth 16) = a := by
  rw [lowAddress, BitVec.setWidth_setWidth_of_le a (by decide), BitVec.setWidth_eq]

theorem encode_decode (w : Word) : encode (decode w) = w := by
  rw [decode]
  cases hm : MemoryOp.ofOpcode? (Fields.ofWord w).opcode with
  | some op =>
    have hword (a : Word) (indirect : Bool) :
        encode (.memory op a indirect) = joinFields indirect op.opcode (lowAddress a) := rfl
    dsimp only
    rw [hword, MemoryOp.opcode_of_ofOpcode? hm, lowAddress_setWidth, joinFields_ofWord]
  | none =>
    cases hr : RegisterOp.ofCode? w with
    | some op => exact RegisterOp.code_of_ofCode? hr
    | none =>
      cases hi : IoOp.ofCode? w with
      | some op => exact IoOp.code_of_ofCode? hi
      | none => rfl

/-! ## The operations that come back -/

/-- Whether an operation carries no more than its word has room for: an address of memory, and a
word that is called unknown only if it stands for no other operation. -/
def Operation.IsProper : Operation → Prop
  | memory _ a _ => a.toNat < memorySize
  | register _ | io _ => True
  | unknown w => ∀ o, o ≠ unknown w → encode o ≠ w

theorem setWidth_lowAddress (a : Word) :
    (lowAddress a).setWidth 16 = BitVec.ofNat 16 (a.toNat % memorySize) := by
  apply BitVec.eq_of_toNat_eq
  rw [lowAddress, BitVec.toNat_setWidth, BitVec.toNat_setWidth, BitVec.toNat_ofNat]

theorem setWidth_lowAddress_eq_iff {a : Word} :
    (lowAddress a).setWidth 16 = a ↔ a.toNat < memorySize := by
  rw [setWidth_lowAddress, ← BitVec.toNat_inj, BitVec.toNat_ofNat, memorySize]
  omega

theorem decode_eq_unknown_iff {w : Word} :
    decode w = .unknown w ↔ (Operation.unknown w).IsProper := by
  constructor
  · rintro hw o hne rfl
    -- an operation that is encoded as an unknown word would have come back from it
    cases o with
    | memory op a indirect =>
      rw [decode_encode_memory] at hw
      cases hw
    | register op =>
      rw [decode_encode_register] at hw
      cases hw
    | io op =>
      rw [decode_encode_io] at hw
      cases hw
    | unknown w => exact hne rfl
  · intro hw
    exact Decidable.byContradiction fun hne ↦ hw (decode w) hne (encode_decode w)

theorem decode_encode_eq_iff (o : Operation) : decode (encode o) = o ↔ o.IsProper := by
  cases o with
  | memory op a indirect =>
    rw [decode_encode_memory, Operation.memory.injEq, setWidth_lowAddress_eq_iff]
    exact ⟨fun h ↦ h.2.1, fun h ↦ ⟨rfl, h, rfl⟩⟩
  | register op => exact iff_of_true (decode_encode_register op) trivial
  | io op => exact iff_of_true (decode_encode_io op) trivial
  | unknown w => exact decode_eq_unknown_iff

/-- **Words and operations.** Every word is what its operation is encoded as. An operation comes
back from its word exactly if it carries no more than the word has room for; of a memory reference,
the address comes back modulo the size of memory. -/
theorem encode_inverse_decode :
    (∀ w, encode (decode w) = w) ∧
    (∀ o, decode (encode o) = o ↔ o.IsProper) ∧
    ∀ op (a : Word) indirect, decode (encode (.memory op a indirect)) =
      .memory op (BitVec.ofNat 16 (a.toNat % memorySize)) indirect := by
  refine ⟨encode_decode, decode_encode_eq_iff, fun op a indirect ↦ ?_⟩
  rw [decode_encode_memory, setWidth_lowAddress]

-- a word that is called unknown although it halts the machine
example : decode (encode (.unknown 0x7001)) = .register .hlt := by decide

end BasicComputer
