import BasicComputer.Proofs.LeadingOrigin
import BasicComputer.Proofs.Transcript

/-!
# The kinds of words

The kind of a token is a matter of its word and of the token before it. A reserved word is one
anywhere. The letter that marks indirection does so right behind an address, and is a name anywhere
else. Any other word is what the reserved word before it asks for, and a name if there is none.

The lexer asks its questions in a fixed order, and each answer rests on all the earlier ones being
no. Read off one by one, the cases would each repeat the whole order. They are stated by what the
word is, reserved, the mark or plain, and each of them asks for no more than that.
-/

namespace BasicComputer

/-! ## Words -/

/-- Whether a word is reserved. -/
def IsReserved (w : List Char) : Prop := String.ofList w ∈ Keyword.names

instance : DecidablePred IsReserved := fun w ↦
  inferInstanceAs (Decidable (String.ofList w ∈ Keyword.names))

/-- Whether a word can name an address. -/
structure IsSymbol (w : List Char) : Prop where
  name : isName w
  free : ¬IsReserved w

instance : DecidablePred IsSymbol := fun w ↦
  decidable_of_iff (isName w ∧ ¬IsReserved w) ⟨fun h ↦ ⟨h.1, h.2⟩, fun h ↦ ⟨h.name, h.free⟩⟩

section Words

variable {w : List Char} {s : String}

theorem isReserved_toList : IsReserved s.toList ↔ (Keyword.ofName? s).isSome := by
  rw [Keyword.isSome_ofName?, IsReserved, String.ofList_toList]

theorem isReserved_name (k : Keyword) : IsReserved k.name.toList := by
  rw [IsReserved, String.ofList_toList]
  exact k.name_mem_names

theorem isDecimalDigit_of_isNameStart {c : Char} (h : isNameStart c) :
    Numeral.isDecimalDigit c = false :=
  Text.of_toNat_lt (P := fun c ↦ isNameStart c → Numeral.isDecimalDigit c = false)
    (by decide) (toNat_lt_of_isWordChar (isWordChar_of_isNameStart h)) h

theorem not_isDecimal_of_isName (h : isName w) : ¬Numeral.isDecimal w := by
  cases w with
  | nil => exact Bool.false_ne_true
  | cons c cs =>
    rw [isName, Bool.and_eq_true] at h
    rw [Numeral.isDecimal, List.all_cons, isDecimalDigit_of_isNameStart h.1]
    exact Bool.false_ne_true

theorem isWord_of_isName (h : isName w) : IsWord w := by
  cases w with
  | nil => cases h
  | cons c cs =>
    refine ⟨List.cons_ne_nil c cs, isWordChar_of_isName h, fun hhyphen ↦ ?_⟩
    rw [isName, Bool.and_eq_true, List.all_eq_true] at h
    rcases List.mem_cons.mp hhyphen with rfl | hmem
    · exact absurd h.1 (by decide)
    · exact absurd (h.2 '-' hmem) (by decide)

theorem ne_mark_of_isHex (h : Numeral.isHex s.toList) : s ≠ "I" := by
  rintro rfl
  revert h
  decide

end Words

/-! ## Kinds -/

namespace Token

variable {previous : Option Token} {p : Token} {x : Lexeme} {k : Keyword} {radix : Radix}

theorem isOperand_kindAfter (k : Keyword) (cs : List Char) : (kindAfter k cs).isOperand := by
  unfold kindAfter
  split <;> (try split) <;> rfl

theorem isOperand_kindByShape (cs : List Char) : (kindByShape cs).isOperand := by
  unfold kindByShape
  split <;> (try split) <;> rfl

theorem kindOf_none (h : ¬IsReserved x.text.toList) :
    kindOf none x = if x.text = "I" then .identifier else kindByShape x.text.toList := by
  rw [isReserved_toList] at h
  exact if_neg h

/-- A plain word has the kind that the token before it asks for, if it asks for one. -/
theorem kindOf_some_of_isPlain (h : IsPlain x.text) :
    kindOf (some p) x = p.keyword?.elim .identifier (kindAfter · x.text.toList) := by
  unfold kindOf
  rw [if_neg h.1]
  dsimp only
  rw [if_neg h.2]
  cases p.keyword? <;> rfl

/-- The letter that marks indirection does so behind an address, and is a name elsewhere. -/
theorem kindOf_some_of_eq (hI : x.text = "I") :
    kindOf (some p) x =
      if p.line = x.line ∧ p.kind.isOperand then .indirection else .identifier := by
  have hfree : ¬(Keyword.ofName? x.text).isSome := by
    rw [hI]
    decide
  unfold kindOf
  rw [if_neg hfree]
  dsimp only
  rw [if_pos hI]

/-- A plain word can be a label or an operand. -/
theorem isOperand_kindOf (previous : Option Token) (h : IsPlain x.text) :
    (kindOf previous x).isOperand := by
  cases previous with
  | none =>
    have hfree : ¬IsReserved x.text.toList := isReserved_toList.not.mpr h.1
    rw [kindOf_none hfree, if_neg h.2]
    exact isOperand_kindByShape x.text.toList
  | some p =>
    rw [kindOf_some_of_isPlain h]
    cases p.keyword? with
    | none => rfl
    | some k => exact isOperand_kindAfter k x.text.toList

theorem not_isReserved_of_kindOf {kind : TokenKind} (h : kindOf previous x = kind)
    (hkind : kind ≠ .keyword) : ¬IsReserved x.text.toList := by
  intro hreserved
  rw [kindOf_of_isSome_ofName? (isReserved_toList.mp hreserved)] at h
  exact hkind h.symm

/-- Nothing else marks indirection. -/
theorem text_eq_mark (h : kindOf previous x = .indirection) : x.text = "I" := by
  by_contra hI
  have hfree := not_isReserved_of_kindOf h TokenKind.noConfusion
  have hoperand := isOperand_kindOf previous ⟨isReserved_toList.not.mp hfree, hI⟩
  rw [h] at hoperand
  cases hoperand

/-- A number behind a reserved word is of the kind that the word asks for. -/
theorem kindAfter_of_kindOf (hp : p.keyword? = some k) (h : kindOf (some p) x = .number radix) :
    ¬IsReserved x.text.toList ∧ kindAfter k x.text.toList = .number radix := by
  have hfree := not_isReserved_of_kindOf h TokenKind.noConfusion
  refine ⟨hfree, ?_⟩
  have hI : x.text ≠ "I" := by
    intro hI
    rw [kindOf_some_of_eq hI] at h
    split at h <;> cases h
  rw [kindOf_some_of_isPlain ⟨isReserved_toList.not.mp hfree, hI⟩, hp] at h
  exact h

/-- A word that no reserved word claims is a name, if it is out of reach of an address. -/
theorem kindOf_eq_identifier (hfree : ¬IsReserved x.text.toList)
    (hmark : ¬(p.line = x.line ∧ p.kind.isOperand))
    (hafter : ∀ k, p.keyword? = some k → kindAfter k x.text.toList = .identifier) :
    kindOf (some p) x = .identifier := by
  by_cases hI : x.text = "I"
  · rw [kindOf_some_of_eq hI, if_neg hmark]
  · rw [kindOf_some_of_isPlain ⟨isReserved_toList.not.mp hfree, hI⟩]
    cases hp : p.keyword? with
    | none => rfl
    | some k => exact hafter k hp

theorem kindOf_none_eq_identifier (hfree : ¬IsReserved x.text.toList)
    (hhex : ¬Numeral.isHex x.text.toList) : kindOf none x = .identifier := by
  have hdecimal : ¬Numeral.isDecimal x.text.toList :=
    fun hdecimal ↦ hhex (Numeral.isHex_of_isDecimal hdecimal)
  rw [kindOf_none hfree, kindByShape, if_neg hdecimal, if_neg hhex, ite_self]

theorem of_ite_eq_number {shape : Prop} [Decidable shape] {r : Radix}
    (h : (if shape then TokenKind.number r else .identifier) = .number radix) : shape := by
  by_contra hnot
  rw [if_neg hnot] at h
  cases h

end Token

end BasicComputer
