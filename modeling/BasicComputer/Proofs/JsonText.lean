import BasicComputer.Proofs.JsonTokens

/-!
# Spelled values are read

The reader takes every text that stands for a value, and reads that value from it. The tokens of the
value, read one by one, build the value up again.

## The invariant

A value may stand inside of arrays and objects that are still open, and what is read of it must not
depend on them. So what is shown of a value, by induction on its spelling, is about any frames
around it: its tokens lead from "a value comes next" to the state behind that value in the same
frames. Only the empty array and the empty object differ, since a bracket may close where a value
may start.
-/

namespace BasicComputer.Json

/-! ## Reading the tokens of a value -/

variable {frames : List Frame}

/-- Whether a value is read from its tokens wherever a value may stand. -/
def Rebuilds (j : Json) : Prop :=
  ∀ frames, j.tokens.foldlM State.step (.value frames) = some (State.complete frames j)

/-- The first item of an array is read like any other, since no value begins with a closing
bracket. -/
theorem foldlM_firstItem (j : Json) (later : List Token) :
    (j.tokens ++ later).foldlM State.step (.firstItem frames) =
      (j.tokens ++ later).foldlM State.step (.value (.array [] :: frames)) := by
  cases j with
  | null | bool _ | natural _ | numeral _ | string _ | garbled | array _ | object _ => rfl

theorem exists_intercalate_itemTokens (item : Json) (items : List Json) :
    ∃ later, [Token.comma].intercalate (itemTokens (item :: items)) = item.tokens ++ later := by
  rcases items with _ | ⟨next, items⟩
  · exact ⟨[], List.intercalate_singleton.trans (List.append_nil _).symm⟩
  · exact ⟨_, List.intercalate_cons_cons.trans (List.append_assoc ..)⟩

theorem foldlM_items {item : Json} {items : List Json} (h : ∀ j ∈ item :: items, j.Rebuilds)
    (earlier : List Json) :
    ([Token.comma].intercalate (itemTokens (item :: items))).foldlM State.step
        (.value (.array earlier :: frames)) =
      some (.afterItem frames ((item :: items).reverse ++ earlier)) := by
  induction items generalizing item earlier with
  | nil =>
    rw [itemTokens, itemTokens, List.intercalate_singleton, h item List.mem_cons_self]
    rfl
  | cons next items ih =>
    rw [List.forall_mem_cons] at h
    rw [itemTokens, itemTokens, List.intercalate_cons_cons, List.append_assoc, List.foldlM_append,
      h.1 (.array earlier :: frames)]
    have hlater := ih h.2 (item :: earlier)
    rw [List.reverse_cons, List.append_assoc]
    exact hlater

theorem foldlM_member {key : String} {value : Json} (h : value.Rebuilds)
    (earlier : List (String × Json)) :
    (Token.scalar (.string key) :: .colon :: value.tokens).foldlM State.step
        (.nextKey frames (some earlier)) =
      some (.afterMember frames (some ((key, value) :: earlier))) :=
  h (.object (some earlier) (some key) :: frames)

theorem foldlM_members {m : String × Json} {members : List (String × Json)}
    (h : ∀ n ∈ m :: members, n.2.Rebuilds) (earlier : List (String × Json)) :
    ([Token.comma].intercalate (memberTokens (m :: members))).foldlM State.step
        (.nextKey frames (some earlier)) =
      some (.afterMember frames (some ((m :: members).reverse ++ earlier))) := by
  induction members generalizing m earlier with
  | nil =>
    rw [memberTokens, memberTokens, List.intercalate_singleton]
    exact foldlM_member (h m List.mem_cons_self) earlier
  | cons next members ih =>
    rw [List.forall_mem_cons] at h
    rw [memberTokens, memberTokens, List.intercalate_cons_cons, List.append_assoc,
      List.foldlM_append, foldlM_member h.1 earlier]
    have hlater := ih h.2 (m :: earlier)
    rw [List.reverse_cons, List.append_assoc]
    exact hlater

theorem rebuilds_array {items : List Json} (h : ∀ j ∈ items, j.Rebuilds) :
    (array items).Rebuilds := by
  intro frames
  rcases items with _ | ⟨item, items⟩
  · rfl
  · -- the state behind the opening bracket also allows the array to end, which it does not here
    obtain ⟨later, hfirst⟩ := exists_intercalate_itemTokens item items
    calc (Json.array (item :: items)).tokens.foldlM State.step (.value frames)
        = ([Token.comma].intercalate (itemTokens (item :: items)) ++ [Token.arrayEnd]).foldlM
            State.step (.firstItem frames) := rfl
      _ = ([Token.comma].intercalate (itemTokens (item :: items)) ++ [Token.arrayEnd]).foldlM
            State.step (.value (.array [] :: frames)) := by
        rw [hfirst, List.append_assoc, foldlM_firstItem]
      _ = [Token.arrayEnd].foldlM State.step (.afterItem frames (item :: items).reverse) := by
        rw [List.foldlM_append, foldlM_items h [], List.append_nil]
        rfl
      _ = some (State.complete frames (.array (item :: items).reverse.reverse)) := rfl
      _ = some (State.complete frames (.array (item :: items))) := by rw [List.reverse_reverse]

theorem rebuilds_object {members : List (String × Json)} (h : ∀ m ∈ members, m.2.Rebuilds) :
    (object members).Rebuilds := by
  intro frames
  rcases members with _ | ⟨m, members⟩
  · rfl
  · calc (Json.object (m :: members)).tokens.foldlM State.step (.value frames)
        = ([Token.comma].intercalate (memberTokens (m :: members)) ++ [Token.objectEnd]).foldlM
            State.step (.nextKey frames (some [])) := by rcases members with _ | _ <;> rfl
      _ = [Token.objectEnd].foldlM State.step
            (.afterMember frames (some (m :: members).reverse)) := by
        rw [List.foldlM_append, foldlM_members h [], List.append_nil]
        rfl
      _ = some (State.complete frames (.object (m :: members).reverse.reverse)) := rfl
      _ = some (State.complete frames (.object (m :: members))) := by rw [List.reverse_reverse]

theorem Spells.rebuilds {cs : List Char} {j : Json} (h : Spells cs j) : j.Rebuilds := by
  induction h with
  | null | true | false | natural n | numeral _ _ | string _ => exact fun _ ↦ rfl
  | array _ items _ ih => exact rebuilds_array (List.forall_mem_map.mpr ih)
  | object _ members _ _ _ ihvalues => exact rebuilds_object (List.forall_mem_map.mpr ihvalues)
  | blank _ _ _ ih => exact ih

/-! ## Reading a text -/

/-- **Standard texts are read.** From every text that stands for a value the value is read, however
it is spelled. -/
theorem parse?_of_spells {text : String} {j : Json} (h : Spells text.toList j) :
    parse? text = some j := by
  have hcuts := h.cuts [] (by rintro _ ⟨⟩)
  have hnil : scan [] = some [] := by rw [scan]
  rw [List.append_nil, hnil, Option.map_some, List.append_nil] at hcuts
  have hdone : j.tokens.foldlM State.step (.value []) = some (.done j) := h.rebuilds []
  rw [parse?, hcuts, Option.bind_eq_bind, Option.bind_some, hdone]
  rfl

end BasicComputer.Json
