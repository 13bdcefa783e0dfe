import BasicComputer.Proofs.Acceptance
import BasicComputer.Proofs.Moving
import BasicComputer.Proofs.Reading

/-!
# One line further down

A line put in front of a source text moves all its lines down by one. Every stage of assembly keeps
line numbers, for its messages, but only asks whether two of them are equal. So each stage gives for
the moved text what it gives for the text itself, moved: errors are the same in the same order, and
words and addresses do not change at all.

A move of tokens is enough once there are tokens. The lexer is in front of that, so lines of code
and lexemes are moved by functions of their own, for this move alone. To add one keeps different
numbers different and the order as it was, so that kinds and groups stay what they are, which is
more than an arbitrary move gives.
-/

namespace BasicComputer

/-! ## Moving -/

/-- One line further down, with everything else where it is. -/
def oneDown : Moving := ⟨(· + 1), id, id⟩

def CodeLine.down (l : CodeLine) : CodeLine := { l with number := l.number + 1 }

def LexError.down (e : LexError) : LexError := { e with line := e.line + 1 }

def Lexeme.down (x : Lexeme) : Lexeme := { x with line := x.line + 1 }

abbrev Token.down (t : Token) : Token := t.moved oneDown

abbrev SyntaxError.down (e : SyntaxError) : SyntaxError := e.moved oneDown

abbrev Statement.down (s : Statement) : Statement := s.moved oneDown

abbrev Line.down (l : Line) : Line := l.moved oneDown

abbrev Instruction.down (i : Instruction) : Instruction := i.moved oneDown

/-- A program whose source stands one line further down. -/
abbrev Program.down (p : Program) : Program := p.moved oneDown

/-! ## Tokens -/

theorem CodeLine.error?_down (l : CodeLine) : l.down.error? = l.error?.map LexError.down := by
  rw [error?, error?, Option.map_map]
  rfl

theorem CodeLine.lexemes_down (l : CodeLine) : l.down.lexemes = l.lexemes.map Lexeme.down := by
  rw [lexemes, lexemes, List.map_map]
  rfl

namespace Token

theorem kindOf_down (p : Token) (x : Lexeme) : kindOf (some p.down) x.down = kindOf (some p) x := by
  have hline : p.down.line = x.down.line ↔ p.line = x.line := Nat.succ_inj
  simp only [kindOf, hline]
  rfl

theorem classify_down (p : Token) (xs : List Lexeme) :
    classify (some p.down) (xs.map Lexeme.down) = (classify (some p) xs).map down := by
  induction xs generalizing p with
  | nil => rfl
  | cons x xs ih =>
    rw [List.map_cons, classify, classify, kindOf_down, List.map_cons]
    exact congrArg _ (ih ⟨x, kindOf (some p) x⟩)

theorem isEnd_down (t : Token) : t.down.isEnd = t.isEnd := rfl

end Token

/-! ## Lines -/

theorem groupByLine_down (tokens : List Token) :
    groupByLine (tokens.map Token.down) =
      (groupByLine tokens).map fun g ↦ (g.1.down, g.2.map Token.down) := by
  induction tokens with
  | nil => rfl
  | cons t ts ih =>
    rw [List.map_cons]
    rcases hgroups : groupByLine ts with _ | ⟨⟨u, us⟩, groups⟩
    · rw [hgroups] at ih
      rw [groupByLine_cons_of_nil t hgroups, groupByLine_cons_of_nil t.down ih]
      rfl
    · rw [hgroups] at ih
      have hline : t.down.line = u.down.line ↔ t.line = u.line := Nat.succ_inj
      by_cases h : t.line = u.line
      · rw [groupByLine_cons_of_eq hgroups h, groupByLine_cons_of_eq ih (hline.mpr h)]
        rfl
      · rw [groupByLine_cons_of_ne hgroups h,
          groupByLine_cons_of_ne ih fun h' ↦ h (hline.mp h')]
        rfl

/-- Moved tokens are read as the lines of the tokens themselves, moved. -/
theorem parse_down (tokens : List Token) :
    parse (tokens.map Token.down) =
      ((parse tokens).map (·.map Line.down)).mapError SyntaxError.down := by
  rw [parse, parse, groupByLine_down]
  exact mapM_read_moved oneDown (groupByLine tokens)

/-! ## Room and numbers -/

section Acceptable

variable (m : Moving) {l : Line} {lines : List Line}

theorem Line.numbers_moved :
    (∀ radix value, (l.moved m).statement = .datum radix value →
        radix.InRange value.text.toList) ↔
      ∀ radix value, l.statement = .datum radix value → radix.InRange value.text.toList := by
  rw [← literalFault?_eq_none_iff, ← literalFault?_eq_none_iff, literalFault?, literalFault?, moved]
  cases l.statement with
  | datum radix value =>
    rw [Statement.moved]
    dsimp only
    -- the errors are different, but there is one in both cases or in none
    rw [ite_eq_left_iff, ite_eq_left_iff]
    exact imp_congr_right fun _ ↦ iff_of_false (Option.some_ne_none _) (Option.some_ne_none _)
  | memory _ _ _ | register _ | io _ | origin _ | finish => rfl

theorem length_segment_moved (lines : List Line) :
    (segment (lines.map (Line.moved m))).length = (segment lines).length :=
  length_segment_map (fun l ↦ l.statement.emits_moved m) lines

theorem fitsOrigins_moved : FitsOrigins (lines.map (Line.moved m)) ↔ FitsOrigins lines :=
  fitsOrigins_map (fun l ↦ l.statement.emits_moved m) (Line.origin?_moved m)

end Acceptable

end BasicComputer
