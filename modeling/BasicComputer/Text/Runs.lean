/-!
# Lines and runs

A text falls into lines, and a line into runs: the longest stretches of characters that satisfy some
property. A run keeps the column of its first character, since every complaint about a source text
names a place in it.

Runs are put together from the end of the text, one character at a time. A character needs to know
no more than where the next run starts: it joins that run if it stands right in front of it. A
column says as much, so no run has to be kept open.
-/

namespace BasicComputer.Text

/-- The lines of a text. A line ends at its newline, so a newline at the very end of the text starts
no further line. -/
def lines (cs : List Char) : List (List Char) :=
  cs.foldr (fun c ls ↦
    if c = '\n' then [] :: ls
    else
      match ls with
      | [] => [[c]]
      | l :: ls => (c :: l) :: ls) []

/-- A stretch of characters and the column of the first of them. -/
structure Run where
  column : Nat
  chars : List Char
  deriving DecidableEq, Repr

/-- Put a character at `column` in front of later runs: it joins the run that starts right after it,
or else stands alone. -/
def Run.cons (column : Nat) (c : Char) : List Run → List Run
  | [] => [⟨column, [c]⟩]
  | r :: rs =>
    if r.column = column + 1 then ⟨column, c :: r.chars⟩ :: rs else ⟨column, [c]⟩ :: r :: rs

/-- The longest runs of characters satisfying `p`, for a text that starts at `column`. -/
def runsFrom (p : Char → Bool) (column : Nat) : List Char → List Run
  | [] => []
  | c :: cs =>
    if p c then Run.cons column c (runsFrom p (column + 1) cs) else runsFrom p (column + 1) cs

/-- The longest runs of characters satisfying `p`, columns counted from one. -/
def runs (p : Char → Bool) (cs : List Char) : List Run := runsFrom p 1 cs

end BasicComputer.Text
