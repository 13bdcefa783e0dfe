import BasicComputer.Json.Grammar

/-!
# Reading JSON

A text is first cut into tokens, with white space gone; then the tokens are read one by one, with
the arrays and objects not yet closed kept on a stack. Each token is looked at once and every step
is decided by the token and by what may stand there, so reading ends with the text.

## Why two stages

Strings and numbers are the only parts with a text of their own, and white space means nothing
outside of strings. With both out of the way, what is left is a language of seven tokens with one
stack. Reading recurses over the text and over the list of tokens, never over the depth of a value.

The halves of a character are joined between the stages. A half alone spoils the string that it is
in, and a key that is spoiled spoils its object, but neither keeps a text from being read.
-/

namespace BasicComputer.Json

/-! ## Tokens -/

inductive Token
  | arrayStart | arrayEnd | objectStart | objectEnd | colon | comma
  /-- A value without parts. -/
  | scalar (value : Json)

/-- The token that one character makes. -/
def mark? : Char → Option Token
  | '[' => some .arrayStart
  | ']' => some .arrayEnd
  | '\x7b' => some .objectStart
  | '\x7d' => some .objectEnd
  | ':' => some .colon
  | ',' => some .comma
  | _ => none

/-- What is written in a string at a time: a character, or one half of a character by its number. -/
inductive Piece
  | char (c : Char)
  | half (n : Nat)

def Piece.ofCode (n : Nat) : Piece :=
  if n < 0xD800 ∨ 0xDFFF < n then char (Char.ofNat n) else half n

/-- The characters that pieces make up, if every half is next to its other half. -/
def join? : List Piece → Option (List Char)
  | [] => some []
  | .char c :: ps => (join? ps).map (c :: ·)
  | .half high :: .half low :: ps =>
    if high < 0xDC00 ∧ 0xDC00 ≤ low then
      (join? ps).map (Char.ofNat (0x10000 + 0x400 * (high - 0xD800) + (low - 0xDC00)) :: ·)
    else none
  | .half _ :: _ => none

/-- The pieces of a string up to its closing quote, and the text behind it. -/
def scanString : List Char → Option (List Piece × List Char)
  | [] => none
  | '"' :: cs => some ([], cs)
  | '\\' :: 'u' :: a :: b :: c :: d :: cs =>
    match codeUnit? a b c d with
    | none => none
    | some n => (scanString cs).map fun r ↦ (.ofCode n :: r.1, r.2)
  | '\\' :: c :: cs =>
    match unescape? c with
    | none => none
    | some e => (scanString cs).map fun r ↦ (.char e :: r.1, r.2)
  | c :: cs =>
    if c.toNat < 0x20 then none else (scanString cs).map fun r ↦ (.char c :: r.1, r.2)

/-- The value of a string with given pieces. -/
def stringOf (ps : List Piece) : Json :=
  match join? ps with
  | some s => string (String.ofList s)
  | none => garbled

/-- The value that a word stands for. -/
def scalar? (cs : List Char) : Option Json :=
  if isWhole cs then some (.natural (Numeral.value 10 cs))
  else if isNumeral cs then some (.numeral (String.ofList cs))
  else if cs = "null".toList then some .null
  else if cs = "true".toList then some (.bool true)
  else if cs = "false".toList then some (.bool false)
  else none

/-- The characters that numbers and the names of constants are made of. -/
def isScalarChar (c : Char) : Bool := c.isAlphanum || c == '-' || c == '+' || c == '.'

theorem length_scanString_lt {cs : List Char} {r : List Piece × List Char}
    (h : scanString cs = some r) : r.2.length < cs.length := by
  fun_induction scanString cs generalizing r <;> simp_all <;> grind

def scan : List Char → Option (List Token)
  | [] => some []
  | c :: cs =>
    if isSpace c then scan cs
    else
      match mark? c with
      | some t => (scan cs).map (t :: ·)
      | none =>
        if c = '"' then
          match _h : scanString cs with
          | none => none
          | some (ps, rest) => (scan rest).map (.scalar (stringOf ps) :: ·)
        else
          match scalar? (c :: cs.takeWhile isScalarChar) with
          | none => none
          | some j => (scan (cs.dropWhile isScalarChar)).map (.scalar j :: ·)
termination_by cs => cs.length
decreasing_by
  · simp
  · simp
  · have := length_scanString_lt ‹_›
    simp at this ⊢
    omega
  · have := (List.dropWhile_sublist isScalarChar (l := cs)).length_le
    simp
    omega

/-! ## Values -/

/-- An array or object not yet closed, with what it holds so far, the latest first. -/
inductive Frame
  | array (items : List Json)
  /-- The value of the member with this key comes next. There is no key if it is garbled, and no
  members if one of theirs was. -/
  | object (members : Option (List (String × Json))) (key : Option String)

/-- What may come next, inside of which open arrays and objects, the innermost first. -/
inductive State
  /-- A value. -/
  | value (frames : List Frame)
  /-- The first item of an array, or its end. -/
  | firstItem (frames : List Frame)
  /-- A comma or the end of the array with these items. -/
  | afterItem (frames : List Frame) (items : List Json)
  /-- The first key of an object, or its end. -/
  | firstKey (frames : List Frame)
  /-- A further key. -/
  | nextKey (frames : List Frame) (members : Option (List (String × Json)))
  /-- The colon behind a key. -/
  | colon (frames : List Frame) (members : Option (List (String × Json))) (key : Option String)
  /-- A comma or the end of the object with these members. -/
  | afterMember (frames : List Frame) (members : Option (List (String × Json)))
  /-- Nothing. -/
  | done (value : Json)

namespace State

def complete (frames : List Frame) (value : Json) : State :=
  match frames with
  | [] => .done value
  | .array items :: frames => .afterItem frames (value :: items)
  | .object members key :: frames => .afterMember frames do return (← key, value) :: (← members)

def start (frames : List Frame) : Token → Option State
  | .scalar j => some (complete frames j)
  | .arrayStart => some (.firstItem frames)
  | .objectStart => some (.firstKey frames)
  | _ => none

def step : State → Token → Option State
  | value frames, t => start frames t
  | firstItem frames, .arrayEnd => some (complete frames (.array []))
  | firstItem frames, t => start (.array [] :: frames) t
  | afterItem frames items, .comma => some (value (.array items :: frames))
  | afterItem frames items, .arrayEnd => some (complete frames (.array items.reverse))
  | firstKey frames, .objectEnd => some (complete frames (.object []))
  | firstKey frames, .scalar (.string key) => some (colon frames (some []) (some key))
  | firstKey frames, .scalar .garbled => some (colon frames (some []) none)
  | nextKey frames members, .scalar (.string key) => some (colon frames members (some key))
  | nextKey frames members, .scalar .garbled => some (colon frames members none)
  | colon frames members key, .colon => some (value (.object members key :: frames))
  | afterMember frames members, .comma => some (nextKey frames members)
  | afterMember frames (some members), .objectEnd =>
    some (complete frames (.object members.reverse))
  | afterMember frames none, .objectEnd => some (complete frames .garbled)
  | _, _ => none

/-- The value, if reading is over. -/
def result? : State → Option Json
  | done j => some j
  | _ => none

end State

def parse? (text : String) : Option Json := do
  let tokens ← scan text.toList
  (← tokens.foldlM State.step (.value [])).result?

end BasicComputer.Json
