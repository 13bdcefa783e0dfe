/-!
# JSON values

The values that machine states are exchanged as, and their text. A number is kept as a natural
number where it is written as one, and otherwise as it is written: the two are never mistaken for
each other, so `1` and `1.0` differ.

One printer serves both the compact text and the indented one. They differ only in the white space
between tokens, which a `Layout` supplies.

## Members as a list

Members keep their order and may repeat a key, as in a text. What to make of a key that is there
twice is for the reader of a record to decide, who would not know of it any more if members were a
function from keys.

## Half a character

An escape may write one half of a character where the other half is missing. No string holds that,
so what it is in is kept as a value of its own, which is of no type. Where nobody asks for the value
it does no harm.
-/

namespace BasicComputer

/-- A JSON value. The members of an object are in the order they are written in. -/
inductive Json
  | null
  | bool (b : Bool)
  /-- A number written with digits alone. -/
  | natural (n : Nat)
  /-- Any other number, as written. -/
  | numeral (text : String)
  | string (s : String)
  /-- A string with half a character in it, or an object with such a key. -/
  | garbled
  | array (items : List Json)
  | object (members : List (String × Json))
  deriving Inhabited

namespace Json

/-! ## Access -/

/-- The member of an object with a given key; of several, the last. -/
def member? (key : String) : Json → Option Json
  | object members => members.reverse.lookup key
  | _ => none

def bits? (width : Nat) : Json → Option (BitVec width)
  | natural n => if (BitVec.ofNat width n).toNat = n then some (.ofNat width n) else none
  | _ => none

def bool? : Json → Option Bool
  | bool b => some b
  | _ => none

def array? {α : Type} (f : Json → Option α) : Json → Option (List α)
  | array items => items.mapM f
  | _ => none

/-! ## Printing -/

/-- White space between tokens. -/
structure Layout where
  /-- Before an item at a given depth, and before the bracket that closes one. -/
  lineBreak : Nat → List Char
  /-- Between the colon behind a key and the value. -/
  gap : List Char

/-- No white space at all. -/
def compact : Layout := ⟨fun _ ↦ [], []⟩

/-- Every item on a line of its own, two spaces deeper than what encloses it. -/
def indented : Layout := ⟨fun depth ↦ '\n' :: List.replicate (2 * depth) ' ', [' ']⟩

/-- A character as it is written inside a string. -/
def escape (c : Char) : List Char :=
  match c with
  | '"' => ['\\', '"']
  | '\\' => ['\\', '\\']
  | '\x08' => ['\\', 'b']
  | '\t' => ['\\', 't']
  | '\n' => ['\\', 'n']
  | '\x0c' => ['\\', 'f']
  | '\r' => ['\\', 'r']
  | c =>
    if c.toNat < 0x20 then
      ['\\', 'u', '0', '0', Nat.digitChar (c.toNat / 16), Nat.digitChar (c.toNat % 16)]
    else [c]

def writeString (s : String) : List Char := '"' :: s.toList.flatMap escape ++ ['"']

/-- Written items between brackets. -/
def enclose (l : Layout) (depth : Nat) (left right : Char) (items : List (List Char)) : List Char :=
  if items.isEmpty then [left, right]
  else
    left :: [','].intercalate (items.map (l.lineBreak (depth + 1) ++ ·))
      ++ l.lineBreak depth ++ [right]

mutual

/-- The text of a value at a given depth. -/
def write (l : Layout) (depth : Nat) : Json → List Char
  | null => "null".toList
  | bool true => "true".toList
  | bool false => "false".toList
  | natural n => Nat.toDigits 10 n
  | numeral text => text.toList
  | string s => writeString s
  | garbled => "\"\\ud800\"".toList
  | array items => enclose l depth '[' ']' (writeItems l (depth + 1) items)
  | object members => enclose l depth '\x7b' '\x7d' (writeMembers l (depth + 1) members)

/-- The texts of the items of an array. -/
def writeItems (l : Layout) (depth : Nat) : List Json → List (List Char)
  | [] => []
  | item :: items => write l depth item :: writeItems l depth items

/-- The texts of the members of an object. -/
def writeMembers (l : Layout) (depth : Nat) : List (String × Json) → List (List Char)
  | [] => []
  | (key, value) :: members =>
    (writeString key ++ ':' :: l.gap ++ write l depth value) :: writeMembers l depth members

end

def text (l : Layout) (j : Json) : String := String.ofList (write l 0 j)

end Json

end BasicComputer
