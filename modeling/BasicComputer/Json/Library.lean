import BasicComputer.Json.Reader

/-!
# Libraries for JSON

A program does not write JSON itself. It leaves to a library how the values of its types become JSON
values, how these become texts, and the same the other way round. A library is therefore a structure
of functions here, and what is relied on is a structure of assumptions about them.

## What is assumed

Each assumption is about one kind of value: what number a word becomes, that a list becomes an
array, between which brackets the items of an array are written. None speaks of two kinds of values,
of whole texts that are written, or of reading what has been written. The one assumption about texts
as a whole is that standard JSON is accepted, whoever wrote it.

Values of records are put under fixed names. Reading looks for the names and does not care for their
order, but each name must be there once.

## What is left open

The white space of either style is left open, and so is how strings are escaped, as long as they are
strings. Nothing is assumed on values of a wrong kind, and nothing on texts that are no JSON. Texts
with a great depth may be refused.

At the end there is a library, the one that this program runs with.
-/

namespace BasicComputer.Json

/-- How the values of a type become JSON values, and JSON values become values of the type. -/
structure Codec (α : Type) where
  toJson : α → Json
  ofJson? : Json → Option α

/-- The forms a text may have. -/
inductive Style
  | compact | indented
  deriving DecidableEq, Repr

/-- What a program asks of a library. -/
structure Library where
  bool : Codec Bool
  bits (width : Nat) : Codec (BitVec width)
  list {α : Type} (item : Codec α) : Codec (List α)
  /-- Values under given names. -/
  record (names : List String) : Codec (List Json)
  /-- The text of a value inside of so many arrays and objects. -/
  write (style : Style) (depth : Nat) (j : Json) : List Char
  /-- The text of a value, if it can be written. -/
  text? (style : Style) (j : Json) : Option String
  /-- The value of a type that a text stands for. -/
  parse? {α : Type} (codec : Codec α) (text : String) : Option α

/-- Values of the kinds that are written: truth values, natural numbers, strings, and what is made
up of these. -/
inductive Writable : Json → Prop
  | bool (b : Bool) : Writable (bool b)
  | natural (n : Nat) : Writable (natural n)
  | string (s : String) : Writable (string s)
  | array {items : List Json} (h : ∀ j ∈ items, Writable j) : Writable (array items)
  | object {members : List (String × Json)} (h : ∀ m ∈ members, Writable m.2) :
      Writable (object members)

/-- How deep arrays and objects may lie inside of one another for a text to be read. -/
def nestingLimit : Nat := 127

/-- What a program relies on. -/
structure Library.Standard (lib : Library) : Prop where
  toJson_bool (b : Bool) : lib.bool.toJson b = .bool b
  ofJson?_bool (b : Bool) : lib.bool.ofJson? (.bool b) = some b
  toJson_bits {width : Nat} (b : BitVec width) : (lib.bits width).toJson b = .natural b.toNat
  ofJson?_bits {width : Nat} (b : BitVec width) :
    (lib.bits width).ofJson? (.natural b.toNat) = some b
  toJson_list {α : Type} (item : Codec α) (xs : List α) :
    (lib.list item).toJson xs = .array (xs.map item.toJson)
  ofJson?_list {α : Type} (item : Codec α) (js : List Json) :
    (lib.list item).ofJson? (.array js) = js.mapM item.ofJson?
  /-- The members are in the order of the names. -/
  toJson_record {names : List String} {values : List Json} (h : names.length = values.length) :
    (lib.record names).toJson values = .object (names.zip values)
  /-- The members may be in any order, and others may stand between them. -/
  ofJson?_record {names : List String} {values : List Json} {members : List (String × Json)}
    (hnames : names.Nodup) (h : names.length = values.length)
    (hmembers : ∀ m ∈ names.zip values, members.filter (·.1 == m.1) = [m]) :
    (lib.record names).ofJson? (.object members) = some values
  write_bool (style : Style) (depth : Nat) (b : Bool) :
    lib.write style depth (.bool b) = (if b then "true" else "false").toList
  write_natural (style : Style) (depth n : Nat) :
    lib.write style depth (.natural n) = Nat.toDigits 10 n
  write_string (style : Style) (depth : Nat) (s : String) :
    Spells (lib.write style depth (.string s)) (.string s)
  write_array (style : Style) (depth : Nat) (items : List Json) :
    ∃ before after : List Char, before.all isSpace ∧ after.all isSpace ∧
      lib.write style depth (.array items) =
        '[' :: [','].intercalate (items.map (before ++ lib.write style (depth + 1) ·))
          ++ after ++ [']']
  write_object (style : Style) (depth : Nat) (members : List (String × Json)) :
    ∃ before gap after : List Char, before.all isSpace ∧ gap.all isSpace ∧ after.all isSpace ∧
      lib.write style depth (.object members) =
        '\x7b' :: [','].intercalate (members.map fun m ↦
            before ++ lib.write style (depth + 1) (.string m.1)
              ++ ':' :: gap ++ lib.write style (depth + 1) m.2)
          ++ after ++ ['\x7d']
  text?_eq {j : Json} (h : Writable j) (style : Style) :
    lib.text? style j = some (String.ofList (lib.write style 0 j))
  /-- Every standard text is read, with what the type makes of its value. -/
  parse?_eq {α : Type} {codec : Codec α} {text : String} {j : Json} {a : α}
    (htext : Spells text.toList j) (hnests : NestsWithin nestingLimit j)
    (ha : codec.ofJson? j = some a) : lib.parse? codec text = some a

/-! ## The library in use -/

/-- The white space of a style. -/
def Style.layout : Style → Layout
  | compact => Json.compact
  | indented => Json.indented

/-- The values under given names in a list of members. A name may not be missing or repeated. -/
def ofMembers? (names : List String) (members : List (String × Json)) : Option (List Json) :=
  if names.all fun name ↦ members.countP (·.1 == name) ≤ 1 then
    names.mapM fun name ↦ (object members).member? name
  else none

/-- Values under given names, or in an array with as many items. -/
def recordCodec (names : List String) : Codec (List Json) where
  toJson values := object (names.zip values)
  ofJson?
    | object members => ofMembers? names members
    | array items => if items.length = names.length then some items else none
    | _ => none

/-- The library that this program runs with. -/
def library : Library where
  bool := ⟨bool, bool?⟩
  bits width := ⟨fun b ↦ natural b.toNat, bits? width⟩
  list item := ⟨fun xs ↦ array (xs.map item.toJson), array? item.ofJson?⟩
  record := recordCodec
  write style depth j := write style.layout depth j
  text? style j := some (j.text style.layout)
  parse? codec text := do codec.ofJson? (← Json.parse? text)

end BasicComputer.Json
