import BasicComputer.Event
import BasicComputer.Text.Numeral

/-!
# Stamped entries

Where entries are shown as they come, each one follows the time of day it came at, down to the
millisecond.
-/

namespace BasicComputer

/-- A time of day. -/
structure TimeOfDay where
  hour : Nat
  minute : Nat
  second : Nat
  microsecond : Nat
  deriving DecidableEq, Repr

/-- A time as text. The microseconds within the last millisecond are dropped, not rounded. A leap
second is given as the second before it with a million microseconds more, and shown as the one
after that. -/
def TimeOfDay.text (t : TimeOfDay) : String :=
  let two := Numeral.decimal 2
  let second := t.second + t.microsecond / 1000000
  let millisecond := t.microsecond % 1000000 / 1000
  s!"{two t.hour}:{two t.minute}:{two second}.{Numeral.decimal 3 millisecond}"

/-- An entry as one line of text, behind the time it came at. -/
def Entry.stampedText (e : Entry) (t : TimeOfDay) : String := s!"{t.text} {e.text}"

end BasicComputer
