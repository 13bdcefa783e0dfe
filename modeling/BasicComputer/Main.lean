import BasicComputer.Command
import BasicComputer.Event.Stamp
import Std.Time

/-!
# The program

Reads the source file that the arguments name, works out the answer, and prints it. Lines that show
entries follow the time of day, and records follow date and time.
-/

namespace BasicComputer.Command

open Std.Time in
/-- The current local time. -/
def now : IO PlainDateTime := PlainDateTime.now

def timeOfDay (t : Std.Time.PlainDateTime) : TimeOfDay where
  hour := t.time.hour.val.toNat
  minute := t.time.minute.val.toNat
  second := t.time.second.val.toNat
  microsecond := t.time.nanosecond.val.toNat / 1000

/-- A moment as records show it. -/
def recordStamp (t : Std.Time.PlainDateTime) : String :=
  let two (n : Nat) := Numeral.decimal 2 n
  let time := timeOfDay t
  s!"[{Numeral.decimal 4 t.date.year.toInt.toNat}-{two t.date.month.val.toNat}-"
    ++ s!"{two t.date.day.val.toNat}][{two time.hour}:{two time.minute}:{two time.second}]"

/-- What the system means when it refuses a file. A code may come with its sign turned. -/
def refusal (code : UInt32) (reason : String) : ReadError :=
  .ofCode (if code < 0x80000000 then code else 0 - code).toNat reason.capitalize

/-- The text of a source file. -/
def readSource (path : String) : IO (Except ReadError String) := do
  try
    return sourceText (← IO.FS.readBinFile path)
  catch
    | .noFileOrDirectory _ code reason | .inappropriateType _ code reason
    | .permissionDenied _ code reason | .invalidArgument _ code reason
    | .resourceExhausted _ code reason | .hardwareFault code reason | .otherError code reason =>
      return .error (refusal code reason)
    | e => throw e

def print (a : Answer) : IO UInt32 := do
  let stdout ← IO.getStdout
  let stderr ← IO.getStderr
  for line in a.output do
    match line with
    | .text s => stdout.putStrLn s
    | .trace e => stdout.putStrLn (e.stampedText (timeOfDay (← now)))
  for line in a.errors do
    match line with
    | .text s => stderr.putStrLn s
    | .record r => stderr.putStrLn (recordStamp (← now) ++ r.text)
  return a.exitCode.toUInt32

end BasicComputer.Command

open BasicComputer.Command in
/-- Arguments that make no sense are refused with exit code two. -/
def main (arguments : List String) : IO UInt32 := do
  match parse arguments with
  | none =>
    (← IO.getStderr).putStrLn "error: invalid arguments; use --help for available commands"
    return 2
  | some invocation =>
    let source ←
      match invocation.action.path? with
      | some path => readSource path
      | none => pure (.ok "")
    print (answer invocation source)
