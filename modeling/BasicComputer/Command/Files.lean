/-!
# Files

How a path leads to the text of a source file, and why it may lead nowhere.

A path is a list of steps, divided by slashes, and each step is taken from the folder that the ones
before it led to. A folder can be walked through and a file cannot, so every step that follows a
file fails, even the empty one behind a closing slash. The steps are taken one by one: a missing
folder is not passed over because a later step would leave it again.

## Why files are modelled

Two spellings of a path may name one file, and the reason why there is none at the end of a path is
part of what the program prints. Both depend on the steps that a path takes. The folders of a system
are therefore an argument, and reading a file is a function of them.
-/

namespace BasicComputer.Command

/-! ## What can be wrong -/

/-- Why a source file cannot be read. -/
inductive ReadError
  /-- The system refuses. -/
  | refused (reason : String) (code : Nat)
  /-- What the file holds is not text. -/
  | notText
  deriving DecidableEq, Repr

namespace ReadError

def message : ReadError → String
  | refused reason code => s!"{reason} (os error {code})"
  | notText => "stream did not contain valid UTF-8"

def missing : ReadError := refused "No such file or directory" 2

/-- A file stands where a folder should. -/
def notFolder : ReadError := refused "Not a directory" 20

def isFolder : ReadError := refused "Is a directory" 21

/-- No file can have that name. -/
def nameTooLong : ReadError := refused "File name too long" 36

/-- The refusal that has a given code. The reason of one that is none of the above is `reason`. -/
def ofCode (code : Nat) (reason : String) : ReadError :=
  match code with
  | 2 => missing
  | 20 => notFolder
  | 21 => isFolder
  | 36 => nameTooLong
  | _ => refused reason code

end ReadError

/-- The text in UTF-8 that a file holds. -/
def sourceText (content : ByteArray) : Except ReadError String :=
  match String.fromUTF8? content with
  | some text => .ok text
  | none => .error .notText

/-! ## Steps -/

/-- The steps of a path, in order: what stands between its slashes. -/
def pathSteps (path : List Char) : List (List Char) :=
  path.foldr (fun c steps ↦
    match c, steps with
    | '/', steps => [] :: steps
    | c, [] => [[c]]
    | c, s :: steps => (c :: s) :: steps) [[]]

/-- What a folder holds under a name. -/
inductive Stored
  | folder
  | file (content : ByteArray)

/-- The folders of a system. One is identified by the names that lead to it from the topmost. -/
structure FileSystem where
  /-- What the folder at a location holds under a name. -/
  stored? : List String → String → Option Stored

/-- Where the steps of a path have led so far. -/
inductive Spot
  | folder (location : List String)
  | file (content : ByteArray)

namespace FileSystem

/-- The most bytes a name can have. -/
def maxNameSize : Nat := 255

/-- The most bytes a path can have. -/
def maxPathSize : Nat := 4095

/-- Take one step. An empty one leads nowhere else, like a dot; two dots lead to the folder above,
and the topmost is above itself. -/
def enter (fs : FileSystem) : Spot → String → Except ReadError Spot
  | .file _, _ => .error .notFolder
  | .folder here, name =>
    if name = "" ∨ name = "." then .ok (.folder here)
    else if name = ".." then .ok (.folder here.dropLast)
    else if maxNameSize < name.utf8ByteSize then .error .nameTooLong
    else
      match fs.stored? here name with
      | none => .error .missing
      | some .folder => .ok (.folder (here ++ [name]))
      | some (.file content) => .ok (.file content)

/-- Take the steps of a path that starts at the folder `working`, or at the topmost one if a slash
leads it. -/
def follow (fs : FileSystem) (working : List String) (path : String) : Except ReadError Spot :=
  let start : Spot := if path.toList.head? = some '/' then .folder [] else .folder working
  ((pathSteps path.toList).map String.ofList).foldlM fs.enter start

/-- The text that a path leads to from the folder `working`. -/
def read (fs : FileSystem) (working : List String) (path : String) : Except ReadError String :=
  if path = "" then .error .missing
  else if maxPathSize < path.utf8ByteSize then .error .nameTooLong
  else
    match fs.follow working path with
    | .error e => .error e
    | .ok (.folder _) => .error .isFolder
    | .ok (.file content) => sourceText content

end FileSystem

end BasicComputer.Command
