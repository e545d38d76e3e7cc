import CedarSchema.Command.Execution

/-
  Runs in a directory that holds files and no other directory. A path is followed step by step: the
  steps are what stands between its slashes, a dot or nothing stays where it is, two dots go up, and
  from a file there is no way on. Of the directories above nothing is known but that they are there.
  A run reads one file and changes no other.
-/

namespace CedarSchema

/-- The content of each file, under its name. -/
abbrev Directory := Dict String ByteArray

/-- Why a path leads to nothing that can be read. -/
inductive Unreachable
  | missing | notDirectory | isDirectory | nameTooLong
  deriving DecidableEq, Repr

/-- The reason as the system words it. -/
def Unreachable.reason : Unreachable → String
  | missing => "No such file or directory (os error 2)"
  | notDirectory => "Not a directory (os error 20)"
  | isDirectory => "Is a directory (os error 21)"
  | nameTooLong => "File name too long (os error 36)"

/-- Where a path has led so far. -/
inductive Place
  /-- The directory of the run. -/
  | here
  | above
  | file (name : String)
  deriving DecidableEq, Repr

/-- The parts of a path between its slashes, empty parts included. -/
def pathSteps : List Char → List (List Char)
  | [] => [[]]
  | '/' :: cs => [] :: pathSteps cs
  | c :: cs =>
    match pathSteps cs with
    | step :: steps => (c :: step) :: steps
    | [] => [[c]]

namespace Directory

/-- The place to which a name leads. A name has at most 255 bytes. -/
def enter (d : Directory) (place : Place) (name : String) : Except Unreachable Place :=
  if 255 < name.utf8ByteSize then .error .nameTooLong
  else if place = .here ∧ (d.find? name).isSome then .ok (.file name)
  else .error .missing

/-- The place to which one step leads. -/
def step (d : Directory) (place : Place) (part : List Char) : Except Unreachable Place :=
  match place, part with
  | .file _, _ => .error .notDirectory
  | place, [] => .ok place
  | place, ['.'] => .ok place
  | _, ['.', '.'] => .ok .above
  | place, name => d.enter place (String.ofList name)

/-- The file to which a path leads. A path has less than 4096 bytes. -/
def locate (d : Directory) (path : String) : Except Unreachable String := do
  if 4096 ≤ path.utf8ByteSize then throw .nameTooLong
  let start : Place := if path.toList.head? = some '/' then .above else .here
  match ← (pathSteps path.toList).foldlM d.step start with
  | .file name => return name
  | _ => throw .isDirectory

/-- The content of the file to which a path leads. -/
def content (d : Directory) (path : String) : Content :=
  match d.locate path with
  | .ok name =>
    match d.find? name with
    | some bytes => .ok bytes
    | none => .error Unreachable.missing.reason
  | .error e => .error e.reason

/-- The directory in which the file to which a path leads has got new content, if there is any. -/
def write (d : Directory) (path : String) (written : Option String) : Directory :=
  match d.locate path, written with
  | .ok name, some text => d.insert name text.toUTF8
  | _, _ => d

/-- What a command line shows in a directory, and the directory after it. -/
def run (d : Directory) (words : List String) : Outcome × Directory :=
  match Invocation.ofWords words with
  | .error r => (r.outcome, d)
  | .ok i =>
    let outcome := i.execute (d.content i.file)
    (outcome, d.write i.file outcome.written)

end Directory

end CedarSchema
