import CedarSchema.Command.Directory

/-
  The command line program.
-/

namespace CedarSchema

/-- The number of a failure, which the system gives with or without a sign. -/
def systemNumber (code : UInt32) : Nat :=
  if code.toNat < 2147483648 then code.toNat else 4294967296 - code.toNat

/-- The reason of a failure on disk. -/
def failureReason (e : IO.Error) : String :=
  let known (code : UInt32) : String :=
    match systemNumber code with
    | 2 => Unreachable.missing.reason
    | 13 => "Permission denied (os error 13)"
    | 20 => Unreachable.notDirectory.reason
    | 21 => Unreachable.isDirectory.reason
    | 36 => Unreachable.nameTooLong.reason
    | _ => toString e
  match e with
  | .noFileOrDirectory _ code _ => known code
  | .inappropriateType _ code _ => known code
  | .invalidArgument _ code _ => known code
  | .permissionDenied _ code _ => known code
  | _ => toString e

/-- The content of a file on disk. -/
def readContent (file : String) : IO Content := do
  try return .ok (← IO.FS.readBinFile file)
  catch e => return .error (failureReason e)

/-- Puts new content into the file. A file that cannot be written is one more failure. -/
def Invocation.finish (i : Invocation) (outcome : Outcome) : IO Outcome := do
  match outcome.written with
  | none => return outcome
  | some text =>
    try
      IO.FS.writeFile i.file text
      return outcome
    catch e =>
      return i.options.complaint ("error writing '" ++ i.file ++ "': " ++ failureReason e)

/-- Shows what a run shows, and gives its exit code. -/
def Outcome.emit (outcome : Outcome) : IO UInt32 := do
  (← IO.getStdout).putStr outcome.out
  (← IO.getStderr).putStr outcome.err
  return outcome.code.toUInt32

end CedarSchema

open CedarSchema in
/-- Runs the command that the words of the command line ask for, on the file on disk. -/
def main (args : List String) : IO UInt32 := do
  match Invocation.ofWords args with
  | .error r => r.outcome.emit
  | .ok i =>
    let content ← readContent i.file
    let outcome ← i.finish (i.execute content)
    outcome.emit
